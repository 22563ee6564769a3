import Freak.Utils.Atomic

/-! Every client that waits is answered, after as many steps of the routine as there is work left,
whichever request it receives first. -/
namespace Freak.Utils.Reqrep

/-- The routine's calls that succeed. -/
def Action.Succeeds {ι : Type} : Action ι → Prop
  | .recv _ | .send | .free => True
  | _ => False

/-- `nnm_rep_routine` has not left its loop. -/
def Server.Running {ι : Type} : Server ι → Prop
  | .ended | .exited _ => False
  | _ => True

/-- A request that the callback is still to be run for. -/
def State.Pending {ι : Type} (s : State ι) (q : Request ι) : Prop :=
  q ∈ s.inbox ∨ s.server = .callback q

/-- Four steps for a request on the way, and those of the round that is not over. -/
def State.work {ι : Type} (s : State ι) : Nat :=
  4 * s.inbox.length + match s.server with
    | .callback _ => 3
    | .send _ => 2
    | .free _ => 1
    | .recv | .ended | .exited _ => 0

section

variable {ι C σ : Type} [DecidableEq ι] (Handle : σ → C → List UInt8 → List UInt8 → σ → Prop)

/-- A step of the routine or its callback that does not fail. -/
inductive Works : Service ι C σ → Mark ι C → Service ι C σ → Prop
  | callback {s : Service ι C σ} {net : State ι} {q : Request ι} {out : List UInt8} {store : σ}
      (hq : s.net.server = .callback q) (hh : Handle s.store (s.made q.name) q.data out store)
      (h : Step s.net (.callback 0 out) net) :
      Works s (.ran q (s.made q.name) out) { s with net := net, store := store }
  | routine {s : Service ι C σ} {net : State ι} {a : Action ι} (ha : a.Succeeds)
      (h : Step s.net a net) : Works s .passed { s with net := net }

end

section

variable {ι C σ : Type} [DecidableEq ι] {Sends : C → List UInt8 → Prop}
  {Handle : σ → C → List UInt8 → List UInt8 → σ → Prop} {s t u : Service ι C σ} {m : Mark ι C}
  {ms ms' : List (Mark ι C)} {store : σ} {made : ι × Nat → C}

theorem serves_of_works (h : Works Handle s m t) : Serves Sends Handle s m t := by
  cases h with
  | callback hq hh h => exact .callback hq hh h
  | @routine _ a ha h =>
    refine .routine ?_ h
    cases a <;> trivial

theorem mtr_of_works (h : Lts.MTr (Works Handle) s ms t) :
    Lts.MTr (Serves Sends Handle) s ms t := by
  induction h with
  | refl => exact .refl
  | stepL h _ ih => exact .stepL (serves_of_works h) ih

/-- The routine asks for nothing itself. -/
theorem asked_notMem_of_works {q : Request ι} {c : C} (h : Lts.MTr (Works Handle) s ms t) :
    .asked q c ∉ ms := by
  induction h with
  | refl => exact List.not_mem_nil
  | stepL h _ ih =>
    intro hq
    rcases List.mem_cons.mp hq with rfl | hq
    · cases h
    · exact ih hq

/-- Every step is one less to do. -/
theorem work_step (h : Works Handle s m t) : s.net.work = t.net.work + 1 := by
  cases h with
  | callback hq _ h =>
    cases h with
    | callback hs => simp [State.work, hs, Round.next]
  | routine ha h =>
    cases h with
    | recv hs hq =>
      simp only [State.work, hs, hq, List.length_append, List.length_cons]
      omega
    | send hs => simp [State.work, hs]
    | free hs => simp [State.work, hs]
    | _ => cases ha

theorem work_run (h : Lts.MTr (Works Handle) s ms t) :
    s.net.work = t.net.work + ms.length := by
  induction h with
  | refl => rfl
  | stepL h _ ih =>
    have hstep := work_step h
    rw [List.length_cons]
    omega

/-- The connections' part of a run, in which the callback always succeeds. -/
theorem mtr_net (h : Lts.MTr (Serves Sends Handle) s ms t) :
    ∃ acts, Lts.MTr (Lts.Restrict Step (Returns (· = 0))) s.net acts t.net := by
  induction h with
  | refl => exact ⟨[], .refl⟩
  | stepL h _ ih =>
    obtain ⟨acts, hacts⟩ := ih
    cases h with
    | exchange _ h => exact ⟨_, .stepL ⟨h, trivial⟩ hacts⟩
    | resend _ h => exact ⟨_, .stepL ⟨h, trivial⟩ hacts⟩
    | callback _ _ h => exact ⟨_, .stepL ⟨h, rfl⟩ hacts⟩
    | back _ _ h => exact ⟨_, .stepL ⟨h, trivial⟩ hacts⟩
    | @routine _ a ha h =>
      refine ⟨_, .stepL ⟨h, ?_⟩ hacts⟩
      cases a <;> trivial

/-- A client waits only as long as there is work. -/
theorem work_of_blocked {i : ι} {q : Request ι}
    (h : Lts.MTr (Serves Sends Handle) ⟨start, store, made⟩ ms s) (hup : s.net.server.Running)
    (hq : s.net.client i = .blocked q) : 0 < s.net.work := by
  obtain ⟨acts, hacts⟩ := mtr_net h
  obtain ⟨rounds, hi, -⟩ := inv_run hacts
  rw [State.work]
  obtain hw | hw | ⟨r, hr, hrq⟩ := hi.waits i q hq
  · have hpos := List.length_pos_of_mem hw
    omega
  · cases hs : s.net.server with
    | recv | ended =>
      rw [hs] at hw
      cases hw
    | exited r =>
      rw [hs] at hup
      cases hup
    | callback | send | free =>
      simp only
      omega
  · have hmem := List.mem_append_left s.net.server.over hr
    exact absurd (hi.allowed r hmem) (hi.unanswered i q hq r hmem hrq)

/-- What the routine's steps lead to, as long as the callback leaves the state alone. -/
structure Toward (s t : Service ι C σ) : Prop where
  store : t.store = s.store
  made : t.made = s.made
  next : t.net.next = s.net.next
  running : t.net.server.Running
  pending : ∀ q, t.net.Pending q → s.net.Pending q
  waits : ∀ i q, s.net.client i = .blocked q →
    t.net.client i = .blocked q ∨ ∃ out, t.net.client i = .answered out

omit [DecidableEq ι] in
theorem toward_refl (hup : s.net.server.Running) : Toward s s :=
  ⟨rfl, rfl, rfl, hup, fun _ hq => hq, fun _ _ hq => .inl hq⟩

/-- The calls that are still to be run leave the state alone, and can be answered. -/
structure Servable (Handle : σ → C → List UInt8 → List UInt8 → σ → Prop) (s : Service ι C σ) :
    Prop where
  answers : ∀ q, s.net.Pending q → ∃ out, Handle s.store (s.made q.name) q.data out s.store
  keeps : ∀ q out store, s.net.Pending q →
    Handle s.store (s.made q.name) q.data out store → store = s.store

theorem toward_step (hc : Servable Handle s) (ht : Toward s t) (h : Works Handle t m u) :
    Toward s u := by
  cases h with
  | callback hq hh h =>
    have hstore := hc.keeps _ _ _ (ht.pending _ (.inr hq)) (ht.store ▸ ht.made ▸ hh)
    cases h with
    | callback hs =>
      refine ⟨hstore, ht.made, ht.next, trivial, ?_, ht.waits⟩
      rintro p (hp | hp)
      · exact ht.pending p (.inl hp)
      · cases hp
  | routine ha h =>
    cases h with
    | recv hs hq =>
      refine ⟨ht.store, ht.made, ht.next, trivial, ?_, ht.waits⟩
      rintro p (hp | hp)
      · refine ht.pending p (.inl ?_)
        rw [hq, List.mem_append, List.mem_cons]
        exact (List.mem_append.mp hp).imp_right .inr
      · obtain rfl := Server.callback.inj hp
        exact ht.pending _ (.inl (by simp [hq]))
    | @send r hs =>
      refine ⟨ht.store, ht.made, ht.next, trivial, ?_, ?_⟩
      · rintro p (hp | hp)
        · exact ht.pending p (.inl hp)
        · cases hp
      · intro i q hq
        by_cases hi : i = r.req.client
        · subst hi
          simp only [Function.update_self]
          obtain hb | ⟨out, hout⟩ := ht.waits _ q hq
          · rw [hb, Client.reply]
            split_ifs
            · exact .inr ⟨_, rfl⟩
            · exact .inl rfl
          · rw [hout]
            exact .inr ⟨out, rfl⟩
        · simp only [Function.update_of_ne hi]
          exact ht.waits i q hq
    | free hs =>
      refine ⟨ht.store, ht.made, ht.next, trivial, ?_, ht.waits⟩
      rintro p (hp | hp)
      · exact ht.pending p (.inl hp)
      · cases hp
    | _ => cases ha

theorem toward_run (hc : Servable Handle s) (ht : Toward s t)
    (h : Lts.MTr (Works Handle) t ms u) : Toward s u :=
  Lts.mtrInv_of_trInv (I := Toward s) (fun _ _ _ h ht => toward_step hc ht h) h ht

/-- While there is work the routine can go on. -/
theorem works_of_work (hc : Servable Handle s) (ht : Toward s t) (hwork : 0 < t.net.work) :
    ∃ m u, Works Handle t m u := by
  cases hs : t.net.server with
  | recv =>
    cases hq : t.net.inbox with
    | nil => simp [State.work, hs, hq] at hwork
    | cons q rest =>
      have hfirst : t.net.inbox = [] ++ q :: rest := hq
      exact ⟨_, _, .routine (a := .recv q) trivial (.recv hs hfirst)⟩
  | callback q =>
    obtain ⟨out, hh⟩ := hc.answers q (ht.pending q (.inr hs))
    rw [← ht.store, ← ht.made] at hh
    exact ⟨_, _, .callback hs hh (.callback hs)⟩
  | send r => exact ⟨_, _, .routine (a := .send) trivial (.send hs)⟩
  | free r => exact ⟨_, _, .routine (a := .free) trivial (.free hs)⟩
  | ended | exited r =>
    have hup := ht.running
    rw [hs] at hup
    cases hup

/-- It goes on until there is none. -/
theorem works_to_end (hc : Servable Handle s) (ht : Toward s t) :
    ∃ ms u, Lts.MTr (Works Handle) t ms u ∧ u.net.work = 0 := by
  obtain ⟨n, hn⟩ : ∃ n, t.net.work = n := ⟨_, rfl⟩
  induction n generalizing t with
  | zero => exact ⟨[], t, .refl, hn⟩
  | succ n ih =>
    obtain ⟨m, u, hstep⟩ := works_of_work hc ht (by omega)
    have hless := work_step hstep
    obtain ⟨ms, w, hrun, hw⟩ := ih (toward_step hc ht hstep) (by omega)
    exact ⟨m :: ms, w, .stepL hstep hrun, hw⟩

/-- However the routine goes on, it ends after the work that there was, and has answered every
client that waited, with what was put out for its own request. -/
theorem answered_of_works (hrun : Lts.MTr (Serves Sends Handle) ⟨start, store, made⟩ ms s)
    (hup : s.net.server.Running) (hc : Servable Handle s)
    (hworks : Lts.MTr (Works Handle) s ms' t) :
    ∃ ms'' u, Lts.MTr (Works Handle) t ms'' u ∧ (ms' ++ ms'').length = s.net.work ∧
      ∀ i q, s.net.client i = .blocked q → ∃ out, u.net.client i = .answered out ∧
        .ran q (s.made q.name) out ∈ ms ++ (ms' ++ ms'') := by
  have ht := toward_run hc (toward_refl hup) hworks
  obtain ⟨ms'', u, hrest, hidle⟩ := works_to_end hc ht
  have hall := Lts.mtr_append.mpr ⟨t, hworks, hrest⟩
  have hu := toward_run hc ht hrest
  have hwork := work_run hall
  refine ⟨ms'', u, hrest, by omega, fun i q hq => ?_⟩
  have hreached : Lts.MTr (Serves Sends Handle) ⟨start, store, made⟩ (ms ++ (ms' ++ ms'')) u :=
    Lts.mtr_append.mpr ⟨s, hrun, mtr_of_works hall⟩
  obtain hb | ⟨out, hout⟩ := hu.waits i q hq
  · have hpos := work_of_blocked hreached hu.running hb
    omega
  · refine ⟨out, hout, ?_⟩
    obtain ⟨hclient, hid, hasked⟩ := (past_run hrun).waits i q hq
    have hpast := past_run hreached
    obtain ⟨p, hp, hpid, hran⟩ := hpast.answered i out hout
    rw [hu.next] at hpid
    rw [hu.made] at hran
    have hname : p.name = q.name := by
      rw [Request.name, Request.name, hp, hclient, Nat.succ_inj.mp (hpid.trans hid.symm)]
    obtain rfl := hpast.unique p _ q _ (hpast.ran p _ out hran)
      (List.mem_append_left _ hasked) hname
    exact hran

end

end Freak.Utils.Reqrep
