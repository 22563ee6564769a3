import Freak.Utils.Que

/-! No wake-up of the queue's condition variables is lost. -/
namespace Freak.Utils

variable {T α : Type} {s t : Sys T α} {a : Action T α} {acts : List (Action T α)} {d : Cond}

namespace Cond

def other : Cond → Cond
  | condRd => condWr
  | condWr => condRd

/-- What the threads that sleep on a condition wait for: free slots or stored elements. -/
def room (q : Que α) : Cond → Nat
  | condRd => q.len
  | condWr => q.depth - q.len

end Cond

/-- While a thread sleeps there is a signalled one on its way for each slot or element. -/
def Covered (s : Sys T α) (d : Cond) : Prop :=
  (∃ t, s.Sleeps d t) → ∃ ts : Finset T, ts.card = d.room s.que ∧ ∀ t ∈ ts, s.Signalled d t

theorem returned_ne_waits {ret : Int} {val : Option α} {signal : Option Cond} (d : Cond) :
    Outcome.returned ret val signal ≠ .waits d := by
  rintro ⟨⟩

/-- What a critical section does to the rooms of both conditions. -/
theorem critical_room {q q' : Que α} {o : Outcome α} (hq : q.Valid) {c : Call α}
    (h : c.critical q = some (q', o)) :
    (∃ d, c.cond = some d ∧ (∃ r v, o = .returned r v (some d.other)) ∧
      d.room q = d.room q' + 1 ∧ d.other.room q' = d.other.room q + 1) ∨
    (∃ d, c.cond = some d ∧ o.signal = none ∧ q' = q ∧ d.room q = 0) ∨
    (c.cond = none ∧ o.signal = none ∧ (∀ d, o ≠ .waits d) ∧ q' = q) := by
  cases c with
  | put v block =>
    rcases Que.put_cases hq v block with ⟨hlt, p, -, hd, hl, -, hput⟩ | ⟨hfull, rfl, hput⟩ |
      ⟨hfull, rfl, hput⟩
    · obtain ⟨rfl, rfl⟩ := Prod.mk.inj (Option.some.inj (h.symm.trans hput))
      refine Or.inl ⟨.condWr, rfl, ⟨0, none, rfl⟩, ?_, hl⟩
      simp only [Cond.room]
      omega
    · obtain ⟨rfl, rfl⟩ := Prod.mk.inj (Option.some.inj (h.symm.trans hput))
      exact Or.inr (Or.inl ⟨.condWr, rfl, rfl, rfl, by simp [Cond.room, hfull]⟩)
    · obtain ⟨rfl, rfl⟩ := Prod.mk.inj (Option.some.inj (h.symm.trans hput))
      exact Or.inr (Or.inl ⟨.condWr, rfl, rfl, rfl, by simp [Cond.room, hfull]⟩)
  | get block =>
    rcases Que.get_cases hq block with ⟨hlt, p, x, -, hd, hl, -, hget⟩ | ⟨hz, rfl, hget⟩ |
      ⟨hz, rfl, hget⟩
    · obtain ⟨rfl, rfl⟩ := Prod.mk.inj (Option.some.inj (h.symm.trans hget))
      refine Or.inl ⟨.condRd, rfl, ⟨0, some x, rfl⟩, hl, ?_⟩
      have hle := hq.len_le
      simp only [Cond.room, Cond.other]
      omega
    · obtain ⟨rfl, rfl⟩ := Prod.mk.inj (Option.some.inj (h.symm.trans hget))
      exact Or.inr (Or.inl ⟨.condRd, rfl, rfl, rfl, hz⟩)
    · obtain ⟨rfl, rfl⟩ := Prod.mk.inj (Option.some.inj (h.symm.trans hget))
      exact Or.inr (Or.inl ⟨.condRd, rfl, rfl, rfl, hz⟩)
  | peek =>
    refine Or.inr (Or.inr ⟨rfl, ?_⟩)
    simp only [Call.critical, Que.peek] at h
    split at h
    · simp only [Option.bind_eq_bind, Option.bind_eq_some_iff, Option.some.injEq,
        Prod.mk.injEq] at h
      obtain ⟨_, _, rfl, rfl⟩ := h
      exact ⟨rfl, returned_ne_waits, rfl⟩
    · obtain ⟨rfl, rfl⟩ := Prod.mk.inj (Option.some.inj h)
      exact ⟨rfl, returned_ne_waits, rfl⟩
  | len | isempty | isfull =>
    obtain ⟨rfl, rfl⟩ := Prod.mk.inj (Option.some.inj h)
    exact Or.inr (Or.inr ⟨rfl, rfl, returned_ne_waits, rfl⟩)

theorem not_signalled {u : T} {c : Call α} {b : Bool} (hp : s.pc u = .ready c b)
    (hc : c.cond ≠ some d) : ¬ s.Signalled d u := by
  rintro ⟨c', hc', hd⟩
  cases hp.symm.trans hc'
  exact hc hd

theorem not_woken {o : Outcome α} {woken : T → Bool} (hw : o.Wakes s woken)
    (ho : o.signal = none) (u : T) : woken u = false := by
  by_contra h
  obtain ⟨d, hd, -⟩ := hw.1 u (by simpa using h)
  cases ho.symm.trans hd

variable [DecidableEq T]

/-- The thread that takes a step is neither asleep nor among the signalled ones. -/
theorem covered_of_pc {u : T} {pc : Pc α} (h : Covered s d) (hi : ¬ s.Signalled d u)
    (hpc : ∀ c, pc = .asleep c → c.cond ≠ some d) :
    Covered { s with pc := Function.update s.pc u pc } d := by
  rintro ⟨v, c, hv, hc⟩
  have hvu : v ≠ u := by
    rintro rfl
    simp only [Function.update_self] at hv
    exact hpc c hv hc
  simp only [Function.update_of_ne hvu] at hv
  obtain ⟨ts, hcard, hts⟩ := h ⟨v, c, hv, hc⟩
  refine ⟨ts, hcard, ?_⟩
  intro w hw
  have hwu : w ≠ u := by
    rintro rfl
    exact hi (hts w hw)
  obtain ⟨c', hc', hd⟩ := hts w hw
  exact ⟨c', by simpa [Function.update_of_ne hwu] using hc', hd⟩

/-- The state after a critical section. -/
def Sys.after (s : Sys T α) (q : Que α) (u : T) (pc : Pc α) (woken : T → Bool) : Sys T α :=
  ⟨q, fun v => if v = u then pc else if woken v then (s.pc v).wake else s.pc v⟩

theorem after_of_not_woken {q : Que α} {u : T} {pc : Pc α} {woken : T → Bool}
    (hw : ∀ v, woken v = false) : s.after q u pc woken = ⟨q, Function.update s.pc u pc⟩ := by
  simp only [Sys.after, Sys.mk.injEq, true_and]
  funext v
  by_cases hv : v = u
  · simp [hv]
  · simp [hv, hw v]

/-- No thread goes to sleep in a critical section that succeeds. -/
theorem sleeps_of_after {q : Que α} {u v : T} {woken : T → Bool}
    (h : (s.after q u .idle woken).Sleeps d v) : s.Sleeps d v := by
  obtain ⟨c, hc, hd⟩ := h
  simp only [Sys.after] at hc
  split at hc
  · cases hc
  · split at hc
    · cases hpc : s.pc v <;> simp [hpc, Pc.wake] at hc
    · exact ⟨c, hc, hd⟩

theorem signalled_after {q : Que α} {u v : T} {woken : T → Bool} (hv : v ≠ u)
    (h : s.Signalled d v) : (s.after q u .idle woken).Signalled d v := by
  obtain ⟨c, hc, hd⟩ := h
  refine ⟨c, ?_, hd⟩
  simp [Sys.after, hv, hc, Pc.wake]

/-- The thread that takes a slot or an element may have been one of those signalled for it. -/
theorem covered_taken {q : Que α} {u : T} {woken : T → Bool} (h : Covered s d)
    (hr : d.room s.que = d.room q + 1) : Covered (s.after q u .idle woken) d := by
  rintro ⟨v, hv⟩
  obtain ⟨ts, hcard, hts⟩ := h ⟨v, sleeps_of_after hv⟩
  have hle : d.room q ≤ (ts.erase u).card := by
    have := @Finset.pred_card_le_card_erase _ ts u _
    omega
  obtain ⟨rs, hrs, hrc⟩ := Finset.exists_subset_card_eq hle
  refine ⟨rs, hrc, ?_⟩
  intro w hw
  have hwe := Finset.mem_erase.mp (hrs hw)
  exact signalled_after hwe.1 (hts w hwe.2)

/-- The thread signalled for a new slot or element is one more on its way. -/
theorem covered_given {q : Que α} {u : T} {c : Call α} {b : Bool} {o : Outcome α}
    {woken : T → Bool} (h : Covered s d) (hp : s.pc u = .ready c b) (hc : c.cond ≠ some d)
    (ho : o.signal = some d) (hw : o.Wakes s woken) (hr : d.room q = d.room s.que + 1) :
    Covered (s.after q u .idle woken) d := by
  rintro ⟨v, hv⟩
  have hsleeps := sleeps_of_after hv
  obtain ⟨ts, hcard, hts⟩ := h ⟨v, hsleeps⟩
  obtain ⟨w, hww⟩ := hw.2 d ho ⟨v, hsleeps⟩
  obtain ⟨e, he, cw, hcw, hcd⟩ := hw.1 w hww
  cases ho.symm.trans he
  have hwts : w ∉ ts := by
    intro hmem
    obtain ⟨c', hc', -⟩ := hts w hmem
    cases hcw.symm.trans hc'
  have hwu : w ≠ u := by
    rintro rfl
    cases hcw.symm.trans hp
  refine ⟨insert w ts, ?_, ?_⟩
  · rw [Finset.card_insert_of_notMem hwts, hcard]
    exact hr.symm
  · intro x hx
    rcases Finset.mem_insert.mp hx with rfl | hx
    · exact ⟨cw, by simp [Sys.after, hwu, hww, hcw, Pc.wake], hcd⟩
    · have hxu : x ≠ u := by
        rintro rfl
        exact not_signalled hp hc (hts x hx)
      exact signalled_after hxu (hts x hx)

theorem Cond.eq_or_other (d e : Cond) : d = e ∨ d = e.other := by
  cases d <;> cases e <;> simp [Cond.other]

theorem covered_run {u : T} {c : Call α} {b : Bool} {q : Que α} {o : Outcome α}
    {woken : T → Bool} (hs : s.que.Valid) (hp : s.pc u = .ready c b)
    (hc : c.critical s.que = some (q, o)) (hw : o.Wakes s woken) (h : ∀ d, Covered s d) (d : Cond) :
    Covered (s.after q u (o.next c) woken) d := by
  rcases critical_room hs hc with ⟨e, he, ⟨r, v, rfl⟩, htaken, hgiven⟩ | ⟨e, he, ho, rfl, hz⟩ |
    ⟨hn, ho, hwaits, rfl⟩
  · have hne : c.cond ≠ some e.other := by
      rw [he]
      cases e <;> simp [Cond.other]
    rcases d.eq_or_other e with rfl | rfl
    · exact covered_taken (h d) htaken
    · exact covered_given (h e.other) hp hne rfl hw hgiven
  · rw [after_of_not_woken (not_woken hw ho)]
    by_cases hde : d = e
    · subst hde
      exact fun _ => ⟨∅, hz.symm, by simp⟩
    · have hcd : c.cond ≠ some d := by
        rw [he]
        simpa using fun h => hde h.symm
      refine covered_of_pc (h d) (not_signalled hp hcd) ?_
      intro c' hc'
      cases o with
      | returned => cases hc'
      | waits =>
        cases hc'
        exact hcd
  · rw [after_of_not_woken (not_woken hw ho)]
    refine covered_of_pc (h d) (not_signalled hp (by simp [hn])) ?_
    intro c' hc'
    cases o with
    | returned => cases hc'
    | waits e => exact absurd rfl (hwaits e)

theorem covered_step (hst : Step s a t) (hs : s.que.Valid) (h : ∀ d, Covered s d) (d : Cond) :
    Covered t d := by
  cases hst with
  | call hp =>
    refine covered_of_pc (h d) ?_ nofun
    rintro ⟨c, hc, -⟩
    cases hp.symm.trans hc
  | run hp hc hw => exact covered_run hs hp hc hw h d
  | spurious hp =>
    refine covered_of_pc (h d) ?_ nofun
    rintro ⟨c, hc, -⟩
    cases hp.symm.trans hc

theorem covered_reachable {depth : Nat} {elements : Nat → α}
    (h : Lts.MTr Step (Sys.initial T depth elements) acts s) (d : Cond) : Covered s d := by
  have hinv : Lts.TrInv Step fun s : Sys T α => s.que.Valid ∧ ∀ d, Covered s d := by
    intro s a t hst hi
    exact ⟨(conserved_step hst hi.1).1, covered_step hst hi.1 hi.2⟩
  refine (Lts.mtrInv_of_trInv hinv h ⟨Que.valid_create depth elements, ?_⟩).2 d
  rintro d ⟨t, c, hc, -⟩
  cases hc

/-- A thread sleeps beside a free slot or a stored element only while as many signalled threads
have yet to take their turn. -/
theorem no_lost_wakeup (depth : Nat) (elements : Nat → α)
    (h : Lts.MTr Step (Sys.initial T depth elements) acts s) (d : Cond) (t : T)
    (ht : s.Sleeps d t) :
    (∃ ts : Finset T, ts.card = d.room s.que ∧ ∀ u ∈ ts, s.Signalled d u) ∧
      ((∀ u, ¬ s.Signalled d u) → d.room s.que = 0) := by
  obtain ⟨ts, hcard, hts⟩ := covered_reachable h d ⟨t, ht⟩
  refine ⟨⟨ts, hcard, hts⟩, ?_⟩
  intro hno
  rcases ts.eq_empty_or_nonempty with rfl | ⟨u, hu⟩
  · exact hcard.symm
  · exact absurd (hts u hu) (hno u)

/-- Two consumers sleep, one is signalled for the value put and has yet to take the lock: the other
sleeps beside the value. -/
theorem no_lost_wakeup_stored : ∃ s : Sys (Fin 3) Nat, s.que.contents = [7] ∧
    s.Sleeps .condRd 1 ∧ s.Signalled .condRd 0 ∧
    ∃ ts : Finset (Fin 3), ts.card = 1 ∧ ∀ u ∈ ts, s.Signalled .condRd u := by
  have h : Lts.MTr Step (Sys.initial (Fin 3) 2 fun _ => 0) _ _ :=
    .stepL (@Step.call (Fin 3) Nat _ _ 0 (.get true) rfl) <|
    .stepL (@Step.run (Fin 3) Nat _ _ 0 (.get true) false _ _ (fun _ => false) rfl rfl
      ⟨nofun, nofun⟩) <|
    .stepL (@Step.call (Fin 3) Nat _ _ 1 (.get true) rfl) <|
    .stepL (@Step.run (Fin 3) Nat _ _ 1 (.get true) false _ _ (fun _ => false) rfl rfl
      ⟨nofun, nofun⟩) <|
    .stepL (@Step.call (Fin 3) Nat _ _ 2 (.put 7 true) rfl) <|
    .stepL (@Step.run (Fin 3) Nat _ _ 2 (.put 7 true) false _ _ (fun u => u = 0) rfl rfl
      ⟨by
        intro u hu
        obtain rfl : u = 0 := of_decide_eq_true hu
        exact ⟨.condRd, rfl, .get true, rfl, rfl⟩, fun _ _ _ => ⟨0, rfl⟩⟩) .refl
  have hsleeps := no_lost_wakeup 2 _ h .condRd 1 ⟨.get true, rfl, rfl⟩
  exact ⟨_, rfl, ⟨.get true, rfl, rfl⟩, ⟨.get true, rfl, rfl⟩, hsleeps.1⟩

end Freak.Utils
