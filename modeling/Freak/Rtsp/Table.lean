import Freak.Lib.Lts

/-! The table of sessions, shared by the workers that handle the clients' requests. -/
namespace Freak.Rtsp.Table

open Lts

inductive Request
  | describe
  | setup
  | play
  | teardown
deriving DecidableEq

/-- Where a worker stands in a handler: before the lock, after it with a session or without one,
and in TEARDOWN with the session it took out of the table. -/
inductive Worker (K : Type)
  | idle
  | called (r : Request) (k : K)
  | using (k : K) (id : Nat)
  | without (k : K)
  | removed (k : K) (id : Nat)

/-- The client whose request a worker handles. -/
def Worker.client {K : Type} : Worker K → Option K
  | .idle => none
  | .called _ k | .using k _ | .without k | .removed k _ => some k

/-- `sms` in the order of the entries; media objects are named in the order they are created. -/
structure State (W K : Type) where
  sms : List (K × Nat)
  next : Nat
  freed : List Nat
  worker : W → Worker K
  unlistened : Bool

inductive Action (W K : Type)
  | call (w : W) (r : Request) (k : K)
  | lock (w : W)
  | free (w : W)
  | reply (w : W)
  | unlisten
  | drain

variable {W K : Type}

def State.initial : State W K := ⟨[], 0, [], fun _ => .idle, false⟩

/-- `HASH_FIND_STR`. -/
def State.find [DecidableEq K] (s : State W K) (k : K) : Option Nat :=
  (s.sms.find? (·.1 = k)).map Prod.snd

def State.goto [DecidableEq W] (s : State W K) (w : W) (x : Worker K) : State W K :=
  { s with worker := Function.update s.worker w x }

/-- A handler takes one step from lock to lock; the requests of one client are handled one after
another, and `rtsp_server_uninit` starts when none is left. -/
inductive Step [DecidableEq W] [DecidableEq K] : State W K → Action W K → State W K → Prop
  | call {s : State W K} {w : W} {r : Request} {k : K} (hu : s.unlistened = false)
      (hw : s.worker w = .idle) (hk : ∀ v, (s.worker v).client ≠ some k) :
      Step s (.call w r k) (s.goto w (.called r k))
  | found {s : State W K} {w : W} {r : Request} {k : K} {id : Nat}
      (hw : s.worker w = .called r k) (hr : r ≠ .teardown) (hf : s.find k = some id) :
      Step s (.lock w) (s.goto w (.using k id))
  | made {s : State W K} {w : W} {k : K} (hw : s.worker w = .called .describe k)
      (hf : s.find k = none) :
      Step s (.lock w) (State.goto { s with sms := s.sms ++ [(k, s.next)], next := s.next + 1 } w
        (.using k s.next))
  -- 454, or nothing to tear down
  | missed {s : State W K} {w : W} {r : Request} {k : K} (hw : s.worker w = .called r k)
      (hr : r ≠ .describe) (hf : s.find k = none) :
      Step s (.lock w) (s.goto w (.without k))
  | removed {s : State W K} {w : W} {k : K} {id : Nat} (hw : s.worker w = .called .teardown k)
      (hf : s.find k = some id) :
      Step s (.lock w) (State.goto { s with sms := s.sms.erase (k, id) } w (.removed k id))
  | free {s : State W K} {w : W} {k : K} {id : Nat} (hw : s.worker w = .removed k id) :
      Step s (.free w) (State.goto { s with freed := s.freed ++ [id] } w (.without k))
  | reply {s : State W K} {w : W} {k : K}
      (hw : s.worker w = .without k ∨ ∃ id, s.worker w = .using k id) :
      Step s (.reply w) (s.goto w .idle)
  | unlisten {s : State W K} (hu : s.unlistened = false) (hw : ∀ w, s.worker w = .idle) :
      Step s .unlisten { s with unlistened := true }
  | drain {s : State W K} {k : K} {id : Nat} {rest : List (K × Nat)} (hu : s.unlistened = true)
      (ht : s.sms = (k, id) :: rest) :
      Step s .drain { s with sms := rest, freed := s.freed ++ [id] }

/-- A media object is in one entry of the table, or in the hands of one TEARDOWN, or freed. -/
inductive Placed (s : State W K) (id : Nat) : Prop
  | stored (hs : (s.sms.map Prod.snd).count id = 1) (hr : ∀ w k, s.worker w ≠ .removed k id)
      (hf : id ∉ s.freed)
  | leaving (hs : id ∉ s.sms.map Prod.snd) (hr : ∃! w, ∃ k, s.worker w = .removed k id)
      (hf : id ∉ s.freed)
  | freed (hs : id ∉ s.sms.map Prod.snd) (hr : ∀ w k, s.worker w ≠ .removed k id)
      (hf : s.freed.count id = 1)

/-- One session a client; every object in one place; every session in use in the table. -/
structure Owned (s : State W K) : Prop where
  keys : (s.sms.map Prod.fst).Nodup
  placed : ∀ id, id < s.next → Placed s id
  valid : ∀ w k id, s.worker w = .using k id → (k, id) ∈ s.sms ∧ id ∉ s.freed

/-- The steps that take a client's session out of the table. -/
def Removes (s : State W K) (k : K) : Action W K → Prop
  | .lock w => s.worker w = .called .teardown k
  | .drain => True
  | _ => False

/-- The objects in the table or freed. -/
def State.placed (s : State W K) : List Nat := s.sms.map Prod.snd ++ s.freed

/-- What carries `Owned`: two workers never have the same client. -/
structure Inv (s : State W K) : Prop where
  keys : (s.sms.map Prod.fst).Nodup
  once : s.placed.Nodup
  born : ∀ id ∈ s.placed, id < s.next
  valid : ∀ w k id, s.worker w = .using k id → (k, id) ∈ s.sms
  leaving : ∀ w k id, s.worker w = .removed k id → id < s.next ∧ id ∉ s.placed
  kept : ∀ id, id < s.next → id ∈ s.placed ∨ ∃ w k, s.worker w = .removed k id
  taken : ∀ v w j k id, s.worker v = .removed j id → s.worker w = .removed k id → v = w
  alone : ∀ v w k, (s.worker v).client = some k → (s.worker w).client = some k → v = w
  closed : s.unlistened = true → ∀ w, s.worker w = .idle

variable {s t : State W K} {a : Action W K} {xs : List (Action W K)} {w v : W} {k : K} {id : Nat}

theorem not_closed (h : Inv s) (hw : (s.worker w).client = some k) : s.unlistened ≠ true := by
  intro hu
  rw [h.closed hu w] at hw
  cases hw

/-- The worker that stays with its client is the only one with it. -/
theorem alone_of_client (h : Inv s) (hw : (s.worker w).client = some k) :
    ∀ j, some k = some j → ∀ v, v ≠ w → (s.worker v).client ≠ some j := by
  rintro j ⟨rfl⟩ v hv hvj
  exact hv (h.alone v w k hvj hw)

/-- An entry drained when no worker is left. -/
theorem inv_drain (h : Inv s) {rest : List (K × Nat)} (hu : s.unlistened = true)
    (ht : s.sms = (k, id) :: rest) :
    Inv { s with sms := rest, freed := s.freed ++ [id] } := by
  have hp : (State.placed { s with sms := rest, freed := s.freed ++ [id] }).Perm s.placed := by
    simp only [State.placed, ht, List.map_cons, List.cons_append, ← List.append_assoc]
    exact List.perm_append_singleton _ _
  have hidle : ∀ w, s.worker w = .idle := h.closed hu
  refine ⟨?_, hp.nodup_iff.mpr h.once, ?_, ?_, ?_, ?_, h.taken, h.alone, h.closed⟩
  · have hk := h.keys
    rw [ht, List.map_cons] at hk
    exact hk.of_cons
  · exact fun i hi => h.born i (hp.mem_iff.mp hi)
  · intro w j i hw
    cases (hidle w).symm.trans hw
  · intro w j i hw
    cases (hidle w).symm.trans hw
  · exact fun i hi => (h.kept i hi).imp_left hp.mem_iff.mpr

theorem inv_initial : Inv (State.initial : State W K) := by
  constructor <;> simp [State.initial, State.placed, Worker.client]

theorem placed_of_inv (h : Inv s) (hid : id < s.next) : Placed s id := by
  obtain ⟨hsms, hfreed, hdisj⟩ := List.nodup_append.mp h.once
  rcases h.kept id hid with hin | ⟨w, k, hw⟩
  · have hr : ∀ w k, s.worker w ≠ .removed k id := fun w k hw => (h.leaving w k id hw).2 hin
    rcases List.mem_append.mp hin with hs | hf
    · exact .stored (List.count_eq_one_of_mem hsms hs) hr fun hf => hdisj id hs id hf rfl
    · exact .freed (fun hs => hdisj id hs id hf rfl) hr (List.count_eq_one_of_mem hfreed hf)
  · have hout := (h.leaving w k id hw).2
    refine .leaving (fun hs => hout (List.mem_append_left _ hs)) ⟨w, ⟨k, hw⟩, ?_⟩
      fun hf => hout (List.mem_append_right _ hf)
    rintro v ⟨j, hv⟩
    exact h.taken v w j k id hv hw

theorem owned_of_inv (h : Inv s) : Owned s := by
  refine ⟨h.keys, fun id hid => placed_of_inv h hid, fun w k id hw => ?_⟩
  have hm : (k, id) ∈ s.sms := h.valid w k id hw
  obtain ⟨-, -, hdisj⟩ := List.nodup_append.mp h.once
  exact ⟨hm, fun hf => hdisj id (List.mem_map_of_mem hm) id hf rfl⟩

/-- When the last entry is drained every object has been freed, once. -/
theorem freed_all (h : Inv s) (hu : s.unlistened = true) (ht : s.sms = []) :
    s.freed.Perm (List.range s.next) := by
  have hp : s.placed = s.freed := by simp [State.placed, ht]
  refine (List.perm_ext_iff_of_nodup (hp ▸ h.once) List.nodup_range).mpr fun i => ?_
  rw [List.mem_range, ← hp]
  refine ⟨h.born i, fun hi => (h.kept i hi).resolve_right ?_⟩
  rintro ⟨w, k, hw⟩
  cases (h.closed hu w).symm.trans hw

section
variable [DecidableEq K]

theorem find_mem (h : s.find k = some id) : (k, id) ∈ s.sms := by
  obtain ⟨⟨j, i⟩, he, rfl⟩ := Option.map_eq_some_iff.mp h
  have hj : j = k := by simpa using List.find?_some he
  exact hj ▸ List.mem_of_find?_eq_some he

theorem find_none (h : s.find k = none) : k ∉ s.sms.map Prod.fst := by
  intro hk
  obtain ⟨e, he, rfl⟩ := List.mem_map.mp hk
  have hn := List.find?_eq_none.mp (Option.map_eq_none_iff.mp h) e he
  simp at hn

/-- A new entry for a client that has none. -/
theorem inv_made (h : Inv s) (hf : s.find k = none) :
    Inv { s with sms := s.sms ++ [(k, s.next)], next := s.next + 1 } := by
  have hnew : s.next ∉ s.placed := fun hn => (h.born _ hn).false
  have hp : (State.placed { s with sms := s.sms ++ [(k, s.next)], next := s.next + 1 }).Perm
      (s.next :: s.placed) := by
    simp [State.placed, List.perm_middle]
  refine ⟨?_, ?_, ?_, ?_, ?_, ?_, h.taken, h.alone, h.closed⟩
  · simpa [List.nodup_append] using ⟨h.keys, fun a b hab hak => find_none hf
      (List.mem_map.mpr ⟨(a, b), hab, hak⟩)⟩
  · exact hp.nodup_iff.mpr (List.nodup_cons.mpr ⟨hnew, h.once⟩)
  · intro i hi
    rcases List.mem_cons.mp (hp.mem_iff.mp hi) with rfl | hi
    · exact Nat.lt_succ_self _
    · exact Nat.lt_succ_of_lt (h.born i hi)
  · intro w j i hw
    exact List.mem_append_left _ (h.valid w j i hw)
  · intro w j i hw
    obtain ⟨hlt, hi⟩ := h.leaving w j i hw
    refine ⟨Nat.lt_succ_of_lt hlt, fun hm => ?_⟩
    rcases List.mem_cons.mp (hp.mem_iff.mp hm) with rfl | hm
    · exact hlt.false
    · exact hi hm
  · intro i hi
    rcases Nat.lt_succ_iff_lt_or_eq.mp hi with hi | rfl
    · exact (h.kept i hi).imp_left fun hm => hp.mem_iff.mpr (List.mem_cons_of_mem _ hm)
    · exact .inl (hp.mem_iff.mpr List.mem_cons_self)

end

variable [DecidableEq W]

theorem goto_self {x : Worker K} : (s.goto w x).worker w = x := by simp [State.goto]

theorem goto_ne {x : Worker K} (h : v ≠ w) : (s.goto w x).worker v = s.worker v := by
  simp [State.goto, h]

/-- Only the worker that moves can have come to where it now is. -/
theorem worker_of_goto {x y : Worker K} (h : (s.goto w x).worker v = y) (hxy : x ≠ y) :
    v ≠ w ∧ s.worker v = y := by
  rcases eq_or_ne v w with rfl | hvw
  · exact absurd (goto_self.symm.trans h) hxy
  · exact ⟨hvw, (goto_ne hvw).symm.trans h⟩

theorem goto_alone (h : Inv s) {x : Worker K}
    (hc : ∀ j, x.client = some j → ∀ v, v ≠ w → (s.worker v).client ≠ some j) :
    ∀ u v j, ((s.goto w x).worker u).client = some j → ((s.goto w x).worker v).client = some j →
      u = v := by
  intro u v j hu hv
  by_cases huw : u = w <;> by_cases hvw : v = w
  · rw [huw, hvw]
  · subst huw
    rw [goto_self] at hu
    rw [goto_ne hvw] at hv
    exact (hc j hu v hvw hv).elim
  · subst hvw
    rw [goto_self] at hv
    rw [goto_ne huw] at hu
    exact (hc j hv u huw hu).elim
  · rw [goto_ne huw] at hu
    rw [goto_ne hvw] at hv
    exact h.alone u v j hu hv

/-- A worker moves on without touching the table. -/
theorem inv_goto (h : Inv s) {x : Worker K} (hw : ∀ j i, s.worker w ≠ .removed j i)
    (hx : ∀ j i, x ≠ .removed j i) (hv : ∀ j i, x = .using j i → (j, i) ∈ s.sms)
    (hc : ∀ j, x.client = some j → ∀ v, v ≠ w → (s.worker v).client ≠ some j)
    (hu : s.unlistened = true → x = .idle) : Inv (s.goto w x) := by
  have hrem : ∀ v j i, (s.goto w x).worker v = .removed j i ↔ s.worker v = .removed j i := by
    intro v j i
    by_cases hvw : v = w
    · subst hvw
      rw [goto_self]
      exact iff_of_false (hx j i) (hw j i)
    · rw [goto_ne hvw]
  refine ⟨h.keys, h.once, h.born, ?_, ?_, ?_, ?_, goto_alone h hc, ?_⟩
  · intro v j i hi
    rcases eq_or_ne v w with rfl | hvw
    · rw [goto_self] at hi
      exact hv j i hi
    · rw [goto_ne hvw] at hi
      exact h.valid v j i hi
  · intro v j i hi
    exact h.leaving v j i ((hrem v j i).mp hi)
  · intro i hi
    simp only [hrem]
    exact h.kept i hi
  · intro u v j k i hu hv
    exact h.taken u v j k i ((hrem u j i).mp hu) ((hrem v k i).mp hv)
  · intro hun v
    rcases eq_or_ne v w with rfl | hvw
    · rw [goto_self]
      exact hu hun
    · rw [goto_ne hvw]
      exact h.closed hun v

/-- The object in a TEARDOWN's hands is freed by it. -/
theorem inv_free (h : Inv s) (hw : s.worker w = .removed k id) :
    Inv (State.goto { s with freed := s.freed ++ [id] } w (.without k)) := by
  let r : State W K := { s with freed := s.freed ++ [id] }
  have hp : r.placed.Perm (id :: s.placed) := by
    simp only [State.placed, r, ← List.append_assoc]
    exact List.perm_append_singleton _ _
  have hc : (s.worker w).client = some k := by rw [hw]; rfl
  obtain ⟨hlt, hout⟩ := h.leaving w k id hw
  have hrem : ∀ v j i, (r.goto w (.without k)).worker v = .removed j i →
      v ≠ w ∧ s.worker v = .removed j i := fun v j i hv => worker_of_goto hv nofun
  refine ⟨h.keys, hp.nodup_iff.mpr (List.nodup_cons.mpr ⟨hout, h.once⟩), ?_, ?_, ?_, ?_, ?_,
    goto_alone h (alone_of_client h hc), ?_⟩
  · intro i hi
    rcases List.mem_cons.mp (hp.mem_iff.mp hi) with rfl | hi
    · exact hlt
    · exact h.born i hi
  · intro v j i hi
    obtain ⟨-, hi⟩ := worker_of_goto hi nofun
    exact h.valid v j i hi
  · intro v j i hi
    obtain ⟨hvw, hv⟩ := hrem v j i hi
    refine ⟨(h.leaving v j i hv).1, fun hm => ?_⟩
    rcases List.mem_cons.mp (hp.mem_iff.mp hm) with rfl | hm
    · exact hvw (h.taken v w j k i hv hw)
    · exact (h.leaving v j i hv).2 hm
  · intro i hi
    rcases h.kept i hi with hi | ⟨v, j, hv⟩
    · exact .inl (hp.mem_iff.mpr (List.mem_cons_of_mem _ hi))
    · rcases eq_or_ne v w with rfl | hvw
      · cases hw.symm.trans hv
        exact .inl (hp.mem_iff.mpr List.mem_cons_self)
      · exact .inr ⟨v, j, (goto_ne hvw).trans hv⟩
  · intro u v j l i hu hv
    exact h.taken u v j l i (hrem u j i hu).2 (hrem v l i hv).2
  · exact fun hu => (not_closed h hc hu).elim

variable [DecidableEq K]

/-- An entry taken out by the one worker of its client. -/
theorem inv_removed (h : Inv s) (hw : s.worker w = .called .teardown k) (hm : (k, id) ∈ s.sms) :
    Inv (State.goto { s with sms := s.sms.erase (k, id) } w (.removed k id)) := by
  let r : State W K := { s with sms := s.sms.erase (k, id) }
  have hp : s.placed.Perm (id :: r.placed) :=
    ((List.perm_cons_erase hm).map Prod.snd).append_right s.freed
  have hc : (s.worker w).client = some k := by rw [hw]; rfl
  have hin : id ∈ s.placed := hp.mem_iff.mpr List.mem_cons_self
  obtain ⟨hout, hnodup⟩ := List.nodup_cons.mp (hp.nodup_iff.mp h.once)
  have hsub : ∀ i ∈ r.placed, i ∈ s.placed := fun i hi => hp.mem_iff.mpr (List.mem_cons_of_mem _ hi)
  -- nobody else holds it
  have hrem : ∀ v j, s.worker v ≠ .removed j id := fun v j hv => (h.leaving v j id hv).2 hin
  refine ⟨?_, hnodup, fun i hi => h.born i (hsub i hi), ?_, ?_, ?_, ?_,
    goto_alone h (alone_of_client h hc), ?_⟩
  · exact h.keys.sublist (List.erase_sublist.map Prod.fst)
  · intro v j i hi
    obtain ⟨hvw, hi⟩ := worker_of_goto hi nofun
    have hjk : j ≠ k := by
      rintro rfl
      exact hvw (h.alone v w j (by rw [hi]; rfl) hc)
    exact (List.mem_erase_of_ne (by simp [hjk])).mpr (h.valid v j i hi)
  · intro v j i hi
    rcases eq_or_ne v w with rfl | hvw
    · cases goto_self.symm.trans hi
      exact ⟨h.born id hin, hout⟩
    · replace hi : s.worker v = .removed j i := (goto_ne hvw).symm.trans hi
      exact (h.leaving v j i hi).imp_right fun hn hm => hn (hsub i hm)
  · intro i hi
    rcases h.kept i hi with hi | ⟨v, j, hv⟩
    · rcases List.mem_cons.mp (hp.mem_iff.mp hi) with rfl | hi
      · exact .inr ⟨w, k, goto_self⟩
      · exact .inl hi
    · have hvw : v ≠ w := by
        rintro rfl
        cases hw.symm.trans hv
      exact .inr ⟨v, j, (goto_ne hvw).trans hv⟩
  · intro u v j l i hu hv
    by_cases huw : u = w <;> by_cases hvw : v = w
    · rw [huw, hvw]
    · subst huw
      cases goto_self.symm.trans hu
      exact (hrem v l ((goto_ne hvw).symm.trans hv)).elim
    · subst hvw
      cases goto_self.symm.trans hv
      exact (hrem u j ((goto_ne huw).symm.trans hu)).elim
    · exact h.taken u v j l i ((goto_ne huw).symm.trans hu) ((goto_ne hvw).symm.trans hv)
  · exact fun hu => (not_closed h hc hu).elim

theorem inv_step (h : Inv s) (hs : Step s a t) : Inv t := by
  cases hs with
  | call hu hw hk =>
    refine inv_goto h (by simp [hw]) (by simp) (by simp) ?_ (by simp [hu])
    rintro j ⟨rfl⟩ v -
    exact hk v
  | @found w r k id hw hr hf =>
    have hc : (s.worker w).client = some k := by rw [hw]; rfl
    refine inv_goto h (by simp [hw]) (by simp) ?_ (alone_of_client h hc) ?_
    · rintro j i ⟨rfl, rfl⟩
      exact find_mem hf
    · exact fun hu => (not_closed h hc hu).elim
  | @made w k hw hf =>
    have hc : (s.worker w).client = some k := by rw [hw]; rfl
    refine inv_goto (inv_made h hf) (by simp [hw]) (by simp) ?_
      (alone_of_client (inv_made h hf) hc) ?_
    · rintro j i ⟨rfl, rfl⟩
      simp
    · exact fun hu => (not_closed h hc hu).elim
  | @missed w r k hw hr hf =>
    have hc : (s.worker w).client = some k := by rw [hw]; rfl
    refine inv_goto h (by simp [hw]) (by simp) (by simp) (alone_of_client h hc) ?_
    exact fun hu => (not_closed h hc hu).elim
  | removed hw hf => exact inv_removed h hw (find_mem hf)
  | free hw => exact inv_free h hw
  | reply hw =>
    refine inv_goto h ?_ (by simp) (by simp) (by simp [Worker.client]) (by simp)
    rcases hw with hw | ⟨id, hw⟩ <;> simp [hw]
  | unlisten hu hw =>
    exact ⟨h.keys, h.once, h.born, h.valid, h.leaving, h.kept, h.taken, h.alone, fun _ => hw⟩
  | drain hu ht => exact inv_drain h hu ht

theorem inv_reachable (h : MTr Step .initial xs s) : Inv s :=
  mtrInv_of_trInv (fun _ _ _ hs hi => inv_step hi hs) h inv_initial

/-- Only its own client's TEARDOWN takes a session out before the server ends. -/
theorem removes_of_gone (hs : Step s a t) (hm : (k, id) ∈ s.sms) (hn : (k, id) ∉ t.sms) :
    Removes s k a := by
  cases hs with
  | @removed w j i hw hf =>
    have he : (k, id) = (j, i) := by
      by_contra hne
      exact hn ((List.mem_erase_of_ne hne).mpr hm)
    cases he
    exact hw
  | made hw hf => exact (hn (List.mem_append_left _ hm)).elim
  | drain hu ht => trivial
  | call | found | missed | free | reply | unlisten => exact (hn hm).elim

/-- However the handlers interleave, the table owns every session it holds. -/
theorem table_owned (h : MTr Step .initial xs s) :
    Owned s ∧
    (∀ a t k id, Step s a t → (k, id) ∈ s.sms → (k, id) ∉ t.sms → Removes s k a) ∧
    (s.unlistened = true → s.sms = [] → s.freed.Perm (List.range s.next)) := by
  have hi : Inv s := inv_reachable h
  exact ⟨owned_of_inv hi, fun a t k id hs => removes_of_gone hs, freed_all hi⟩

/-- Two workers, one client described, the other described and torn down. -/
theorem sample_run :
    ∃ s : State Bool Nat, MTr Step .initial [.call true .describe 0, .call false .describe 1,
      .lock true, .lock false, .reply false, .call false .teardown 1, .lock false, .free false] s ∧
      s.sms = [(0, 0)] ∧ s.freed = [1] :=
  ⟨_, .stepL (.call rfl rfl nofun) <|
    .stepL (.call rfl rfl fun v => by cases v <;> decide) <|
    .stepL (.made rfl rfl) <| .stepL (.made rfl rfl) <| .stepL (.reply (.inr ⟨1, rfl⟩)) <|
    .stepL (.call rfl rfl fun v => by cases v <;> decide) <|
    .stepL (.removed rfl rfl) <| .stepL (.free rfl) .refl, rfl, rfl⟩

theorem table_owned_two : ∃ s : State Bool Nat, s.sms = [(0, 0)] ∧ s.freed = [1] ∧ Owned s := by
  obtain ⟨s, hs, hsms, hf⟩ := sample_run
  exact ⟨s, hsms, hf, (table_owned hs).1⟩

end Freak.Rtsp.Table
