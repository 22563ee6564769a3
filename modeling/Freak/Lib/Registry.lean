import Freak.Lib.Lts

/-! A table of objects by index: an object is made for an index when it is first asked for. -/

/-- The slots, the objects that are alive, and the name of the next one to be made. -/
structure Registry (P : Type) where
  slots : Nat → Option Nat
  heap : Nat → Option P
  next : Nat

namespace Registry

open Lts

variable {P : Type}

def empty : Registry P := ⟨fun _ => none, fun _ => none, 0⟩

/-- The object in a slot, or a new one. -/
def create (new : Nat → P) (i : Nat) (r : Registry P) : Nat × Registry P :=
  match r.slots i with
  | some o => (o, r)
  | none =>
    (r.next, { slots := Function.update r.slots i (some r.next)
               heap := Function.update r.heap r.next (some (new i))
               next := r.next + 1 })

def clear (i : Nat) (r : Registry P) : Registry P :=
  { r with slots := Function.update r.slots i none }

def free (o : Nat) (r : Registry P) : Registry P :=
  { r with heap := Function.update r.heap o none }

/-- An object leaves the slot that it says is its own, and then the heap. -/
def drop (key : P → Nat) (o : Nat) (p : P) (r : Registry P) : Registry P := (r.clear (key p)).free o

/-- An object leaves the heap only. -/
def strand (o : Nat) (_ : P) (r : Registry P) : Registry P := r.free o

inductive Action
  | create (i o : Nat)
  | destroy (o : Nat)

/-- Objects are asked for below `n`, and only an object that is alive is destroyed. -/
inductive Step (n : Nat) (new : Nat → P) (destroy : Nat → P → Registry P → Registry P) :
    Registry P → Action → Registry P → Prop
  | create {r : Registry P} {i : Nat} (hi : i < n) :
      Step n new destroy r (.create i (r.create new i).1) (r.create new i).2
  | destroy {r : Registry P} {o : Nat} {p : P} (ho : r.heap o = some p) :
      Step n new destroy r (.destroy o) (destroy o p r)

/-- Names are used once, and an object that is alive is in the slot of its index. -/
structure Inv (n : Nat) (new : Nat → P) (r : Registry P) : Prop where
  heap_lt : ∀ o p, r.heap o = some p → o < r.next
  slot_lt : ∀ i o, r.slots i = some o → o < r.next
  home : ∀ o p, r.heap o = some p → ∃ i < n, p = new i ∧ r.slots i = some o

/-- What is in a slot is alive and was made for its index. -/
def Live (new : Nat → P) (r : Registry P) : Prop :=
  ∀ i o, r.slots i = some o → r.heap o = some (new i)

variable {n i j o : Nat} {new : Nat → P} {key : P → Nat} {p : P} {r t : Registry P}
  {a : Action} {acts : List Action} {destroy : Nat → P → Registry P → Registry P}

theorem create_of_some (h : r.slots i = some o) : r.create new i = (o, r) := by
  simp only [create, h]

theorem inv_empty : Inv n new (empty : Registry P) := ⟨nofun, nofun, nofun⟩

theorem live_empty : Live new (empty : Registry P) := nofun

theorem next_create (hs : r.slots i = none) : (r.create new i).2.next = r.next + 1 := by
  simp only [create, hs]

theorem slots_create_of_none (hs : r.slots i = none) : (r.create new i).2.slots j = some o ↔
    j = i ∧ o = r.next ∨ j ≠ i ∧ r.slots j = some o := by
  simp only [create, hs, Function.update_apply]
  split_ifs with h <;> simp [h, eq_comm]

theorem slots_create_of_some (h : r.slots i = some o) :
    (r.create new j).2.slots i = some o := by
  cases hj : r.slots j with
  | some o' => rwa [create_of_some hj]
  | none =>
    refine (slots_create_of_none hj).mpr (Or.inr ⟨?_, h⟩)
    rintro rfl
    rw [hj] at h
    cases h

theorem heap_create_of_none (hs : r.slots i = none) : (r.create new i).2.heap o = some p ↔
    o = r.next ∧ p = new i ∨ o ≠ r.next ∧ r.heap o = some p := by
  simp only [create, hs, Function.update_apply]
  split_ifs with h <;> simp [h, eq_comm]

/-- A name that is used is not used again. -/
theorem heap_create_of_gone (hlt : o < r.next) (h : ∀ p, r.heap o ≠ some p) (p : P) :
    (r.create new i).2.heap o ≠ some p := by
  cases hs : r.slots i with
  | some o' =>
    rw [create_of_some hs]
    exact h p
  | none =>
    intro hp
    obtain ⟨rfl, -⟩ | ⟨-, hp⟩ := (heap_create_of_none hs).mp hp
    · exact lt_irrefl _ hlt
    · exact h p hp

theorem slots_drop : (drop key o p r).slots i = some j ↔ i ≠ key p ∧ r.slots i = some j := by
  simp only [drop, clear, free, Function.update_apply]
  split_ifs with h <;> simp [h]

theorem heap_drop {p' : P} : (drop key o p r).heap j = some p' ↔ j ≠ o ∧ r.heap j = some p' := by
  simp only [drop, clear, free, Function.update_apply]
  split_ifs with h <;> simp [h]

theorem heap_strand {p' : P} : (strand o p r).heap j = some p' ↔ j ≠ o ∧ r.heap j = some p' := by
  simp only [strand, free, Function.update_apply]
  split_ifs with h <;> simp [h]

theorem inv_create (hr : Inv n new r) (hi : i < n) : Inv n new (r.create new i).2 := by
  cases hs : r.slots i with
  | some o => rwa [create_of_some hs]
  | none =>
    refine ⟨fun o p ho => ?_, fun j o ho => ?_, fun o p ho => ?_⟩
    · rw [next_create hs]
      obtain ⟨rfl, -⟩ | ⟨-, ho⟩ := (heap_create_of_none hs).mp ho
      · omega
      · exact Nat.lt_succ_of_lt (hr.heap_lt o p ho)
    · rw [next_create hs]
      obtain ⟨-, rfl⟩ | ⟨-, ho⟩ := (slots_create_of_none hs).mp ho
      · omega
      · exact Nat.lt_succ_of_lt (hr.slot_lt j o ho)
    · obtain ⟨rfl, rfl⟩ | ⟨-, ho⟩ := (heap_create_of_none hs).mp ho
      · exact ⟨i, hi, rfl, (slots_create_of_none hs).mpr (Or.inl ⟨rfl, rfl⟩)⟩
      · obtain ⟨j, hj, hp, hslot⟩ := hr.home o p ho
        exact ⟨j, hj, hp, slots_create_of_some hslot⟩

theorem live_create (hr : Inv n new r) (hl : Live new r) : Live new (r.create new i).2 := by
  cases hs : r.slots i with
  | some o => rwa [create_of_some hs]
  | none =>
    intro j o ho
    rw [heap_create_of_none hs]
    obtain ⟨rfl, rfl⟩ | ⟨-, ho⟩ := (slots_create_of_none hs).mp ho
    · exact Or.inl ⟨rfl, rfl⟩
    · exact Or.inr ⟨(hr.slot_lt j o ho).ne, hl j o ho⟩

/-- What is returned is in the slot. -/
theorem slots_create : (r.create new i).2.slots i = some (r.create new i).1 := by
  cases hs : r.slots i with
  | some o => rw [create_of_some hs, hs]
  | none => simp [create, hs]

/-- What a destructor leaves as it is: names and homes, and the slots of other objects. -/
structure Keeps (n : Nat) (new : Nat → P) (destroy : Nat → P → Registry P → Registry P) :
    Prop where
  inv : ∀ {o p r}, Inv n new r → r.heap o = some p → Inv n new (destroy o p r)
  slots : ∀ {o p r i o'}, Inv n new r → r.heap o = some p → r.slots i = some o' → o' ≠ o →
    (destroy o p r).slots i = some o'

/-- No two objects are in one slot. -/
theorem keeps_drop (hkey : ∀ i, key (new i) = i) : Keeps n new (drop key) := by
  have hslots : ∀ {o p r i o'}, Inv n new r → r.heap o = some p → r.slots i = some o' → o' ≠ o →
      (drop key o p r).slots i = some o' := by
    intro o p r i o' hr ho hslot hne
    refine slots_drop.mpr ⟨?_, hslot⟩
    obtain ⟨j, -, rfl, hslot'⟩ := hr.home o p ho
    rw [hkey j]
    rintro rfl
    exact hne (Option.some.inj (hslot.symm.trans hslot'))
  refine ⟨fun {o p r} hr ho => ⟨fun o' p' ho' => hr.heap_lt o' p' (heap_drop.mp ho').2,
    fun i o' ho' => hr.slot_lt i o' (slots_drop.mp ho').2, fun o' p' ho' => ?_⟩, hslots⟩
  obtain ⟨hne, ho'⟩ := heap_drop.mp ho'
  obtain ⟨i, hi, hp, hslot⟩ := hr.home o' p' ho'
  exact ⟨i, hi, hp, hslots hr ho hslot hne⟩

theorem keeps_strand : Keeps n new strand :=
  ⟨fun hr _ => ⟨fun o' p' ho => hr.heap_lt o' p' (heap_strand.mp ho).2, hr.slot_lt,
    fun o' p' ho => hr.home o' p' (heap_strand.mp ho).2⟩, fun _ _ hslot _ => hslot⟩

/-- No slot is left with the object. -/
theorem live_drop (hkey : ∀ i, key (new i) = i) (hl : Live new r) (ho : r.heap o = some p) :
    Live new (drop key o p r) := by
  intro i o' hslot
  obtain ⟨hne, hslot⟩ := slots_drop.mp hslot
  have halive := hl i o' hslot
  refine heap_drop.mpr ⟨?_, halive⟩
  rintro rfl
  obtain rfl := Option.some.inj (ho.symm.trans halive)
  exact hne (hkey i).symm

/-- A slot whose object is gone. -/
def Stranded (r : Registry P) : Prop := ∃ i o, r.slots i = some o ∧ r.heap o = none

theorem not_live_of_stranded (hs : Stranded r) : ¬ Live new r := by
  obtain ⟨i, o, hslot, hgone⟩ := hs
  intro hl
  rw [hl i o hslot] at hgone
  cases hgone

/-- The object stays in the slot that it was in. -/
theorem stranded_strand (hr : Inv n new r) (ho : r.heap o = some p) : Stranded (strand o p r) := by
  obtain ⟨i, -, -, hslot⟩ := hr.home o p ho
  exact ⟨i, o, hslot, by simp [strand, free]⟩

theorem inv_step (hd : Keeps n new destroy) (hr : Inv n new r) (h : Step n new destroy r a t) :
    Inv n new t := by
  cases h with
  | create hi => exact inv_create hr hi
  | destroy ho => exact hd.inv hr ho

theorem inv_run (hd : Keeps n new destroy) (h : MTr (Step n new destroy) .empty acts r) :
    Inv n new r :=
  mtrInv_of_trInv (I := Inv n new) (fun _ _ _ hs hi => inv_step hd hi hs) h inv_empty

/-- Objects that leave their slots leave none behind. -/
theorem live_run_drop (hkey : ∀ i, key (new i) = i)
    (h : MTr (Step n new (drop key)) .empty acts r) : Live new r := by
  have hinv : TrInv (Step n new (drop key)) fun r => Inv n new r ∧ Live new r := by
    intro s a t hs hi
    refine ⟨inv_step (keeps_drop hkey) hi.1 hs, ?_⟩
    cases hs with
    | create hlt => exact live_create hi.1 hi.2
    | destroy ho => exact live_drop hkey hi.2 ho
  exact (mtrInv_of_trInv (I := fun r => Inv n new r ∧ Live new r) hinv h
    ⟨inv_empty, live_empty⟩).2

/-- An object that is gone does not come back, and its slot is never made anew. -/
theorem stranded_step (hr : Inv n new r) (hs : Stranded r) (h : Step n new strand r a t) :
    Stranded t := by
  obtain ⟨i, o, hslot, hgone⟩ := hs
  rw [Option.eq_none_iff_forall_ne_some] at hgone
  cases h with
  | create hlt =>
    refine ⟨i, o, slots_create_of_some hslot, Option.eq_none_iff_forall_ne_some.mpr ?_⟩
    exact heap_create_of_gone (hr.slot_lt i o hslot) hgone
  | destroy ho =>
    refine ⟨i, o, hslot, Option.eq_none_iff_forall_ne_some.mpr ?_⟩
    exact fun p hp => hgone p (heap_strand.mp hp).2

theorem stranded_run (h : MTr (Step n new strand) r acts t) (hr : Inv n new r)
    (hs : Stranded r) : Stranded t := by
  induction h with
  | refl => exact hs
  | stepL h _ ih => exact ih (inv_step keeps_strand hr h) (stranded_step hr hs h)

/-- Objects that stay in their slots are right there until the first of them is destroyed. -/
theorem live_run_strand (h : MTr (Step n new strand) r acts t) (hr : Inv n new r)
    (hl : Live new r) : Live new t ↔ ∀ o, .destroy o ∉ acts := by
  induction h with
  | refl => exact iff_of_true hl fun o => List.not_mem_nil
  | stepL h ht ih =>
    have hr' := inv_step keeps_strand hr h
    cases h with
    | create hi => simpa using ih hr' (live_create hr hl)
    | destroy ho =>
      refine iff_of_false ?_ fun hno => hno _ List.mem_cons_self
      exact not_live_of_stranded (stranded_run ht hr' (stranded_strand hr ho))

/-- An object stays in its slot until it is destroyed. -/
theorem slots_run (hd : Keeps n new destroy) (h : MTr (Step n new destroy) r acts t)
    (hr : Inv n new r) (hslot : r.slots i = some o) (hno : .destroy o ∉ acts) :
    t.slots i = some o := by
  induction h with
  | refl => exact hslot
  | stepL h _ ih =>
    obtain ⟨hne, hno⟩ := not_or.mp (List.mem_cons.not.mp hno)
    refine ih (inv_step hd hr h) ?_ hno
    cases h with
    | create hi => exact slots_create_of_some hslot
    | destroy ho => exact hd.slots hr ho hslot fun heq => hne (by rw [heq])

end Registry
