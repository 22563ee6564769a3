import Mathlib.Tactic

/-! Computations that stop at an access outside its object or at an assertion that fails. -/
namespace Run

inductive Stop
  | bounds
  | assertion
deriving DecidableEq

end Run

abbrev Run (α : Type) := Except Run.Stop α

namespace Run

/-- An access that is made only inside its object. -/
def access (p : Prop) [Decidable p] : Run Unit := if p then .ok () else .error .bounds

def assert (p : Prop) [Decidable p] : Run Unit := if p then .ok () else .error .assertion

/-- The index of an array of `n` entries. -/
def index (n : Nat) (i : Int) : Run Nat :=
  if 0 ≤ i ∧ i < n then .ok i.toNat else .error .bounds

/-- No access outside its object; an assertion may fail. -/
def InBounds {α : Type} (x : Run α) : Prop := x ≠ .error .bounds

/-- Both stop, or both return and their results are related. -/
def Corres {α β : Type} (r : α → β → Prop) : Run α → Run β → Prop
  | .ok a, .ok b => r a b
  | .error _, .error _ => True
  | _, _ => False

variable {α β γ δ : Type} {x : Run α} {y : Run β} {f : α → Run γ} {g : β → Run δ}
  {p : Prop} [Decidable p] {n : Nat} {i : Int}

theorem corres_iff {r : α → β → Prop} : Corres r x y ↔
    ((∃ a, x = .ok a) ↔ ∃ b, y = .ok b) ∧ ∀ a b, x = .ok a → y = .ok b → r a b := by
  cases x <;> cases y <;> simp [Corres]

@[simp] theorem bind_eq_ok {c : γ} : x >>= f = .ok c ↔ ∃ a, x = .ok a ∧ f a = .ok c := by
  cases x with
  | ok a => simp [bind, Except.bind]
  | error e => simp [bind, Except.bind]

@[simp] theorem pure_eq_ok {a b : α} : (pure a : Run α) = .ok b ↔ a = b :=
  (Except.ok.injEq a b).to_iff

@[simp] theorem map_eq_ok {k : α → γ} {c : γ} : k <$> x = .ok c ↔ ∃ a, x = .ok a ∧ k a = c := by
  cases x with
  | ok a => simp [Functor.map, Except.map]
  | error e => simp [Functor.map, Except.map]

/-- A value that is made of the only one that a computation can return. -/
theorem bind_pure_eq_ok {q : Prop} {a : α} {k : α → γ} {c : γ}
    (hx : ∀ b, x = .ok b ↔ q ∧ b = a) :
    (x >>= fun b => pure (k b)) = .ok c ↔ q ∧ c = k a := by
  simp only [bind_eq_ok, hx, pure_eq_ok]
  constructor
  · rintro ⟨_, ⟨hq, rfl⟩, rfl⟩
    exact ⟨hq, rfl⟩
  · rintro ⟨hq, rfl⟩
    exact ⟨_, ⟨hq, rfl⟩, rfl⟩

theorem corres_refl {r : α → α → Prop} (hr : ∀ a, r a a) : Corres r x x := by
  cases x with
  | ok a => exact hr a
  | error e => trivial

theorem corres_of_ne_ok {r : α → β → Prop} (hx : ∀ a, x ≠ .ok a) (hy : ∀ b, y ≠ .ok b) :
    Corres r x y := by
  rw [corres_iff]
  refine ⟨iff_of_false ?_ ?_, fun a b ha => absurd ha (hx a)⟩
  · exact fun ⟨a, ha⟩ => hx a ha
  · exact fun ⟨b, hb⟩ => hy b hb

theorem corres_mono {r q : α → β → Prop} (h : Corres r x y) (hr : ∀ a b, r a b → q a b) :
    Corres q x y := by
  rw [corres_iff] at h ⊢
  exact ⟨h.1, fun a b ha hb => hr a b (h.2 a b ha hb)⟩

theorem corres_map {r : α → β → Prop} {q : γ → δ → Prop} {k : α → γ} {l : β → δ}
    (h : Corres r x y) (hr : ∀ a b, r a b → q (k a) (l b)) : Corres q (k <$> x) (l <$> y) := by
  cases x with
  | ok a =>
    cases y with
    | ok b => exact hr a b h
    | error e => exact h
  | error e =>
    cases y with
    | ok b => exact h
    | error e => trivial

@[simp] theorem access_eq_ok {u : Unit} : access p = .ok u ↔ p := by
  by_cases h : p <;> simp [access, h]

@[simp] theorem assert_eq_ok {u : Unit} : assert p = .ok u ↔ p := by
  by_cases h : p <;> simp [assert, h]

@[simp] theorem index_eq_ok {k : Nat} : index n i = .ok k ↔ i = k ∧ k < n := by
  simp only [index]
  split_ifs with h
  · rw [Except.ok.injEq]
    omega
  · simp only [false_iff]
    omega

@[simp] theorem inBounds_bind :
    InBounds (x >>= f) ↔ InBounds x ∧ ∀ a, x = .ok a → InBounds (f a) := by
  cases x with
  | ok a => simp [InBounds, bind, Except.bind]
  | error e => simp [InBounds, bind, Except.bind]

@[simp] theorem inBounds_map {k : α → γ} : InBounds (k <$> x) ↔ InBounds x := by
  cases x with
  | ok a => simp [InBounds, Functor.map, Except.map]
  | error e => simp [InBounds, Functor.map, Except.map]

@[simp] theorem inBounds_ok {a : α} : InBounds (.ok a : Run α) ↔ True := iff_of_true nofun trivial

@[simp] theorem inBounds_pure {a : α} : InBounds (pure a : Run α) ↔ True :=
  iff_of_true nofun trivial

@[simp] theorem inBounds_assert : InBounds (assert p) ↔ True := by
  by_cases h : p <;> simp [InBounds, assert, h]

@[simp] theorem inBounds_index : InBounds (index n i) ↔ 0 ≤ i ∧ i < n := by
  by_cases h : 0 ≤ i ∧ i < n <;> simp [InBounds, index, h]

theorem inBounds_index_bind {f : Nat → Run γ} :
    InBounds (index n i >>= f) ↔ (0 ≤ i ∧ i < n) ∧ InBounds (f i.toNat) := by
  rw [inBounds_bind, inBounds_index]
  refine and_congr_right fun hi => ?_
  constructor
  · intro hall
    exact hall _ (index_eq_ok.mpr ⟨by omega, by omega⟩)
  · intro hf k hk
    obtain ⟨rfl, -⟩ := index_eq_ok.mp hk
    exact hf

end Run
