import Mathlib.Tactic

/-! Labelled transition systems: finite runs and what they preserve. -/
namespace Lts

variable {S A : Type} {step : S → A → S → Prop} {s t : S} {xs : List A}

/-- The runs of a step relation, with the actions they take. -/
inductive MTr (step : S → A → S → Prop) : S → List A → S → Prop
  | refl {s : S} : MTr step s [] s
  | stepL {s t u : S} {a : A} {xs : List A} (h : step s a t) (ht : MTr step t xs u) :
      MTr step s (a :: xs) u

/-- `I` holds after every step from a state where it holds. -/
def TrInv (step : S → A → S → Prop) (I : S → Prop) : Prop :=
  ∀ s a t, step s a t → I s → I t

theorem mtrInv_of_trInv {I : S → Prop} (hi : TrInv step I) (h : MTr step s xs t) (hs : I s) :
    I t := by
  induction h with
  | refl => exact hs
  | stepL h _ ih => exact ih (hi _ _ _ h hs)

theorem mtr_append {ys : List A} :
    MTr step s (xs ++ ys) t ↔ ∃ u, MTr step s xs u ∧ MTr step u ys t := by
  constructor
  · intro h
    induction xs generalizing s with
    | nil => exact ⟨s, .refl, h⟩
    | cons a xs ih =>
      cases h with
      | stepL h ht =>
        obtain ⟨u, hu, hut⟩ := ih ht
        exact ⟨u, .stepL h hu, hut⟩
  · rintro ⟨u, hu, hut⟩
    induction hu with
    | refl => exact hut
    | stepL h _ ih => exact .stepL h (ih hut)

/-- What every step keeps of the actions so far and the state holds after a run. -/
theorem mtr_history {I : List A → S → Prop}
    (hi : ∀ xs s a t, I xs s → step s a t → I (xs ++ [a]) t) (h : MTr step s xs t) (hs : I [] s) :
    I xs t := by
  have hall : ∀ past, I past s → I (past ++ xs) t := by
    clear hs
    induction h with
    | refl =>
      intro past hpast
      rwa [List.append_nil]
    | @stepL s u t a xs h _ ih =>
      intro past hpast
      have hnext := ih _ (hi past s a u hpast h)
      rwa [List.append_assoc] at hnext
  exact hall [] hs

/-- A run, step by step, as one of another relation that shows each action in its own way. -/
theorem mtr_shown {B : Type} {step' : S → B → S → Prop} {shows : A → B → Prop}
    (hstep : ∀ s a t, step s a t → ∃ b, shows a b ∧ step' s b t) (h : MTr step s xs t) :
    ∃ ys, List.Forall₂ shows xs ys ∧ MTr step' s ys t := by
  induction h with
  | refl => exact ⟨[], .nil, .refl⟩
  | stepL h _ ih =>
    obtain ⟨b, hb, hb'⟩ := hstep _ _ _ h
    obtain ⟨ys, hys, hys'⟩ := ih
    exact ⟨b :: ys, .cons hb hys, .stepL hb' hys'⟩

section

variable {I : Type} [DecidableEq I] {steps : I → S → A → S → Prop} {ss ts : I → S}
  {as : List (I × A)}

/-- Systems side by side, which share nothing: a step is a step of one of them. -/
inductive Side (steps : I → S → A → S → Prop) : (I → S) → I × A → (I → S) → Prop
  | mk {ss : I → S} {i : I} {a : A} {t : S} (h : steps i (ss i) a t) :
      Side steps ss (i, a) (Function.update ss i t)

/-- The actions of one of the systems. -/
def own (i : I) (as : List (I × A)) : List A :=
  as.filterMap fun x => if x.1 = i then some x.2 else none

theorem mem_own {i : I} {a : A} : a ∈ own i as ↔ (i, a) ∈ as := by
  simp only [own, List.mem_filterMap, Option.ite_none_right_eq_some, Option.some.injEq]
  constructor
  · rintro ⟨⟨_, _⟩, hx, rfl, rfl⟩
    exact hx
  · exact fun h => ⟨(i, a), h, rfl, rfl⟩

/-- However the steps are interleaved, each of the systems has a run of its own. -/
theorem mtr_own (h : MTr (Side steps) ss as ts) (i : I) :
    MTr (steps i) (ss i) (own i as) (ts i) := by
  induction h with
  | refl => exact .refl
  | stepL h _ ih =>
    cases h with
    | @mk j a t h =>
      rw [own, List.filterMap_cons]
      by_cases hj : j = i
      · subst hj
        rw [Function.update_self] at ih
        simp only [if_true]
        exact .stepL h ih
      · rw [Function.update_of_ne (Ne.symm hj)] at ih
        simp only [if_neg hj]
        exact ih

end

/-- The steps at which a condition on state and action holds. -/
def Restrict (step : S → A → S → Prop) (ok : S → A → Prop) : S → A → S → Prop :=
  fun s a t => step s a t ∧ ok s a

end Lts
