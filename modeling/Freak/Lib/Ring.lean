import Mathlib.Tactic

/-! The list a circular buffer holds. -/
namespace Ring

variable {α : Type} {depth rd len : Nat} {slots : Nat → α}

/-- The `len` elements from slot `rd` on. -/
def items (depth rd len : Nat) (slots : Nat → α) : List α :=
  (List.range len).map fun i => slots ((rd + i) % depth)

@[simp] theorem length_items : (items depth rd len slots).length = len := by
  simp [items]

theorem items_eq_nil : items depth rd len slots = [] ↔ len = 0 := by
  rw [← List.length_eq_zero_iff, length_items]

/-- The slot behind the last element is none of those in use. -/
theorem slot_ne {i : Nat} (hi : i < len) (hlen : len < depth) :
    (rd + i) % depth ≠ (rd + len) % depth := by
  intro h
  have hmod : i ≡ len [MOD depth] := Nat.ModEq.add_left_cancel' rd h
  have hil := Nat.ModEq.eq_of_lt_of_lt hmod (hi.trans hlen) hlen
  omega

theorem items_push (hlen : len < depth) (v : α) :
    items depth rd (len + 1) (Function.update slots ((rd + len) % depth) v) =
      items depth rd len slots ++ [v] := by
  rw [items, List.range_succ, List.map_append, List.map_singleton, Function.update_self]
  congr 1
  apply List.map_congr_left
  intro i hi
  exact Function.update_of_ne (slot_ne (List.mem_range.mp hi) hlen) v slots

theorem items_pop (hrd : rd < depth) :
    items depth rd (len + 1) slots = slots rd :: items depth ((rd + 1) % depth) len slots := by
  rw [items, List.range_succ_eq_map, List.map_cons, List.map_map, Nat.add_zero,
    Nat.mod_eq_of_lt hrd]
  congr 1
  apply List.map_congr_left
  intro i _
  simp only [Function.comp_apply, Nat.mod_add_mod]
  congr 2
  omega

end Ring
