import Freak.Lib.Bytes
import Freak.Lib.Run

/-! Printing into a buffer, with its size and without. -/
namespace Bytes

/-- `snprintf(buf, size, ..)` of a text. -/
def snprintf (buf : List UInt8) (size : Nat) (text : List UInt8) : List UInt8 :=
  if size = 0 then buf else store buf 0 (text.take (size - 1) ++ [0])

/-- `sprintf(&buf[a], ..)` of a text. -/
def sprintf (buf : List UInt8) (a : Nat) (text : List UInt8) : Run (List UInt8) := do
  Run.access (a + text.length + 1 ≤ buf.length)
  pure (store buf a (text ++ [0]))

variable {buf text r : List UInt8} {size a : Nat}

theorem snprintf_eq (hsize : 0 < size) :
    snprintf buf size text =
      text.take (size - 1) ++ 0 :: buf.drop ((text.take (size - 1)).length + 1) := by
  rw [snprintf, if_neg hsize.ne', store_zero]
  simp

theorem length_snprintf (h : size ≤ buf.length) : (snprintf buf size text).length = buf.length := by
  rw [snprintf]
  split_ifs with hsize
  · rfl
  · apply length_store
    simp only [List.length_append, List.length_take, List.length_singleton]
    omega

/-- What does not fit is cut, and a NUL follows. -/
theorem cstr_snprintf (ht : (0 : UInt8) ∉ text) (hsize : 0 < size) :
    cstr (snprintf buf size text) = text.take (size - 1) := by
  rw [snprintf_eq hsize, cstr_append]
  exact fun h => ht (List.mem_of_mem_take h)

theorem strlen_snprintf (ht : (0 : UInt8) ∉ text) (hsize : 0 < size) :
    strlen (snprintf buf size text) = min (size - 1) text.length := by
  rw [strlen, cstr_snprintf ht hsize, List.length_take]

/-- Printing without a size stops at the end of the buffer. -/
theorem sprintf_eq_ok : sprintf buf a text = .ok r ↔
    a + text.length + 1 ≤ buf.length ∧ store buf a (text ++ [0]) = r := by
  by_cases h : a + text.length + 1 ≤ buf.length <;> simp [sprintf, Run.access, h]

/-- Printing at the end of a C string appends to it. -/
theorem cstr_store_strlen (ht : (0 : UInt8) ∉ text) :
    cstr (store buf (strlen buf) (text ++ [0])) = cstr buf ++ text := by
  have htake : buf.take (strlen buf) = cstr buf := by
    rw [strlen, cstr]
    exact (List.prefix_iff_eq_take.mp (List.takeWhile_prefix _)).symm
  rw [store, htake, List.append_assoc, List.append_assoc, ← List.append_assoc (cstr buf) text]
  apply cstr_append
  rw [List.mem_append, not_or]
  exact ⟨zero_notMem_cstr buf, ht⟩

/-- A NUL put behind a string, or where its own is, changes nothing of it. -/
theorem store_nul {s r : List UInt8} (h : s.length ≤ a) :
    ∃ r', store (s ++ 0 :: r) a [0] = s ++ 0 :: r' := by
  obtain ⟨m, rfl⟩ := Nat.exists_eq_add_of_le h
  cases m with
  | zero => exact ⟨r, by simp [store, List.drop_append]⟩
  | succ m =>
    have htake : (s ++ 0 :: r).take (s.length + (m + 1)) = s ++ 0 :: r.take m := by
      rw [List.take_length_add_append, List.take_succ_cons]
    rw [store, htake]
    exact ⟨_, by rw [List.append_assoc, List.append_assoc, List.cons_append]⟩

end Bytes
