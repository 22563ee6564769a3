import Freak.Lib.JsonRead
import Freak.Lib.Schema

/-! Codecs for leaves and arrays that have the laws: numbers, C strings, names and lists. -/
namespace Schema

open Bytes Json

namespace Leaf

def signed : Leaf → Bool
  | int | int32 => true
  | _ => false

/-- The number that a leaf's bytes hold. -/
def value (l : Leaf) (img : List UInt8) : Int :=
  if l.signed ∧ 256 ^ l.size ≤ 2 * ofLe img then ofLe img - 256 ^ l.size else ofLe img

/-- The bytes of a number. -/
def image (l : Leaf) (n : Int) : List UInt8 := le l.size (n % 256 ^ l.size).toNat

end Leaf

def encodeLeaf : Leaf → List UInt8 → Json
  | .string _, img => .str (cstr img)
  | .enum names, img => ((names[ofLe img]?).map fun s => Json.str (ascii s)).getD .null
  | l, img => .num (l.value img)

def decodeLeaf : Leaf → Option Json → List UInt8 → List UInt8
  | .string n, some (.str s), img => (s ++ [0]).take n ++ img.drop (min n (s.length + 1))
  | .string _, _, img => img
  | .enum names, some (.str s), img =>
    if names.findIdx (ascii · = s) < names.length then le 4 (names.findIdx (ascii · = s)) else img
  | .enum _, _, img => img
  | l, some (.num n), _ => l.image n
  | _, _, img => img

def decodeArray (n sz : Nat) (dec : Option Json → List UInt8 → List UInt8) :
    Option Json → List UInt8 → List UInt8
  | some (.arr xs), img =>
    (List.zipWith (fun x c => dec (some x) c) xs (chunks sz n img)).flatten ++
      img.drop (min xs.length n * sz)
  | _, img => img

/-- Codecs that behave as those of the library. -/
def plain : Codecs where
  s2j := encodeLeaf
  j2s := decodeLeaf
  s2jArray n sz enc img := .arr ((chunks sz n img).map enc)
  j2sArray := decodeArray

theorem image_value {l : Leaf} {img : List UInt8} (h : img.length = l.size) :
    l.image (l.value img) = img := by
  have hlt : ofLe img < 256 ^ l.size := h ▸ ofLe_lt img
  have hmod : (l.value img % 256 ^ l.size).toNat = ofLe img := by
    have hn : (ofLe img : Int) % 256 ^ l.size = ofLe img :=
      Int.emod_eq_of_lt (Int.natCast_nonneg _) (by exact_mod_cast hlt)
    rw [Leaf.value]
    split_ifs
    · rw [Int.sub_emod_right, hn, Int.toNat_natCast]
    · rw [hn, Int.toNat_natCast]
  rw [Leaf.image, hmod, ← h, le_ofLe]

theorem length_image (l : Leaf) (n : Int) : (l.image n).length = l.size := length_le _ _

theorem length_decodeLeaf (l : Leaf) (j : Option Json) (img : List UInt8)
    (h : img.length = l.size) : (decodeLeaf l j img).length = l.size := by
  cases l with
  | string n =>
    cases j with
    | none => exact h
    | some j =>
      cases j with
      | str s =>
        simp only [Leaf.size] at h ⊢
        simp only [decodeLeaf, List.length_append, List.length_take, List.length_drop,
          List.length_singleton]
        omega
      | null | bool | num | arr | obj => exact h
  | enum names =>
    cases j with
    | none => exact h
    | some j =>
      cases j with
      | str s =>
        simp only [decodeLeaf]
        split
        · exact length_le _ _
        · exact h
      | null | bool | num | arr | obj => exact h
  | int | int32 | uint8 | uint16 | uint32 | uint64 =>
    cases j with
    | none => exact h
    | some j =>
      cases j with
      | num n => exact length_image _ n
      | null | bool | str | arr | obj => exact h

theorem length_flatten_of_forall {sz : Nat} {xs : List (List UInt8)} (h : ∀ x ∈ xs, x.length = sz) :
    xs.flatten.length = xs.length * sz := by
  induction xs with
  | nil => simp
  | cons x xs ih =>
    rw [List.flatten_cons, List.length_append, h x List.mem_cons_self,
      ih fun y hy => h y (List.mem_cons_of_mem x hy), List.length_cons]
    ring

theorem length_decodeArray {n sz : Nat} {dec : Option Json → List UInt8 → List UInt8}
    {j : Option Json} {img : List UInt8}
    (hd : ∀ i c, c.length = sz → (dec i c).length = sz) (hi : img.length = n * sz) :
    (decodeArray n sz dec j img).length = n * sz := by
  cases j with
  | none => exact hi
  | some j =>
    cases j with
    | null | bool | num | str | obj => exact hi
    | arr xs =>
      have hz : ∀ x ∈ List.zipWith (fun x c => dec (some x) c) xs (chunks sz n img),
          x.length = sz := by
        intro x hx
        obtain ⟨i, hlt, rfl⟩ := List.mem_iff_getElem.mp hx
        rw [List.getElem_zipWith]
        exact hd _ _ (length_of_mem_chunks hi _ (List.getElem_mem _))
      rw [decodeArray, List.length_append, length_flatten_of_forall hz, List.length_drop, hi,
        List.length_zipWith, length_chunks]
      rw [← Nat.sub_mul, ← Nat.add_mul]
      congr 1
      omega

theorem plain_lawful : plain.Lawful where
  length_leaf := length_decodeLeaf
  absent_leaf := by
    intro l img _
    cases l <;> rfl
  word_round := by
    intro l img old hw hl _
    cases l with
    | uint64 | string | enum => exact hw.elim
    | int | int32 | uint8 | uint16 | uint32 => exact image_value hl
  string := fun _ _ _ _ => rfl
  string_round := by
    intro n img old hi ho h0
    have hlt : (cstr img).length < n := hi ▸ zero_mem_iff.mp h0
    have htake : (cstr img ++ [0]).take n = cstr img ++ [0] :=
      List.take_of_length_le (by simpa using hlt)
    change cstr ((cstr img ++ [0]).take n ++ _) = cstr img
    rw [htake, List.append_assoc, List.singleton_append, cstr_append (zero_notMem_cstr img)]
  array := fun _ _ _ _ => rfl
  array_round := by
    intro n sz dec xs img hx hi
    simp [plain, decodeArray, hx, hi]
  length_array := fun _ _ _ _ _ hd hi => length_decodeArray hd hi
  absent_array := fun _ _ _ _ _ _ => rfl

mutual
/-- A record's strings and names stop at their NULs. -/
theorem Ty.upToNul_s2j : ∀ (t : Ty), t.Wf → ∀ img : List UInt8,
    upToNul (t.s2j plain img) = t.s2j plain img
  | .leaf l, hw, img => by
    cases l with
    | string n => exact congrArg Json.str (cstr_of_notMem (zero_notMem_cstr img))
    | enum | uint64 => exact hw.elim
    | int | int32 | uint8 | uint16 | uint32 => rfl
  | .array n t, hw, img => by
    have hitems : upToNulItems ((chunks t.size n img).map (t.s2j plain)) =
        (chunks t.size n img).map (t.s2j plain) := by
      rw [upToNulItems_eq_map, List.map_map]
      exact List.map_congr_left fun x _ => Ty.upToNul_s2j t hw x
    exact congrArg Json.arr hitems
  | .struct fs, hw, img => by
    rw [Ty.s2j, upToNul, Fields.upToNul_members fs hw.2.1 hw.2.2]
  | .union c u alts, hw, img => by
    have hcond : upToNul (plain.s2j (.string c) (img.take c)) =
        plain.s2j (.string c) (img.take c) :=
      congrArg Json.str (cstr_of_notMem (zero_notMem_cstr (img.take c)))
    rw [Ty.s2j, upToNul, upToNulMembers, hcond,
      Fields.upToNul_alternatives alts u hw.2.1 hw.2.2]
    rfl

theorem Fields.upToNul_members : ∀ (fs : Fields), (∀ n ∈ fs.names, 0 ∉ ascii n) → fs.WfMembers →
    ∀ img : List UInt8, upToNulMembers (fs.members plain img) = fs.members plain img
  | .nil, _, _, _ => rfl
  | .field name t fs, hn, hw, img => by
    rw [Fields.members, upToNulMembers, Ty.upToNul_s2j t hw.1,
      Fields.upToNul_members fs (fun n h => hn n (List.mem_cons_of_mem _ h)) hw.2,
      cstr_of_notMem (hn name List.mem_cons_self)]
  | .pad n fs, hn, hw, img => Fields.upToNul_members fs hn hw (img.drop n)

theorem Fields.upToNul_alternatives : ∀ (fs : Fields) (u : Nat), (∀ n ∈ fs.names, 0 ∉ ascii n) →
    fs.WfAlternatives u → ∀ cond img : List UInt8,
      upToNulMembers (fs.alternatives plain cond img) = fs.alternatives plain cond img
  | .nil, _, _, _, _, _ => rfl
  | .field name t fs, u, hn, hw, cond, img => by
    have hrest := Fields.upToNul_alternatives fs u (fun n h => hn n (List.mem_cons_of_mem _ h))
      hw.2.2 cond img
    rw [Fields.alternatives]
    split_ifs
    · rw [List.singleton_append, upToNulMembers, Ty.upToNul_s2j t hw.2.1, hrest,
        cstr_of_notMem (hn name List.mem_cons_self)]
    · exact hrest
  | .pad _ _, _, _, hw, _, _ => hw.elim
end

end Schema
