import Freak.Lib.Codecs

/-! Records whose very bytes come back from their JSON: numbers of any width, named values, and gaps
that stay as they were. -/
namespace Schema

open Bytes Json

/-- What is relied on besides: the widest numbers come back, and values that have a name. -/
structure Codecs.Exact (cs : Codecs) : Prop where
  long_round : ∀ img old, img.length = 8 → old.length = 8 →
    cs.j2s .uint64 (some (cs.s2j .uint64 img)) old = img
  enum_round : ∀ names img old, img.length = 4 → old.length = 4 → (names.map ascii).Nodup →
    ofLe img < names.length → cs.j2s (.enum names) (some (cs.s2j (.enum names) img)) old = img

mutual
/-- Nothing but numbers and named values, and gaps that two records have in common. -/
def Ty.Exact : Ty → List UInt8 → List UInt8 → Prop
  | .leaf (.string _), _, _ => False
  | .leaf (.enum names), img, _ => (names.map ascii).Nodup ∧ ofLe img < names.length
  | .leaf _, _, _ => True
  | .array n t, img, old =>
    List.Forall₂ (fun x y => Ty.Exact t x y) (chunks t.size n img) (chunks t.size n old)
  | .struct fs, img, old => (fs.names.map lowered).Nodup ∧ Fields.ExactMembers fs img old
  | .union _ _ _, _, _ => False

def Fields.ExactMembers : Fields → List UInt8 → List UInt8 → Prop
  | .nil, _, _ => True
  | .field _ t fs, img, old =>
    Ty.Exact t (img.take t.size) (old.take t.size) ∧
      Fields.ExactMembers fs (img.drop t.size) (old.drop t.size)
  | .pad n fs, img, old =>
    img.take n = old.take n ∧ Fields.ExactMembers fs (img.drop n) (old.drop n)
end

/-- Entries that are decoded to themselves. -/
theorem zipWith_decoded {enc : List UInt8 → Json} {dec : Option Json → List UInt8 → List UInt8}
    {xs ys : List (List UInt8)} (h : List.Forall₂ (fun x y => dec (some (enc x)) y = x) xs ys) :
    List.zipWith (fun j c => dec (some j) c) (xs.map enc) ys = xs := by
  induction h with
  | nil => rfl
  | cons hxy _ ih => rw [List.map_cons, List.zipWith_cons_cons, hxy, ih]

section

variable {cs : Codecs}

mutual
/-- Decoding what was encoded gives the same bytes back. -/
theorem Ty.j2s_exact (h : cs.Lawful) (hx : cs.Exact) : ∀ (t : Ty) (img old : List UInt8),
    img.length = t.size → old.length = t.size → t.Exact img old →
      t.j2s cs (some (t.s2j cs img)) old = img
  | .leaf l, img, old, hi, ho, he => by
    cases l with
    | string n => exact absurd he id
    | enum names => exact hx.enum_round names img old hi ho he.1 he.2
    | uint64 => exact hx.long_round img old hi ho
    | int | int32 | uint8 | uint16 | uint32 => exact h.word_round _ img old trivial hi ho
  | .array n t, img, old, hi, ho, he => by
    have hdec : List.Forall₂ (fun x y => t.j2s cs (some (t.s2j cs x)) y = x)
        (chunks t.size n img) (chunks t.size n old) := by
      rw [List.forall₂_iff_get]
      refine ⟨by simp, fun i hi' ho' => ?_⟩
      exact Ty.j2s_exact h hx t _ _ (length_of_mem_chunks hi _ (List.get_mem _ _))
        (length_of_mem_chunks ho _ (List.get_mem _ _)) (he.get hi' ho')
    simp only [Ty.j2s, Ty.s2j, h.array]
    rw [h.array_round n t.size _ _ old (by simp) ho,
      @zipWith_decoded (fun x => t.s2j cs x) (fun j c => t.j2s cs j c) _ _ hdec, flatten_chunks hi]
  | .struct fs, img, old, hi, ho, he => by
    have hm : fs.Matches cs (some (.obj (fs.members cs img))) img :=
      Fields.matches_members fs [] img (by simp) he.1
    exact Fields.readMembers_exact h hx fs _ rfl img old hm hi ho he.2
  | .union _ _ _, _, _, _, _, he => absurd he id

theorem Fields.readMembers_exact (h : cs.Lawful) (hx : cs.Exact) : ∀ (fs : Fields)
    (j : Option Json), j.any isNull = false → ∀ (img old : List UInt8), fs.Matches cs j img →
    img.length = fs.size → old.length = fs.size → fs.ExactMembers img old →
      fs.readMembers cs j old = img
  | .nil, _, _, img, old, _, hi, ho, _ => by
    rw [Fields.readMembers, List.length_eq_zero_iff.mp hi, List.length_eq_zero_iff.mp ho]
  | .field name t fs, j, hj, img, old, hm, hi, ho, he => by
    rw [Fields.size] at hi ho
    simp only [Fields.readMembers, hj, hm.1]
    rw [if_neg (by simp), Ty.j2s_exact h hx t _ _ (length_take_add hi) (length_take_add ho) he.1,
      Fields.readMembers_exact h hx fs j hj _ _ hm.2 (length_drop_add hi) (length_drop_add ho) he.2,
      List.take_append_drop]
  | .pad n fs, j, hj, img, old, hm, hi, ho, he => by
    rw [Fields.size] at hi ho
    rw [Fields.readMembers, ← he.1,
      Fields.readMembers_exact h hx fs j hj _ _ hm (length_drop_add hi) (length_drop_add ho) he.2,
      List.take_append_drop]
end

end

theorem plain_exact : plain.Exact where
  long_round := fun img _ hi _ => @image_value .uint64 img hi
  enum_round := by
    intro names img old hi _ hnodup hlt
    have hget : names[ofLe img]? = some (names[ofLe img]) := List.getElem?_eq_getElem hlt
    have hfind : names.findIdx (ascii · = ascii names[ofLe img]) = ofLe img := by
      rw [List.findIdx_eq hlt]
      refine ⟨by simp, fun j hj => ?_⟩
      have hne : ascii names[j] ≠ ascii names[ofLe img] := by
        intro heq
        have hj' : j < (names.map ascii).length := by
          rw [List.length_map]
          omega
        have hlt' : ofLe img < (names.map ascii).length := by rwa [List.length_map]
        have hsame : (names.map ascii)[j] = (names.map ascii)[ofLe img] := by
          rw [List.getElem_map, List.getElem_map, heq]
        have hidx : j = ofLe img := hnodup.getElem_inj_iff.mp hsame
        omega
      simpa using hne
    have henc : plain.s2j (.enum names) img = .str (ascii names[ofLe img]) := by
      change encodeLeaf (.enum names) img = _
      rw [encodeLeaf, hget]
      rfl
    change decodeLeaf (.enum names) (some (plain.s2j (.enum names) img)) old = img
    rw [henc, decodeLeaf, hfind, if_pos hlt, ← hi, le_ofLe]

end Schema
