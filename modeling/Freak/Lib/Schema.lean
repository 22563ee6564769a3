import Freak.Lib.Json

/-! Record layouts and the JSON codec generated from one, over the codecs of its leaves. -/
namespace Schema

open Bytes Json

/-- The fields a record is built from. -/
inductive Leaf
  | int
  | int32
  | uint8
  | uint16
  | uint32
  | uint64
  | string (n : Nat)
  | enum (names : List String)

namespace Leaf

def size : Leaf → Nat
  | int | int32 | uint32 | enum _ => 4
  | uint8 => 1
  | uint16 => 2
  | uint64 => 8
  | string n => n

/-- Numbers a double holds exactly. -/
def Word : Leaf → Prop
  | int | int32 | uint8 | uint16 | uint32 => True
  | uint64 | string _ | enum _ => False

end Leaf

mutual
/-- A layout; a union is preceded by the string that names the alternative in use. -/
inductive Ty
  | leaf (l : Leaf)
  | array (n : Nat) (t : Ty)
  | struct (fs : Fields)
  | union (c u : Nat) (alts : Fields)

inductive Fields
  | nil
  | field (name : String) (t : Ty) (fs : Fields)
  | pad (n : Nat) (fs : Fields)
end

mutual
def Ty.size : Ty → Nat
  | .leaf l => l.size
  | .array n t => n * t.size
  | .struct fs => fs.size
  | .union c u _ => c + u

def Fields.size : Fields → Nat
  | .nil => 0
  | .field _ t fs => t.size + fs.size
  | .pad n fs => n + fs.size
end

def chunks (sz : Nat) : Nat → List UInt8 → List (List UInt8)
  | 0, _ => []
  | n + 1, img => img.take sz :: chunks sz n (img.drop sz)

/-- The codecs of leaves and arrays, from and to the bytes of a record. -/
structure Codecs where
  s2j : Leaf → List UInt8 → Json
  j2s : Leaf → Option Json → List UInt8 → List UInt8
  s2jArray : Nat → Nat → (List UInt8 → Json) → List UInt8 → Json
  j2sArray : Nat → Nat → (Option Json → List UInt8 → List UInt8) → Option Json → List UInt8 →
    List UInt8

/-- `!strncmp(name, condition, sizeof(name))`. -/
def condIs (name : String) (cond : List UInt8) : Bool :=
  cond.take (name.length + 1) == ascii name ++ [0]

def child (name : String) (j : Option Json) : Option Json := j.bind (getItem (ascii name))

section Codec

variable (cs : Codecs)

mutual
/-- `JSONB_OPT_S2J`. -/
def Ty.s2j : Ty → List UInt8 → Json
  | .leaf l, img => cs.s2j l img
  | .array n t, img => cs.s2jArray n t.size (fun x => Ty.s2j t x) img
  | .struct fs, img => .obj (Fields.members fs img)
  | .union c _ alts, img =>
    .obj ((ascii "condition", cs.s2j (.string c) (img.take c)) ::
      Fields.alternatives alts (img.take c) (img.drop c))

def Fields.members : Fields → List UInt8 → List (List UInt8 × Json)
  | .nil, _ => []
  | .field name t fs, img =>
    (ascii name, Ty.s2j t (img.take t.size)) :: Fields.members fs (img.drop t.size)
  | .pad n fs, img => Fields.members fs (img.drop n)

def Fields.alternatives : Fields → List UInt8 → List UInt8 → List (List UInt8 × Json)
  | .nil, _, _ => []
  | .field name t fs, cond, u =>
    (if condIs name cond then [(ascii name, Ty.s2j t (u.take t.size))] else []) ++
      Fields.alternatives fs cond u
  | .pad _ fs, cond, u => Fields.alternatives fs cond u
end

mutual
/-- `JSONB_OPT_J2S`: decoding over what the record held. -/
def Ty.j2s : Ty → Option Json → List UInt8 → List UInt8
  | .leaf l, j, img => cs.j2s l j img
  | .array n t, j, img => cs.j2sArray n t.size (fun i x => Ty.j2s t i x) j img
  | .struct fs, j, img => Fields.readMembers fs j img
  | .union c _ alts, j, img =>
    if j.any isNull then img
    else
      let cond := cs.j2s (.string c) (child "condition" j) (img.take c)
      cond ++ Fields.readAlternatives alts j cond (img.drop c)

def Fields.readMembers : Fields → Option Json → List UInt8 → List UInt8
  | .nil, _, img => img
  | .field name t fs, j, img =>
    if j.any isNull then img
    else Ty.j2s t (child name j) (img.take t.size) ++ Fields.readMembers fs j (img.drop t.size)
  | .pad n fs, j, img => img.take n ++ Fields.readMembers fs j (img.drop n)

def Fields.readAlternatives : Fields → Option Json → List UInt8 → List UInt8 → List UInt8
  | .nil, _, _, u => u
  | .field name t fs, j, cond, u =>
    if condIs name cond then
      if j.any isNull then u
      else Fields.readAlternatives fs j cond
        (Ty.j2s t (child name j) (u.take t.size) ++ u.drop t.size)
    else Fields.readAlternatives fs j cond u
  | .pad _ fs, j, cond, u => Fields.readAlternatives fs j cond u
end

end Codec

mutual
/-- Equal on every scalar, on strings up to the NUL and on the alternative in use. -/
def Ty.Same : Ty → List UInt8 → List UInt8 → Prop
  | .leaf (.string _), a, b => cstr a = cstr b
  | .leaf _, a, b => a = b
  | .array n t, a, b =>
    List.Forall₂ (fun x y => Ty.Same t x y) (chunks t.size n a) (chunks t.size n b)
  | .struct fs, a, b => Fields.SameMembers fs a b
  | .union c _ alts, a, b =>
    cstr (a.take c) = cstr (b.take c) ∧
      Fields.SameAlternatives alts (a.take c) (a.drop c) (b.drop c)

def Fields.SameMembers : Fields → List UInt8 → List UInt8 → Prop
  | .nil, _, _ => True
  | .field _ t fs, a, b =>
    Ty.Same t (a.take t.size) (b.take t.size) ∧
      Fields.SameMembers fs (a.drop t.size) (b.drop t.size)
  | .pad n fs, a, b => Fields.SameMembers fs (a.drop n) (b.drop n)

def Fields.SameAlternatives : Fields → List UInt8 → List UInt8 → List UInt8 → Prop
  | .nil, _, _, _ => True
  | .field name t fs, cond, a, b =>
    (condIs name cond = true → Ty.Same t (a.take t.size) (b.take t.size)) ∧
      Fields.SameAlternatives fs cond a b
  | .pad _ fs, cond, a, b => Fields.SameAlternatives fs cond a b
end

mutual
/-- Every string in use ends inside its field. -/
def Ty.Terminated : Ty → List UInt8 → Prop
  | .leaf (.string _), a => 0 ∈ a
  | .leaf _, _ => True
  | .array n t, a => ∀ x ∈ chunks t.size n a, Ty.Terminated t x
  | .struct fs, a => Fields.TerminatedMembers fs a
  | .union c _ alts, a => 0 ∈ a.take c ∧ Fields.TerminatedAlternatives alts (a.take c) (a.drop c)

def Fields.TerminatedMembers : Fields → List UInt8 → Prop
  | .nil, _ => True
  | .field _ t fs, a =>
    Ty.Terminated t (a.take t.size) ∧ Fields.TerminatedMembers fs (a.drop t.size)
  | .pad n fs, a => Fields.TerminatedMembers fs (a.drop n)

def Fields.TerminatedAlternatives : Fields → List UInt8 → List UInt8 → Prop
  | .nil, _, _ => True
  | .field name t fs, cond, a =>
    (condIs name cond = true → Ty.Terminated t (a.take t.size)) ∧
      Fields.TerminatedAlternatives fs cond a
  | .pad _ fs, cond, a => Fields.TerminatedAlternatives fs cond a
end

mutual
def Ty.decTerminated : ∀ (t : Ty) (a : List UInt8), Decidable (t.Terminated a)
  | .leaf (.string _), a => inferInstanceAs (Decidable (0 ∈ a))
  | .leaf .int, _ | .leaf .int32, _ | .leaf .uint8, _ | .leaf .uint16, _ | .leaf .uint32, _
  | .leaf .uint64, _ | .leaf (.enum _), _ => isTrue trivial
  | .array n t, a => @List.decidableBAll _ _ (fun x => Ty.decTerminated t x) (chunks t.size n a)
  | .struct fs, a => Fields.decTerminatedMembers fs a
  | .union c _ alts, a =>
    have := Fields.decTerminatedAlternatives alts (a.take c) (a.drop c)
    inferInstanceAs (Decidable (_ ∧ _))

def Fields.decTerminatedMembers : ∀ (fs : Fields) (a : List UInt8),
    Decidable (fs.TerminatedMembers a)
  | .nil, _ => isTrue trivial
  | .field _ t fs, a =>
    have := Ty.decTerminated t (a.take t.size)
    have := Fields.decTerminatedMembers fs (a.drop t.size)
    inferInstanceAs (Decidable (_ ∧ _))
  | .pad n fs, a => Fields.decTerminatedMembers fs (a.drop n)

def Fields.decTerminatedAlternatives : ∀ (fs : Fields) (cond a : List UInt8),
    Decidable (fs.TerminatedAlternatives cond a)
  | .nil, _, _ => isTrue trivial
  | .field _ t fs, cond, a =>
    have := Ty.decTerminated t (a.take t.size)
    have := Fields.decTerminatedAlternatives fs cond a
    inferInstanceAs (Decidable ((_ → _) ∧ _))
  | .pad _ fs, cond, a => Fields.decTerminatedAlternatives fs cond a
end

instance (t : Ty) (a : List UInt8) : Decidable (t.Terminated a) := t.decTerminated a

def Fields.names : Fields → List String
  | .nil => []
  | .field name _ fs => name :: fs.names
  | .pad _ fs => fs.names

def lowered (name : String) : List UInt8 := (ascii name).map lower

mutual
/-- Leaves that a number or a string holds, names that case does not confuse, alternatives that
fit their union. -/
def Ty.Wf : Ty → Prop
  | .leaf (.string _) => True
  | .leaf l => l.Word
  | .array _ t => Ty.Wf t
  | .struct fs =>
    (fs.names.map lowered).Nodup ∧ (∀ n ∈ fs.names, 0 ∉ ascii n) ∧ Fields.WfMembers fs
  | .union _ u alts =>
    (("condition" :: alts.names).map lowered).Nodup ∧ (∀ n ∈ alts.names, 0 ∉ ascii n) ∧
      Fields.WfAlternatives alts u

def Fields.WfMembers : Fields → Prop
  | .nil => True
  | .field _ t fs => Ty.Wf t ∧ Fields.WfMembers fs
  | .pad _ fs => Fields.WfMembers fs

def Fields.WfAlternatives : Fields → Nat → Prop
  | .nil, _ => True
  | .field _ t fs, u => t.size ≤ u ∧ Ty.Wf t ∧ Fields.WfAlternatives fs u
  | .pad _ _, _ => False
end

mutual
/-- Alternatives fit their union, whatever the leaves and names. -/
def Ty.Sized : Ty → Prop
  | .leaf _ => True
  | .array _ t => Ty.Sized t
  | .struct fs => Fields.SizedMembers fs
  | .union _ u alts => Fields.SizedAlternatives alts u

def Fields.SizedMembers : Fields → Prop
  | .nil => True
  | .field _ t fs => Ty.Sized t ∧ Fields.SizedMembers fs
  | .pad _ fs => Fields.SizedMembers fs

def Fields.SizedAlternatives : Fields → Nat → Prop
  | .nil, _ => True
  | .field _ t fs, u => t.size ≤ u ∧ Ty.Sized t ∧ Fields.SizedAlternatives fs u
  | .pad _ _, _ => False
end

mutual
theorem Ty.sized_of_wf : ∀ (t : Ty), t.Wf → t.Sized
  | .leaf _, _ => trivial
  | .array _ t, hw => Ty.sized_of_wf t hw
  | .struct fs, hw => Fields.sizedMembers_of_wf fs hw.2.2
  | .union _ u alts, hw => Fields.sizedAlternatives_of_wf alts u hw.2.2

theorem Fields.sizedMembers_of_wf : ∀ (fs : Fields), fs.WfMembers → fs.SizedMembers
  | .nil, _ => trivial
  | .field _ t fs, hw => ⟨Ty.sized_of_wf t hw.1, Fields.sizedMembers_of_wf fs hw.2⟩
  | .pad _ fs, hw => Fields.sizedMembers_of_wf fs hw

theorem Fields.sizedAlternatives_of_wf : ∀ (fs : Fields) (n : Nat), fs.WfAlternatives n →
    fs.SizedAlternatives n
  | .nil, _, _ => trivial
  | .field _ t fs, n, hw =>
    ⟨hw.1, Ty.sized_of_wf t hw.2.1, Fields.sizedAlternatives_of_wf fs n hw.2.2⟩
  | .pad _ _, _, hw => absurd hw id
end

/-- What is relied on of the codecs of leaves and arrays: they stay inside their field, leave it
alone when nothing is given for it, and read back what they wrote. -/
structure Codecs.Lawful (cs : Codecs) : Prop where
  length_leaf : ∀ l j img, img.length = l.size → (cs.j2s l j img).length = l.size
  absent_leaf : ∀ l img, img.length = l.size → cs.j2s l none img = img
  word_round : ∀ l img old, l.Word → img.length = l.size → old.length = l.size →
    cs.j2s l (some (cs.s2j l img)) old = img
  string : ∀ n img, img.length = n → 0 ∈ img → cs.s2j (.string n) img = .str (cstr img)
  string_round : ∀ n img old, img.length = n → old.length = n → 0 ∈ img →
    cstr (cs.j2s (.string n) (some (cs.s2j (.string n) img)) old) = cstr img
  array : ∀ n sz enc img, cs.s2jArray n sz enc img = .arr ((chunks sz n img).map enc)
  array_round : ∀ n sz dec xs img, xs.length = n → img.length = n * sz →
    cs.j2sArray n sz dec (some (.arr xs)) img =
      (List.zipWith (fun x c => dec (some x) c) xs (chunks sz n img)).flatten
  length_array : ∀ n sz dec j img, (∀ i c, c.length = sz → (dec i c).length = sz) →
    img.length = n * sz → (cs.j2sArray n sz dec j img).length = n * sz
  absent_array : ∀ n sz dec img, (∀ c, c.length = sz → dec none c = c) →
    img.length = n * sz → cs.j2sArray n sz dec none img = img

section Chunks

variable {sz n : Nat} {img : List UInt8}

@[simp] theorem length_chunks (sz n : Nat) (img : List UInt8) : (chunks sz n img).length = n := by
  induction n generalizing img with
  | zero => rfl
  | succ n ih => simp [chunks, ih]

theorem length_of_mem_chunks (h : img.length = n * sz) : ∀ c ∈ chunks sz n img, c.length = sz := by
  induction n generalizing img with
  | zero => simp [chunks]
  | succ n ih =>
    rw [Nat.succ_mul] at h
    intro c hc
    rcases List.mem_cons.mp hc with rfl | hc
    · rw [List.length_take]
      omega
    · exact ih (by rw [List.length_drop]; omega) c hc

theorem flatten_chunks (hl : img.length = n * sz) : (chunks sz n img).flatten = img := by
  induction n generalizing img with
  | zero =>
    rw [Nat.zero_mul, List.length_eq_zero_iff] at hl
    rw [hl]
    rfl
  | succ n ih =>
    rw [Nat.succ_mul] at hl
    rw [chunks, List.flatten_cons, ih (by rw [List.length_drop]; omega), List.take_append_drop]

theorem chunks_flatten {xs : List (List UInt8)} (h : ∀ x ∈ xs, x.length = sz) :
    chunks sz xs.length xs.flatten = xs := by
  induction xs with
  | nil => rfl
  | cons x xs ih =>
    have hx : x.length = sz := h x List.mem_cons_self
    rw [List.length_cons, List.flatten_cons, chunks, ← hx, List.take_left, List.drop_left, hx,
      ih fun y hy => h y (List.mem_cons_of_mem x hy)]

theorem chunks_append {xs : List (List UInt8)} {rest : List UInt8} (hn : xs.length = n)
    (h : ∀ x ∈ xs, x.length = sz) : chunks sz n (xs.flatten ++ rest) = xs := by
  subst hn
  induction xs with
  | nil => rfl
  | cons x xs ih =>
    have hx : x.length = sz := h x List.mem_cons_self
    rw [List.length_cons, List.flatten_cons, List.append_assoc, chunks, List.take_left' hx,
      List.drop_left' hx, ih fun y hy => h y (List.mem_cons_of_mem x hy)]

/-- Chunks are taken from as many bytes as they have together. -/
theorem chunks_take (sz n : Nat) (img : List UInt8) :
    chunks sz n (img.take (n * sz)) = chunks sz n img := by
  induction n generalizing img with
  | zero => rfl
  | succ n ih =>
    have hle : sz ≤ (n + 1) * sz := Nat.le_mul_of_pos_left sz (Nat.succ_pos n)
    rw [chunks, chunks, List.take_take, Nat.min_eq_left hle, List.drop_take, Nat.succ_mul,
      Nat.add_sub_cancel, ih]

theorem getElem?_chunks {i : Nat} (hi : i < n) :
    (chunks sz n img)[i]? = some (slice img (i * sz) sz) := by
  induction n generalizing img i with
  | zero => omega
  | succ n ih =>
    cases i with
    | zero => simp [chunks, slice]
    | succ i =>
      rw [chunks, List.getElem?_cons_succ, ih (by omega), slice, List.drop_drop, slice,
        Nat.succ_mul, Nat.add_comm sz]

/-- Entries of two arrays at one place. -/
theorem forall₂_chunks {R : List UInt8 → List UInt8 → Prop} {a b : List UInt8} {i : Nat}
    (h : List.Forall₂ R (chunks sz n a) (chunks sz n b)) (hi : i < n) :
    R (slice a (i * sz) sz) (slice b (i * sz) sz) := by
  have ha : i < (chunks sz n a).length := by rwa [length_chunks]
  have hb : i < (chunks sz n b).length := by rwa [length_chunks]
  have hget := h.get ha hb
  have hi_a := List.getElem?_eq_getElem ha
  have hi_b := List.getElem?_eq_getElem hb
  rw [getElem?_chunks hi, Option.some.injEq] at hi_a hi_b
  rw [hi_a, hi_b]
  exact hget

end Chunks

section Lawful

variable {cs : Codecs}

mutual
theorem Ty.length_j2s (h : cs.Lawful) : ∀ (t : Ty), t.Sized → ∀ (j : Option Json)
    (img : List UInt8), img.length = t.size → (t.j2s cs j img).length = t.size
  | .leaf l, _, j, img, hl => h.length_leaf l j img hl
  | .array n t, hw, j, img, hl =>
    h.length_array n t.size _ j img (fun i c hc => Ty.length_j2s h t hw i c hc) hl
  | .struct fs, hw, j, img, hl => Fields.length_readMembers h fs hw j img hl
  | .union c u alts, hw, j, img, hl => by
    rw [Ty.size] at hl
    have hc := h.length_leaf (.string c) (child "condition" j) (img.take c)
      (length_take_add hl)
    simp only [Ty.j2s, Ty.size]
    split
    · exact hl
    · rw [List.length_append, hc, Fields.length_readAlternatives h alts u hw]
      · rfl
      · exact length_drop_add hl

theorem Fields.length_readMembers (h : cs.Lawful) : ∀ (fs : Fields), fs.SizedMembers →
    ∀ (j : Option Json) (img : List UInt8), img.length = fs.size →
      (fs.readMembers cs j img).length = fs.size
  | .nil, _, _, _, hl => hl
  | .field name t fs, hw, j, img, hl => by
    rw [Fields.size] at hl
    simp only [Fields.readMembers, Fields.size]
    split
    · exact hl
    · rw [List.length_append, Ty.length_j2s h t hw.1, Fields.length_readMembers h fs hw.2]
      · exact length_drop_add hl
      · exact length_take_add hl
  | .pad n fs, hw, j, img, hl => by
    rw [Fields.size] at hl
    simp only [Fields.readMembers, Fields.size]
    rw [List.length_append, Fields.length_readMembers h fs hw _ _ (length_drop_add hl),
      length_take_add hl]

theorem Fields.length_readAlternatives (h : cs.Lawful) : ∀ (fs : Fields) (n : Nat),
    fs.SizedAlternatives n → ∀ (j : Option Json) (cond u : List UInt8), u.length = n →
      (fs.readAlternatives cs j cond u).length = n
  | .nil, _, _, _, _, _, hl => hl
  | .field name t fs, n, ⟨hle, ht, hfs⟩, j, cond, u, hl => by
    simp only [Fields.readAlternatives]
    split
    · split
      · exact hl
      · refine Fields.length_readAlternatives h fs n hfs j cond _ ?_
        rw [List.length_append, Ty.length_j2s h t ht]
        · rw [List.length_drop]
          omega
        · exact List.length_take_of_le (hle.trans hl.ge)
    · exact Fields.length_readAlternatives h fs n hfs j cond u hl
  | .pad n fs, _, hw, _, _, _, _ => absurd hw id
end

mutual
/-- Nothing given, nothing changed. -/
theorem Ty.j2s_absent (h : cs.Lawful) : ∀ (t : Ty), t.Wf → ∀ (img : List UInt8),
    img.length = t.size → t.j2s cs none img = img
  | .leaf l, _, img, hl => h.absent_leaf l img hl
  | .array n t, hw, img, hl =>
    h.absent_array n t.size _ img (fun c hc => Ty.j2s_absent h t hw c hc) hl
  | .struct fs, hw, img, hl => Fields.readMembers_absent h fs hw.2.2 img hl
  | .union c u alts, hw, img, hl => by
    obtain ⟨-, -, hw⟩ := hw
    rw [Ty.size] at hl
    have hc : cs.j2s (.string c) none (img.take c) = img.take c :=
      h.absent_leaf (.string c) (img.take c) (length_take_add hl)
    have hu := Fields.readAlternatives_absent h alts u hw (img.take c) (img.drop c)
      (length_drop_add hl)
    simp [Ty.j2s, child, hc, hu]

theorem Fields.readMembers_absent (h : cs.Lawful) : ∀ (fs : Fields), fs.WfMembers →
    ∀ (img : List UInt8), img.length = fs.size → fs.readMembers cs none img = img
  | .nil, _, _, _ => rfl
  | .field name t fs, hw, img, hl => by
    rw [Fields.size] at hl
    have ht := Ty.j2s_absent h t hw.1 (img.take t.size) (length_take_add hl)
    have hfs := Fields.readMembers_absent h fs hw.2 (img.drop t.size) (length_drop_add hl)
    simp [Fields.readMembers, child, ht, hfs]
  | .pad n fs, hw, img, hl => by
    rw [Fields.size] at hl
    have hfs := Fields.readMembers_absent h fs hw (img.drop n) (length_drop_add hl)
    simp [Fields.readMembers, hfs]

theorem Fields.readAlternatives_absent (h : cs.Lawful) : ∀ (fs : Fields) (n : Nat),
    fs.WfAlternatives n → ∀ (cond u : List UInt8), u.length = n →
      fs.readAlternatives cs none cond u = u
  | .nil, _, _, _, _, _ => rfl
  | .field name t fs, n, ⟨hle, ht, hfs⟩, cond, u, hl => by
    have ht := Ty.j2s_absent h t ht (u.take t.size) (List.length_take_of_le (hle.trans hl.ge))
    have hfs := Fields.readAlternatives_absent h fs n hfs cond u hl
    simp [Fields.readAlternatives, child, ht, hfs]
  | .pad n fs, _, hw, _, _, _ => absurd hw id
end

end Lawful

section Lookup

variable {cs : Codecs} {name : String} {pre ms : List (List UInt8 × Json)}

theorem length_ascii (name : String) : (ascii name).length = name.length := by
  simp [ascii, String.length_toList]

/-- Members of other names are passed over. -/
theorem child_append (hpre : ∀ m ∈ pre, m.1.map lower ≠ lowered name) :
    child name (some (.obj (pre ++ ms))) = child name (some (.obj ms)) := by
  have hnone : pre.find? (fun m => m.1.map lower == (ascii name).map lower) = none := by
    rw [List.find?_eq_none]
    intro m hm heq
    exact hpre m hm (by simpa [lowered] using heq)
  simp [child, getItem, List.find?_append, hnone]

theorem child_cons (name : String) (v : Json) (ms : List (List UInt8 × Json)) :
    child name (some (.obj ((ascii name, v) :: ms))) = some v := by
  simp [child, getItem]

variable (cs) in
/-- The members of an object are those written for a record. -/
def Fields.Matches : Fields → Option Json → List UInt8 → Prop
  | .nil, _, _ => True
  | .field name t fs, j, img =>
    child name j = some (t.s2j cs (img.take t.size)) ∧ fs.Matches j (img.drop t.size)
  | .pad n fs, j, img => fs.Matches j (img.drop n)

variable (cs) in
def Fields.MatchesAlternatives : Fields → Option Json → List UInt8 → List UInt8 → Prop
  | .nil, _, _, _ => True
  | .field name t fs, j, cond, u =>
    (condIs name cond = true → child name j = some (t.s2j cs (u.take t.size))) ∧
      fs.MatchesAlternatives j cond u
  | .pad _ fs, j, cond, u => fs.MatchesAlternatives j cond u

/-- No member before the first field's is taken for it. -/
theorem Fields.ne_of_notMem_names {pre : List (List UInt8 × Json)} {t : Ty} {fs : Fields}
    (hpre : ∀ m ∈ pre, m.1.map lower ∉ (Fields.field name t fs).names.map lowered) :
    ∀ m ∈ pre, m.1.map lower ≠ lowered name := by
  intro m hm heq
  exact hpre m hm (by simp [Fields.names, heq])

/-- Nor is one for a later field, with the first field's behind them. -/
theorem Fields.notMem_names_append {pre more : List (List UInt8 × Json)} {t : Ty} {fs : Fields}
    (hpre : ∀ m ∈ pre, m.1.map lower ∉ (Fields.field name t fs).names.map lowered)
    (hname : lowered name ∉ fs.names.map lowered) (hmore : ∀ m ∈ more, m.1 = ascii name) :
    ∀ m ∈ pre ++ more, m.1.map lower ∉ fs.names.map lowered := by
  intro m hm hmem
  rcases List.mem_append.mp hm with hm | hm
  · exact hpre m hm (List.mem_cons_of_mem _ hmem)
  · rw [hmore m hm] at hmem
    exact hname hmem

theorem Fields.matches_members : ∀ (fs : Fields) (pre : List (List UInt8 × Json))
    (img : List UInt8), (∀ m ∈ pre, m.1.map lower ∉ fs.names.map lowered) →
      (fs.names.map lowered).Nodup → fs.Matches cs (some (.obj (pre ++ fs.members cs img))) img
  | .nil, _, _, _, _ => trivial
  | .field name t fs, pre, img, hpre, hfs => by
    rw [Fields.names, List.map_cons, List.nodup_cons] at hfs
    have hname := Fields.ne_of_notMem_names hpre
    have htail : ∀ m ∈ pre ++ [(ascii name, t.s2j cs (img.take t.size))],
        m.1.map lower ∉ fs.names.map lowered := by
      refine Fields.notMem_names_append hpre hfs.1 ?_
      intro m hm
      rw [List.mem_singleton.mp hm]
    refine ⟨by rw [child_append hname, Fields.members, child_cons], ?_⟩
    simpa [Fields.members] using
      Fields.matches_members fs _ (img.drop t.size) htail hfs.2
  | .pad n fs, pre, img, hpre, hfs => Fields.matches_members fs pre (img.drop n) hpre hfs

theorem condIs_iff {cond : List UInt8} (hname : 0 ∉ ascii name) (hcond : 0 ∈ cond) :
    condIs name cond = true ↔ cstr cond = ascii name := by
  rw [condIs, beq_iff_eq, ← length_ascii]
  constructor
  · intro heq
    rw [← List.take_append_drop ((ascii name).length + 1) cond, heq, List.append_assoc]
    exact cstr_append hname
  · intro heq
    obtain ⟨rest, hrest⟩ := cstr_split hcond
    rw [heq] at hrest
    rw [hrest, ← List.singleton_append, ← List.append_assoc]
    exact List.take_left' (by simp)

theorem cstr_eq_of_condIs {cond : List UInt8} (hname : 0 ∉ ascii name)
    (hc : condIs name cond = true) : cstr cond = ascii name := by
  rw [condIs, beq_iff_eq] at hc
  rw [← List.take_append_drop (name.length + 1) cond, hc, List.append_assoc]
  exact cstr_append hname

theorem Fields.matches_alternatives (cond : List UInt8) : ∀ (fs : Fields)
    (pre : List (List UInt8 × Json)) (u : List UInt8), (∀ n ∈ fs.names, 0 ∉ ascii n) →
      (∀ m ∈ pre, m.1.map lower ∉ fs.names.map lowered) → (fs.names.map lowered).Nodup →
      fs.MatchesAlternatives cs (some (.obj (pre ++ fs.alternatives cs cond u))) cond u
  | .nil, _, _, _, _, _ => trivial
  | .field name t fs, pre, u, hzero, hpre, hfs => by
    rw [Fields.names, List.map_cons, List.nodup_cons] at hfs
    have hname := Fields.ne_of_notMem_names hpre
    refine ⟨?_, ?_⟩
    · intro hc
      rw [child_append hname, Fields.alternatives, if_pos hc, List.singleton_append, child_cons]
    · rw [Fields.alternatives, ← List.append_assoc]
      refine Fields.matches_alternatives cond fs _ u
        (fun n hn => hzero n (List.mem_cons_of_mem _ hn)) ?_ hfs.2
      refine Fields.notMem_names_append hpre hfs.1 ?_
      intro m hm
      split at hm
      · rw [List.mem_singleton.mp hm]
      · cases hm
  | .pad n fs, pre, u, hzero, hpre, hfs =>
    Fields.matches_alternatives cond fs pre u hzero hpre hfs

/-- No alternative in use, nothing decoded. -/
theorem Fields.readAlternatives_unused (j : Option Json) (cond : List UInt8) : ∀ (fs : Fields)
    (u : List UInt8), (∀ n ∈ fs.names, condIs n cond = false) →
      fs.readAlternatives cs j cond u = u
  | .nil, _, _ => rfl
  | .field name t fs, u, hno => by
    have hname : condIs name cond = false := hno name List.mem_cons_self
    have hfs := Fields.readAlternatives_unused j cond fs u
      fun n hn => hno n (List.mem_cons_of_mem _ hn)
    simp [Fields.readAlternatives, hname, hfs]
  | .pad n fs, u, hno => Fields.readAlternatives_unused j cond fs u hno

theorem Fields.sameAlternatives_unused (cond : List UInt8) : ∀ (fs : Fields) (a b : List UInt8),
    (∀ n ∈ fs.names, condIs n cond = false) → fs.SameAlternatives cond a b
  | .nil, _, _, _ => trivial
  | .field name t fs, a, b, hno => by
    have hname : condIs name cond = false := hno name List.mem_cons_self
    refine ⟨by simp [hname], ?_⟩
    exact Fields.sameAlternatives_unused cond fs a b fun n hn => hno n (List.mem_cons_of_mem _ hn)
  | .pad n fs, a, b, hno => Fields.sameAlternatives_unused cond fs a b hno

/-- At most one alternative is in use. -/
theorem condIs_unique {name : String} {names : List String} {cond : List UInt8}
    (hzero : ∀ n ∈ name :: names, 0 ∉ ascii n) (hnames : lowered name ∉ names.map lowered)
    (hc : condIs name cond = true) : ∀ n ∈ names, condIs n cond = false := by
  intro n hn
  by_contra hcn
  have hcn : condIs n cond = true := by simpa using hcn
  have heq : ascii n = ascii name :=
    (cstr_eq_of_condIs (hzero n (List.mem_cons_of_mem _ hn)) hcn).symm.trans
      (cstr_eq_of_condIs (hzero name List.mem_cons_self) hc)
  exact hnames (List.mem_map.mpr ⟨n, hn, by rw [lowered, heq, lowered]⟩)

end Lookup

theorem forall₂_decoded {R : List UInt8 → List UInt8 → Prop} {enc : List UInt8 → Json}
    {dec : Option Json → List UInt8 → List UInt8} {xs ys : List (List UInt8)}
    (hlen : xs.length = ys.length)
    (hR : ∀ x ∈ xs, ∀ y ∈ ys, R (dec (some (enc x)) y) x) :
    List.Forall₂ R (List.zipWith (fun j c => dec (some j) c) (xs.map enc) ys) xs := by
  induction xs generalizing ys with
  | nil => simp
  | cons x xs ih =>
    cases ys with
    | nil => simp at hlen
    | cons y ys =>
      refine List.Forall₂.cons (hR x List.mem_cons_self y List.mem_cons_self) ?_
      exact ih (by simpa using hlen) fun x hx y hy =>
        hR x (List.mem_cons_of_mem _ hx) y (List.mem_cons_of_mem _ hy)

section RoundTrip

variable {cs : Codecs} (h : cs.Lawful)
include h

mutual
/-- Decoding what was encoded gives the same record back, whatever was there before. -/
theorem Ty.same_j2s : ∀ (t : Ty), t.Wf → ∀ (img old : List UInt8), img.length = t.size →
    old.length = t.size → t.Terminated img → t.Same (t.j2s cs (some (t.s2j cs img)) old) img
  | .leaf l, hw, img, old, hi, ho, ht => by
    cases l with
    | string n => exact h.string_round n img old hi ho ht
    | int | int32 | uint8 | uint16 | uint32 => exact h.word_round _ img old hw hi ho
    | uint64 | enum => exact absurd hw id
  | .array n t, hw, img, old, hi, ho, ht => by
    have hlen : ∀ c ∈ chunks t.size n old, c.length = t.size := length_of_mem_chunks ho
    have hdec : ∀ x ∈ List.zipWith (fun j c => t.j2s cs (some j) c)
        ((chunks t.size n img).map fun x => t.s2j cs x) (chunks t.size n old),
        x.length = t.size := by
      intro x hx
      rw [List.mem_iff_getElem] at hx
      obtain ⟨i, hi, rfl⟩ := hx
      rw [List.getElem_zipWith]
      exact Ty.length_j2s h t (Ty.sized_of_wf t hw) _ _ (hlen _ (List.getElem_mem _))
    simp only [Ty.Same, Ty.j2s, Ty.s2j, h.array]
    rw [h.array_round n t.size _ _ old (by simp) ho]
    have hchunks := chunks_flatten hdec
    simp only [List.length_zipWith, List.length_map, length_chunks, Nat.min_self] at hchunks
    rw [hchunks]
    exact forall₂_decoded (by simp) fun x hx y hy =>
      Ty.same_j2s t hw x y (length_of_mem_chunks hi x hx) (hlen y hy) (ht x hx)
  | .struct fs, hw, img, old, hi, ho, ht => by
    have hm : fs.Matches cs (some (.obj (fs.members cs img))) img :=
      Fields.matches_members fs [] img (by simp) hw.1
    exact Fields.same_readMembers fs hw.2.2 _ rfl img old hm hi ho ht
  | .union c u alts, hw, img, old, hi, ho, ht => by
    obtain ⟨hnames, hzero, hw⟩ := hw
    rw [List.map_cons, List.nodup_cons] at hnames
    rw [Ty.size] at hi ho
    have hic : (img.take c).length = c := length_take_add hi
    have hoc : (old.take c).length = c := length_take_add ho
    have hcond : child "condition" (some ((Ty.union c u alts).s2j cs img)) =
        some (cs.s2j (.string c) (img.take c)) := child_cons _ _ _
    have hm : alts.MatchesAlternatives cs (some ((Ty.union c u alts).s2j cs img)) (img.take c)
        (img.drop c) :=
      Fields.matches_alternatives (img.take c) alts
        [(ascii "condition", cs.s2j (.string c) (img.take c))] (img.drop c) hzero
        (fun m hm => List.mem_singleton.mp hm ▸ hnames.1) hnames.2
    have hround := h.string_round c (img.take c) (old.take c) hic hoc ht.1
    have hlen : (cs.j2s (.string c) (some (cs.s2j (.string c) (img.take c)))
        (old.take c)).length = c := h.length_leaf (.string c) _ _ hoc
    simp only [Ty.Same, Ty.j2s, hcond]
    generalize cs.j2s (.string c) (some (cs.s2j (.string c) (img.take c))) (old.take c) = cond
      at hround hlen
    have hzc : 0 ∈ cond := by
      have hz := zero_mem_iff.mp ht.1
      rw [hic] at hz
      rwa [zero_mem_iff, strlen, hround, hlen]
    have hsel : ∀ n ∈ alts.names, condIs n cond = condIs n (img.take c) := by
      intro n hn
      rw [Bool.eq_iff_iff, condIs_iff (hzero n hn) hzc, condIs_iff (hzero n hn) ht.1, hround]
    have hnull : (some ((Ty.union c u alts).s2j cs img)).any isNull = false := rfl
    rw [if_neg (by rw [hnull]; simp), List.take_left' hlen, List.drop_left' hlen]
    exact ⟨hround, Fields.same_readAlternatives alts u hw hzero hnames.2 _ rfl cond (img.take c)
      hsel (img.drop c) (old.drop c) hm (length_drop_add hi)
      (length_drop_add ho) ht.2⟩

theorem Fields.same_readMembers : ∀ (fs : Fields), fs.WfMembers → ∀ (j : Option Json),
    j.any isNull = false → ∀ (img old : List UInt8), fs.Matches cs j img →
      img.length = fs.size → old.length = fs.size → fs.TerminatedMembers img →
        fs.SameMembers (fs.readMembers cs j old) img
  | .nil, _, _, _, _, _, _, _, _, _ => trivial
  | .field name t fs, hw, j, hj, img, old, hm, hi, ho, ht => by
    rw [Fields.size] at hi ho
    have hio : (img.take t.size).length = t.size := length_take_add hi
    have hoo : (old.take t.size).length = t.size := length_take_add ho
    have hlen := Ty.length_j2s h t (Ty.sized_of_wf t hw.1) (some (t.s2j cs (img.take t.size))) _ hoo
    simp only [Fields.SameMembers, Fields.readMembers, hj, hm.1]
    rw [if_neg (by simp), List.take_left' hlen, List.drop_left' hlen]
    exact ⟨Ty.same_j2s t hw.1 _ _ hio hoo ht.1,
      Fields.same_readMembers fs hw.2 j hj _ _ hm.2 (length_drop_add hi)
        (length_drop_add ho) ht.2⟩
  | .pad n fs, hw, j, hj, img, old, hm, hi, ho, ht => by
    rw [Fields.size] at hi ho
    have hlen : (old.take n).length = n := length_take_add ho
    simp only [Fields.SameMembers, Fields.readMembers]
    rw [List.drop_left' hlen]
    exact Fields.same_readMembers fs hw j hj _ _ hm (length_drop_add hi)
      (length_drop_add ho) ht

theorem Fields.same_readAlternatives : ∀ (fs : Fields) (n : Nat), fs.WfAlternatives n →
    (∀ m ∈ fs.names, 0 ∉ ascii m) → (fs.names.map lowered).Nodup → ∀ (j : Option Json),
    j.any isNull = false → ∀ (cond cond' : List UInt8),
    (∀ m ∈ fs.names, condIs m cond = condIs m cond') → ∀ (img old : List UInt8),
    fs.MatchesAlternatives cs j cond' img → img.length = n → old.length = n →
    fs.TerminatedAlternatives cond' img →
      fs.SameAlternatives cond (fs.readAlternatives cs j cond old) img
  | .nil, _, _, _, _, _, _, _, _, _, _, _, _, _, _, _ => trivial
  | .field name t fs, n, ⟨hle, hwt, hw⟩, hzero, hnames, j, hj, cond, cond', hsel, img, old, hm,
      hi, ho, ht => by
    rw [Fields.names, List.map_cons, List.nodup_cons] at hnames
    have hname := hsel name List.mem_cons_self
    simp only [Fields.SameAlternatives, Fields.readAlternatives, hj]
    cases hc : condIs name cond with
    | true =>
      have hc' : condIs name cond' = true := hname ▸ hc
      have hno := condIs_unique hzero hnames.1 hc
      have hio : (img.take t.size).length = t.size := List.length_take_of_le (hle.trans hi.ge)
      have hoo : (old.take t.size).length = t.size := List.length_take_of_le (hle.trans ho.ge)
      have hlen := Ty.length_j2s h t (Ty.sized_of_wf t hwt) (some (t.s2j cs (img.take t.size)))
        _ hoo
      rw [if_pos rfl, if_neg (by simp), hm.1 hc', Fields.readAlternatives_unused j cond fs _ hno,
        List.take_left' hlen]
      exact ⟨fun _ => Ty.same_j2s t hwt _ _ hio hoo (ht.1 hc'),
        Fields.sameAlternatives_unused cond fs _ _ hno⟩
    | false =>
      rw [if_neg (by simp)]
      exact ⟨fun hne => absurd hne (by simp),
        Fields.same_readAlternatives fs n hw (fun m hm => hzero m (List.mem_cons_of_mem _ hm))
          hnames.2 j hj cond cond' (fun m hm => hsel m (List.mem_cons_of_mem _ hm)) img old hm.2
          hi ho ht.2⟩
  | .pad _ _, _, hw, _, _, _, _, _, _, _, _, _, _, _, _, _ => absurd hw id
end

end RoundTrip

end Schema
