import Freak.Lib.Codecs
import Freak.Lib.Same

/-! Which fields of a record a document gives, whatever the record held. -/
namespace Schema

open Bytes Json

/-- The child is there, and of the leaf's type. -/
def Leaf.Takes : Leaf → Option Json → Prop
  | .string _, j | .enum _, j => ∃ s, j = some (.str s)
  | _, j => ∃ n, j = some (.num n)

/-- An entry of an array. -/
def item : Option Json → Nat → Option Json
  | some (.arr xs), i => xs[i]?
  | _, _ => none

mutual
/-- Strings hold a byte, and the strings before a union every name of its alternatives. -/
def Ty.Roomy : Ty → Prop
  | .leaf (.string n) => 0 < n
  | .leaf _ => True
  | .array _ t => Ty.Roomy t
  | .struct fs => Fields.Roomy fs
  | .union c _ alts => 0 < c ∧ (∀ n ∈ alts.names, n.length + 1 < c) ∧ Fields.Roomy alts

def Fields.Roomy : Fields → Prop
  | .nil => True
  | .field _ t fs => Ty.Roomy t ∧ Fields.Roomy fs
  | .pad _ fs => Fields.Roomy fs
end

mutual
/-- The document has every field with its type, and the alternative that its condition names. -/
def Ty.Gives : Ty → Option Json → Prop
  | .leaf l, j => l.Takes j
  | .array n t, j => ∀ i < n, Ty.Gives t (item j i)
  | .struct fs, j => Fields.GivesMembers fs j
  | .union _ _ alts, j =>
    ∃ s, child "condition" j = some (.str s) ∧ Fields.GivesAlternatives alts s j

def Fields.GivesMembers : Fields → Option Json → Prop
  | .nil, _ => True
  | .field name t fs, j => Ty.Gives t (child name j) ∧ Fields.GivesMembers fs j
  | .pad _ fs, j => Fields.GivesMembers fs j

def Fields.GivesAlternatives : Fields → List UInt8 → Option Json → Prop
  | .nil, _, _ => True
  | .field name t fs, s, j =>
    (cstr s = ascii name → Ty.Gives t (child name j)) ∧ Fields.GivesAlternatives fs s j
  | .pad _ fs, s, j => Fields.GivesAlternatives fs s j
end

/-- What is relied on besides: a leaf is decoded from a child of its type over what its field held,
a string up to where it is cut off, and is left alone by any other child; an array is decoded entry
by entry. -/
structure Codecs.Typed (cs : Codecs) : Prop where
  word : ∀ (l : Leaf) n img old, l.Word → img.length = l.size → old.length = l.size →
    cs.j2s l (some (.num n)) img = cs.j2s l (some (.num n)) old
  string : ∀ n s, ∃ k, n ≤ k + 1 ∧ k ≤ n ∧ ∀ img, img.length = n →
    cstr (cs.j2s (.string n) (some (.str s)) img) = (cstr s).take k
  kept : ∀ l j img, (Ty.leaf l).Wf → ¬ l.Takes j → img.length = l.size → cs.j2s l j img = img
  array : ∀ n sz dec j img, (∀ c, c.length = sz → dec none c = c) → img.length = n * sz →
    cs.j2sArray n sz dec j img =
      ((chunks sz n img).mapIdx fun i c => dec (item j i) c).flatten

variable {j : Option Json} {name : String} {s cond a b : List UInt8}

theorem child_null (h : j.any isNull = true) : child name j = none := by
  cases j with
  | none => rfl
  | some j => cases j <;> first | rfl | cases h

/-- A condition that is cut off no shorter than the name. -/
theorem condIs_iff_of_cstr {c k : Nat} (hlen : cond.length = c)
    (hcond : cstr cond = (cstr s).take k)
    (hk : c ≤ k + 1) (hname : 0 ∉ ascii name) (hroom : name.length + 1 < c) :
    condIs name cond = true ↔ cstr s = ascii name := by
  have hlong : (ascii name).length < k := by
    rw [length_ascii]
    omega
  constructor
  · intro hc
    have htake := hcond.symm.trans (cstr_eq_of_condIs hname hc)
    have hle : (cstr s).length ≤ k := by
      by_contra hgt
      have hlen' := congrArg List.length htake
      rw [List.length_take] at hlen'
      omega
    rwa [List.take_of_length_le hle] at htake
  · intro hs
    rw [hs, List.take_of_length_le hlong.le] at hcond
    have hz : 0 ∈ cond := by
      rw [zero_mem_iff, strlen, hcond, length_ascii]
      omega
    exact (condIs_iff hname hz).mpr hcond

section Chunks

variable {n sz : Nat} {f : Nat → List UInt8 → List UInt8}

/-- What is decoded entry by entry, taken apart again. -/
theorem chunks_mapIdx {img : List UInt8} (hf : ∀ i c, c.length = sz → (f i c).length = sz)
    (hl : img.length = n * sz) :
    chunks sz n ((chunks sz n img).mapIdx f).flatten = (chunks sz n img).mapIdx f := by
  have hall : ∀ x ∈ (chunks sz n img).mapIdx f, x.length = sz := by
    intro x hx
    obtain ⟨i, hi, rfl⟩ := List.mem_mapIdx.mp hx
    exact hf i _ (length_of_mem_chunks hl _ (List.getElem_mem _))
  have hflat := chunks_flatten hall
  rwa [List.length_mapIdx, length_chunks] at hflat

theorem chunks_replicate (sz n : Nat) (b : UInt8) :
    chunks sz n (List.replicate (n * sz) b) = List.replicate n (List.replicate sz b) := by
  induction n with
  | zero => rfl
  | succ n ih =>
    rw [chunks, List.take_replicate, List.drop_replicate, Nat.succ_mul, Nat.add_sub_cancel, ih,
      Nat.min_eq_left (Nat.le_add_left _ _), List.replicate_succ]

end Chunks

/-- Zeros are one string, ones another. -/
theorem cstr_replicate_ne {n : Nat} (hn : 0 < n) :
    cstr (List.replicate n 0) ≠ cstr (List.replicate n 1) := by
  obtain ⟨m, rfl⟩ := Nat.exists_eq_succ_of_ne_zero hn.ne'
  simp [cstr, List.replicate_succ]

theorem take_replicate_add (n m : Nat) (b : UInt8) :
    (List.replicate (n + m) b).take n = List.replicate n b := by
  rw [List.take_replicate, Nat.min_eq_left (Nat.le_add_right _ _)]

theorem drop_replicate_add (n m : Nat) (b : UInt8) :
    (List.replicate (n + m) b).drop n = List.replicate m b := by
  rw [List.drop_replicate, Nat.add_sub_cancel_left]

theorem replicate_ne {n : Nat} (hn : 0 < n) :
    List.replicate n (0 : UInt8) ≠ List.replicate n 1 := by
  intro h
  exact cstr_replicate_ne hn (congrArg cstr h)

section Typed

variable {cs : Codecs}

/-- The members of a null are those of a document that is not there. -/
theorem Fields.readMembers_null (h : cs.Lawful) (hj : j.any isNull = true) (fs : Fields)
    (hw : fs.WfMembers) (img : List UInt8) (hl : img.length = fs.size) :
    fs.readMembers cs j img = fs.readMembers cs none img := by
  cases fs with
  | nil => rfl
  | field name t fs =>
    rw [Fields.readMembers_absent h _ hw img hl, Fields.readMembers, if_pos hj]
  | pad n fs =>
    rw [Fields.size] at hl
    rw [Fields.readMembers, Fields.readMembers,
      Fields.readMembers_null h hj fs hw _ (length_drop_add hl)]

theorem Fields.givesMembers_null (hj : j.any isNull = true) : ∀ (fs : Fields),
    fs.GivesMembers j ↔ fs.GivesMembers none
  | .nil => Iff.rfl
  | .field name t fs => by
    rw [Fields.GivesMembers, Fields.GivesMembers, child_null hj, Fields.givesMembers_null hj fs]
    rfl
  | .pad n fs => Fields.givesMembers_null hj fs

/-- The condition of a union, decoded from a string. -/
theorem condIs_decoded (h : cs.Lawful) (hty : cs.Typed) {c : Nat} {alts : Fields}
    (hzero : ∀ n ∈ alts.names, 0 ∉ ascii n) (hroom : ∀ n ∈ alts.names, n.length + 1 < c)
    (ha : a.length = c) : ∀ n ∈ alts.names,
      condIs n (cs.j2s (.string c) (some (.str s)) a) = true ↔ cstr s = ascii n := by
  intro n hn
  obtain ⟨k, hk, -, hcstr⟩ := hty.string c s
  exact condIs_iff_of_cstr (h.length_leaf (.string c) _ a ha) (hcstr a ha) hk (hzero n hn)
    (hroom n hn)

mutual
/-- What a document gives does not depend on what was there. -/
theorem Ty.same_of_gives (h : cs.Lawful) (hty : cs.Typed) : ∀ (t : Ty), t.Wf → t.Roomy →
    ∀ (j : Option Json) (a b : List UInt8), a.length = t.size → b.length = t.size → t.Gives j →
      t.Same (t.j2s cs j a) (t.j2s cs j b)
  | .leaf l, hw, _, j, a, b, ha, hb, hg => by
    cases l with
    | string n =>
      obtain ⟨s, rfl⟩ := hg
      obtain ⟨k, -, -, hk⟩ := hty.string n s
      exact (hk a ha).trans (hk b hb).symm
    | int | int32 | uint8 | uint16 | uint32 =>
      obtain ⟨n, rfl⟩ := hg
      exact hty.word _ n a b trivial ha hb
    | uint64 | enum => exact absurd hw id
  | .array n t, hw, hr, j, a, b, ha, hb, hg => by
    have habsent : ∀ c : List UInt8, c.length = t.size → t.j2s cs none c = c :=
      fun c hc => Ty.j2s_absent h t hw c hc
    have hlen : ∀ i c, c.length = t.size → (t.j2s cs (item j i) c).length = t.size :=
      fun i c hc => Ty.length_j2s h t (Ty.sized_of_wf t hw) _ c hc
    simp only [Ty.Same, Ty.j2s]
    rw [hty.array n t.size _ j a habsent ha, hty.array n t.size _ j b habsent hb,
      chunks_mapIdx hlen ha, chunks_mapIdx hlen hb, List.forall₂_iff_get]
    refine ⟨by simp, fun i hi _ => ?_⟩
    rw [List.length_mapIdx, length_chunks] at hi
    simp only [List.get_eq_getElem, List.getElem_mapIdx]
    exact Ty.same_of_gives h hty t hw hr _ _ _ (length_of_mem_chunks ha _ (List.getElem_mem _))
      (length_of_mem_chunks hb _ (List.getElem_mem _)) (hg i hi)
  | .struct fs, hw, hr, j, a, b, ha, hb, hg => by
    cases hj : j.any isNull with
    | true =>
      rw [Ty.Gives, Fields.givesMembers_null hj] at hg
      rw [Ty.j2s, Ty.j2s, Fields.readMembers_null h hj fs hw.2.2 a ha,
        Fields.readMembers_null h hj fs hw.2.2 b hb]
      exact Fields.same_of_givesMembers h hty fs hw.2.2 hr none rfl a b ha hb hg
    | false => exact Fields.same_of_givesMembers h hty fs hw.2.2 hr j hj a b ha hb hg
  | .union c u alts, hw, hr, j, a, b, ha, hb, ⟨s, hs, hg⟩ => by
    obtain ⟨hnames, hzero, hw⟩ := hw
    rw [List.map_cons, List.nodup_cons] at hnames
    rw [Ty.size] at ha hb
    have hnull : j.any isNull = false := by
      by_contra hnull
      rw [child_null (by simpa using hnull)] at hs
      cases hs
    have hac : (a.take c).length = c := length_take_add ha
    have hbc : (b.take c).length = c := length_take_add hb
    have hlen : (cs.j2s (.string c) (some (.str s)) (a.take c)).length = c :=
      h.length_leaf (.string c) _ _ hac
    have hlen' : (cs.j2s (.string c) (some (.str s)) (b.take c)).length = c :=
      h.length_leaf (.string c) _ _ hbc
    obtain ⟨k, -, -, hk⟩ := hty.string c s
    simp only [Ty.Same, Ty.j2s, hs, hnull, Bool.false_eq_true, if_false]
    rw [List.take_left' hlen, List.drop_left' hlen, List.take_left' hlen', List.drop_left' hlen']
    exact ⟨(hk _ hac).trans (hk _ hbc).symm,
      Fields.same_of_givesAlternatives h hty alts u hw hr.2.2 hzero hnames.2 j hnull s _ _
        (condIs_decoded h hty hzero hr.2.1 hac) (condIs_decoded h hty hzero hr.2.1 hbc) _ _
        (length_drop_add ha) (length_drop_add hb) hg⟩

theorem Fields.same_of_givesMembers (h : cs.Lawful) (hty : cs.Typed) : ∀ (fs : Fields),
    fs.WfMembers → fs.Roomy → ∀ (j : Option Json), j.any isNull = false →
    ∀ (a b : List UInt8), a.length = fs.size → b.length = fs.size → fs.GivesMembers j →
      fs.SameMembers (fs.readMembers cs j a) (fs.readMembers cs j b)
  | .nil, _, _, _, _, _, _, _, _, _ => trivial
  | .field name t fs, hw, hr, j, hj, a, b, ha, hb, hg => by
    rw [Fields.size] at ha hb
    have hat : (a.take t.size).length = t.size := length_take_add ha
    have hbt : (b.take t.size).length = t.size := length_take_add hb
    have hlen := Ty.length_j2s h t (Ty.sized_of_wf t hw.1) (child name j) _ hat
    have hlen' := Ty.length_j2s h t (Ty.sized_of_wf t hw.1) (child name j) _ hbt
    simp only [Fields.SameMembers, Fields.readMembers, hj, Bool.false_eq_true, if_false]
    rw [List.take_left' hlen, List.drop_left' hlen, List.take_left' hlen', List.drop_left' hlen']
    exact ⟨Ty.same_of_gives h hty t hw.1 hr.1 _ _ _ hat hbt hg.1,
      Fields.same_of_givesMembers h hty fs hw.2 hr.2 j hj _ _ (length_drop_add ha)
        (length_drop_add hb) hg.2⟩
  | .pad n fs, hw, hr, j, hj, a, b, ha, hb, hg => by
    rw [Fields.size] at ha hb
    simp only [Fields.SameMembers, Fields.readMembers]
    rw [List.drop_left' (length_take_add ha), List.drop_left' (length_take_add hb)]
    exact Fields.same_of_givesMembers h hty fs hw hr j hj _ _ (length_drop_add ha)
      (length_drop_add hb) hg

theorem Fields.same_of_givesAlternatives (h : cs.Lawful) (hty : cs.Typed) : ∀ (fs : Fields)
    (n : Nat), fs.WfAlternatives n → fs.Roomy → (∀ m ∈ fs.names, 0 ∉ ascii m) →
    (fs.names.map lowered).Nodup → ∀ (j : Option Json), j.any isNull = false →
    ∀ (s cond cond' : List UInt8),
    (∀ m ∈ fs.names, condIs m cond = true ↔ cstr s = ascii m) →
    (∀ m ∈ fs.names, condIs m cond' = true ↔ cstr s = ascii m) → ∀ (a b : List UInt8),
    a.length = n → b.length = n → fs.GivesAlternatives s j →
      fs.SameAlternatives cond (fs.readAlternatives cs j cond a) (fs.readAlternatives cs j cond' b)
  | .nil, _, _, _, _, _, _, _, _, _, _, _, _, _, _, _, _, _ => trivial
  | .field name t fs, n, ⟨hle, hwt, hw⟩, hr, hzero, hnames, j, hj, s, cond, cond', hsel, hsel', a,
      b, ha, hb, hg => by
    rw [Fields.names, List.map_cons, List.nodup_cons] at hnames
    have hname := hsel name List.mem_cons_self
    have hname' := hsel' name List.mem_cons_self
    simp only [Fields.SameAlternatives, Fields.readAlternatives, hj, Bool.false_eq_true, if_false]
    by_cases hs : cstr s = ascii name
    · have hc := hname.mpr hs
      have hc' := hname'.mpr hs
      have hat : (a.take t.size).length = t.size := List.length_take_of_le (hle.trans ha.ge)
      have hbt : (b.take t.size).length = t.size := List.length_take_of_le (hle.trans hb.ge)
      have hlen := Ty.length_j2s h t (Ty.sized_of_wf t hwt) (child name j) _ hat
      have hlen' := Ty.length_j2s h t (Ty.sized_of_wf t hwt) (child name j) _ hbt
      have hno := condIs_unique hzero hnames.1 hc
      rw [if_pos hc, if_pos hc', Fields.readAlternatives_unused j cond fs _ hno,
        Fields.readAlternatives_unused j cond' fs _ (condIs_unique hzero hnames.1 hc'),
        List.take_left' hlen, List.take_left' hlen']
      exact ⟨fun _ => Ty.same_of_gives h hty t hwt hr.1 _ _ _ hat hbt (hg.1 hs),
        Fields.sameAlternatives_unused cond fs _ _ hno⟩
    · have hc : ¬ condIs name cond = true := fun hc => hs (hname.mp hc)
      have hc' : ¬ condIs name cond' = true := fun hc => hs (hname'.mp hc)
      rw [if_neg hc, if_neg hc']
      exact ⟨fun hc' => absurd hc' hc, Fields.same_of_givesAlternatives h hty fs n hw hr.2
        (fun m hm => hzero m (List.mem_cons_of_mem _ hm)) hnames.2 j hj s cond cond'
        (fun m hm => hsel m (List.mem_cons_of_mem _ hm))
        (fun m hm => hsel' m (List.mem_cons_of_mem _ hm)) a b ha hb hg.2⟩
  | .pad _ _, _, hw, _, _, _, _, _, _, _, _, _, _, _, _, _, _, _ => absurd hw id
end

theorem Fields.givesAlternatives_unused : ∀ (fs : Fields), (∀ m ∈ fs.names, cstr s ≠ ascii m) →
    fs.GivesAlternatives s j
  | .nil, _ => trivial
  | .field name t fs, hno => by
    refine ⟨fun hs => absurd hs (hno name List.mem_cons_self), ?_⟩
    exact Fields.givesAlternatives_unused fs fun m hm => hno m (List.mem_cons_of_mem _ hm)
  | .pad n fs, hno => Fields.givesAlternatives_unused fs hno

mutual
/-- What a document does not give is what was there. -/
theorem Ty.gives_of_same (h : cs.Lawful) (hty : cs.Typed) : ∀ (t : Ty), t.Wf → t.Roomy →
    ∀ (j : Option Json), t.Same (t.j2s cs j (List.replicate t.size 0))
      (t.j2s cs j (List.replicate t.size 1)) → t.Gives j
  | .leaf l, hw, hr, j, hs => by
    by_contra hg
    have hkept : ∀ b, cs.j2s l j (List.replicate l.size b) = List.replicate l.size b :=
      fun b => hty.kept l j _ hw hg List.length_replicate
    simp only [Ty.j2s, Ty.size, hkept] at hs
    cases l with
    | string n => exact cstr_replicate_ne hr hs
    | int | int32 | uint8 | uint16 | uint32 => exact replicate_ne (by decide) hs
    | uint64 | enum => exact hw
  | .array n t, hw, hr, j, hs => by
    have habsent : ∀ c : List UInt8, c.length = t.size → t.j2s cs none c = c :=
      fun c hc => Ty.j2s_absent h t hw c hc
    have hlen : ∀ i c, c.length = t.size → (t.j2s cs (item j i) c).length = t.size :=
      fun i c hc => Ty.length_j2s h t (Ty.sized_of_wf t hw) _ c hc
    have hrep : ∀ b : UInt8, (List.replicate (n * t.size) b).length = n * t.size :=
      fun b => List.length_replicate
    simp only [Ty.Same, Ty.j2s, Ty.size] at hs
    rw [hty.array n t.size _ j _ habsent (hrep 0), hty.array n t.size _ j _ habsent (hrep 1),
      chunks_mapIdx hlen (hrep 0), chunks_mapIdx hlen (hrep 1), chunks_replicate, chunks_replicate,
      List.forall₂_iff_get] at hs
    intro i hi
    have hone := hs.2 i (by simpa using hi) (by simpa using hi)
    simp only [List.get_eq_getElem, List.getElem_mapIdx, List.getElem_replicate] at hone
    exact Ty.gives_of_same h hty t hw hr _ hone
  | .struct fs, hw, hr, j, hs => by
    have hrep : ∀ b : UInt8, (List.replicate fs.size b).length = fs.size :=
      fun b => List.length_replicate
    cases hj : j.any isNull with
    | true =>
      rw [Ty.j2s, Ty.j2s, Ty.size, Fields.readMembers_null h hj fs hw.2.2 _ (hrep 0),
        Fields.readMembers_null h hj fs hw.2.2 _ (hrep 1)] at hs
      rw [Ty.Gives, Fields.givesMembers_null hj]
      exact Fields.givesMembers_of_same h hty fs hw.2.2 hr none rfl hs
    | false => exact Fields.givesMembers_of_same h hty fs hw.2.2 hr j hj hs
  | .union c u alts, hw, hr, j, hs => by
    obtain ⟨hnames, hzero, hw⟩ := hw
    rw [List.map_cons, List.nodup_cons] at hnames
    have hrep : ∀ b : UInt8, (List.replicate c b).length = c := fun b => List.length_replicate
    simp only [Ty.Same, Ty.j2s, Ty.size, take_replicate_add, drop_replicate_add] at hs
    have hnull : j.any isNull = false := by
      by_contra hnull
      rw [if_pos (by simpa using hnull), if_pos (by simpa using hnull), take_replicate_add,
        take_replicate_add] at hs
      exact cstr_replicate_ne hr.1 hs.1
    have hlen : ∀ o b, (cs.j2s (.string c) o (List.replicate c b)).length = c :=
      fun o b => h.length_leaf (.string c) o _ (hrep b)
    simp only [hnull, Bool.false_eq_true, if_false, List.take_left' (hlen _ _),
      List.drop_left' (hlen _ _)] at hs
    by_cases hcond : (Leaf.string c).Takes (child "condition" j)
    · obtain ⟨s, hstr⟩ := hcond
      rw [hstr] at hs
      refine ⟨s, hstr, ?_⟩
      exact Fields.givesAlternatives_of_same h hty alts u hw hr.2.2 hzero hnames.2 j hnull s _ _
        (condIs_decoded h hty hzero hr.2.1 (hrep 0)) (condIs_decoded h hty hzero hr.2.1 (hrep 1))
        hs.2
    · rw [hty.kept (.string c) _ _ trivial hcond (hrep 0),
        hty.kept (.string c) _ _ trivial hcond (hrep 1)] at hs
      exact absurd hs.1 (cstr_replicate_ne hr.1)

theorem Fields.givesMembers_of_same (h : cs.Lawful) (hty : cs.Typed) : ∀ (fs : Fields),
    fs.WfMembers → fs.Roomy → ∀ (j : Option Json), j.any isNull = false →
      fs.SameMembers (fs.readMembers cs j (List.replicate fs.size 0))
        (fs.readMembers cs j (List.replicate fs.size 1)) → fs.GivesMembers j
  | .nil, _, _, _, _, _ => trivial
  | .field name t fs, hw, hr, j, hj, hs => by
    have hlen : ∀ b, (t.j2s cs (child name j) (List.replicate t.size b)).length = t.size :=
      fun b => Ty.length_j2s h t (Ty.sized_of_wf t hw.1) _ _ List.length_replicate
    simp only [Fields.SameMembers, Fields.readMembers, Fields.size, hj, Bool.false_eq_true,
      if_false, take_replicate_add, drop_replicate_add, List.take_left' (hlen _),
      List.drop_left' (hlen _)] at hs
    exact ⟨Ty.gives_of_same h hty t hw.1 hr.1 _ hs.1,
      Fields.givesMembers_of_same h hty fs hw.2 hr.2 j hj hs.2⟩
  | .pad n fs, hw, hr, j, hj, hs => by
    have hlen : ∀ b : UInt8, (List.replicate n b).length = n := fun b => List.length_replicate
    simp only [Fields.SameMembers, Fields.readMembers, Fields.size, take_replicate_add,
      drop_replicate_add, List.drop_left' (hlen _)] at hs
    exact Fields.givesMembers_of_same h hty fs hw hr j hj hs

theorem Fields.givesAlternatives_of_same (h : cs.Lawful) (hty : cs.Typed) : ∀ (fs : Fields)
    (n : Nat), fs.WfAlternatives n → fs.Roomy → (∀ m ∈ fs.names, 0 ∉ ascii m) →
    (fs.names.map lowered).Nodup → ∀ (j : Option Json), j.any isNull = false →
    ∀ (s cond cond' : List UInt8),
    (∀ m ∈ fs.names, condIs m cond = true ↔ cstr s = ascii m) →
    (∀ m ∈ fs.names, condIs m cond' = true ↔ cstr s = ascii m) →
    fs.SameAlternatives cond (fs.readAlternatives cs j cond (List.replicate n 0))
      (fs.readAlternatives cs j cond' (List.replicate n 1)) → fs.GivesAlternatives s j
  | .nil, _, _, _, _, _, _, _, _, _, _, _, _, _ => trivial
  | .field name t fs, n, ⟨hle, hwt, hw⟩, hr, hzero, hnames, j, hj, s, cond, cond', hsel, hsel',
      hs => by
    rw [Fields.names, List.map_cons, List.nodup_cons] at hnames
    have hname := hsel name List.mem_cons_self
    have hname' := hsel' name List.mem_cons_self
    simp only [Fields.SameAlternatives, Fields.readAlternatives, hj, Bool.false_eq_true,
      if_false] at hs
    by_cases hc : cstr s = ascii name
    · have hno := condIs_unique hzero hnames.1 (hname.mpr hc)
      have hno' := condIs_unique hzero hnames.1 (hname'.mpr hc)
      have htake : ∀ b : UInt8, (List.replicate n b).take t.size = List.replicate t.size b := by
        intro b
        rw [List.take_replicate, Nat.min_eq_left hle]
      have hlen : ∀ b, (t.j2s cs (child name j) (List.replicate t.size b)).length = t.size :=
        fun b => Ty.length_j2s h t (Ty.sized_of_wf t hwt) _ _ List.length_replicate
      rw [if_pos (hname.mpr hc), if_pos (hname'.mpr hc),
        Fields.readAlternatives_unused j cond fs _ hno,
        Fields.readAlternatives_unused j cond' fs _ hno'] at hs
      have hgiven := hs.1 (hname.mpr hc)
      rw [htake, htake, List.take_left' (hlen _), List.take_left' (hlen _)] at hgiven
      refine ⟨fun _ => Ty.gives_of_same h hty t hwt hr.1 _ hgiven, ?_⟩
      refine Fields.givesAlternatives_unused fs fun m hm hsm => ?_
      have hm' := (hsel m (List.mem_cons_of_mem _ hm)).mpr hsm
      rw [hno m hm] at hm'
      cases hm'
    · have hcond : ¬ condIs name cond = true := fun h => hc (hname.mp h)
      have hcond' : ¬ condIs name cond' = true := fun h => hc (hname'.mp h)
      rw [if_neg hcond, if_neg hcond'] at hs
      exact ⟨fun h => absurd h hc, Fields.givesAlternatives_of_same h hty fs n hw hr.2
        (fun m hm => hzero m (List.mem_cons_of_mem _ hm)) hnames.2 j hj s cond cond'
        (fun m hm => hsel m (List.mem_cons_of_mem _ hm))
        (fun m hm => hsel' m (List.mem_cons_of_mem _ hm)) hs.2⟩
  | .pad _ _, _, hw, _, _, _, _, _, _, _, _, _, _, _ => absurd hw id
end

end Typed

/-- A record's document gives it whole exactly when what it held does not matter. -/
theorem Ty.gives_iff {cs : Codecs} (h : cs.Lawful) (hty : cs.Typed) {t : Ty} (hw : t.Wf)
    (hr : t.Roomy) : t.Gives j ↔ ∀ a b : List UInt8, a.length = t.size → b.length = t.size →
      t.Same (t.j2s cs j a) (t.j2s cs j b) := by
  constructor
  · intro hg a b ha hb
    exact Ty.same_of_gives h hty t hw hr j a b ha hb hg
  · intro hs
    exact Ty.gives_of_same h hty t hw hr j (hs _ _ List.length_replicate List.length_replicate)

section Plain

variable {n sz : Nat} {dec : Option Json → List UInt8 → List UInt8} {img : List UInt8}

/-- Where there is no entry nothing is changed. -/
theorem mapIdx_none (hdec : ∀ c, c.length = sz → dec none c = c) (hl : img.length = n * sz) :
    ((chunks sz n img).mapIdx fun _ c => dec none c) = chunks sz n img := by
  refine List.ext_getElem (by simp) fun i hi hi' => ?_
  rw [List.getElem_mapIdx]
  exact hdec _ (length_of_mem_chunks hl _ (List.getElem_mem _))

theorem decodeArray_arr (hdec : ∀ c, c.length = sz → dec none c = c) {xs : List Json}
    (hl : img.length = n * sz) : decodeArray n sz dec (some (.arr xs)) img =
      ((chunks sz n img).mapIdx fun i c => dec xs[i]? c).flatten := by
  induction n generalizing xs img with
  | zero =>
    rw [Nat.zero_mul, List.length_eq_zero_iff] at hl
    simp [decodeArray, chunks, hl]
  | succ n ih =>
    have hl' : (img.drop sz).length = n * sz := by
      rw [List.length_drop, hl, Nat.succ_mul, Nat.add_sub_cancel]
    cases xs with
    | nil => simp [decodeArray, mapIdx_none hdec hl, flatten_chunks hl]
    | cons x xs =>
      have hrest : decodeArray n sz dec (some (.arr xs)) (img.drop sz) = _ := ih hl'
      rw [decodeArray, List.drop_drop] at hrest
      rw [decodeArray, chunks, List.zipWith_cons_cons, List.flatten_cons, List.append_assoc,
        List.length_cons, Nat.succ_min_succ, Nat.succ_mul, Nat.add_comm (_ * sz) sz, hrest,
        List.mapIdx_cons, List.flatten_cons]
      rfl

theorem cstr_append_zero (s r : List UInt8) : cstr (s ++ 0 :: r) = cstr s := by
  induction s with
  | nil => rfl
  | cons b s ih =>
    simp only [cstr, List.cons_append, List.takeWhile_cons] at ih ⊢
    rw [ih]

theorem plain_typed : plain.Typed where
  word := by
    intro l n img old hw _ _
    cases l <;> first | exact hw.elim | rfl
  string := by
    intro n s
    refine ⟨n, Nat.le_succ n, le_rfl, fun img hl => ?_⟩
    change cstr ((s ++ [0]).take n ++ img.drop (min n (s.length + 1))) = (cstr s).take n
    by_cases hlt : s.length < n
    · have hle : (cstr s).length ≤ n := (List.takeWhile_prefix _).length_le.trans hlt.le
      rw [List.take_of_length_le (by simpa using hlt), List.append_assoc, List.singleton_append,
        cstr_append_zero, List.take_of_length_le hle]
    · rw [List.take_append_of_le_length (by omega), List.drop_of_length_le (by omega),
        List.append_nil, cstr, cstr, List.take_takeWhile]
  kept := by
    intro l j img hw hn _
    cases l with
    | uint64 | enum => exact hw.elim
    | string n =>
      cases j with
      | none => rfl
      | some j =>
        cases j with
        | str s => exact absurd ⟨s, rfl⟩ hn
        | null | bool | num | arr | obj => rfl
    | int | int32 | uint8 | uint16 | uint32 =>
      cases j with
      | none => rfl
      | some j =>
        cases j with
        | num n => exact absurd ⟨n, rfl⟩ hn
        | null | bool | str | arr | obj => rfl
  array := by
    intro n sz dec j img hdec hl
    cases j with
    | none => exact ((mapIdx_none hdec hl).symm ▸ flatten_chunks hl).symm
    | some j =>
      cases j with
      | arr xs => exact decodeArray_arr hdec hl
      | null | bool | num | str | obj =>
        exact ((mapIdx_none hdec hl).symm ▸ flatten_chunks hl).symm

end Plain

end Schema
