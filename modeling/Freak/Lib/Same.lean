import Freak.Lib.Schema

/-! Records that are equal where they are read: on scalars, strings up to the NUL and the
alternative in use. -/
namespace Schema

open Bytes Json

theorem condIs_congr {name : String} {a b : List UInt8} (hname : 0 ∉ ascii name)
    (hlen : a.length = b.length) (h : cstr a = cstr b) : condIs name a = condIs name b := by
  have hz : 0 ∈ a ↔ 0 ∈ b := by
    rw [zero_mem_iff, zero_mem_iff, strlen, strlen, h, hlen]
  have hsome : ∀ c, condIs name c = true → 0 ∈ c := by
    intro c hc
    rw [condIs, beq_iff_eq] at hc
    exact List.mem_of_mem_take (hc ▸ List.mem_append_right _ (List.mem_singleton.mpr rfl))
  rw [Bool.eq_iff_iff]
  constructor
  · intro hc
    have ha := hsome a hc
    rwa [condIs_iff hname (hz.mp ha), ← h, ← condIs_iff hname ha]
  · intro hc
    have hb := hsome b hc
    rwa [condIs_iff hname (hz.mpr hb), h, ← condIs_iff hname hb]

mutual
theorem Ty.same_refl : ∀ (t : Ty) (a : List UInt8), t.Same a a
  | .leaf l, a => by cases l <;> rfl
  | .array _ t, _ => List.forall₂_same.mpr fun x _ => Ty.same_refl t x
  | .struct fs, a => Fields.sameMembers_refl fs a
  | .union c _ alts, a => ⟨rfl, Fields.sameAlternatives_refl alts (a.take c) (a.drop c)⟩

theorem Fields.sameMembers_refl : ∀ (fs : Fields) (a : List UInt8), fs.SameMembers a a
  | .nil, _ => trivial
  | .field _ t fs, _ => ⟨Ty.same_refl t _, Fields.sameMembers_refl fs _⟩
  | .pad n fs, a => Fields.sameMembers_refl fs (a.drop n)

theorem Fields.sameAlternatives_refl : ∀ (fs : Fields) (cond a : List UInt8),
    fs.SameAlternatives cond a a
  | .nil, _, _ => trivial
  | .field _ t fs, cond, a => ⟨fun _ => Ty.same_refl t _, Fields.sameAlternatives_refl fs cond a⟩
  | .pad _ fs, cond, a => Fields.sameAlternatives_refl fs cond a
end

/-- The alternatives in use are found from the condition up to its NUL. -/
theorem Fields.sameAlternatives_congr {cond cond' : List UInt8} : ∀ (fs : Fields)
    (a b : List UInt8), (∀ n ∈ fs.names, condIs n cond = condIs n cond') →
      fs.SameAlternatives cond a b → fs.SameAlternatives cond' a b
  | .nil, _, _, _, _ => trivial
  | .field name _ fs, a, b, hsel, hs =>
    ⟨fun hc => hs.1 (hsel name List.mem_cons_self ▸ hc),
      Fields.sameAlternatives_congr fs a b (fun n hn => hsel n (List.mem_cons_of_mem _ hn)) hs.2⟩
  | .pad _ fs, a, b, hsel, hs => Fields.sameAlternatives_congr fs a b hsel hs

theorem forall₂_trans {R : List UInt8 → List UInt8 → Prop} {xs ys zs : List (List UInt8)}
    (hR : ∀ x ∈ xs, ∀ y ∈ ys, ∀ z ∈ zs, R x y → R y z → R x z) (hxy : List.Forall₂ R xs ys)
    (hyz : List.Forall₂ R ys zs) : List.Forall₂ R xs zs := by
  induction hxy generalizing zs with
  | nil => exact hyz
  | cons hx _ ih =>
    cases hyz with
    | cons hy hrest =>
      have hhead := hR _ List.mem_cons_self _ List.mem_cons_self _ List.mem_cons_self hx hy
      refine List.Forall₂.cons hhead (ih ?_ hrest)
      intro x hx y hy z hz
      exact hR x (List.mem_cons_of_mem _ hx) y (List.mem_cons_of_mem _ hy) z
        (List.mem_cons_of_mem _ hz)

theorem mem_right_of_forall₂ {R : List UInt8 → List UInt8 → Prop} {xs ys : List (List UInt8)}
    (h : List.Forall₂ R xs ys) : ∀ x ∈ xs, ∃ y ∈ ys, R x y := by
  induction h with
  | nil => simp
  | cons hxy _ ih =>
    intro z hz
    rcases List.mem_cons.mp hz with rfl | hz
    · exact ⟨_, List.mem_cons_self, hxy⟩
    · obtain ⟨y, hy, hzy⟩ := ih z hz
      exact ⟨y, List.mem_cons_of_mem _ hy, hzy⟩

/-- A string that is the same as one that ends inside its field does so too. -/
theorem zero_mem_of_cstr {a b : List UInt8} (hlen : a.length = b.length) (h : cstr a = cstr b)
    (hb : 0 ∈ b) : 0 ∈ a := by
  rw [zero_mem_iff, strlen] at hb ⊢
  rwa [h, hlen]

mutual
theorem Ty.terminated_of_same : ∀ (t : Ty), t.Wf → ∀ (a b : List UInt8), a.length = t.size →
    b.length = t.size → t.Same a b → t.Terminated b → t.Terminated a
  | .leaf l, _, a, b, ha, hb, hs, ht => by
    cases l with
    | string n => exact zero_mem_of_cstr (ha.trans hb.symm) hs ht
    | _ => trivial
  | .array n t, hw, a, b, ha, hb, hs, ht => by
    intro x hx
    obtain ⟨y, hy, hxy⟩ := mem_right_of_forall₂ hs x hx
    exact Ty.terminated_of_same t hw x y (length_of_mem_chunks ha x hx)
      (length_of_mem_chunks hb y hy) hxy (ht y hy)
  | .struct fs, hw, a, b, ha, hb, hs, ht =>
    Fields.terminatedMembers_of_same fs hw.2.2 a b ha hb hs ht
  | .union c u alts, hw, a, b, ha, hb, hs, ht => by
    rw [Ty.size] at ha hb
    have hlen : (a.take c).length = (b.take c).length := by
      rw [List.length_take, List.length_take, ha, hb]
    have hsel : ∀ n ∈ alts.names, condIs n (a.take c) = condIs n (b.take c) := by
      intro n hn
      exact condIs_congr (hw.2.1 n hn) hlen hs.1
    exact ⟨zero_mem_of_cstr hlen hs.1 ht.1, Fields.terminatedAlternatives_of_same alts u hw.2.2 _ _
      hsel _ _ (length_drop_add ha) (length_drop_add hb) hs.2 ht.2⟩

theorem Fields.terminatedMembers_of_same : ∀ (fs : Fields), fs.WfMembers →
    ∀ (a b : List UInt8), a.length = fs.size → b.length = fs.size → fs.SameMembers a b →
      fs.TerminatedMembers b → fs.TerminatedMembers a
  | .nil, _, _, _, _, _, _, _ => trivial
  | .field _ t fs, hw, a, b, ha, hb, hs, ht => by
    rw [Fields.size] at ha hb
    exact ⟨Ty.terminated_of_same t hw.1 _ _ (length_take_add ha) (length_take_add hb) hs.1 ht.1,
      Fields.terminatedMembers_of_same fs hw.2 _ _ (length_drop_add ha) (length_drop_add hb) hs.2
        ht.2⟩
  | .pad n fs, hw, a, b, ha, hb, hs, ht => by
    rw [Fields.size] at ha hb
    exact Fields.terminatedMembers_of_same fs hw _ _ (length_drop_add ha) (length_drop_add hb) hs
      ht

theorem Fields.terminatedAlternatives_of_same : ∀ (fs : Fields) (n : Nat),
    fs.WfAlternatives n → ∀ (cond cond' : List UInt8),
    (∀ m ∈ fs.names, condIs m cond = condIs m cond') → ∀ (a b : List UInt8), a.length = n →
    b.length = n → fs.SameAlternatives cond a b → fs.TerminatedAlternatives cond' b →
      fs.TerminatedAlternatives cond a
  | .nil, _, _, _, _, _, _, _, _, _, _, _ => trivial
  | .field name t fs, n, ⟨hle, hwt, hw⟩, cond, cond', hsel, a, b, ha, hb, hs, ht => by
    refine ⟨?_, Fields.terminatedAlternatives_of_same fs n hw cond cond'
      (fun m hm => hsel m (List.mem_cons_of_mem _ hm)) a b ha hb hs.2 ht.2⟩
    intro hc
    have hc' : condIs name cond' = true := hsel name List.mem_cons_self ▸ hc
    exact Ty.terminated_of_same t hwt _ _ (List.length_take_of_le (hle.trans ha.ge))
      (List.length_take_of_le (hle.trans hb.ge)) (hs.1 hc) (ht.1 hc')
  | .pad _ _, _, hw, _, _, _, _, _, _, _, _, _ => absurd hw id
end

mutual
theorem Ty.same_trans : ∀ (t : Ty), t.Wf → ∀ (a b c : List UInt8), a.length = t.size →
    b.length = t.size → c.length = t.size → t.Same a b → t.Same b c → t.Same a c
  | .leaf l, _, a, b, c, _, _, _, hab, hbc => by
    cases l with
    | string => exact Eq.trans (α := List UInt8) hab hbc
    | _ => exact Eq.trans (α := List UInt8) hab hbc
  | .array n t, hw, a, b, c, ha, hb, hc, hab, hbc => by
    refine forall₂_trans ?_ hab hbc
    intro x hx y hy z hz
    exact Ty.same_trans t hw x y z (length_of_mem_chunks ha x hx) (length_of_mem_chunks hb y hy)
      (length_of_mem_chunks hc z hz)
  | .struct fs, hw, a, b, c, ha, hb, hc, hab, hbc =>
    Fields.sameMembers_trans fs hw.2.2 a b c ha hb hc hab hbc
  | .union k u alts, hw, a, b, c, ha, hb, hc, hab, hbc => by
    rw [Ty.size] at ha hb hc
    have hlen : (b.take k).length = (a.take k).length := by
      rw [List.length_take, List.length_take, ha, hb]
    have hsel : ∀ n ∈ alts.names, condIs n (b.take k) = condIs n (a.take k) := by
      intro n hn
      exact condIs_congr (hw.2.1 n hn) hlen hab.1.symm
    exact ⟨hab.1.trans hbc.1, Fields.sameAlternatives_trans alts u hw.2.2 _ _ _ _
      (length_drop_add ha) (length_drop_add hb) (length_drop_add hc) hab.2
      (Fields.sameAlternatives_congr alts _ _ hsel hbc.2)⟩

theorem Fields.sameMembers_trans : ∀ (fs : Fields), fs.WfMembers → ∀ (a b c : List UInt8),
    a.length = fs.size → b.length = fs.size → c.length = fs.size → fs.SameMembers a b →
      fs.SameMembers b c → fs.SameMembers a c
  | .nil, _, _, _, _, _, _, _, _, _ => trivial
  | .field _ t fs, hw, a, b, c, ha, hb, hc, hab, hbc => by
    rw [Fields.size] at ha hb hc
    exact ⟨Ty.same_trans t hw.1 _ _ _ (length_take_add ha) (length_take_add hb)
        (length_take_add hc) hab.1 hbc.1,
      Fields.sameMembers_trans fs hw.2 _ _ _ (length_drop_add ha) (length_drop_add hb)
        (length_drop_add hc) hab.2 hbc.2⟩
  | .pad n fs, hw, a, b, c, ha, hb, hc, hab, hbc => by
    rw [Fields.size] at ha hb hc
    exact Fields.sameMembers_trans fs hw _ _ _ (length_drop_add ha) (length_drop_add hb)
      (length_drop_add hc) hab hbc

theorem Fields.sameAlternatives_trans : ∀ (fs : Fields) (n : Nat), fs.WfAlternatives n →
    ∀ (cond a b c : List UInt8), a.length = n → b.length = n → c.length = n →
      fs.SameAlternatives cond a b → fs.SameAlternatives cond b c → fs.SameAlternatives cond a c
  | .nil, _, _, _, _, _, _, _, _, _, _, _ => trivial
  | .field _ t fs, n, ⟨hle, hwt, hw⟩, cond, a, b, c, ha, hb, hc, hab, hbc => by
    have htake : ∀ {x : List UInt8}, x.length = n → (x.take t.size).length = t.size :=
      fun hx => List.length_take_of_le (hle.trans hx.ge)
    refine ⟨?_, Fields.sameAlternatives_trans fs n hw cond a b c ha hb hc hab.2 hbc.2⟩
    intro hcond
    exact Ty.same_trans t hwt _ _ _ (htake ha) (htake hb) (htake hc) (hab.1 hcond)
      (hbc.1 hcond)
  | .pad _ _, _, hw, _, _, _, _, _, _, _, _, _ => absurd hw id
end

section Lawful

variable {cs : Codecs}

/-- A string has one text, whether it ends inside its field or fills it. -/
theorem Leaf.s2j_string_congr (h : cs.Lawful) {n : Nat} {a b : List UInt8} (ha : a.length = n)
    (hb : b.length = n) (hs : cstr a = cstr b) : cs.s2j (.string n) a = cs.s2j (.string n) b := by
  by_cases hz : 0 ∈ a
  · have hz' : 0 ∈ b := zero_mem_of_cstr (hb.trans ha.symm) hs.symm hz
    rw [h.string n a ha hz, h.string n b hb hz', hs]
  · have hz' : 0 ∉ b := fun hb0 => hz (zero_mem_of_cstr (ha.trans hb.symm) hs hb0)
    have hab : a = b := by rw [← cstr_of_notMem hz, ← cstr_of_notMem hz', hs]
    rw [hab]

mutual
/-- Records that are the same have one text. -/
theorem Ty.s2j_congr (h : cs.Lawful) : ∀ (t : Ty), t.Wf → ∀ (a b : List UInt8),
    a.length = t.size → b.length = t.size → t.Same a b → t.s2j cs a = t.s2j cs b
  | .leaf l, _, a, b, ha, hb, hs => by
    cases l with
    | string n => exact Leaf.s2j_string_congr h ha hb hs
    | _ => exact congrArg (cs.s2j _) hs
  | .array n t, hw, a, b, ha, hb, hs => by
    rw [Ty.s2j, Ty.s2j, h.array, h.array]
    have hmap : ∀ {xs ys : List (List UInt8)}, List.Forall₂ (fun x y => t.Same x y) xs ys →
        (∀ x ∈ xs, x.length = t.size) → (∀ y ∈ ys, y.length = t.size) →
          xs.map (fun x => t.s2j cs x) = ys.map fun y => t.s2j cs y := by
      intro xs ys hf hx hy
      induction hf with
      | nil => rfl
      | cons hxy _ ih =>
        rw [List.map_cons, List.map_cons, Ty.s2j_congr h t hw _ _ (hx _ List.mem_cons_self)
          (hy _ List.mem_cons_self) hxy, ih (fun x hm => hx x (List.mem_cons_of_mem _ hm))
            fun y hm => hy y (List.mem_cons_of_mem _ hm)]
    rw [hmap hs (length_of_mem_chunks ha) (length_of_mem_chunks hb)]
  | .struct fs, hw, a, b, ha, hb, hs => by
    rw [Ty.s2j, Ty.s2j, Fields.members_congr h fs hw.2.2 a b ha hb hs]
  | .union c u alts, hw, a, b, ha, hb, hs => by
    rw [Ty.size] at ha hb
    have hac : (a.take c).length = c := length_take_add ha
    have hbc : (b.take c).length = c := length_take_add hb
    have hsel : ∀ n ∈ alts.names, condIs n (a.take c) = condIs n (b.take c) := by
      intro n hn
      exact condIs_congr (hw.2.1 n hn) (hac.trans hbc.symm) hs.1
    rw [Ty.s2j, Ty.s2j, Leaf.s2j_string_congr h hac hbc hs.1, Fields.alternatives_congr h alts u
      hw.2.2 _ _ hsel _ _ (length_drop_add ha) (length_drop_add hb) hs.2]

theorem Fields.members_congr (h : cs.Lawful) : ∀ (fs : Fields), fs.WfMembers →
    ∀ (a b : List UInt8), a.length = fs.size → b.length = fs.size → fs.SameMembers a b →
      fs.members cs a = fs.members cs b
  | .nil, _, _, _, _, _, _ => rfl
  | .field _ t fs, hw, a, b, ha, hb, hs => by
    rw [Fields.size] at ha hb
    rw [Fields.members, Fields.members,
      Ty.s2j_congr h t hw.1 _ _ (length_take_add ha) (length_take_add hb) hs.1,
      Fields.members_congr h fs hw.2 _ _ (length_drop_add ha) (length_drop_add hb) hs.2]
  | .pad n fs, hw, a, b, ha, hb, hs => by
    rw [Fields.size] at ha hb
    exact Fields.members_congr h fs hw _ _ (length_drop_add ha) (length_drop_add hb) hs

theorem Fields.alternatives_congr (h : cs.Lawful) : ∀ (fs : Fields) (n : Nat),
    fs.WfAlternatives n → ∀ (cond cond' : List UInt8),
    (∀ m ∈ fs.names, condIs m cond = condIs m cond') → ∀ (a b : List UInt8), a.length = n →
    b.length = n → fs.SameAlternatives cond a b →
      fs.alternatives cs cond a = fs.alternatives cs cond' b
  | .nil, _, _, _, _, _, _, _, _, _, _ => rfl
  | .field name t fs, n, ⟨hle, hwt, hw⟩, cond, cond', hsel, a, b, ha, hb, hs => by
    have hname := hsel name List.mem_cons_self
    rw [Fields.alternatives, Fields.alternatives, Fields.alternatives_congr h fs n hw cond cond'
      (fun m hm => hsel m (List.mem_cons_of_mem _ hm)) a b ha hb hs.2, ← hname]
    by_cases hc : condIs name cond = true
    · rw [if_pos hc, if_pos hc, Ty.s2j_congr h t hwt _ _
        (List.length_take_of_le (hle.trans ha.ge)) (List.length_take_of_le (hle.trans hb.ge))
        (hs.1 hc)]
    · rw [if_neg hc, if_neg hc]
  | .pad _ _, _, hw, _, _, _, _, _, _, _, _ => absurd hw id
end

end Lawful

end Schema
