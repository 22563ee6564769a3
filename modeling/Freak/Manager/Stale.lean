import Freak.Lib.Given
import Freak.Manager.Formats

/-! What a handler finds in its record, which it does not initialise, when a document leaves fields
out: the macros of `proto.h` on the records of `msgbox_*.c`. -/
namespace Freak.Proto

open Bytes Json Schema

theorem Record.roomy (r : Record) : r.ty.Roomy := by
  have hnames : "mask".length + 1 < 32 ∧ "texts".length + 1 < 32 ∧ "objs".length + 1 < 32 := by
    decide
  cases r <;> simp [hnames, Record.ty, numTy, dummyTy, frameCfgTy, streamCfgTy, chnCapTy, osdCfgTy,
    osdUnionTy, osdMaskTy, osdTextsTy, osdTextTy, osdObjsTy, osdObjTy, pointTy, rectTy, svrCfgTy,
    svrCapTy, algCfgTy, algCapTy, intTy, int32Ty, uint32Ty, Ty.Roomy, Fields.Roomy, Fields.names]

/-- The record with which a handler calls its manager. -/
def Server.called {σ : Type} (v : Server σ) (m : Ops σ) (a : Action) (p : Header)
    (data stack : List UInt8) : Run (List UInt8) :=
  v.dataIn (p.format.toUInt8 == 1) (m.record a).ty p.size.toNat data
    (stack.take (m.record a).ty.size)

end Freak.Proto

namespace Freak.Manager

open Bytes Json Schema
open Freak.Proto (Ops Record Action Key Server Header)

/-- The same call of a manager, by what it reads of the record: `get` and `cap` read its id, a
dummy's not even that. -/
def SameCall (k : Key) (a : Action) (t : Ty) (rec rec' : List UInt8) : Prop :=
  match a with
  | .num => True
  | .cap | .get => k ≠ .dummy → idOf rec = idOf rec'
  | .set | .tgr => t.Same rec rec'

/-- The document has what the manager reads. -/
def Given (k : Key) (a : Action) (t : Ty) (j : Option Json) : Prop :=
  match a with
  | .num => True
  | .cap | .get => k ≠ .dummy → Leaf.int.Takes (child "id" j)
  | .set | .tgr => t.Gives j

/-- Whatever the stack held, a handler calls its manager the same, leaves the same stored records
and sends the same reply. -/
def Fresh (v : Server State) (h : Hal) (k : Key) (chn : UInt8) (a : Action) (p : Header)
    (data : List UInt8) (s : State) : Prop :=
  ∀ stack stack' mem : List UInt8, stack.length = 428 → stack'.length = 428 →
    Run.Corres (SameCall k a ((h.ops k chn).record a).ty)
        (v.called (among k (h.ops k chn)) a p data stack)
        (v.called (among k (h.ops k chn)) a p data stack') ∧
      Run.Corres (fun x y => h.StateSame x.1 y.1 ∧ x.2 = y.2)
        (v.func (among k (h.ops k chn)) a p data stack mem s)
        (v.func (among k (h.ops k chn)) a p data stack' mem s)

section Record

variable {cs : Codecs} {fs : Fields} {j : Option Json} {img rec rec' : List UInt8} {k : Key}
  {a : Action} {h : Hal} {chn : UInt8} (hlaw : cs.Lawful) (hty : cs.Typed)
include hlaw

/-- The id is decoded from the member of that name, or left as it is. -/
theorem take_id (hl : img.length = (Ty.struct (.field "id" Proto.intTy fs)).size) :
    ((Ty.struct (.field "id" Proto.intTy fs)).j2s cs j img).take 4 =
      cs.j2s .int (child "id" j) (img.take 4) := by
  have hsize : Proto.intTy.size = 4 := rfl
  have h4 : (img.take 4).length = 4 := by
    rw [Ty.size, Fields.size, hsize] at hl
    rw [List.length_take]
    omega
  rw [Ty.j2s, Fields.readMembers]
  split
  · next hnull => rw [child_null hnull, hlaw.absent_leaf .int _ h4]
  · rw [hsize]
    exact List.take_left' (hlaw.length_leaf .int _ _ h4)

omit hlaw in
theorem idOf_eq_of_take (h : rec.take 4 = rec'.take 4) : idOf rec = idOf rec' := by
  simp only [idOf, word_congr (n := 0) h]

include hty

/-- The id does not depend on what was there exactly when the document has one. -/
theorem takes_id_iff : Leaf.int.Takes (child "id" j) ↔
    ∀ x y : List UInt8, x.length = (Ty.struct (.field "id" Proto.intTy fs)).size →
      y.length = (Ty.struct (.field "id" Proto.intTy fs)).size →
        idOf ((Ty.struct (.field "id" Proto.intTy fs)).j2s cs j x) =
          idOf ((Ty.struct (.field "id" Proto.intTy fs)).j2s cs j y) := by
  have hsize : Proto.intTy.size = 4 := rfl
  have h4 : ∀ x : List UInt8, x.length = (Ty.struct (.field "id" Proto.intTy fs)).size →
      (x.take 4).length = 4 := by
    intro x hx
    rw [Ty.size, Fields.size, hsize] at hx
    rw [List.length_take]
    omega
  constructor
  · rintro ⟨n, hn⟩ x y hx hy
    apply idOf_eq_of_take
    rw [take_id hlaw hx, take_id hlaw hy, hn]
    exact hty.word .int n _ _ trivial (h4 x hx) (h4 y hy)
  · intro hsame
    by_contra hnot
    have hkept : ∀ b : UInt8, idOf ((Ty.struct (.field "id" Proto.intTy fs)).j2s cs j
        (List.replicate (Ty.struct (.field "id" Proto.intTy fs)).size b)) =
          idOf (List.replicate 4 b) := by
      intro b
      have hl := List.length_replicate (n := (Ty.struct (.field "id" Proto.intTy fs)).size) (a := b)
      apply idOf_eq_of_take
      rw [take_id hlaw hl, hty.kept .int _ _ trivial hnot (h4 _ hl), List.take_replicate,
        List.take_replicate, Ty.size, Fields.size, hsize]
      congr 1
      omega
    have hid := hsame _ _ (List.length_replicate (a := 0)) (List.length_replicate (a := 1))
    rw [hkept, hkept] at hid
    exact absurd hid (by decide)

omit hlaw hty in
theorem record_id (hk : k ≠ .dummy) (ha : a = .cap ∨ a = .get) :
    ∃ fs, ((h.ops k chn).record a).ty = .struct (.field "id" Proto.intTy fs) := by
  rcases ha with rfl | rfl <;> cases k <;> first | exact absurd rfl hk | exact ⟨_, rfl⟩

theorem given_id_iff (ha : a = .cap ∨ a = .get) :
    (k ≠ .dummy → Leaf.int.Takes (child "id" j)) ↔
      ∀ x y : List UInt8, x.length = ((h.ops k chn).record a).ty.size →
        y.length = ((h.ops k chn).record a).ty.size → k ≠ .dummy →
          idOf (((h.ops k chn).record a).ty.j2s cs j x) =
            idOf (((h.ops k chn).record a).ty.j2s cs j y) := by
  by_cases hk : k = .dummy
  · exact iff_of_true (fun hne => absurd hk hne) fun _ _ _ _ hne => absurd hk hne
  · obtain ⟨fs, hfs⟩ := @record_id k a h chn hk ha
    have hiff := @takes_id_iff cs fs j hlaw hty
    rw [hfs, hiff]
    exact ⟨fun h x y hx hy _ => h hk x y hx hy, fun h _ x y hx hy => h x y hx hy hk⟩

/-- A document has what a manager reads exactly when the call does not depend on the stack. -/
theorem given_iff : Given k a ((h.ops k chn).record a).ty j ↔
    ∀ x y : List UInt8, x.length = ((h.ops k chn).record a).ty.size →
      y.length = ((h.ops k chn).record a).ty.size →
        SameCall k a ((h.ops k chn).record a).ty (((h.ops k chn).record a).ty.j2s cs j x)
          (((h.ops k chn).record a).ty.j2s cs j y) := by
  cases a with
  | num => exact iff_of_true trivial fun _ _ _ _ => trivial
  | cap => exact given_id_iff hlaw hty (.inl rfl)
  | get => exact given_id_iff hlaw hty (.inr rfl)
  | set | tgr =>
    exact Ty.gives_iff hlaw hty ((h.ops k chn).record _).wf ((h.ops k chn).record _).roomy

end Record

section Calls

variable {h : Hal} {k : Key} {chn : UInt8} {a : Action} {s t : Slots} {rec rec' out : List UInt8}

theorem dummy_set_eq_ok : (dummyManager chn).call .set s rec = .ok (t, out) ↔
    ∃ n i : Nat, s.dummy chn = .ok n ∧ Run.index 8 chn.toNat = .ok i ∧
      t = { s with info := (s.info.put n rec).put i rec } ∧ out = rec := by
  simp only [Ops.call, dummyManager, Run.bind_eq_ok, Run.pure_eq_ok, Run.assert_eq_ok,
    exists_const, Prod.exists, Prod.mk.injEq]
  constructor
  · rintro ⟨u, ret, ⟨n, hn, rfl, rfl⟩, -, w, ⟨i, hi, rfl⟩, rfl, rfl⟩
    exact ⟨n, i, hn, hi, rfl, rfl⟩
  · rintro ⟨n, i, hn, hi, rfl, rfl⟩
    exact ⟨_, 0, ⟨n, hn, rfl, rfl⟩, rfl, _, ⟨i, hi, rfl⟩, rfl, rfl⟩

/-- A dummy is found by the channel, whatever its record. -/
theorem dummy_corres
    (hsame : a = .set → ((dummyManager chn).record a).ty.Same rec rec') :
    Run.Corres (fun x y => Slots.Same (dummyManager chn).cfgRec.ty x.1 y.1 ∧
        Echoed ((dummyManager chn).record a).ty rec rec' x.2 y.2)
      ((dummyManager chn).call a s rec) ((dummyManager chn).call a s rec') := by
  cases a with
  | num | cap | get => exact Run.corres_refl fun _ => ⟨Slots.same_refl _ _, .inl rfl⟩
  | tgr => trivial
  | set =>
    have hsame := hsame rfl
    rw [Run.corres_iff]
    refine ⟨⟨?_, ?_⟩, ?_⟩
    · rintro ⟨⟨t, out⟩, hcall⟩
      obtain ⟨n, i, hn, hi, -, -⟩ := dummy_set_eq_ok.mp hcall
      exact ⟨_, dummy_set_eq_ok.mpr ⟨n, i, hn, hi, rfl, rfl⟩⟩
    · rintro ⟨⟨t, out⟩, hcall⟩
      obtain ⟨n, i, hn, hi, -, -⟩ := dummy_set_eq_ok.mp hcall
      exact ⟨_, dummy_set_eq_ok.mpr ⟨n, i, hn, hi, rfl, rfl⟩⟩
    · rintro ⟨t, out⟩ ⟨t', out'⟩ hcall hcall'
      obtain ⟨n, i, hn, hi, rfl, rfl⟩ := dummy_set_eq_ok.mp hcall
      obtain ⟨n', i', hn', hi', rfl, rfl⟩ := dummy_set_eq_ok.mp hcall'
      obtain rfl := Except.ok.inj (hn.symm.trans hn')
      obtain rfl := Except.ok.inj (hi.symm.trans hi')
      have hput := Slots.same_put (n := n) (Slots.same_refl _ s) hsame
      exact ⟨Slots.same_put (n := i) hput hsame, .inr ⟨rfl, rfl, hsame⟩⟩

/-- What a manager does of a call is done of the same call again. -/
theorem ops_corres (hshow : h.ShowsRecord) (hl : rec.length = ((h.ops k chn).record a).ty.size)
    (hl' : rec'.length = ((h.ops k chn).record a).ty.size)
    (hcall : SameCall k a ((h.ops k chn).record a).ty rec rec') :
    Run.Corres (fun x y => Slots.Same (h.ops k chn).cfgRec.ty x.1 y.1 ∧
        Echoed ((h.ops k chn).record a).ty rec rec' x.2 y.2)
      ((h.ops k chn).call a s rec) ((h.ops k chn).call a s rec') := by
  by_cases hk : k = .dummy
  · subst hk
    refine dummy_corres fun ha => ?_
    subst ha
    exact hcall
  · obtain ⟨cfgRec, capRec, max, set, tgr, heq, hf, hcongr, -⟩ := @ops_eq_manager h k chn hshow hk
    rw [heq] at hl hl' hcall ⊢
    have hid : a ≠ .num → idOf rec = idOf rec' := by
      intro ha
      cases a with
      | num => exact absurd rfl ha
      | cap | get => exact hcall hk
      | set | tgr => exact idOf_congr hcall
    refine manager_corres hid ?_ ?_ ?_
    · rintro rfl
      exact hcongr s rec rec' hl hl' hcall
    · rintro f rfl htgr
      rw [hf f htgr]
      exact hcongr s rec rec' hl hl' hcall
    · rintro (rfl | rfl) <;> exact hcall

end Calls

section

variable {h : Hal} {v : Server State} {k : Key} {chn : UInt8} {a : Action} {p : Header}
  {data stack stack' mem rec rec' : List UInt8} {s : State} {m : Ops State}

/-- A text that ends where the header says is decoded; any other stops the module. -/
theorem called_eq_ok (hjson : p.format.toUInt8 = 1) : v.called m a p data stack = .ok rec ↔
    (0 ∈ data ∧ p.size.toNat = strlen data + 1) ∧
      rec = (m.record a).ty.j2s v.cs (v.parse (cstr data)) (stack.take (m.record a).ty.size) := by
  rw [Server.called, Server.dataIn, hjson, if_pos (by decide)]
  simp only [Run.bind_eq_ok, Run.access_eq_ok, Run.assert_eq_ok, Run.pure_eq_ok, exists_const,
    and_assoc]
  exact and_congr_right fun _ => and_congr_right fun _ => eq_comm

theorem dataOut_echoed {ty : Ty} (hlaw : v.cs.Lawful) (hw : ty.Wf) {out out' : List UInt8}
    (hl : rec.length = ty.size) (hl' : rec'.length = ty.size) (he : Echoed ty rec rec' out out') :
    Proto.dataOut v.numText v.cs true ty (out.take ty.size) mem =
      Proto.dataOut v.numText v.cs true ty (out'.take ty.size) mem := by
  rcases he with rfl | ⟨rfl, rfl, hs⟩
  · rfl
  · rw [List.take_of_length_le hl.le, List.take_of_length_le hl'.le]
    simp only [Proto.dataOut, if_true, Ty.s2j_congr hlaw ty hw _ _ hl hl' hs]

/-- The same call leads to the same stored records and the same reply. -/
theorem func_corres (hlaw : v.cs.Lawful) (hshow : h.ShowsRecord) (hjson : p.format.toUInt8 = 1)
    (hl : rec.length = ((h.ops k chn).record a).ty.size)
    (hl' : rec'.length = ((h.ops k chn).record a).ty.size)
    (hrec : v.called (among k (h.ops k chn)) a p data stack = .ok rec)
    (hrec' : v.called (among k (h.ops k chn)) a p data stack' = .ok rec')
    (hcall : SameCall k a ((h.ops k chn).record a).ty rec rec') :
    Run.Corres (fun x y => h.StateSame x.1 y.1 ∧ x.2 = y.2)
      (v.func (among k (h.ops k chn)) a p data stack mem s)
      (v.func (among k (h.ops k chn)) a p data stack' mem s) := by
  have hcorres := corres_among (s := s) (ops_corres hshow hl hl' hcall)
  rw [Run.corres_iff] at hcorres ⊢
  obtain ⟨hends, hsame⟩ := hcorres
  refine ⟨⟨?_, ?_⟩, ?_⟩
  · rintro ⟨⟨t, e⟩, hx⟩
    obtain ⟨r, out, hr, hx, -⟩ := Server.func_eq_ok.mp hx
    obtain rfl := Except.ok.inj (hrec.symm.trans hr)
    obtain ⟨⟨t', out'⟩, hy⟩ := hends.mp ⟨_, hx⟩
    exact ⟨_, Server.func_eq_ok.mpr ⟨_, out', hrec', hy, rfl⟩⟩
  · rintro ⟨⟨t, e⟩, hy⟩
    obtain ⟨r, out, hr, hy, -⟩ := Server.func_eq_ok.mp hy
    obtain rfl := Except.ok.inj (hrec'.symm.trans hr)
    obtain ⟨⟨t', out'⟩, hx⟩ := hends.mpr ⟨_, hy⟩
    exact ⟨_, Server.func_eq_ok.mpr ⟨_, out', hrec, hx, rfl⟩⟩
  · rintro ⟨t, e⟩ ⟨t', e'⟩ hx hy
    obtain ⟨r, out, hr, hx, rfl⟩ := Server.func_eq_ok.mp hx
    obtain ⟨r', out', hr', hy, rfl⟩ := Server.func_eq_ok.mp hy
    obtain rfl := Except.ok.inj (hrec.symm.trans hr)
    obtain rfl := Except.ok.inj (hrec'.symm.trans hr')
    obtain ⟨hstate, hecho⟩ := hsame _ _ hx hy
    refine ⟨hstate, ?_⟩
    rw [hjson, record_among]
    exact dataOut_echoed hlaw ((h.ops k chn).record a).wf hl hl' hecho

/-- What a handler does is the same whatever the stack held exactly when the document has what its
manager reads: the whole record of a SET or TGR, the id of a GET or CAP. A message that does not
end where its header says stops the module before. -/
theorem fresh_iff (hlaw : v.cs.Lawful) (hty : v.cs.Typed) (hshow : h.ShowsRecord)
    (hjson : p.format.toUInt8 = 1) : Fresh v h k chn a p data s ↔
      (0 ∈ data → p.size.toNat = strlen data + 1 →
        Given k a ((h.ops k chn).record a).ty (v.parse (cstr data))) := by
  have hsize := ((h.ops k chn).record a).size_le
  have htake : ∀ {stack : List UInt8}, stack.length = 428 →
      (stack.take ((h.ops k chn).record a).ty.size).length = ((h.ops k chn).record a).ty.size :=
    fun hs => Server.length_take_stack hs
  constructor
  · intro hf h0 hend
    rw [given_iff hlaw hty]
    intro x y hx hy
    have hlen : ∀ z : List UInt8, z.length = ((h.ops k chn).record a).ty.size →
        (z ++ List.replicate (428 - z.length) 0).length = 428 := by
      intro z hz
      rw [List.length_append, List.length_replicate]
      omega
    obtain ⟨hcall, -⟩ := hf _ _ [] (hlen x hx) (hlen y hy)
    obtain ⟨-, hsame⟩ := Run.corres_iff.mp hcall
    have hxy := hsame _ _ ((called_eq_ok hjson).mpr ⟨⟨h0, hend⟩, rfl⟩)
      ((called_eq_ok hjson).mpr ⟨⟨h0, hend⟩, rfl⟩)
    rwa [record_among, List.take_left' hx, List.take_left' hy] at hxy
  · intro hg stack stack' mem hstack hstack'
    by_cases htext : 0 ∈ data ∧ p.size.toNat = strlen data + 1
    · have hrec : ∀ stack : List UInt8, v.called (among k (h.ops k chn)) a p data stack =
          .ok (((h.ops k chn).record a).ty.j2s v.cs (v.parse (cstr data))
            (stack.take ((h.ops k chn).record a).ty.size)) := by
        intro stack
        rw [called_eq_ok hjson, record_among]
        exact ⟨htext, rfl⟩
      have hcall := (given_iff hlaw hty).mp (hg htext.1 htext.2) _ _ (htake hstack) (htake hstack')
      have hlen := fun {stack : List UInt8} (hs : stack.length = 428) =>
        Ty.length_j2s hlaw ((h.ops k chn).record a).ty
          (Ty.sized_of_wf _ ((h.ops k chn).record a).wf) (v.parse (cstr data)) _ (htake hs)
      refine ⟨?_, func_corres hlaw hshow hjson (hlen hstack) (hlen hstack') (hrec stack)
        (hrec stack') hcall⟩
      rw [hrec, hrec]
      exact hcall
    · have hstop : ∀ stack rec, v.called (among k (h.ops k chn)) a p data stack ≠ .ok rec :=
        fun stack rec hok => htext ((called_eq_ok hjson).mp hok).1
      have hnone : ∀ stack x, v.func (among k (h.ops k chn)) a p data stack mem s ≠ .ok x := by
        rintro stack ⟨t, e⟩ hx
        obtain ⟨rec, out, hrec, -⟩ := Server.func_eq_ok.mp hx
        exact hstop stack rec hrec
      exact ⟨Run.corres_of_ne_ok (hstop stack) (hstop stack'),
        Run.corres_of_ne_ok (hnone stack) (hnone stack')⟩

end

open Proto (sampleHal sampleServer)

/-- A stream's configuration is asked for by its id. -/
theorem fresh_get_stream : Fresh (readingServer parseObject) sampleHal .stream 0 .get
    ⟨1, 0, 0, 2, 2, 0, 1, 9⟩ (text decimal (.obj [(ascii "id", .num 1)]) ++ [0]) sampleState := by
  refine (fresh_iff plain_lawful plain_typed (fun _ _ _ _ _ => rfl) rfl).mpr fun _ _ _ => ?_
  have hparse : parseObject (cstr (text decimal (.obj [(ascii "id", .num 1)]) ++ [0])) =
      some (.obj [(ascii "id", .num 1)]) := by
    rw [cstr_append (by decide), ← List.append_nil (text decimal _), parseObject_text rfl]
  exact ⟨1, congrArg (child "id") hparse⟩

/-- A body that is no document: what the stack held is stored. -/
theorem stale_set_stream : ¬ ∀ (v : Server State) (h : Hal) (k : Key) (chn : UInt8) (a : Action)
    (p : Header) (data : List UInt8) (s : State), v.cs.Lawful → v.cs.Typed → h.ShowsRecord →
      p.format.toUInt8 = 1 → a ≠ .num → Fresh v h k chn a p data s := by
  intro hall
  have hf := hall sampleServer sampleHal .stream 0 .set ⟨1, 0, 0, 2, 3, 0, 1, 2⟩ [0x78, 0]
    sampleState plain_lawful plain_typed (fun _ _ _ _ _ => rfl) rfl nofun
  obtain ⟨hcall, -⟩ := hf (List.replicate 428 0) (List.replicate 428 1) [] List.length_replicate
    List.length_replicate
  obtain ⟨-, hsame⟩ := Run.corres_iff.mp hcall
  have hone := hsame _ _ ((called_eq_ok rfl).mpr ⟨⟨by decide, by decide⟩, rfl⟩)
    ((called_eq_ok rfl).mpr ⟨⟨by decide, by decide⟩, rfl⟩)
  have hfirst := @Proto.Record.same_first .streamCfg _ _ hone
  exact absurd hfirst (by decide)

end Freak.Manager
