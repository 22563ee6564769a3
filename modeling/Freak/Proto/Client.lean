import Freak.Lib.Same
import Freak.Proto.Msgbox

/-! The calls of a client in the two formats: `interface/*/*.c`. -/
namespace Freak.Proto

open Bytes Json Schema

/-- `proto_package_fill_header`, in a cleared buffer. -/
def fillHeader (ts : UInt64) (chn : UInt8) (k : Key) (a : Action) (json : Bool) (size : UInt16) :
    List UInt8 :=
  [1, 0, 0, 0, 0, 0, 0, 0] ++ le 8 ts.toNat ++ [chn, 0, 0, 0] ++ le 4 k.value.toNat ++
    le 4 a.value ++ [0, 0, 0, 0] ++ le 4 json.toNat ++ le 2 size.toNat

/-- The channel in a header is the record's id; there is none for a number. -/
def Action.chn (a : Action) (rec : List UInt8) : UInt8 :=
  match a with
  | .num => 255
  | .cap | .get | .set | .tgr => UInt8.ofNat (ofLe (slice rec 0 4))

/-- What a call leaves behind: the managers, the record that one of them was called with and the
record given back. -/
structure Outcome (σ : Type) where
  state : σ
  called : List UInt8
  returned : List UInt8

namespace Server

variable {σ : Type} (v : Server σ)

/-- `proto_client_data_pre` into a cleared buffer, and the package sent from there. -/
def request (json : Bool) (k : Key) (a : Action) (t : Ty) (rec : List UInt8) (ts : UInt64) :
    Run (List UInt8) := do
  let e := dataOut v.numText v.cs json t rec (List.replicate 2010 0)
  Run.access (dataOffset + e.written ≤ packageMaxsize)
  -- the NUL that ends a text
  Run.access (dataOffset + e.osize ≤ packageMaxsize)
  Run.access (e.size.toNat + headerSize ≤ packageMaxsize)
  return fillHeader ts (a.chn rec) k a json e.size ++ e.mem.take (e.size.toNat + 2)

/-- `__vsf_osd_set` of a client and its siblings. -/
def clientCall (json : Bool) (k : Key) (a : Action) (t : Ty) (s : σ) (rec stack obuf : List UInt8)
    (ts now : UInt64) : Run (Outcome σ) := do
  let inp ← v.request json k a t rec ts
  let (s, r) ← v.msgboxDoHandler s inp stack obuf now
  Run.assert (r.header.key = k.value)
  Run.assert (r.header.errcode = 0)
  -- `proto_client_data_post` is `proto_server_data_pre`, over the caller's record
  let back ← v.dataIn json t r.header.size.toNat r.data rec
  return ⟨s, v.decoded inp t stack, back⟩

end Server

section

variable {ts now : UInt64} {chn : UInt8} {k : Key} {a : Action} {json : Bool} {size : UInt16}
  {data : List UInt8}

theorem length_fillHeader : (fillHeader ts chn k a json size).length = dataOffset := by
  simp [fillHeader, dataOffset]

theorem read_fillHeader : Header.read (fillHeader ts chn k a json size ++ data) =
    ⟨1, ts, chn, k.value, UInt32.ofNat a.value, 0, UInt32.ofNat json.toNat, size⟩ := by
  have hts : slice (fillHeader ts chn k a json size ++ data) 8 8 = le 8 ts.toNat := rfl
  have hkey : slice (fillHeader ts chn k a json size ++ data) 20 4 = le 4 k.value.toNat := rfl
  have haction : slice (fillHeader ts chn k a json size ++ data) 24 4 = le 4 a.value := rfl
  have hformat : slice (fillHeader ts chn k a json size ++ data) 32 4 = le 4 json.toNat := rfl
  have hsize : slice (fillHeader ts chn k a json size ++ data) 36 2 = le 2 size.toNat := rfl
  have hchn : slice (fillHeader ts chn k a json size ++ data) 16 1 = [chn] := rfl
  simp only [Header.read, hts, hkey, haction, hformat, hsize, hchn, ofLe_le, Header.mk.injEq]
  refine ⟨rfl, ?_, ?_, ?_, ?_, rfl, ?_, ?_⟩
  · apply UInt64.toNat_inj.mp
    simp
  · apply UInt8.toNat_inj.mp
    simp [ofLe]
  · cases k <;> rfl
  · cases a <;> rfl
  · cases json <;> rfl
  · apply UInt16.toNat_inj.mp
    simp

end

/-- All of the data is sent. -/
theorem Encoded.Fits.le_sent {e : Encoded} (h : e.Fits) : e.osize ≤ e.size.toNat + 2 := by
  rw [h.size]
  exact Nat.le_add_right _ _

namespace Server

section

variable {σ : Type} {v : Server σ} {k : Key} {a : Action} {json : Bool} {t : Ty} {s : σ}
  {ops : UInt8 → Ops σ} {rec got stack obuf data inp : List UInt8} {ts now : UInt64} {e : Encoded}
  {o : Outcome σ} {size : Nat}

theorem request_eq_ok : v.request json k a t rec ts = .ok inp ↔
    ∃ e, e = dataOut v.numText v.cs json t rec (List.replicate 2010 0) ∧ e.Fits ∧
      inp = fillHeader ts (a.chn rec) k a json e.size ++ e.mem.take (e.size.toNat + 2) := by
  simp only [request, Run.bind_eq_ok, Run.access_eq_ok, Run.pure_eq_ok, exists_const,
    exists_eq_left]
  rw [← Encoded.accesses_iff, and_assoc, and_assoc, eq_comm]

/-- What is decoded does not depend on the checks. -/
theorem dataIn_eq_ok (h : v.dataIn json t size data got = .ok rec) :
    rec = if json then t.j2s v.cs (v.parse (cstr data)) got else data.take t.size := by
  cases json with
  | true =>
    simp only [dataIn, if_true, Run.bind_eq_ok, Run.pure_eq_ok] at h
    obtain ⟨-, -, -, -, rfl⟩ := h
    rfl
  | false =>
    simp only [dataIn, Bool.false_eq_true, if_false, Run.bind_eq_ok, Run.pure_eq_ok,
      Run.assert_eq_ok] at h
    obtain ⟨-, rfl, -, -, rfl⟩ := h
    rfl

theorem zero_mem_of_dataIn (h : v.dataIn true t size data got = .ok rec) : 0 ∈ data := by
  simp only [dataIn, if_true, Run.bind_eq_ok, Run.access_eq_ok] at h
  obtain ⟨-, hzero, -⟩ := h
  exact hzero

theorem decoded_request (hinp : inp = fillHeader ts (a.chn rec) k a json e.size ++ data)
    (h : v.dataIn json t size data (stack.take t.size) = .ok got) :
    v.decoded inp t stack = got := by
  rw [dataIn_eq_ok h, decoded, hinp, read_fillHeader, List.drop_left' length_fillHeader]
  cases json <;> rfl

/-- A call whose request fits ends when the manager takes what the handler finds, the reply fits and
the caller finds a record in it. -/
theorem clientCall_eq_ok (hops : v.handler k.value.toNat = some ops)
    (htgr : a = .tgr → (ops (a.chn rec)).tgr.isSome)
    (ht : t = ((ops (a.chn rec)).record a).ty)
    (he : e = dataOut v.numText v.cs json t rec (List.replicate 2010 0)) (hfits : e.Fits)
    (hmem : 2 ≤ e.mem.length)
    (hgot : v.dataIn json t e.size.toNat (e.mem.take (e.size.toNat + 2)) (stack.take t.size) =
      .ok got) :
    v.clientCall json k a t s rec stack obuf ts now = .ok o ↔
      ∃ s' out e' back, (ops (a.chn rec)).call a s got = .ok (s', out) ∧
        e' = dataOut v.numText v.cs json t (out.take t.size) (obuf.drop dataOffset) ∧ e'.Fits ∧
        v.dataIn json t e'.size.toNat (e'.mem.take e'.osize) rec = .ok back ∧
        o = ⟨s', got, back⟩ := by
  subst ht
  have hreq : ∀ inp, v.request json k a ((ops (a.chn rec)).record a).ty rec ts = .ok inp ↔
      inp = fillHeader ts (a.chn rec) k a json e.size ++ e.mem.take (e.size.toNat + 2) := by
    intro inp
    rw [request_eq_ok]
    constructor
    · rintro ⟨e', he', -, hinp⟩
      rwa [he, ← he']
    · intro hinp
      exact ⟨e, he, hfits, hinp⟩
  have hjson : ((UInt32.ofNat json.toNat).toUInt8 == 1) = json := by
    cases json <;> rfl
  have hhandler : ∀ s' r, v.msgboxDoHandler s (fillHeader ts (a.chn rec) k a json e.size ++
      e.mem.take (e.size.toNat + 2)) stack obuf now = .ok (s', r) ↔
      ∃ out e', (ops (a.chn rec)).call a s got = .ok (s', out) ∧
        e' = dataOut v.numText v.cs json ((ops (a.chn rec)).record a).ty
          (out.take ((ops (a.chn rec)).record a).ty.size) (obuf.drop dataOffset) ∧
        pack ⟨1, ts, a.chn rec, k.value, UInt32.ofNat a.value, 0, UInt32.ofNat json.toNat, e.size⟩
          now e' = .ok r := by
    intro s' r
    have hread := @read_fillHeader ts (a.chn rec) k a json e.size (e.mem.take (e.size.toNat + 2))
    have hdrop : (fillHeader ts (a.chn rec) k a json e.size ++
        e.mem.take (e.size.toNat + 2)).drop dataOffset = e.mem.take (e.size.toNat + 2) :=
      List.drop_left' length_fillHeader
    have hfound := @msgboxDoHandler_of_dataIn σ v a s s' got _ stack obuf now r _ _ ops hread hdrop
    simp only [hjson] at hfound
    refine hfound ?_ ?_ ?_ hops ?_ hgot
    · rw [List.length_append, length_fillHeader, List.length_take]
      simp only [headerSize, dataOffset]
      omega
    · intro hf
      cases json with
      | false => exact absurd hf (by decide)
      | true => exact zero_mem_of_dataIn hgot
    · cases k <;> decide
    · refine Ops.action_of_value ?_ htgr
      cases a <;> rfl
  simp only [clientCall, Run.bind_eq_ok, Run.pure_eq_ok, Run.assert_eq_ok, hreq, exists_eq_left,
    exists_const, Prod.exists, hhandler, pack_eq_ok]
  constructor
  · rintro ⟨s', r, ⟨out, e', hcall, he', hfits', rfl⟩, -, -, back, hback, rfl⟩
    exact ⟨s', out, e', back, hcall, he', hfits', hback, by rw [decoded_request rfl hgot]⟩
  · rintro ⟨s', out, e', back, hcall, he', hfits', hback, rfl⟩
    exact ⟨s', _, ⟨out, e', hcall, he', hfits', rfl⟩, rfl, rfl, back, hback,
      by rw [decoded_request rfl hgot]⟩

/-- A text is found by its receiver up to the NUL. -/
theorem dataIn_text (hsize : e.osize = strlen e.mem + 1) (hmem : e.osize ≤ e.mem.length)
    (hfits : e.Fits) {n : Nat} (hn : e.osize ≤ n) :
    v.dataIn true t e.size.toNat (e.mem.take n) rec =
      .ok (t.j2s v.cs (v.parse (cstr e.mem)) rec) := by
  have hcstr : cstr (e.mem.take n) = cstr e.mem := cstr_take (by omega)
  have hzero : 0 ∈ e.mem.take n := by
    rw [zero_mem_iff, strlen, hcstr, ← strlen, List.length_take]
    omega
  simp only [dataIn, if_true, Run.bind_eq_ok, Run.access_eq_ok, Run.assert_eq_ok, Run.pure_eq_ok,
    exists_const]
  refine ⟨hzero, ?_, by rw [hcstr]⟩
  rw [hfits.size, hsize, strlen, strlen, hcstr]

theorem dataIn_record {n : Nat} (hlen : e.osize ≤ e.mem.length) (hfits : e.Fits)
    (hn : e.osize ≤ n) : v.dataIn false t e.size.toNat (e.mem.take n) rec = .ok got ↔
      e.osize = t.size ∧ got = e.mem.take t.size := by
  simp only [dataIn, Bool.false_eq_true, if_false, Run.bind_eq_ok, Run.access_eq_ok,
    Run.assert_eq_ok, Run.pure_eq_ok, exists_const, hfits.size]
  constructor
  · rintro ⟨hsize, -, rfl⟩
    rw [List.take_take, ← hsize, Nat.min_eq_left hn]
    exact ⟨rfl, rfl⟩
  · rintro ⟨hsize, rfl⟩
    rw [List.length_take, List.take_take, ← hsize, Nat.min_eq_left hn]
    exact ⟨rfl, by omega, rfl⟩

end

end Server

section Text

variable {numText : Int → List UInt8} {cs : Codecs} {t : Ty} {data mem : List UInt8}
  {ms : List (List UInt8 × Json)}

theorem osize_text : (dataOut numText cs true t data mem).osize =
    strlen (dataOut numText cs true t data mem).mem + 1 := rfl

/-- Nothing is written behind the buffer. -/
theorem length_mem_text (hmem : mem.length = 2010)
    (hfits : (dataOut numText cs true t data mem).Fits) :
    (dataOut numText cs true t data mem).mem.length = 2010 := by
  have hw := ((fits_iff _).mp hfits).1
  simp only [dataOut, if_true] at hw ⊢
  rw [length_store (by omega), hmem]

variable (hnum : ∀ n, 0 ∉ numText n) (hobj : t.s2j cs data = .obj ms)
include hnum hobj

/-- A text of at most 2007 characters is written whole. -/
theorem text_short (hshort : (text numText (t.s2j cs data)).length ≤ 2007)
    (hmem : mem.length = 2010) : (dataOut numText cs true t data mem).Fits ∧
      cstr (dataOut numText cs true t data mem).mem = text numText (t.s2j cs data) := by
  have hprint : printPreallocated numText packageMaxsize (t.s2j cs data) =
      ⟨true, text numText (t.s2j cs data), true⟩ := by
    rw [hobj] at hshort ⊢
    refine print_obj_fits hnum ?_
    simp only [packageMaxsize]
    omega
  refine ⟨(fits_json_iff hnum (by omega)).mpr ?_, ?_⟩
  · simp only [Room, hprint, true_or, and_true]
    exact hshort
  · simp only [dataOut, if_true, hprint, Printed.written, store_zero, List.append_assoc,
      List.singleton_append]
    exact cstr_append (zero_notMem_text hnum _)

/-- Of a longer one a part is found in a cleared buffer, if it is not written over its end. -/
theorem text_cut (hlong : 2007 < (text numText (t.s2j cs data)).length)
    (hfits : (dataOut numText cs true t data (List.replicate 2010 0)).Fits) :
    ∃ s ≠ [], cstr (dataOut numText cs true t data (List.replicate 2010 0)).mem ++ s =
      text numText (t.s2j cs data) := by
  have hroom := (fits_json_iff hnum (by rw [List.length_replicate]; decide)).mp hfits
  have hcut : ¬ ((text numText (t.s2j cs data)).length : Int) + 2 ≤ packageMaxsize := by
    intro hle
    rw [hobj] at hle hlong
    rw [Room, hobj, print_obj_fits hnum hle] at hroom
    exact absurd hroom.1 (not_le.mpr hlong)
  have hzeros : ∀ m, cstr (List.replicate m 0) = [] := by
    intro m
    cases m <;> rfl
  rw [hobj] at hcut
  obtain ⟨-, s, hs, hcat⟩ := print_obj_cut hnum hcut
  rw [← hobj] at hcat
  refine ⟨s, hs, ?_⟩
  rw [← hcat]
  congr 1
  have h0 := zero_notMem_printed hnum packageMaxsize (t.s2j cs data)
  simp only [dataOut, if_true]
  generalize printPreallocated numText packageMaxsize (t.s2j cs data) = p at h0
  rw [store_zero, Printed.written, List.append_assoc, cstr_append_notMem h0, List.drop_replicate]
  cases p.ends with
  | true => simp [cstr]
  | false => simp [hzeros]

end Text

end Freak.Proto
