import Freak.Lib.Exact
import Freak.Proto.Wire

/-! The header of a packet and its JSON: what is read of the one is said by the other. -/
namespace Freak.Proto

open Bytes Json Schema

/-- Names for what the header enumerates. -/
structure Header.Named (h : Header) : Prop where
  key : h.key.toNat < 8
  action : h.action.toNat < 5
  format : h.format.toNat < 2

/-- A header in a cleared buffer. -/
def Header.bytes (h : Header) : List UInt8 :=
  [h.version, 0, 0, 0, 0, 0, 0, 0] ++ le 8 h.ts.toNat ++ [h.chn, 0, 0, 0] ++ le 4 h.key.toNat ++
    le 4 h.action.toNat ++ [h.errcode, 0, 0, 0] ++ le 4 h.format.toNat ++ le 2 h.size.toNat ++
    [0, 0]

/-- A packet in a cleared buffer: the data begins in the header's last two bytes. -/
def Header.packet (h : Header) (data : List UInt8) : List UInt8 :=
  h.bytes.take dataOffset ++ data ++ [0, 0]

/-- `JSONB_OPT_S2J` of what is read of a header. -/
def Header.json (cs : Codecs) (h : Header) : Json := headerTy.s2j cs h.bytes

variable {h : Header} {cs : Codecs} {img data : List UInt8}

theorem length_bytes (h : Header) : h.bytes.length = headerSize := by
  simp [Header.bytes, headerSize]

theorem take_bytes (h : Header) : h.bytes.take dataOffset =
    [h.version, 0, 0, 0, 0, 0, 0, 0] ++ le 8 h.ts.toNat ++ [h.chn, 0, 0, 0] ++ le 4 h.key.toNat ++
      le 4 h.action.toNat ++ [h.errcode, 0, 0, 0] ++ le 4 h.format.toNat ++ le 2 h.size.toNat :=
  List.take_left' (by simp [dataOffset])

theorem read_packet (h : Header) (data : List UInt8) :
    Header.read (h.bytes.take dataOffset ++ data) = h := by
  rw [take_bytes]
  cases h with
  | mk version ts chn key action errcode format size =>
    simp [Header.read, slice, List.drop_append, length_le, List.drop_eq_nil_of_le, ofLe_le, ofLe]

theorem read_bytes_self (h : Header) : Header.read h.bytes = h := by
  have hread := read_packet h (h.bytes.drop dataOffset)
  rwa [List.take_append_drop] at hread

theorem slice_take {bs : List UInt8} {a n k : Nat} (h : a + n ≤ k) :
    slice (bs.take k) a n = slice bs a n := by
  rw [slice, slice, List.drop_take, List.take_take, Nat.min_eq_left (by omega)]

/-- The header is read of the bytes in front of the data. -/
theorem read_take (img : List UInt8) : Header.read (img.take headerSize) = Header.read img := by
  simp only [Header.read, headerSize]
  rw [slice_take (by decide), slice_take (by decide), slice_take (by decide),
    slice_take (by decide), slice_take (by decide), slice_take (by decide),
    slice_take (by decide), slice_take (by decide)]

theorem s2j_slices (cs : Codecs) (img : List UInt8) : headerTy.s2j cs img =
    .obj [(ascii "version", cs.s2j .uint8 (slice img 0 1)),
      (ascii "ts", cs.s2j .uint64 (slice img 8 8)), (ascii "chn", cs.s2j .uint8 (slice img 16 1)),
      (ascii "key", (Ty.leaf (.enum ["PROTO_BSP_KEY_DUMMY", "PROTO_VSF_KEY_FRAME",
        "PROTO_VSF_KEY_STREAM", "PROTO_VSF_KEY_OSD", "PROTO_RTSP_KEY_SVR", "PROTO_WEB_KEY_SVR",
        "PROTO_APP_KEY_ALG", "PROTO_KEY_MAX"])).s2j cs (slice img 20 4)),
      (ascii "action", (Ty.leaf (.enum ["PROTO_ACTION_NUM", "PROTO_ACTION_CAP", "PROTO_ACTION_GET",
        "PROTO_ACTION_SET", "PROTO_ACTION_TGR"])).s2j cs (slice img 24 4)),
      (ascii "errcode", cs.s2j .uint8 (slice img 28 1)),
      (ascii "format", (Ty.leaf (.enum ["PROTO_FORMAT_STRUCTE", "PROTO_FORMAT_JSON"])).s2j cs
        (slice img 32 4)),
      (ascii "size", cs.s2j .uint16 (slice img 36 2)),
      (ascii "data", (Ty.array 0 (.leaf .uint8)).s2j cs (slice img 38 0))] := by
  simp [headerTy, Ty.s2j, Fields.members, Ty.size, Leaf.size, slice]

/-- A number as wide as the bytes it is read from. -/
theorem le_toNat {w n : Nat} {bs : List UInt8} (hbs : bs.length = w) (hn : n = ofLe bs % 256 ^ w) :
    le w n = bs := by
  have hlt : ofLe bs < 256 ^ w := hbs ▸ ofLe_lt bs
  rw [hn, Nat.mod_eq_of_lt hlt, ← hbs, le_ofLe]

theorem byte_ofLe {bs : List UInt8} (hbs : bs.length = 1) : [UInt8.ofNat (ofLe bs)] = bs := by
  have hle := le_ofLe bs
  rwa [hbs] at hle

/-- What JSON says of a header is what is read of it. -/
theorem s2j_eq_json (himg : dataOffset ≤ img.length) :
    headerTy.s2j cs img = (Header.read img).json cs := by
  have hlen : ∀ a n, a + n ≤ 38 → (slice img a n).length = n := fun a n h =>
    length_slice (h.trans himg)
  have hversion : slice (Header.read img).bytes 0 1 = slice img 0 1 :=
    byte_ofLe (hlen 0 1 (by decide))
  have hts : slice (Header.read img).bytes 8 8 = slice img 8 8 :=
    le_toNat (hlen 8 8 (by decide)) (by simp [Header.read])
  have hchn : slice (Header.read img).bytes 16 1 = slice img 16 1 :=
    byte_ofLe (hlen 16 1 (by decide))
  have hkey : slice (Header.read img).bytes 20 4 = slice img 20 4 :=
    le_toNat (hlen 20 4 (by decide)) (by simp [Header.read])
  have haction : slice (Header.read img).bytes 24 4 = slice img 24 4 :=
    le_toNat (hlen 24 4 (by decide)) (by simp [Header.read])
  have herrcode : slice (Header.read img).bytes 28 1 = slice img 28 1 :=
    byte_ofLe (hlen 28 1 (by decide))
  have hformat : slice (Header.read img).bytes 32 4 = slice img 32 4 :=
    le_toNat (hlen 32 4 (by decide)) (by simp [Header.read])
  have hsize : slice (Header.read img).bytes 36 2 = slice img 36 2 :=
    le_toNat (hlen 36 2 (by decide)) (by simp [Header.read])
  have hdata : slice (Header.read img).bytes 38 0 = slice img 38 0 := by
    rw [slice, slice, List.take_zero, List.take_zero]
  rw [Header.json, s2j_slices, s2j_slices, hversion, hts, hchn, hkey, haction, herrcode, hformat,
    hsize, hdata]

/-- Nor does it say less: decoded into a cleared buffer, it is the header again. -/
theorem j2s_json (hcs : cs.Lawful) (hx : cs.Exact) (hn : h.Named) :
    headerTy.j2s cs (some (h.json cs)) (List.replicate headerSize 0) = h.bytes := by
  have hkey : ofLe (le 4 h.key.toNat) = h.key.toNat := by
    rw [ofLe_le]
    exact Nat.mod_eq_of_lt h.key.toNat_lt
  have haction : ofLe (le 4 h.action.toNat) = h.action.toNat := by
    rw [ofLe_le]
    exact Nat.mod_eq_of_lt h.action.toNat_lt
  have hformat : ofLe (le 4 h.format.toNat) = h.format.toNat := by
    rw [ofLe_le]
    exact Nat.mod_eq_of_lt h.format.toNat_lt
  refine Ty.j2s_exact hcs hx headerTy h.bytes _ (length_bytes h) List.length_replicate ?_
  refine ⟨by decide, trivial, rfl, trivial, trivial, rfl, ⟨by decide, ?_⟩,
    ⟨by decide, ?_⟩, trivial, rfl, ⟨by decide +kernel, ?_⟩, trivial, ?_, rfl, trivial⟩
  · exact hkey.symm ▸ hn.key
  · exact haction.symm ▸ hn.action
  · exact hformat.symm ▸ hn.format
  · exact List.Forall₂.nil

theorem take_append_zeros {m : List UInt8} {n k : Nat} (hm : m.length ≤ n) (hk : n + 2 ≤ k) :
    (m ++ List.replicate (k - m.length) (0 : UInt8)).take (n + 2) =
      (m ++ List.replicate (k - m.length) 0).take n ++ [0, 0] := by
  have hgap : (m ++ List.replicate (k - m.length) (0 : UInt8)).drop n =
      List.replicate (k - n) 0 := by
    rw [List.drop_append, List.drop_eq_nil_of_le hm, List.nil_append, List.drop_replicate]
    congr 1
    omega
  rw [List.take_add, hgap, List.take_replicate, Nat.min_eq_left (by omega)]
  rfl

namespace Server

variable {σ : Type} {v : Server σ} {k : Key} {a : Action} {json : Bool} {t : Ty}
  {rec inp : List UInt8} {ts : UInt64}

/-- Behind what was written into a cleared buffer there are zeros. -/
theorem take_mem_cleared {e : Encoded} (hnum : ∀ n, 0 ∉ v.numText n)
    (he : e = dataOut v.numText v.cs json t rec (List.replicate 2010 0)) (hfits : e.Fits) :
    e.mem.take (e.size.toNat + 2) = e.mem.take e.osize ++ [0, 0] ∧
      (e.mem.take e.osize).length = e.osize ∧ (json = true → 0 ∈ e.mem.take e.osize) ∧
      (json = false → e.mem.take e.osize = rec) := by
  have hosize := ((fits_iff _).mp hfits).2
  have hwritten := ((fits_iff _).mp hfits).1
  obtain ⟨m, hmem, hm, hzero, hrec⟩ : ∃ m, e.mem = m ++ List.replicate (2010 - m.length) 0 ∧
      m.length ≤ e.osize ∧ (json = true → m.length < e.osize) ∧
      (json = false → m = rec ∧ e.osize = rec.length) := by
    subst he
    cases json with
    | true =>
      simp only [dataOut, if_true] at hwritten ⊢
      have h0 := zero_notMem_printed hnum packageMaxsize (t.s2j v.cs rec)
      generalize printPreallocated v.numText packageMaxsize (t.s2j v.cs rec) = p at h0 hwritten
      rw [length_written] at hwritten
      have hmem : store (List.replicate 2010 0) 0 p.written =
          p.text ++ List.replicate (2010 - p.text.length) 0 := by
        rw [store_zero, List.drop_replicate, length_written, Printed.written, List.append_assoc]
        cases hp : p.ends with
        | false => simp
        | true =>
          rw [hp, if_pos rfl] at hwritten
          rw [if_pos rfl, if_pos rfl, List.singleton_append, ← List.replicate_succ]
          congr 2
          omega
      refine ⟨p.text, hmem, ?_, fun _ => ?_, by rintro ⟨⟩⟩
      · rw [hmem, strlen_append_notMem h0]
        omega
      · rw [hmem, strlen_append_notMem h0]
        omega
    | false =>
      refine ⟨rec, ?_, le_rfl, by rintro ⟨⟩, fun _ => ⟨rfl, rfl⟩⟩
      simp only [dataOut, Bool.false_eq_true, if_false, store_zero, List.drop_replicate]
  have hlen : e.mem.length = 2010 := by
    rw [hmem, List.length_append, List.length_replicate]
    omega
  refine ⟨?_, List.length_take_of_le (by omega), fun hj => ?_, fun hj => ?_⟩
  · rw [hfits.size, hmem]
    exact take_append_zeros hm (by omega)
  · have hlt := hzero hj
    rw [hmem, List.take_append, List.take_of_length_le hm, List.take_replicate]
    exact List.mem_append_right _ (List.mem_replicate.mpr ⟨by omega, rfl⟩)
  · obtain ⟨rfl, hlen'⟩ := hrec hj
    rw [hmem, hlen', List.take_left]

/-- What a client sends is a packet. -/
theorem request_packet (hnum : ∀ n, 0 ∉ v.numText n)
    (hinp : v.request json k a t rec ts = .ok inp) :
    ∃ h : Header, ∃ data, inp = h.packet data ∧ h.Named ∧ h.key = k.value ∧
      data.length = h.size.toNat ∧ data.length + headerSize ≤ packageMaxsize ∧
      (json = true → 0 ∈ data) ∧ (json = false → data = rec) := by
  obtain ⟨e, he, hfits, rfl⟩ := request_eq_ok.mp hinp
  obtain ⟨htake, hlen, hzero, hrec⟩ := take_mem_cleared hnum he hfits
  have haction : (UInt32.ofNat a.value).toNat = a.value := by
    cases a <;> rfl
  have hformat : (UInt32.ofNat json.toNat).toNat = json.toNat := by
    cases json <;> rfl
  have hkey : k.value.toNat < 8 := by
    cases k <;> decide
  have hvalue : a.value < 5 := by
    cases a <;> decide
  refine ⟨⟨1, ts, a.chn rec, k.value, UInt32.ofNat a.value, 0, UInt32.ofNat json.toNat, e.size⟩,
    e.mem.take e.osize, ?_, ⟨?_, ?_, ?_⟩, rfl, ?_, ?_, hzero, hrec⟩
  · rw [htake, Header.packet, take_bytes, ← List.append_assoc, fillHeader]
    simp only [haction, hformat]
  · exact hkey
  · exact haction.trans_lt hvalue
  · exact hformat.trans_lt (Bool.toNat_lt json)
  · rw [hlen, hfits.size]
  · rw [hlen, ← hfits.size]
    exact hfits.sent

/-- What a module answers is as long as its header says, and a text ends. -/
theorem reply_framed {s s' : σ} {stack obuf : List UInt8} {now : UInt64} {r : Sent}
    (hr : v.msgboxDoHandler s inp stack obuf now = .ok (s', r))
    (hobuf : obuf.length = packageMaxsize) :
    r.header = { Header.read inp with
        version := 1, ts := now, errcode := 0, size := r.header.size } ∧
      r.data.length = r.header.size.toNat ∧ r.data.length + headerSize ≤ packageMaxsize ∧
      (r.header.format = 1 → 0 ∈ r.data) := by
  obtain ⟨-, -, -, ops, a, e, -, -, hfunc, hpack⟩ := msgboxDoHandler_eq_ok.mp hr
  obtain ⟨hfits, rfl⟩ := pack_eq_ok.mp hpack
  obtain ⟨rec, out, -, -, rfl⟩ := func_eq_ok.mp hfunc
  have hmem := length_drop_obuf hobuf
  have hosize := ((fits_iff _).mp hfits).2
  have hlen : ∀ json t, (dataOut v.numText v.cs json t (out.take t.size)
      (obuf.drop dataOffset)).Fits → (dataOut v.numText v.cs json t (out.take t.size)
        (obuf.drop dataOffset)).mem.length = 2010 := by
    intro json t hf
    cases json with
    | true => exact length_mem_text hmem hf
    | false =>
      have hw := ((fits_iff _).mp hf).1
      simp only [dataOut, Bool.false_eq_true, if_false] at hw ⊢
      rw [length_store (by omega), hmem]
  have hlen := hlen _ _ hfits
  refine ⟨rfl, ?_, ?_, fun hf => ?_⟩
  · rw [List.length_take_of_le (by omega), hfits.size]
  · rw [List.length_take_of_le (by omega), ← hfits.size]
    exact hfits.sent
  · have hj : ((Header.read inp).format.toUInt8 == 1) = true := by
      rw [show (Header.read inp).format = 1 from hf]
      rfl
    simp only [hj] at hlen hosize ⊢
    rw [zero_mem_take_iff (by omega), osize_text]
    exact Nat.lt_succ_self _

end Server

end Freak.Proto
