import Freak.Proto.Records
import Freak.Lib.Codecs
import Freak.Lib.JsonRead

/-! What the encoders of a package write into its buffer: the macros of `proto.h`. -/
namespace Freak.Proto

open Bytes Json Schema

def packageMaxsize : Nat := 2048

/-- `offsetof(proto_header_t, data)`. -/
def dataOffset : Nat := 38

/-- `sizeof(proto_header_t)`. -/
def headerSize : Nat := 40

/-- The memory from a package's data on, how much of it was written and `*osize`. -/
structure Encoded where
  mem : List UInt8
  written : Nat
  osize : Nat

section Encoder

variable (numText : Int → List UInt8) (cs : Codecs)

/-- `proto_client_data_pre` and `proto_server_data_post`. -/
def dataOut (json : Bool) (t : Ty) (data mem : List UInt8) : Encoded :=
  if json then
    match (printPreallocated numText packageMaxsize (t.s2j cs data)).written with
    | written => ⟨store mem 0 written, written.length, strlen (store mem 0 written) + 1⟩
  else ⟨store mem 0 data, data.length, data.length⟩

/-- The size in the header. -/
def Encoded.size (e : Encoded) : UInt16 := UInt16.ofNat e.osize

/-- Written inside the buffer, sized as it is, and sent from inside the buffer. -/
structure Encoded.Fits (e : Encoded) : Prop where
  written : dataOffset + e.written ≤ packageMaxsize
  size : e.size.toNat = e.osize
  sent : e.size.toNat + headerSize ≤ packageMaxsize

/-- What is printed of a value leaves room for a NUL, and one follows: the printer's own, or one
that the buffer held. -/
def Room (j : Json) (mem : List UInt8) : Prop :=
  match printPreallocated numText packageMaxsize j with
  | p => p.text.length ≤ 2007 ∧
    (p.ends = true ∨ 0 ∈ (mem.drop p.text.length).take (2008 - p.text.length))

end Encoder

variable {numText : Int → List UInt8} {cs : Codecs}

theorem size_toNat (e : Encoded) : e.size.toNat = e.osize % 65536 := by
  simp [Encoded.size, UInt16.toNat_ofNat']

theorem fits_iff (e : Encoded) : e.Fits ↔ e.written ≤ 2010 ∧ e.osize ≤ 2008 := by
  constructor
  · rintro ⟨hw, hs, hp⟩
    rw [hs] at hp
    simp only [dataOffset, headerSize, packageMaxsize] at hw hp
    omega
  · rintro ⟨hw, ho⟩
    have hs : e.size.toNat = e.osize := by
      rw [size_toNat]
      omega
    refine ⟨?_, hs, ?_⟩ <;> simp only [hs, dataOffset, headerSize, packageMaxsize] <;> omega

theorem length_written (p : Printed) :
    p.written.length = p.text.length + if p.ends then 1 else 0 := by
  cases hp : p.ends <;> simp [Printed.written, hp]

/-- Where the text ends that is found in the buffer. -/
theorem strlen_written {p : Printed} (h0 : 0 ∉ p.text) (mem : List UInt8) :
    strlen (store mem 0 p.written) =
      p.text.length + if p.ends then 0 else strlen (mem.drop p.text.length) := by
  rw [store_zero]
  cases hp : p.ends with
  | true =>
    rw [Printed.written, hp, if_pos rfl, List.append_assoc, List.singleton_append,
      strlen_append h0]
    simp
  | false => simp [Printed.written, hp, strlen_append_notMem h0]

theorem fits_json_iff (hnum : ∀ n, 0 ∉ numText n) {t : Ty} {data mem : List UInt8}
    (hm : 2008 ≤ mem.length) :
    (dataOut numText cs true t data mem).Fits ↔ Room numText (t.s2j cs data) mem := by
  rw [fits_iff, Room]
  simp only [dataOut, if_true]
  have h0 := zero_notMem_printed hnum packageMaxsize (t.s2j cs data)
  generalize printPreallocated numText packageMaxsize (t.s2j cs data) = p at h0
  rw [length_written, strlen_written h0]
  cases hp : p.ends with
  | true =>
    simp only [if_true, true_or, and_true]
    omega
  | false =>
    simp only [Bool.false_eq_true, if_false, false_or]
    by_cases hle : p.text.length ≤ 2007
    · rw [zero_mem_take_iff (by rw [List.length_drop]; omega)]
      omega
    · omega

/-- A message fits its package unless it is a text without room. -/
theorem package_fits_iff (hnum : ∀ n, 0 ∉ numText n) (json : Bool) (r : Record)
    {data mem : List UInt8} (hd : data.length = r.ty.size) (hm : 2008 ≤ mem.length) :
    (dataOut numText cs json r.ty data mem).Fits ↔
      (json = true → Room numText (r.ty.s2j cs data) mem) := by
  cases json with
  | true => simp [fits_json_iff hnum hm]
  | false =>
    have hle : r.ty.size ≤ 428 := r.size_le
    rw [fits_iff]
    simp only [dataOut, Bool.false_eq_true, if_false, false_implies, iff_true]
    omega

theorem num_fits :
    (dataOut decimal plain true Record.num.ty (le 4 7) (List.replicate 2010 0)).Fits :=
  (package_fits_iff zero_notMem_decimal true .num (by decide)
    (by rw [List.length_replicate]; decide)).mpr fun _ =>
    ⟨by decide, .inl (by decide)⟩

/-- A text overlay of 31 control characters. -/
def sampleText : List UInt8 :=
  le 4 1000 ++ le 4 1000 ++ le 4 0 ++ le 4 0 ++ List.replicate 31 1 ++ [0]

/-- An OSD record of eight of them. -/
def sampleOsd : List UInt8 :=
  le 4 2 ++ le 4 1 ++ (ascii "texts" ++ List.replicate 27 0) ++ le 4 8 ++
    (List.replicate 8 sampleText).flatten

theorem length_sampleOsd : sampleOsd.length = Record.osdCfg.ty.size := by decide +kernel

theorem sampleOsd_text :
    (printPreallocated decimal packageMaxsize (Record.osdCfg.ty.s2j plain sampleOsd)).text.length =
      2036 := by
  have hlen : (text decimal (Record.osdCfg.ty.s2j plain sampleOsd)).length = 2036 := by
    decide +kernel
  obtain ⟨ms, hms⟩ : ∃ ms, Record.osdCfg.ty.s2j plain sampleOsd = .obj ms := ⟨_, rfl⟩
  rw [hms] at hlen ⊢
  rw [print_obj_fits zero_notMem_decimal (by rw [hlen]; decide)]
  exact hlen

/-- Its text is printed whole, over the end of the buffer. -/
theorem osd_outgrows :
    ¬ ∀ (json : Bool) (r : Record) (data mem : List UInt8), data.length = r.ty.size →
      2008 ≤ mem.length → (dataOut decimal plain json r.ty data mem).Fits := by
  intro h
  have hmem : 2008 ≤ (List.replicate 2010 (0 : UInt8)).length := by
    rw [List.length_replicate]
    decide
  have hf := h true .osdCfg sampleOsd (List.replicate 2010 0) length_sampleOsd hmem
  have hroom := ((fits_json_iff zero_notMem_decimal hmem).mp hf).1
  rw [sampleOsd_text] at hroom
  exact absurd hroom (by decide)

end Freak.Proto
