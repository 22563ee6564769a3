import Freak.Media.Record

/-! The hooks undo each other at every wrap point of the ring. -/
namespace Freak.Media
open Bytes

variable {abi : Abi} {R j r : List UInt8} {n a l : Nat}

theorem slice_take_append (hn : a + l ≤ n) (hR : a + l ≤ R.length) :
    slice (R.take n ++ j) a l = slice R a l := by
  have hlen : (R.take n).length = min n R.length := List.length_take
  rw [slice, List.drop_append_of_le_length (by omega),
    List.take_append_of_le_length (by rw [List.length_drop]; omega), List.drop_take,
    List.take_take, Nat.min_eq_left (by omega), slice]

theorem slice_drop_append (hR : n + a + l ≤ R.length) :
    slice (R.drop n ++ j) a l = slice R (n + a) l := by
  rw [slice, List.drop_append_of_le_length (by rw [List.length_drop]; omega),
    List.take_append_of_le_length (by simp only [List.length_drop]; omega), List.drop_drop,
    slice]

theorem slice_zero_len (bs : List UInt8) (a : Nat) : slice bs a 0 = [] := by simp [slice]

theorem slice_zero (bs : List UInt8) (n : Nat) : slice bs 0 n = bs.take n := by simp [slice]

theorem take_append_slice (bs : List UInt8) (a n : Nat) :
    bs.take a ++ slice bs a n = bs.take (a + n) := by
  rw [slice, List.take_add]

namespace MediaRecord

variable {m : MediaRecord} {body : List UInt8}

@[simp] theorem length_bytes (m : MediaRecord) : m.bytes.length = sizeofMediaRecord := by
  simp [bytes, sizeofMediaRecord]

theorem recSize_bytes (h : m.size < 2 ^ 32) : recSize (m.bytes ++ r) = m.size := by
  have hs : slice (m.bytes ++ r) 0 4 = le 4 m.size := by
    rw [slice_zero, bytes, List.append_assoc, List.take_left' (length_le 4 _)]
  rw [recSize, hs, ofLe_le, Nat.mod_eq_of_lt (by omega)]

theorem recTag_bytes (h : m.tag < 2 ^ 32) : recTag (m.bytes ++ r) = m.tag := by
  have hs : slice (m.bytes ++ r) 4 4 = le 4 m.tag := by
    rw [bytes, List.append_assoc, List.append_assoc]
    exact slice_append_of_eq (length_le 4 _) (length_le 4 _)
  rw [recTag, hs, ofLe_le, Nat.mod_eq_of_lt (by omega)]

end MediaRecord

/-- The two ring segments hold the record `R`, whatever lies behind it in either of them. -/
def InRing (R : List UInt8) (n1 : Nat) (p1 p2 : List UInt8) : Prop :=
  ∃ j1 j2, p1 = R.take n1 ++ j1 ∧ p2 = R.drop n1 ++ j2

theorem header_read {p1 p2 : List UInt8} {n1 : Nat} (h : InRing R n1 p1 p2)
    (hR : sizeofMediaRecord ≤ R.length) (hn : ¬ n1 ≥ sizeofMediaRecord) :
    slice p1 0 n1 ++ slice p2 0 (sizeofMediaRecord - n1) = R.take sizeofMediaRecord := by
  obtain ⟨j1, j2, rfl, rfl⟩ := h
  rw [slice_take_append (by omega) (by omega), slice_drop_append (by omega), slice_zero,
    Nat.add_zero, take_append_slice, Nat.add_sub_of_le (by omega)]

theorem recsize_eq {p1 p2 : List UInt8} {n1 : Nat} {m : MediaRecord} {body : List UInt8}
    (h : InRing (m.bytes ++ body) n1 p1 p2) (hs : m.size < 2 ^ 32) :
    recsize p1 n1 p2 = m.size := by
  unfold recsize
  split
  · obtain ⟨j1, _, rfl, _⟩ := h
    rw [List.take_append, m.length_bytes, List.take_of_length_le (by simpa), List.append_assoc]
    exact m.recSize_bytes hs
  · rw [header_read h (by simp) (by assumption), ← m.length_bytes, List.take_left]
    simpa using m.recSize_bytes (r := []) hs

theorem rectag_eq {p1 p2 : List UInt8} {n1 : Nat} {m : MediaRecord} {body : List UInt8}
    (h : InRing (m.bytes ++ body) n1 p1 p2) (ht : m.tag < 2 ^ 32) :
    rectag p1 n1 p2 = m.tag := by
  unfold rectag
  split
  · obtain ⟨j1, _, rfl, _⟩ := h
    rw [List.take_append, m.length_bytes, List.take_of_length_le (by simpa), List.append_assoc]
    exact m.recTag_bytes ht
  · rw [header_read h (by simp) (by assumption), ← m.length_bytes, List.take_left]
    simpa using m.recTag_bytes (r := []) ht

/-- Both header copies of `recget` together, with the second one at `p + _n1`. -/
theorem header_copied {p1 p2 : List UInt8} {n1 : Nat} (h : InRing R n1 p1 p2)
    (hR : sizeofMediaRecord ≤ R.length) (arg : List UInt8) :
    store (store arg 0 (slice p1 0 (min sizeofMediaRecord n1))) n1
        (slice p2 0 (sizeofMediaRecord - min sizeofMediaRecord n1)) =
      R.take sizeofMediaRecord ++ arg.drop sizeofMediaRecord := by
  by_cases hn : sizeofMediaRecord ≤ n1
  · obtain ⟨j1, j2, rfl, rfl⟩ := h
    rw [Nat.min_eq_left hn, Nat.sub_self, slice_zero_len,
      slice_take_append (by omega) (by omega), slice_zero, store_zero]
    simp [store, Nat.min_eq_left hR]
  · have hsplit := header_read h hR (by omega)
    obtain ⟨j1, j2, rfl, rfl⟩ := h
    have hlen : (slice (R.take n1 ++ j1) 0 n1).length = n1 := by
      apply length_slice
      simp only [List.length_append, List.length_take]
      omega
    rw [Nat.min_eq_right (by omega), store_zero, store_after hlen, hsplit, hlen, List.drop_drop]
    congr 2
    rw [length_slice (by simp only [List.length_append, List.length_drop]; omega)]
    omega

/-- Both body copies of `recget`, after the header. -/
theorem body_copied {p1 p2 : List UInt8} {n1 : Nat} (h : InRing R n1 p1 p2)
    (hR : sizeofMediaRecord ≤ R.length) (arg : List UInt8) {m l l' : Nat}
    (hm : m = R.length - sizeofMediaRecord) (hl : l = min sizeofMediaRecord n1)
    (hl' : l' = min m (n1 - l)) :
    store (store (R.take sizeofMediaRecord ++ arg) sizeofMediaRecord (slice p1 l l'))
      (sizeofMediaRecord + l') (slice p2 (sizeofMediaRecord - l) (m - l')) = R ++ arg.drop m := by
  obtain ⟨j1, j2, rfl, rfl⟩ := h
  have hhead : (R.take sizeofMediaRecord).length = sizeofMediaRecord := by
    rw [List.length_take, Nat.min_eq_left hR]
  have h1 : slice (R.take n1 ++ j1) l l' = slice R sizeofMediaRecord l' := by
    by_cases hn : sizeofMediaRecord ≤ n1
    · rw [Nat.min_eq_left hn] at hl
      rw [slice_take_append (by omega) (by omega), hl]
    · have : l' = 0 := by omega
      rw [this, slice_zero_len, slice_zero_len]
  have h2 : slice (R.drop n1 ++ j2) (sizeofMediaRecord - l) (m - l') =
      slice R (sizeofMediaRecord + l') (m - l') := by
    by_cases hn : R.length ≤ n1
    · have : m - l' = 0 := by omega
      rw [this, slice_zero_len, slice_zero_len]
    · rw [slice_drop_append (by omega)]
      congr 1
      omega
  have hlen : (slice R sizeofMediaRecord l').length = l' := length_slice (by omega)
  have hlen' : (slice R (sizeofMediaRecord + l') (m - l')).length = m - l' :=
    length_slice (by omega)
  rw [h1, h2, store_after hhead, take_append_slice, store_after (by simp; omega),
    take_append_slice, List.take_of_length_le (by omega), hlen, hlen', List.drop_drop]
  congr 2
  omega

theorem length_header_copied (hR : sizeofMediaRecord ≤ R.length) {arg : List UInt8}
    (harg : sizeofMediaRecord ≤ arg.length) :
    (R.take sizeofMediaRecord ++ arg.drop sizeofMediaRecord).length = arg.length := by
  rw [List.length_append, List.length_take, List.length_drop]
  omega

theorem recget_eq {p1 p2 : List UInt8} {n1 : Nat} {m : MediaRecord} {body : List UInt8}
    (h : InRing (m.bytes ++ body) n1 p1 p2) (hs : m.size = (m.bytes ++ body).length)
    (hlt : m.size < 2 ^ 32) (ht : tagBase ≤ m.tag) (htl : m.tag < 2 ^ 32) (arg : List UInt8) :
    recget p1 n1 p2 arg =
      if m.size ≤ arg.length then some (m.bytes ++ body ++ arg.drop m.size, m.size) else none := by
  have hR : sizeofMediaRecord ≤ (m.bytes ++ body).length := by simp
  have hhead : (m.bytes ++ body).take sizeofMediaRecord = m.bytes :=
    List.take_left' m.length_bytes
  have hm : sub32 m.size sizeofMediaRecord = (m.bytes ++ body).length - sizeofMediaRecord := by
    rw [sub32]
    omega
  rw [recget]
  by_cases harg : arg.length < sizeofMediaRecord
  · rw [if_pos harg, if_neg (by omega)]
  · have hlen := length_header_copied hR (Nat.not_lt.mp harg)
    rw [hhead] at hlen
    simp only [header_copied h hR, hhead, m.recTag_bytes htl, m.recSize_bytes hlt, hm, hlen,
      if_neg harg, if_neg (by omega : ¬ m.tag < tagBase)]
    by_cases hfits : m.size ≤ arg.length
    · have hbody := body_copied h hR (arg.drop sizeofMediaRecord) rfl rfl rfl
      rw [hhead, List.drop_drop, Nat.add_sub_of_le hR, ← hs] at hbody
      rw [if_neg (by omega), if_pos hfits, ← hs, hbody, List.append_assoc,
        m.recSize_bytes hlt]
    · rw [if_pos (by omega), if_neg hfits]

/-- What a `recput` hook owes the other hooks for the logical record `R`: the result and the
split, and that reading with the same split gives back size, tag and bytes, in front of what any
buffer that is long enough has behind them. -/
structure RoundTrips (R : List UInt8) (size tag n1 : Nat) (put : PutCursor × Nat) : Prop where
  length : R.length = size
  result : put.2 = size
  first : put.1.p1 = R.take n1
  first_length : put.1.p1.length = min n1 size
  rest : put.1.p2 = R.drop n1
  recsize : ∀ {p1 p2}, InRing R n1 p1 p2 → recsize p1 n1 p2 = size
  rectag : ∀ {p1 p2}, InRing R n1 p1 p2 → rectag p1 n1 p2 = tag
  recget : ∀ {p1 p2}, InRing R n1 p1 p2 → ∀ arg, recget p1 n1 p2 arg =
    if size ≤ arg.length then some (R ++ arg.drop size, size) else none

theorem roundTrips_of_holds {m : MediaRecord} {body : List UInt8} {n1 : Nat} {c : PutCursor}
    (hc : c.Holds n1 (m.bytes ++ body)) (hs : m.size = (m.bytes ++ body).length)
    (hlt : m.size < 2 ^ 32) (ht : tagBase ≤ m.tag) (htl : m.tag < 2 ^ 32) :
    RoundTrips (m.bytes ++ body) m.size m.tag n1 (c, m.size) where
  length := hs.symm
  result := rfl
  first := hc.2.1
  first_length := by rw [hc.2.1, List.length_take, hs]
  rest := hc.2.2
  recsize h := recsize_eq h hlt
  rectag h := rectag_eq h htl
  recget h := recget_eq h hs hlt ht htl

namespace VideoStream

/-- The bytes a pack contributes to the record. -/
def payload (mem : Nat → UInt8) (p : VideoStreamPack abi) : List UInt8 :=
  load mem p.pu8Addr p.payloadLen

/-- Descriptor, pack table and payloads, in this order. -/
def body (mem : Nat → UInt8) (s : VideoStream abi) : List UInt8 :=
  s.image ++ s.pstPack.flatMap VideoStreamPack.image ++ s.pstPack.flatMap (payload mem)

/-- The logical record. -/
def record (mem : Nat → UInt8) (ts : Nat) (s : VideoStream abi) : List UInt8 :=
  (s.header ts).bytes ++ s.body mem

/-- The size of the record before any reduction to a machine word. -/
def fullSize (s : VideoStream abi) : Nat :=
  sizeofMediaRecord + sizeofVideoStream abi +
    (s.pstPack.map fun p => sizeofPack + (p.u32Len - p.u32Offset)).sum

def OffsetsValid (s : VideoStream abi) : Prop := ∀ p ∈ s.pstPack, p.u32Offset ≤ p.u32Len

instance (s : VideoStream abi) : Decidable s.OffsetsValid :=
  inferInstanceAs (Decidable (∀ p ∈ s.pstPack, p.u32Offset ≤ p.u32Len))

end VideoStream

theorem two_pow_32_le_sizeMod (abi : Abi) : 2 ^ 32 ≤ abi.sizeMod := by
  cases abi <;> simp [Abi.sizeMod]

/-- Below `2 ^ 32` the size loop is the plain sum. -/
theorem packTotal_eq {packs : List (VideoStreamPack abi)} {init : Nat}
    (hv : ∀ p ∈ packs, p.u32Offset ≤ p.u32Len)
    (h : init + (packs.map fun p => sizeofPack + (p.u32Len - p.u32Offset)).sum < 2 ^ 32) :
    packTotal abi packs init =
      init + (packs.map fun p => sizeofPack + (p.u32Len - p.u32Offset)).sum := by
  induction packs generalizing init with
  | nil => simp [packTotal]
  | cons p packs ih =>
    have hm := two_pow_32_le_sizeMod abi
    have hp : p.payloadLen = p.u32Len - p.u32Offset :=
      VideoStreamPack.payloadLen_eq (hv p (by simp))
    rw [List.map_cons, List.sum_cons] at h ⊢
    have hstep : ((init + sizeofPack) % abi.sizeMod + p.payloadLen) % abi.sizeMod =
        init + (sizeofPack + (p.u32Len - p.u32Offset)) := by
      rw [hp, Nat.mod_eq_of_lt (by omega : init + sizeofPack < abi.sizeMod),
        Nat.mod_eq_of_lt (by omega)]
      omega
    rw [packTotal, List.foldl_cons, hstep, ← packTotal,
      ih (fun q hq => hv q (by simp [hq])) (by omega), Nat.add_assoc init]

namespace VideoStream

variable {s : VideoStream abi}

theorem totalsize_eq (hv : s.OffsetsValid) (h : s.fullSize < 2 ^ 32) :
    s.totalsize = s.fullSize := packTotal_eq hv h

theorem length_images (packs : List (VideoStreamPack abi)) :
    (packs.flatMap VideoStreamPack.image).length = sizeofPack * packs.length := by
  induction packs with
  | nil => rfl
  | cons p packs ih =>
    rw [List.flatMap_cons, List.length_append, ih, p.sizeof, List.length_cons]
    ring

theorem length_record (mem : Nat → UInt8) (ts : Nat) (hv : s.OffsetsValid) :
    (s.record mem ts).length = s.fullSize := by
  have hp : ∀ packs : List (VideoStreamPack abi), (∀ p ∈ packs, p.u32Offset ≤ p.u32Len) →
      sizeofPack * packs.length + (packs.flatMap (payload mem)).length =
        (packs.map fun p => sizeofPack + (p.u32Len - p.u32Offset)).sum := by
    intro packs
    induction packs with
    | nil => intro _; rfl
    | cons p packs ih =>
      intro hv
      have h := ih fun q hq => hv q (by simp [hq])
      have hl := VideoStreamPack.payloadLen_eq (hv p (by simp))
      simp only [List.length_cons, List.flatMap_cons, List.length_append, List.map_cons,
        List.sum_cons, payload, length_load, hl, ← h]
      ring
  have h := hp s.pstPack hv
  simp only [record, body, List.length_append, MediaRecord.length_bytes, s.sizeof,
    length_images, fullSize]
  omega

theorem tag_range (s : VideoStream abi) : tagBase ≤ s.tag ∧ s.tag < 2 ^ 32 := by
  unfold tag
  split <;> decide

theorem holds_recput (mem : Nat → UInt8) (ts n1 : Nat) (s : VideoStream abi) :
    (videoStreamRecput mem ts n1 s).1.Holds n1 (s.record mem ts) := by
  have h := PutCursor.holds_copy (PutCursor.holds_copy (PutCursor.holds_start n1)
    (s.header ts).bytes) s.image
  have h := PutCursor.holds_foldl VideoStreamPack.image s.pstPack h
  have h := PutCursor.holds_foldl (payload mem) s.pstPack h
  have hR : s.record mem ts = [] ++ (s.header ts).bytes ++ s.image ++
      s.pstPack.flatMap VideoStreamPack.image ++ s.pstPack.flatMap (payload mem) := by
    simp only [record, body, List.nil_append, List.append_assoc]
  rw [hR]
  exact h

theorem roundTrips (hv : s.OffsetsValid) (h : s.fullSize < 2 ^ 32) (mem : Nat → UInt8)
    (ts n1 : Nat) :
    RoundTrips (s.record mem ts) s.fullSize s.tag n1 (videoStreamRecput mem ts n1 s) := by
  have hsize : (s.header ts).size = s.fullSize := by
    rw [header, totalsize_eq hv h, Nat.mod_eq_of_lt h]
  have hret : videoStreamRecput mem ts n1 s =
      ((videoStreamRecput mem ts n1 s).1, s.fullSize) := Prod.ext rfl hsize
  have hrt := roundTrips_of_holds (m := s.header ts) (holds_recput mem ts n1 s)
    (hsize.trans (length_record mem ts hv).symm) (hsize ▸ h) s.tag_range.1 s.tag_range.2
  rw [hsize] at hrt
  rw [hret]
  exact hrt

/-- The header field and the producer's argument are the size of the record. -/
theorem sizes (hv : s.OffsetsValid) (h : s.fullSize < 2 ^ 32) (ts : Nat) :
    (s.header ts).size = s.fullSize ∧ vsfStreamH264Size s = s.fullSize := by
  refine ⟨by rw [header, totalsize_eq hv h, Nat.mod_eq_of_lt h], ?_⟩
  rw [vsfStreamH264Size, ← totalsize, totalsize_eq hv h, Nat.mod_eq_of_lt h]

end VideoStream

namespace VideoFrame

variable {f : VideoFrame}

def body (phys : Nat → UInt8) (f : VideoFrame) : List UInt8 :=
  f.image ++ load phys f.u64PhyAddr0 (f.u64ExtVirAddr0 - f.u64HeaderVirAddr0)

/-- The logical record: header, descriptor, frame data. -/
def record (abi : Abi) (phys : Nat → UInt8) (ts : Nat) (f : VideoFrame) : List UInt8 :=
  (f.header abi ts).bytes ++ f.body phys

def fullSize (f : VideoFrame) : Nat :=
  sizeofMediaRecord + sizeofVideoFrame + (f.u64ExtVirAddr0 - f.u64HeaderVirAddr0)

theorem dataLen_eq (hv : f.u64HeaderVirAddr0 ≤ f.u64ExtVirAddr0) :
    f.dataLen = f.u64ExtVirAddr0 - f.u64HeaderVirAddr0 := by
  have hb := ofLe_lt (slice f.image 168 8)
  rw [length_slice (by simp only [f.sizeof, sizeofVideoFrame]; omega)] at hb
  have hb : f.u64ExtVirAddr0 < 2 ^ 64 := by
    rw [u64ExtVirAddr0]
    norm_num at hb ⊢
    exact hb
  rw [dataLen]
  omega

theorem totalsize_eq (hv : f.u64HeaderVirAddr0 ≤ f.u64ExtVirAddr0) (h : f.fullSize < 2 ^ 32) :
    f.totalsize abi = f.fullSize := by
  have hm := two_pow_32_le_sizeMod abi
  have hf : sizeofMediaRecord + sizeofVideoFrame + (f.u64ExtVirAddr0 - f.u64HeaderVirAddr0) =
      f.fullSize := rfl
  rw [totalsize, dataLen_eq hv, hf, Nat.mod_eq_of_lt (by omega : f.fullSize < 2 ^ 64),
    Nat.mod_eq_of_lt (by omega)]

theorem sizes (abi : Abi) (hv : f.u64HeaderVirAddr0 ≤ f.u64ExtVirAddr0)
    (h : f.fullSize < 2 ^ 32) (ts : Nat) :
    (f.header abi ts).size = f.fullSize ∧ vsfGetFrameSize abi f = f.fullSize := by
  refine ⟨by rw [header, totalsize_eq hv h, Nat.mod_eq_of_lt h], ?_⟩
  rw [vsfGetFrameSize, ← totalsize, totalsize_eq hv h, Nat.mod_eq_of_lt h]

theorem length_record (phys : Nat → UInt8) (ts : Nat) :
    (f.record abi phys ts).length = f.fullSize := by
  simp only [record, body, List.length_append, MediaRecord.length_bytes, f.sizeof,
    length_load, fullSize]
  omega

theorem uSize_eq (hv : f.u64HeaderVirAddr0 ≤ f.u64ExtVirAddr0) (h : f.fullSize < 2 ^ 32) :
    f.dataLen % 2 ^ 32 = f.u64ExtVirAddr0 - f.u64HeaderVirAddr0 := by
  have hle : f.u64ExtVirAddr0 - f.u64HeaderVirAddr0 ≤ f.fullSize := Nat.le_add_left _ _
  rw [dataLen_eq hv, Nat.mod_eq_of_lt (hle.trans_lt h)]

theorem holds_recput (phys : Nat → UInt8) (ts n1 : Nat)
    (hv : f.u64HeaderVirAddr0 ≤ f.u64ExtVirAddr0) (h : f.fullSize < 2 ^ 32) :
    (videoFrameRecput abi phys ts n1 f).1.Holds n1 (f.record abi phys ts) := by
  have hc := PutCursor.holds_copy (PutCursor.holds_copy (PutCursor.holds_copy
    (PutCursor.holds_start n1) (f.header abi ts).bytes) f.image)
    (load phys f.u64PhyAddr0 (f.dataLen % 2 ^ 32))
  have hR : f.record abi phys ts = [] ++ (f.header abi ts).bytes ++ f.image ++
      load phys f.u64PhyAddr0 (f.dataLen % 2 ^ 32) := by
    rw [record, body, uSize_eq hv h, List.nil_append, List.append_assoc]
  rw [hR]
  exact hc

theorem tag_range (abi : Abi) (f : VideoFrame) (ts : Nat) :
    tagBase ≤ (f.header abi ts).tag ∧ (f.header abi ts).tag < 2 ^ 32 := by
  simp only [header]
  decide

theorem roundTrips (hv : f.u64HeaderVirAddr0 ≤ f.u64ExtVirAddr0) (h : f.fullSize < 2 ^ 32)
    (phys : Nat → UInt8) (ts n1 : Nat) :
    RoundTrips (f.record abi phys ts) f.fullSize (tagBase ||| 1) n1
      (videoFrameRecput abi phys ts n1 f) := by
  have hsize := (sizes abi hv h ts).1
  have hret : videoFrameRecput abi phys ts n1 f =
      ((videoFrameRecput abi phys ts n1 f).1, f.fullSize) := Prod.ext rfl hsize
  have ht := f.tag_range abi ts
  have hrt := roundTrips_of_holds (m := f.header abi ts) (holds_recput phys ts n1 hv h)
    (hsize.trans (length_record phys ts).symm) (hsize ▸ h) ht.1 ht.2
  rw [hsize] at hrt
  rw [hret]
  exact hrt

end VideoFrame

/-- Decode undoes encode for both record kinds, at every split of the ring: the record does
not depend on `n1`, and header, producer and hook agree on its size. -/
theorem ring_codec :
    (∀ (abi : Abi) (s : VideoStream abi), s.OffsetsValid → s.fullSize < 2 ^ 32 →
      ∀ mem ts, (s.header ts).size = s.fullSize ∧ vsfStreamH264Size s = s.fullSize ∧
        ∀ n1, RoundTrips (s.record mem ts) s.fullSize s.tag n1
          (videoStreamRecput mem ts n1 s)) ∧
    (∀ (abi : Abi) (f : VideoFrame), f.u64HeaderVirAddr0 ≤ f.u64ExtVirAddr0 →
      f.fullSize < 2 ^ 32 →
      ∀ phys ts, (f.header abi ts).size = f.fullSize ∧ vsfGetFrameSize abi f = f.fullSize ∧
        ∀ n1, RoundTrips (f.record abi phys ts) f.fullSize (tagBase ||| 1) n1
          (videoFrameRecput abi phys ts n1 f)) := by
  constructor
  · intro abi s hv h mem ts
    obtain ⟨h1, h2⟩ := VideoStream.sizes hv h ts
    exact ⟨h1, h2, fun n1 => VideoStream.roundTrips hv h mem ts n1⟩
  · intro abi f hv h phys ts
    obtain ⟨h1, h2⟩ := VideoFrame.sizes abi hv h ts
    exact ⟨h1, h2, fun n1 => VideoFrame.roundTrips hv h phys ts n1⟩

/-- The fields of a stream of one pack fill its header. -/
theorem length_onePack :
    (le 8 0 ++ le 4 1 ++ List.replicate 12 0).length = sizeofVideoStream .lp64 := rfl

/-- A stream of two packs, 5 and 3 bytes long, the second one with its first byte skipped. -/
def sampleStream : VideoStream .lp64 where
  image := le 8 0 ++ le 4 2 ++ List.replicate 12 0
  sizeof := rfl
  pstPack :=
    [⟨le 8 0 ++ le 8 100 ++ le 4 5 ++ le 4 0 ++ List.replicate 16 0, rfl⟩,
     ⟨le 8 0 ++ le 8 200 ++ le 4 3 ++ le 4 1 ++ List.replicate 16 0, rfl⟩]
  count := by decide

/-- A frame whose data is 64 bytes long. -/
def sampleFrame : VideoFrame where
  image := List.replicate 168 0 ++ le 8 64 ++ List.replicate 48 0
  sizeof := rfl

theorem ring_codec_sample :
    (sampleStream.OffsetsValid ∧ sampleStream.fullSize = 127 ∧
      RoundTrips (sampleStream.record (fun a => UInt8.ofNat a) 7) sampleStream.fullSize
        sampleStream.tag 50 (videoStreamRecput (fun a => UInt8.ofNat a) 7 50 sampleStream)) ∧
    (sampleFrame.fullSize = 304 ∧
      RoundTrips (sampleFrame.record .ilp32 (fun a => UInt8.ofNat a) 7) sampleFrame.fullSize
        (tagBase ||| 1) 3 (videoFrameRecput .ilp32 (fun a => UInt8.ofNat a) 7 3 sampleFrame)) := by
  have hv : sampleStream.OffsetsValid := by decide
  have hs : sampleStream.fullSize = 127 := by decide
  have hf : sampleFrame.fullSize = 304 := by decide
  exact ⟨⟨hv, hs, (ring_codec.1 .lp64 sampleStream hv (by omega) _ 7).2.2 50⟩,
    hf, (ring_codec.2 .ilp32 sampleFrame (by decide) (by omega) _ 7).2.2 3⟩

end Freak.Media
