import Freak.Lib.Bytes

/-! Media records in the ring: the ufifo hooks for video streams and video frames. -/
namespace Freak.Media
open Bytes

/-- The two targets: the 32-bit ARM board and the 64-bit host. -/
inductive Abi
  | ilp32
  | lp64
  deriving DecidableEq

/-- One more than the largest `size_t`. -/
def Abi.sizeMod : Abi → Nat
  | .ilp32 => 2 ^ 32
  | .lp64 => 2 ^ 64

/-- `media_record_t` without its flexible member. -/
structure MediaRecord where
  size : Nat
  tag : Nat
  ts : Nat

def sizeofMediaRecord : Nat := 16

def MediaRecord.bytes (r : MediaRecord) : List UInt8 := le 4 r.size ++ (le 4 r.tag ++ le 8 r.ts)

def recSize (bs : List UInt8) : Nat := ofLe (slice bs 0 4)

def recTag (bs : List UInt8) : Nat := ofLe (slice bs 4 4)

def recTs (bs : List UInt8) : Nat := ofLe (slice bs 8 8)

/-- `0xdeadbeef << 8` in 32 bits. -/
def tagBase : Nat := (0xdeadbeef <<< 8) % 2 ^ 32

/-- `a - b` of two `uint32_t`. -/
@[irreducible] def sub32 (a b : Nat) : Nat := (a + 2 ^ 32 - b) % 2 ^ 32

def sizeofPack : Nat := 40

variable {abi : Abi}

/-! The fields of a `video_stream_pack_t`, read from its bytes. -/
def packU8Addr (abi : Abi) (image : List UInt8) : Nat :=
  match abi with
  | .ilp32 => ofLe (slice image 8 4)
  | .lp64 => ofLe (slice image 8 8)

def packU32Len (abi : Abi) (image : List UInt8) : Nat :=
  match abi with
  | .ilp32 => ofLe (slice image 12 4)
  | .lp64 => ofLe (slice image 16 4)

def packU32Offset (abi : Abi) (image : List UInt8) : Nat :=
  match abi with
  | .ilp32 => ofLe (slice image 16 4)
  | .lp64 => ofLe (slice image 20 4)

def packU64PTS (image : List UInt8) : Nat := ofLe (slice image 24 8)

/-- A `video_stream_pack_t` as it lies in memory. -/
structure VideoStreamPack (abi : Abi) where
  image : List UInt8
  sizeof : image.length = sizeofPack

namespace VideoStreamPack

def pu8Addr (p : VideoStreamPack abi) : Nat := packU8Addr abi p.image

def u32Len (p : VideoStreamPack abi) : Nat := packU32Len abi p.image

def u32Offset (p : VideoStreamPack abi) : Nat := packU32Offset abi p.image

/-- `u32Len - u32Offset` as the code computes it. -/
def payloadLen (p : VideoStreamPack abi) : Nat := sub32 p.u32Len p.u32Offset

theorem u32Len_lt (p : VideoStreamPack abi) : p.u32Len < 2 ^ 32 := by
  have h := p.sizeof
  cases abi
  · have hb := ofLe_lt (slice p.image 12 4)
    rwa [length_slice (by simp only [h, sizeofPack]; omega)] at hb
  · have hb := ofLe_lt (slice p.image 16 4)
    rwa [length_slice (by simp only [h, sizeofPack]; omega)] at hb

theorem payloadLen_eq {p : VideoStreamPack abi} (h : p.u32Offset ≤ p.u32Len) :
    p.payloadLen = p.u32Len - p.u32Offset := by
  have hl := p.u32Len_lt
  rw [payloadLen, sub32]
  omega

end VideoStreamPack

def sizeofVideoStream : Abi → Nat
  | .ilp32 => 16
  | .lp64 => 24

def packCountOf (abi : Abi) (image : List UInt8) : Nat :=
  match abi with
  | .ilp32 => ofLe (slice image 4 4)
  | .lp64 => ofLe (slice image 8 4)

/-- A `video_stream_t` in memory together with the pack array it points to. -/
structure VideoStream (abi : Abi) where
  image : List UInt8
  sizeof : image.length = sizeofVideoStream abi
  pstPack : List (VideoStreamPack abi)
  count : packCountOf abi image = pstPack.length

/-- The bytes stored so far through the two ring cursors of a `recput` hook. -/
structure PutCursor where
  n1 : Nat
  p1 : List UInt8
  p2 : List UInt8
  deriving DecidableEq

namespace PutCursor

def start (n1 : Nat) : PutCursor := ⟨n1, [], []⟩

/-- One copy step: `l = min(a, _n1)`, the first `l` bytes to `_p1`, the rest to `_p2`. -/
def copy (c : PutCursor) (p : List UInt8) : PutCursor :=
  let l := min p.length c.n1
  ⟨c.n1 - l, c.p1 ++ p.take l, c.p2 ++ p.drop l⟩

/-- The cursors have stored the logical string `s`, split after `n1` bytes. -/
def Holds (n1 : Nat) (c : PutCursor) (s : List UInt8) : Prop :=
  c.n1 = n1 - s.length ∧ c.p1 = s.take n1 ∧ c.p2 = s.drop n1

theorem holds_start (n1 : Nat) : Holds n1 (start n1) [] := by simp [Holds, start]

theorem holds_copy {n1 : Nat} {c : PutCursor} {s : List UInt8} (h : Holds n1 c s)
    (p : List UInt8) : Holds n1 (c.copy p) (s ++ p) := by
  obtain ⟨hn, h1, h2⟩ := h
  refine ⟨?_, ?_, ?_⟩
  · simp only [copy, hn, List.length_append]
    omega
  · simp only [copy, h1, hn, List.take_append]
    congr 1
    rw [Nat.min_comm, ← List.take_take, List.take_length]
  · simp only [copy, h2, hn, List.drop_append]
    congr 1
    by_cases hp : p.length ≤ n1 - s.length
    · rw [Nat.min_eq_left hp, List.drop_length, List.drop_eq_nil_of_le hp]
    · rw [Nat.min_eq_right (by omega)]

/-- A loop of copy steps stores the concatenation of what each step copies. -/
theorem holds_foldl {α : Type} (f : α → List UInt8) (xs : List α) {n1 : Nat} {c : PutCursor}
    {s : List UInt8} (h : Holds n1 c s) :
    Holds n1 (xs.foldl (fun c x => c.copy (f x)) c) (s ++ xs.flatMap f) := by
  induction xs generalizing c s with
  | nil => simpa using h
  | cons x xs ih =>
    have h' := ih (holds_copy h (f x))
    simpa [List.append_assoc] using h'

end PutCursor

/-- The size loop of `video_stream_recput` and of the producer. -/
def packTotal (abi : Abi) (packs : List (VideoStreamPack abi)) (init : Nat) : Nat :=
  packs.foldl (fun t p => ((t + sizeofPack) % abi.sizeMod + p.payloadLen) % abi.sizeMod) init

def VideoStream.totalsize (s : VideoStream abi) : Nat :=
  packTotal abi s.pstPack (sizeofMediaRecord + sizeofVideoStream abi)

/-- The size `__vsf_stream_h264_proc` passes to `fifo->put`, whose parameter is an `uint`. -/
def vsfStreamH264Size (s : VideoStream abi) : Nat :=
  packTotal abi s.pstPack (sizeofMediaRecord + sizeofVideoStream abi) % 2 ^ 32

def VideoStream.tag (s : VideoStream abi) : Nat :=
  tagBase ||| (if packCountOf abi s.image > 1 then 1 else 0)

/-- The media record header that `video_stream_recput` fills in. -/
def VideoStream.header (s : VideoStream abi) (ts : Nat) : MediaRecord :=
  { size := s.totalsize % 2 ^ 32, tag := s.tag, ts := ts }

/-- `video_stream_recput`: what it stores at `p1` and `p2`, and its result. -/
def videoStreamRecput (mem : Nat → UInt8) (ts n1 : Nat) (s : VideoStream abi) :
    PutCursor × Nat :=
  let c := (PutCursor.start n1).copy (s.header ts).bytes
  let c := c.copy s.image
  let c := s.pstPack.foldl (fun c p => c.copy p.image) c
  let c := s.pstPack.foldl (fun c p => c.copy (load mem p.pu8Addr p.payloadLen)) c
  (c, s.totalsize % 2 ^ 32)

/-- `recsize` of both record kinds: the header is assembled when the ring wraps inside it. -/
def recsize (p1 : List UInt8) (n1 : Nat) (p2 : List UInt8) : Nat :=
  if n1 ≥ sizeofMediaRecord then recSize p1
  else recSize (slice p1 0 n1 ++ slice p2 0 (sizeofMediaRecord - n1))

def rectag (p1 : List UInt8) (n1 : Nat) (p2 : List UInt8) : Nat :=
  if n1 ≥ sizeofMediaRecord then recTag p1
  else recTag (slice p1 0 n1 ++ slice p2 0 (sizeofMediaRecord - n1))

/-- `recget` of both record kinds, into the buffer `arg`; `none` is the failed tag assertion, or a
write behind the buffer's end. The second half of the header goes to `p + _n1`, not to `p + l`. -/
def recget (p1 : List UInt8) (n1 : Nat) (p2 : List UInt8) (arg : List UInt8) :
    Option (List UInt8 × Nat) :=
  let a := sizeofMediaRecord
  let l := min a n1
  if arg.length < a then none else
    let arg := store arg 0 (slice p1 0 l)
    let arg := store arg n1 (slice p2 0 (a - l))
    if recTag arg < tagBase then none else
      let m := sub32 (recSize arg) sizeofMediaRecord
      if arg.length < a + m then none else
        let l' := min m (n1 - l)
        let arg := store arg sizeofMediaRecord (slice p1 l l')
        let arg := store arg (sizeofMediaRecord + l') (slice p2 (a - l) (m - l'))
        some (arg, recSize arg)

/-! The hooks come in two files with identical bodies for these three. -/
def videoStreamRecsize := recsize
def videoStreamRectag := rectag
def videoStreamRecget := recget
def videoFrameRecsize := recsize
def videoFrameRectag := rectag
def videoFrameRecget := recget

def sizeofVideoFrame : Nat := 224

/-- A `video_frame_t` as it lies in memory. -/
structure VideoFrame where
  image : List UInt8
  sizeof : image.length = sizeofVideoFrame

namespace VideoFrame

def u64HeaderVirAddr0 (f : VideoFrame) : Nat := ofLe (slice f.image 72 8)

def u64PhyAddr0 (f : VideoFrame) : Nat := ofLe (slice f.image 96 8)

def u64ExtVirAddr0 (f : VideoFrame) : Nat := ofLe (slice f.image 168 8)

/-- `u64ExtVirAddr[0] - u64HeaderVirAddr[0]` in 64 bits. -/
def dataLen (f : VideoFrame) : Nat :=
  (f.u64ExtVirAddr0 + 2 ^ 64 - f.u64HeaderVirAddr0) % 2 ^ 64

def totalsize (abi : Abi) (f : VideoFrame) : Nat :=
  (sizeofMediaRecord + sizeofVideoFrame + f.dataLen) % 2 ^ 64 % abi.sizeMod

def header (abi : Abi) (f : VideoFrame) (ts : Nat) : MediaRecord :=
  { size := f.totalsize abi % 2 ^ 32, tag := tagBase ||| 1, ts := ts }

end VideoFrame

/-- The size `__vsf_get_frame_proc` passes to `fifo->put`. -/
def vsfGetFrameSize (abi : Abi) (f : VideoFrame) : Nat :=
  (sizeofMediaRecord + sizeofVideoFrame + f.dataLen) % 2 ^ 64 % abi.sizeMod % 2 ^ 32

/-- `video_frame_recput`. `phys` is physical memory, which `physmap` gives a view of. -/
def videoFrameRecput (abi : Abi) (phys : Nat → UInt8) (ts n1 : Nat) (f : VideoFrame) :
    PutCursor × Nat :=
  let uSize := f.dataLen % 2 ^ 32
  let c := (PutCursor.start n1).copy (f.header abi ts).bytes
  let c := c.copy f.image
  let c := c.copy (load phys f.u64PhyAddr0 uSize)
  (c, f.totalsize abi % 2 ^ 32)

end Freak.Media
