import Freak.Media.RoundTrip

/-! From the encoder to the packers: the senders find the packs of a received record again. -/
namespace Freak.Media
open Bytes

variable {abi : Abi}

/-- One call of a packer: where its data starts in the received record, how many bytes it is
told to take, and the time stamp. -/
structure PackerInput where
  data : Int
  bytes : Nat
  time : Nat

/-- The bytes the packer finds. -/
def PackerInput.read (buf : List UInt8) (x : PackerInput) : List UInt8 :=
  slice buf x.data.toNat x.bytes

/-- `stream->pstPack[i]` of a received record. -/
def recvPack (abi : Abi) (buf : List UInt8) (i : Nat) : List UInt8 :=
  slice buf (sizeofMediaRecord + sizeofVideoStream abi + sizeofPack * i) sizeofPack

/-- `u32Len - u32Offset` of a received pack. -/
def recvLen (abi : Abi) (p : List UInt8) : Nat := sub32 (packU32Len abi p) (packU32Offset abi p)

/-- The loop of both senders from pack `i` on. `addr` is the `pu8Addr` it writes into that pack;
only the next step reads it. -/
def repointFrom (abi : Abi) (buf : List UInt8) (addr : Int) (i : Nat) :
    Nat → List (Int × List UInt8)
  | 0 => []
  | n + 1 =>
    let p := recvPack abi buf i
    (addr, p) :: repointFrom abi buf (addr + packU32Len abi p - packU32Offset abi p) (i + 1) n

/-- The first pack is pointed at `&stream->pstPack[stream->u32PackCount]`. -/
def repoint (abi : Abi) (buf : List UInt8) : List (Int × List UInt8) :=
  let count := packCountOf abi (slice buf sizeofMediaRecord (sizeofVideoStream abi))
  repointFrom abi buf
    ((sizeofMediaRecord + sizeofVideoStream abi + sizeofPack * count : Nat) : Int) 0 count

/-- What `rtp_send_data` gives to `rtp_payload_encode_input` for one received record. -/
def rtpSendData (abi : Abi) (buf : List UInt8) : List PackerInput :=
  if recSize buf = 0 then [] else
    (repoint abi buf).map fun x =>
      { data := x.1, bytes := recvLen abi x.2, time := packU64PTS x.2 * 90 % 2 ^ 64 / 1000 }

/-- What `flv_send_proc` gives to `flv_muxer_avc` for one received record, and `priv->pts`. -/
def flvSendProc (abi : Abi) (buf : List UInt8) (pts : Nat) : List PackerInput × Nat :=
  if recSize buf = 0 then ([], pts) else
    let packs := repoint abi buf
    let pts := if packs = [] ∨ pts ≠ 0 then pts else recTs buf
    (packs.map fun x =>
      { data := x.1, bytes := recvLen abi x.2, time := (recTs buf + 2 ^ 64 - pts) % 2 ^ 64 }, pts)

/-- What `__vsf_stream_jpeg_proc` writes to the file, one `fwrite` a pack. -/
def vsfStreamJpegProc (mem : Nat → UInt8) (s : VideoStream abi) : List (List UInt8) :=
  s.pstPack.map fun p => load mem (p.pu8Addr + p.u32Offset) p.payloadLen

/-- The valid bytes of a pack: `[u32Offset, u32Len)` from its `pu8Addr`. -/
def VideoStreamPack.valid (mem : Nat → UInt8) (p : VideoStreamPack abi) : List UInt8 :=
  load mem (p.pu8Addr + p.u32Offset) (p.u32Len - p.u32Offset)

/-- A sender hands over the valid bytes, pack by pack, from inside the record. -/
structure Delivers (mem : Nat → UInt8) (s : VideoStream abi) (buf : List UInt8) (size : Nat)
    (inputs : List PackerInput) : Prop where
  bytes : inputs.map (PackerInput.read buf) = s.pstPack.map (VideoStreamPack.valid mem)
  inside : ∀ x ∈ inputs, 0 ≤ x.data ∧ x.data + x.bytes ≤ size

/-- `data` of `rtp_media_priv_t` and `in_data` of `web_media_priv_t` are this long. -/
def sizeofData : Nat := 512 * 1024

/-- `fifo->get` of a sender, behind its `memset(rec, 0, sizeof(media_record_t))`. The library is
told how long the buffer is; a record that is longer is refused, or leaves the buffer. -/
def senderGet (p1 : List UInt8) (n1 : Nat) (p2 data : List UInt8) : Option (List UInt8 × Nat) :=
  recget p1 n1 p2 (store data 0 (List.replicate sizeofMediaRecord 0))

/-- A picture goes through the ring: whatever it contains, wherever the ring wraps, and whatever
the sender's buffer held, both senders deliver it, and so does the path to the file. -/
def EndToEnd (s : VideoStream abi) : Prop :=
  ∀ (mem : Nat → UInt8) (ts n1 : Nat) (j1 j2 data : List UInt8), data.length = sizeofData →
    let c := (videoStreamRecput mem ts n1 s).1
    ∃ buf size, senderGet (c.p1 ++ j1) n1 (c.p2 ++ j2) data = some (buf, size) ∧
      Delivers mem s buf size (rtpSendData abi buf) ∧
      (∀ pts, Delivers mem s buf size (flvSendProc abi buf pts).1) ∧
      vsfStreamJpegProc mem s = s.pstPack.map (VideoStreamPack.valid mem)

variable {mem : Nat → UInt8} {s : VideoStream abi} {packs : List (VideoStreamPack abi)}

/-- The packs at the places the recurrence gives them, from `addr` on. -/
def placed (addr : Nat) : List (VideoStreamPack abi) → List (Int × List UInt8)
  | [] => []
  | p :: packs => (addr, p.image) :: placed (addr + p.payloadLen) packs

/-- Over a pack table the loop is the recurrence. -/
theorem repointFrom_eq {pre : List UInt8} {i : Nat} (post : List UInt8) (addr : Nat)
    (hpre : pre.length = sizeofMediaRecord + sizeofVideoStream abi + sizeofPack * i)
    (hv : ∀ p ∈ packs, p.u32Offset ≤ p.u32Len) :
    repointFrom abi (pre ++ packs.flatMap VideoStreamPack.image ++ post) addr i packs.length =
      placed addr packs := by
  induction packs generalizing pre i addr with
  | nil => rfl
  | cons p packs ih =>
    have himage : recvPack abi
        (pre ++ (p :: packs).flatMap VideoStreamPack.image ++ post) i = p.image := by
      rw [recvPack, List.flatMap_cons, List.append_assoc, List.append_assoc]
      exact slice_append_of_eq hpre p.sizeof
    have hp := hv p (by simp)
    have haddr : ((addr : Int) + p.u32Len - p.u32Offset) = (addr + p.payloadLen : Nat) := by
      rw [VideoStreamPack.payloadLen_eq hp]
      omega
    have hpre' : (pre ++ p.image).length =
        sizeofMediaRecord + sizeofVideoStream abi + sizeofPack * (i + 1) := by
      rw [List.length_append, hpre, p.sizeof]
      ring
    have htail := ih (addr + p.payloadLen) hpre' fun q hq => hv q (by simp [hq])
    rw [List.append_assoc pre, ← List.flatMap_cons] at htail
    rw [List.length_cons, repointFrom, himage, placed, ← htail]
    exact congrArg _ (congrArg (fun a => repointFrom abi _ a (i + 1) packs.length) haddr)

/-- Read at its place, every pack gives the bytes that were stored for it. -/
theorem read_placed {pre post : List UInt8} {addr : Nat} (hpre : pre.length = addr) :
    (placed addr packs).map (fun x => slice
        (pre ++ packs.flatMap (VideoStream.payload mem) ++ post) x.1.toNat
        (recvLen abi x.2)) =
      packs.map (VideoStream.payload mem) := by
  induction packs generalizing pre addr with
  | nil => rfl
  | cons p packs ih =>
    have hread : slice (pre ++ (p :: packs).flatMap (VideoStream.payload mem) ++ post) addr
        p.payloadLen = VideoStream.payload mem p := by
      rw [List.flatMap_cons, List.append_assoc, List.append_assoc]
      exact slice_append_of_eq hpre (by simp [VideoStream.payload])
    have hpre' : (pre ++ VideoStream.payload mem p).length = addr + p.payloadLen := by
      simp [VideoStream.payload, hpre]
    have htail := ih hpre'
    rw [List.append_assoc pre, ← List.flatMap_cons] at htail
    rw [placed, List.map_cons, List.map_cons, ← htail]
    exact congrArg (· :: _) hread

/-- The places lie one behind the other. -/
theorem placed_inside {addr : Nat} :
    ∀ x ∈ placed addr packs, 0 ≤ x.1 ∧
      x.1 + recvLen abi x.2 ≤
        addr + (packs.map VideoStreamPack.payloadLen).sum := by
  induction packs generalizing addr with
  | nil => simp [placed]
  | cons p packs ih =>
    intro x hx
    rw [List.map_cons, List.sum_cons]
    rcases List.mem_cons.mp hx with rfl | hx
    · have hl : recvLen abi p.image = p.payloadLen := rfl
      simp only [hl]
      omega
    · have := ih x hx
      push_cast at this ⊢
      omega

/-- The last range ends where all of them together do. -/
theorem placed_last (addr : Nat) (hne : packs ≠ []) :
    ∃ x ∈ placed addr packs,
      x.1 + recvLen abi x.2 =
        addr + (packs.map VideoStreamPack.payloadLen).sum := by
  induction packs generalizing addr with
  | nil => exact (hne rfl).elim
  | cons p packs ih =>
    rw [List.map_cons, List.sum_cons]
    by_cases hp : packs = []
    · subst hp
      refine ⟨(addr, p.image), by simp [placed], ?_⟩
      have hl : recvLen abi p.image = p.payloadLen := rfl
      simp [hl]
    · obtain ⟨x, hx, he⟩ := ih (addr + p.payloadLen) hp
      refine ⟨x, List.mem_cons_of_mem _ hx, ?_⟩
      push_cast at he ⊢
      omega

namespace VideoStream

/-- Where the payloads begin. -/
def tableEnd (s : VideoStream abi) : Nat :=
  sizeofMediaRecord + sizeofVideoStream abi + sizeofPack * s.pstPack.length

theorem fullSize_eq (hv : s.OffsetsValid) :
    s.fullSize = s.tableEnd + (s.pstPack.map VideoStreamPack.payloadLen).sum := by
  have hsum : ∀ packs : List (VideoStreamPack abi), (∀ p ∈ packs, p.u32Offset ≤ p.u32Len) →
      (packs.map fun p => sizeofPack + (p.u32Len - p.u32Offset)).sum =
        sizeofPack * packs.length + (packs.map VideoStreamPack.payloadLen).sum := by
    intro packs hv
    induction packs with
    | nil => rfl
    | cons p packs ih =>
      have hp := VideoStreamPack.payloadLen_eq (hv p (by simp))
      have htail := ih fun q hq => hv q (by simp [hq])
      simp only [List.map_cons, List.sum_cons, List.length_cons, htail, hp]
      ring
  rw [fullSize, tableEnd, hsum s.pstPack hv]
  ring

/-- Header and descriptor, pack table, payloads. -/
theorem record_split (mem : Nat → UInt8) (ts : Nat) (s : VideoStream abi) :
    s.record mem ts = (s.header ts).bytes ++ s.image ++
      s.pstPack.flatMap VideoStreamPack.image ++ s.pstPack.flatMap (payload mem) := by
  simp only [record, body, List.append_assoc]

/-- The packs are found behind an unbroken table. -/
theorem repoint_table (hv : s.OffsetsValid) (ts : Nat) (rest : List UInt8) :
    repoint abi ((s.header ts).bytes ++ s.image ++
      s.pstPack.flatMap VideoStreamPack.image ++ rest) = placed s.tableEnd s.pstPack := by
  have hpre : ((s.header ts).bytes ++ s.image).length =
      sizeofMediaRecord + sizeofVideoStream abi + sizeofPack * 0 := by
    simp [s.sizeof]
  have hcount : packCountOf abi (slice ((s.header ts).bytes ++ s.image ++
      s.pstPack.flatMap VideoStreamPack.image ++ rest) sizeofMediaRecord (sizeofVideoStream abi)) =
        s.pstPack.length := by
    rw [List.append_assoc, List.append_assoc,
      slice_append_of_eq (s.header ts).length_bytes s.sizeof]
    exact s.count
  rw [repoint, hcount]
  exact repointFrom_eq rest s.tableEnd hpre hv

theorem repoint_record (hv : s.OffsetsValid) (mem : Nat → UInt8) (ts : Nat)
    (rest : List UInt8) :
    repoint abi (s.record mem ts ++ rest) = placed s.tableEnd s.pstPack := by
  rw [record_split, List.append_assoc]
  exact repoint_table hv ts _

theorem read_record (mem : Nat → UInt8) (ts : Nat) (rest : List UInt8) :
    (placed s.tableEnd s.pstPack).map (fun x => slice (s.record mem ts ++ rest) x.1.toNat
        (recvLen abi x.2)) = s.pstPack.map (payload mem) := by
  have hpre : ((s.header ts).bytes ++ s.image ++
      s.pstPack.flatMap VideoStreamPack.image).length = s.tableEnd := by
    simp only [List.length_append, MediaRecord.length_bytes, s.sizeof, length_images, tableEnd]
  rw [record_split]
  exact read_placed hpre

end VideoStream

/-- Where the calls of a sender find their data, and how much of it. -/
def places (xs : List PackerInput) : List (Int × Nat) := xs.map fun x => (x.data, x.bytes)

def recvPlaces (abi : Abi) (buf : List UInt8) : List (Int × Nat) :=
  if recSize buf = 0 then [] else (repoint abi buf).map fun x => (x.1, recvLen abi x.2)

theorem places_map {α : Type} (f : α → Int) (g t : α → Nat) (xs : List α) :
    places (xs.map fun x => ⟨f x, g x, t x⟩) = xs.map fun x => (f x, g x) := by
  simp only [places, List.map_map, Function.comp_def]

theorem places_rtpSendData (abi : Abi) (buf : List UInt8) :
    places (rtpSendData abi buf) = recvPlaces abi buf := by
  unfold rtpSendData recvPlaces
  split
  · rfl
  · exact places_map _ _ _ _

theorem places_flvSendProc (abi : Abi) (buf : List UInt8) (pts : Nat) :
    places (flvSendProc abi buf pts).1 = recvPlaces abi buf := by
  unfold flvSendProc recvPlaces
  split
  · rfl
  · exact places_map _ _ _ _

/-- Delivery is a matter of the places only. -/
theorem delivers_iff {buf : List UInt8} {size : Nat} {xs : List PackerInput} :
    Delivers mem s buf size xs ↔
      (places xs).map (fun x => slice buf x.1.toNat x.2) =
        s.pstPack.map (VideoStreamPack.valid mem) ∧
      ∀ x ∈ places xs, 0 ≤ x.1 ∧ x.1 + x.2 ≤ size := by
  have hread : (places xs).map (fun x => slice buf x.1.toNat x.2) =
      xs.map (PackerInput.read buf) := by
    rw [places, List.map_map]
    rfl
  rw [hread]
  constructor
  · intro h
    refine ⟨h.bytes, ?_⟩
    intro x hx
    obtain ⟨y, hy, rfl⟩ := List.mem_map.mp hx
    exact h.inside y hy
  · rintro ⟨hb, hin⟩
    exact ⟨hb, fun x hx => hin (x.data, x.bytes) (List.mem_map_of_mem hx)⟩

/-- Between them the senders differ in the time stamps only. -/
theorem delivers_flvSendProc {buf : List UInt8} {size : Nat} (pts : Nat)
    (h : Delivers mem s buf size (rtpSendData abi buf)) :
    Delivers mem s buf size (flvSendProc abi buf pts).1 := by
  rw [delivers_iff, places_rtpSendData] at h
  rw [delivers_iff, places_flvSendProc]
  exact h

/-- From a whole record the senders take what was stored for each pack. -/
theorem recvPlaces_record (hv : s.OffsetsValid) (mem : Nat → UInt8) (ts : Nat)
    (rest : List UInt8) (hsize : (s.header ts).size = s.fullSize) (hlt : s.fullSize < 2 ^ 32) :
    (recvPlaces abi (s.record mem ts ++ rest)).map
        (fun x => slice (s.record mem ts ++ rest) x.1.toNat x.2) =
      s.pstPack.map (VideoStream.payload mem) ∧
    ∀ x ∈ recvPlaces abi (s.record mem ts ++ rest), 0 ≤ x.1 ∧ x.1 + x.2 ≤ s.fullSize := by
  have hrec : recSize (s.record mem ts ++ rest) = s.fullSize := by
    rw [VideoStream.record, List.append_assoc, (s.header ts).recSize_bytes (hsize ▸ hlt), hsize]
  have hpos : s.fullSize ≠ 0 := by
    rw [VideoStream.fullSize, sizeofMediaRecord]
    omega
  rw [recvPlaces, hrec, if_neg hpos, s.repoint_record hv mem ts rest]
  refine ⟨?_, ?_⟩
  · rw [List.map_map]
    exact s.read_record mem ts rest
  · intro x hx
    obtain ⟨y, hy, rfl⟩ := List.mem_map.mp hx
    rw [VideoStream.fullSize_eq hv, Nat.cast_add]
    exact placed_inside y hy

theorem VideoStream.inRing_recput (mem : Nat → UInt8) (ts n1 : Nat) (s : VideoStream abi)
    (j1 j2 : List UInt8) :
    InRing (s.record mem ts) n1 ((videoStreamRecput mem ts n1 s).1.p1 ++ j1)
      ((videoStreamRecput mem ts n1 s).1.p2 ++ j2) := by
  obtain ⟨hn, h1, h2⟩ := VideoStream.holds_recput mem ts n1 s
  exact ⟨j1, j2, congrArg (· ++ j1) h1, congrArg (· ++ j2) h2⟩

/-- Reading into a buffer that already holds what it has room for of the record leaves it so. -/
theorem recget_prefix {R arg buf : List UInt8} {n size : Nat} (hn : n ≤ R.length)
    (hlen : arg.length = n) (hfits : sizeofMediaRecord ≤ n)
    (harg : arg.drop sizeofMediaRecord = (R.take n).drop sizeofMediaRecord)
    (hget : recget [] 0 R arg = some (buf, size)) :
    buf = R.take n ∧ size = recSize (R.take n) ∧
      sizeofMediaRecord + sub32 (recSize (R.take n)) sizeofMediaRecord ≤ n := by
  have hnil : ∀ (bs : List UInt8) (a k l : Nat), store bs a (slice ([] : List UInt8) k l) = bs := by
    intro bs a k l
    simp [slice, store]
  have hlen' : (R.take n).length = n := by
    rw [List.length_take, Nat.min_eq_left hn]
  have hhead : store (store arg 0 (slice [] 0 (min sizeofMediaRecord 0))) 0
      (slice R 0 (sizeofMediaRecord - min sizeofMediaRecord 0)) = R.take n := by
    have hsize : (R.take sizeofMediaRecord).length = sizeofMediaRecord := by
      rw [List.length_take]
      omega
    have htake : (R.take n).take sizeofMediaRecord = R.take sizeofMediaRecord := by
      rw [List.take_take, Nat.min_eq_left hfits]
    rw [hnil, Nat.min_zero, Nat.sub_zero, slice_zero, store_zero, hsize, harg, ← htake,
      List.take_append_drop]
  rw [recget, if_neg (by omega)] at hget
  simp only [hhead, hlen'] at hget
  obtain ⟨m, hm⟩ : ∃ m, sub32 (recSize (R.take n)) sizeofMediaRecord = m := ⟨_, rfl⟩
  rw [hm] at hget ⊢
  by_cases htag : recTag (R.take n) < tagBase
  · rw [if_pos htag] at hget
    cases hget
  · by_cases hroom : n < sizeofMediaRecord + m
    · rw [if_neg htag, if_pos hroom] at hget
      cases hget
    · have hbody : slice R sizeofMediaRecord m = slice (R.take n) sizeofMediaRecord m := by
        have h := @slice_take_append R [] n sizeofMediaRecord m (by omega) (by omega)
        rw [List.append_nil] at h
        exact h.symm
      rw [if_neg htag, if_neg hroom, hnil, Nat.min_zero, Nat.sub_zero, Nat.min_zero, Nat.add_zero,
        Nat.sub_zero, Nat.sub_zero, hbody, store_slice_self] at hget
      obtain ⟨rfl, rfl⟩ := Prod.mk.inj (Option.some.inj hget)
      exact ⟨rfl, rfl, Nat.not_lt.mp hroom⟩

theorem VideoStreamPack.payload_eq_valid_iff {p : VideoStreamPack abi}
    (hp : p.u32Offset ≤ p.u32Len) :
    (∀ mem, VideoStream.payload mem p = p.valid mem) ↔
      p.u32Offset = 0 ∨ p.u32Offset = p.u32Len := by
  have hpay : ∀ mem, VideoStream.payload mem p = load mem p.pu8Addr (p.u32Len - p.u32Offset) := by
    intro mem
    rw [VideoStream.payload, VideoStreamPack.payloadLen_eq hp]
  have ho : p.u32Offset = 0 ∨ p.u32Len - p.u32Offset = 0 ↔
      p.u32Offset = 0 ∨ p.u32Offset = p.u32Len := by omega
  have hl := load_eq_load_iff (a := p.pu8Addr) (k := p.u32Offset) (n := p.u32Len - p.u32Offset)
  constructor
  · intro h
    exact ho.mp (hl.mp fun mem => (hpay mem).symm.trans (h mem))
  · intro h mem
    exact (hpay mem).trans (hl.mpr (ho.mpr h) mem)

/-- From a record that fits, the senders take what was stored for each pack. -/
theorem recvPlaces_stored (hv : s.OffsetsValid) (h : s.fullSize ≤ sizeofData) (mem : Nat → UInt8)
    (ts n1 : Nat) (j1 j2 : List UInt8) {data : List UInt8} (hdata : data.length = sizeofData) :
    ∃ buf, senderGet ((videoStreamRecput mem ts n1 s).1.p1 ++ j1) n1
        ((videoStreamRecput mem ts n1 s).1.p2 ++ j2) data = some (buf, s.fullSize) ∧
      (recvPlaces abi buf).map (fun x => slice buf x.1.toNat x.2) =
        s.pstPack.map (VideoStream.payload mem) ∧
      ∀ x ∈ recvPlaces abi buf, 0 ≤ x.1 ∧ x.1 + x.2 ≤ s.fullSize := by
  have hlt : s.fullSize < 2 ^ 32 := h.trans_lt (by decide)
  have hrt := VideoStream.roundTrips hv hlt mem ts n1
  have hroom : s.fullSize ≤ (store data 0 (List.replicate sizeofMediaRecord 0)).length := by
    rw [length_store (by rw [List.length_replicate, hdata]; decide), hdata]
    exact h
  refine ⟨_, (hrt.recget (s.inRing_recput mem ts n1 j1 j2) _).trans (if_pos hroom), ?_⟩
  exact recvPlaces_record hv mem ts _ (VideoStream.sizes hv hlt ts).1 hlt

theorem endToEnd_of_offsets (hv : s.OffsetsValid) (h : s.fullSize ≤ sizeofData)
    (ho : ∀ p ∈ s.pstPack, p.u32Offset = 0 ∨ p.u32Offset = p.u32Len) : EndToEnd s := by
  intro mem ts n1 j1 j2 data hdata
  obtain ⟨buf, hget, hbytes, hin⟩ := recvPlaces_stored hv h mem ts n1 j1 j2 hdata
  have heq : s.pstPack.map (VideoStream.payload mem) =
      s.pstPack.map (VideoStreamPack.valid mem) := by
    apply List.map_congr_left
    intro p hp
    exact (VideoStreamPack.payload_eq_valid_iff (hv p hp)).mpr (ho p hp) mem
  have hrtp : Delivers mem s buf s.fullSize (rtpSendData abi buf) := by
    rw [delivers_iff, places_rtpSendData]
    exact ⟨hbytes.trans heq, hin⟩
  refine ⟨buf, _, hget, hrtp, fun pts => delivers_flvSendProc pts hrtp, ?_⟩
  apply List.map_congr_left
  intro p hp
  rw [VideoStreamPack.valid, VideoStreamPack.payloadLen_eq (hv p hp)]

theorem endToEnd_bytes (hv : s.OffsetsValid) (h : s.fullSize ≤ sizeofData) (he : EndToEnd s)
    (mem : Nat → UInt8) : ∀ p ∈ s.pstPack, VideoStream.payload mem p = p.valid mem := by
  obtain ⟨data, hdata⟩ : ∃ data : List UInt8, data.length = sizeofData :=
    ⟨List.replicate sizeofData 0, List.length_replicate⟩
  obtain ⟨buf, hget, hbytes, -⟩ := recvPlaces_stored hv h mem 0 0 [] [] hdata
  obtain ⟨buf', size, hget', hrtp, -⟩ := he mem 0 0 [] [] data hdata
  obtain ⟨rfl, -⟩ := Prod.mk.inj (Option.some.inj (hget.symm.trans hget'))
  rw [delivers_iff, places_rtpSendData] at hrtp
  exact List.map_inj_left.mp (hbytes.symm.trans hrtp.1)

/-- What the senders make of the front of a record that they have no room for. -/
theorem repoint_front (hv : s.OffsetsValid) (mem : Nat → UInt8) {n : Nat}
    (hn : s.tableEnd ≤ n) :
    repoint abi ((s.record mem 0).take n) = placed s.tableEnd s.pstPack := by
  have htable : ((s.header 0).bytes ++ s.image ++
      s.pstPack.flatMap VideoStreamPack.image).length = s.tableEnd := by
    simp only [List.length_append, MediaRecord.length_bytes, s.sizeof, VideoStream.length_images,
      VideoStream.tableEnd]
  rw [VideoStream.record_split, List.take_append, List.take_of_length_le (by omega)]
  exact VideoStream.repoint_table hv 0 _

/-- Wherever the front of a record ends behind the descriptor, the first pack is sought behind a
table of them all. -/
theorem head_repoint (mem : Nat → UInt8) {n : Nat} (hne : s.pstPack ≠ [])
    (hn : sizeofMediaRecord + sizeofVideoStream abi ≤ n) :
    ∃ p, ((s.tableEnd : Int), p) ∈ repoint abi ((s.record mem 0).take n) := by
  have hcount : packCountOf abi (slice ((s.record mem 0).take n) sizeofMediaRecord
      (sizeofVideoStream abi)) = s.pstPack.length := by
    have hdesc : ((s.header 0).bytes ++ s.image).length =
        sizeofMediaRecord + sizeofVideoStream abi := by
      rw [List.length_append, MediaRecord.length_bytes, s.sizeof]
    rw [VideoStream.record_split, List.append_assoc, List.take_append,
      List.take_of_length_le (by omega), List.append_assoc,
      slice_append_of_eq (s.header 0).length_bytes s.sizeof]
    exact s.count
  rw [repoint, hcount]
  cases h : s.pstPack with
  | nil => exact (hne h).elim
  | cons p packs =>
    rw [VideoStream.tableEnd, h]
    exact ⟨_, List.mem_cons_self⟩

/-- A size that the hook's second copy has room for: one of less than the header's would wrap. -/
theorem size_of_room {k : Nat} (hk : k < 2 ^ 32)
    (h : sizeofMediaRecord + sub32 k sizeofMediaRecord ≤ sizeofData) : k ≤ sizeofData := by
  simp only [sub32, sizeofMediaRecord, sizeofData] at h ⊢
  omega

/-- A record that is longer than the senders' buffers is never delivered: what there is room for has
a range behind the size that the record's field says. -/
theorem endToEnd_fits (hv : s.OffsetsValid) (he : EndToEnd s) : s.fullSize ≤ sizeofData := by
  by_contra hlong
  let mem : Nat → UInt8 := fun _ => 0
  obtain ⟨hn, h1, h2⟩ := VideoStream.holds_recput mem 0 0 s
  rw [List.take_zero] at h1
  rw [List.drop_zero] at h2
  have hR : sizeofData ≤ (s.record mem 0).length := by
    rw [VideoStream.length_record mem 0 hv]
    omega
  have hdata : ((s.record mem 0).take sizeofData).length = sizeofData := by
    rw [List.length_take, Nat.min_eq_left hR]
  have hzeros : (List.replicate sizeofMediaRecord (0 : UInt8)).length = sizeofMediaRecord :=
    List.length_replicate
  obtain ⟨buf, size, hget, hrtp, -⟩ := he mem 0 0 [] [] _ hdata
  rw [h1, h2, List.append_nil, List.append_nil, senderGet] at hget
  obtain ⟨rfl, rfl, hroom⟩ := recget_prefix hR (by
    rw [length_store (by rw [hzeros, hdata]; decide), hdata]) (by decide) (by
    rw [store_zero, List.drop_left' hzeros, hzeros]) hget
  rw [delivers_iff, places_rtpSendData] at hrtp
  obtain ⟨hbytes, hin⟩ := hrtp
  have hsize : recSize ((s.record mem 0).take sizeofData) ≤ sizeofData :=
    size_of_room (ofLe_slice_lt _ 0 4) hroom
  have hne : s.pstPack ≠ [] := by
    intro hnil
    refine hlong ?_
    rw [VideoStream.fullSize, hnil]
    cases abi <;> decide
  by_cases hz : recSize ((s.record mem 0).take sizeofData) = 0
  · rw [recvPlaces, if_pos hz, List.map_nil] at hbytes
    exact hne (List.map_eq_nil_iff.mp hbytes.symm)
  · rw [recvPlaces, if_neg hz] at hin
    obtain ⟨p, hp⟩ := head_repoint (n := sizeofData) mem hne (by cases abi <;> decide)
    have htable := (hin _ (List.mem_map_of_mem hp)).2
    have hend : s.tableEnd ≤ sizeofData := by
      dsimp only at htable
      omega
    rw [repoint_front hv mem hend] at hin
    obtain ⟨x, hx, hlast⟩ := placed_last s.tableEnd hne
    have hle := (hin _ (List.mem_map_of_mem hx)).2
    rw [hlast, ← Nat.cast_add, ← VideoStream.fullSize_eq hv, Nat.cast_le] at hle
    exact hlong (hle.trans hsize)

/-- Every picture arrives as encoded exactly when its record fits the senders' buffers and no pack
starts with bytes to be skipped, unless all of them are. -/
theorem delivery_iff (abi : Abi) (s : VideoStream abi) (hv : s.OffsetsValid) :
    EndToEnd s ↔
      s.fullSize ≤ sizeofData ∧ ∀ p ∈ s.pstPack, p.u32Offset = 0 ∨ p.u32Offset = p.u32Len := by
  constructor
  · intro he
    have hfits := endToEnd_fits hv he
    refine ⟨hfits, ?_⟩
    intro p hp
    apply (VideoStreamPack.payload_eq_valid_iff (hv p hp)).mp
    intro mem
    exact endToEnd_bytes hv hfits he mem p hp
  · rintro ⟨hfits, ho⟩
    exact endToEnd_of_offsets hv hfits ho

theorem length_plainPack :
    (le 8 0 ++ le 8 100 ++ le 4 5 ++ le 4 0 ++ List.replicate 16 0).length = sizeofPack := rfl

/-- A stream of one pack without bytes to skip. -/
def plainStream : VideoStream .lp64 where
  image := le 8 0 ++ le 4 1 ++ List.replicate 12 0
  sizeof := length_onePack
  pstPack := [⟨le 8 0 ++ le 8 100 ++ le 4 5 ++ le 4 0 ++ List.replicate 16 0, length_plainPack⟩]
  count := by decide

theorem delivery_iff_plain : plainStream.OffsetsValid ∧ EndToEnd plainStream := by
  have hv : plainStream.OffsetsValid := by decide
  exact ⟨hv, (delivery_iff .lp64 plainStream hv).mpr ⟨by decide, by decide⟩⟩

/-- The second pack of the sample has one byte to skip. The file gets the bytes at 201 and 202,
the packers those at 200 and 201. -/
theorem sampleStream_shifted :
    sampleStream.OffsetsValid ∧ ¬ EndToEnd sampleStream ∧
      vsfStreamJpegProc (fun a => UInt8.ofNat a) sampleStream =
        [[100, 101, 102, 103, 104], [201, 202]] ∧
      sampleStream.pstPack.map (VideoStream.payload fun a => UInt8.ofNat a) =
        [[100, 101, 102, 103, 104], [200, 201]] := by
  have hv : sampleStream.OffsetsValid := by decide
  refine ⟨hv, ?_, by decide +kernel, by decide +kernel⟩
  intro he
  have hb := endToEnd_bytes hv (by decide) he (fun a => UInt8.ofNat a)
  revert hb
  decide +kernel

end Freak.Media
