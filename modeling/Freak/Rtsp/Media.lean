import Freak.Lib.Bytes

/-! The media object of an RTSP session: `rtp-media.c`. -/
namespace Freak.Rtsp

open Bytes (ascii)

inductive Track
  | video
  | audio
  | metadata
deriving DecidableEq

inductive Status
  | setup
  | play
  | pause
  | exit
deriving DecidableEq

/-- The stream a FIFO belongs to: channel and sub-channel. -/
structure Chan where
  chn : Int
  subchn : Int
deriving DecidableEq

/-- `rtp_media_priv_t`; only the video track ever gets a packer, a FIFO and an RTP context. -/
structure Media (τ : Type) where
  path : List UInt8
  status : Status
  packer : Bool
  fifo : Option Chan
  rtp : Bool
  transport : Track → Option τ

def isSpace (c : UInt8) : Bool := c = 32 ∨ (9 ≤ c ∧ c ≤ 13)

def isDigit (c : UInt8) : Bool := 48 ≤ c ∧ c ≤ 57

def ofDigits (ds : List UInt8) : Int := ds.foldl (fun n d => 10 * n + (d.toNat - 48)) 0

/-- `%d`. -/
def scanInt (s : List UInt8) : Option (Int × List UInt8) :=
  let s := s.dropWhile isSpace
  let neg := s.head? = some 45
  let s := if neg ∨ s.head? = some 43 then s.tail else s
  let ds := s.takeWhile isDigit
  if ds.isEmpty then none
  else some (if neg then -ofDigits ds else ofDigits ds, s.dropWhile isDigit)

/-- `sscanf(path, "/%d-%d", &chn, &subchn) == 2`. -/
def scanPath : List UInt8 → Option Chan
  | 47 :: s => do
    let (chn, s) ← scanInt s
    match s with
    | 45 :: s => do
      let (subchn, _) ← scanInt s
      some ⟨chn, subchn⟩
    | _ => none
  | _ => none

example : scanPath (ascii "/0-1/video") = some ⟨0, 1⟩ := by decide

def strstr (s key : List UInt8) : Bool := decide (key <:+: s)

/-- The first of the keys that a track's name contains. -/
def trackOf (track : List UInt8) : Option Track :=
  if strstr track (ascii "video") then some .video
  else if strstr track (ascii "audio") then some .audio
  else if strstr track (ascii "meta") then some .metadata
  else none

namespace Media

variable {τ : Type}

/-- `rtp_media_live_new`. -/
def liveNew (path : List UInt8) : Media τ := ⟨path, .setup, false, none, false, fun _ => none⟩

/-- `rtp_get_sdp`, whose packer may fail to be created and whose FIFO may not be there. -/
def getSdp (created : Bool) (attach : Chan → Bool) (m : Media τ) : Media τ × Int :=
  let m := { m with packer := m.packer || created }
  match m.fifo with
  | some _ => ({ m with rtp := true }, 0)
  | none =>
    match scanPath m.path with
    | none => (m, -1)
    | some c => if attach c then ({ m with fifo := some c, rtp := true }, 0) else (m, -1)

/-- `rtp_play`. -/
def play (m : Media τ) : Media τ := { m with status := .play }

/-- `rtp_add_transport`: the new media, the transport that is freed and the return value. -/
def addTransport (m : Media τ) (track : List UInt8) (t : Option τ) : Media τ × Option τ × Int :=
  match trackOf track with
  | some k => ({ m with transport := Function.update m.transport k t }, m.transport k, 0)
  | none => (m, none, 1)

variable {m : Media τ} {created : Bool} {attach : Chan → Bool}

/-- Reading the SDP attaches a FIFO and makes packers, and nothing else. -/
theorem getSdp_eq : ∃ packer fifo rtp, (m.getSdp created attach).1 =
    { m with packer := packer, fifo := fifo, rtp := rtp } := by
  rw [getSdp]
  dsimp only
  split
  · exact ⟨_, _, _, rfl⟩
  · split
    · exact ⟨_, _, _, rfl⟩
    · split_ifs <;> exact ⟨_, _, _, rfl⟩

@[simp] theorem getSdp_transport : (m.getSdp created attach).1.transport = m.transport := by
  obtain ⟨_, _, _, h⟩ := @getSdp_eq τ m created attach
  rw [h]

@[simp] theorem getSdp_status : (m.getSdp created attach).1.status = m.status := by
  obtain ⟨_, _, _, h⟩ := @getSdp_eq τ m created attach
  rw [h]

@[simp] theorem play_transport : m.play.transport = m.transport := rfl

@[simp] theorem addTransport_status {track : List UInt8} {t : Option τ} :
    (m.addTransport track t).1.status = m.status := by
  cases hk : trackOf track <;> simp [addTransport, hk]

end Media

end Freak.Rtsp
