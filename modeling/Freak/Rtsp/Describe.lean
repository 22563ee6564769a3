import Freak.Lib.JsonRead
import Freak.Lib.Printf
import Freak.Rtsp.Streams

/-! The session description that DESCRIBE answers with: `rtsp_ondescribe` and `rtp_get_sdp`. -/
namespace Freak.Rtsp.Describe

open Bytes
open Json (decimal zero_notMem_decimal)
open Streams (rtspUriParse)

variable {τ : Type}

/-- `pattern_live`, with the two times and the request's URI in their places. -/
def patternLive (now1 now2 : Nat) (uri : List UInt8) : List UInt8 :=
  ascii "v=0\no=- " ++ decimal now1 ++ ascii " " ++ decimal now2 ++ ascii " IN IP4 0.0.0.0\ns=" ++
    uri ++ ascii "\nc=IN IP4 0.0.0.0\nt=0 0\na=control:*\n"

/-- `pattern_video`, with the payload type of H.264 in its places. -/
def patternVideo (h264 : Nat) : List UInt8 :=
  ascii "m=video 0 RTP/AVP " ++ decimal h264 ++ ascii "\na=rtpmap:" ++ decimal h264 ++
    ascii " H264/90000\na=range:npt=now-\na=recvonly\na=control:video\na=fmtp:" ++ decimal h264 ++
    ascii " profile-level-id=000000;packetization-mode=1;sprop-parameter-sets="

/-- A session has its stream, or its path names one that can be attached. -/
def attached (attach : Chan → Bool) (m : Media τ) : Bool :=
  m.fifo.isSome || (scanPath m.path).any attach

/-- What DESCRIBE leaves: the session's media, the code, and the array `sdp` it answers with. -/
structure Described (τ : Type) where
  media : Media τ
  code : Nat
  sdp : List UInt8

/-- `rtp_get_sdp`. -/
def rtpGetSdp (h264 : Nat) (created : Bool) (attach : Chan → Bool) (m : Media τ)
    (sdp : List UInt8) : Run (Media τ × List UInt8) :=
  match m.getSdp created attach with
  | (m, ret) =>
    if ret < 0 then pure (m, sdp)
    else do
      let sdp ← sprintf sdp (strlen sdp) (patternVideo h264)
      pure (m, sdp)

/-- The session of a client, made of the URI when there is none. -/
def session (decode : List UInt8 → Option (List UInt8)) (uri : List UInt8)
    (sm : Option (Media τ)) : Media τ := sm.getD (.liveNew (rtspUriParse decode uri))

def rtspOndescribe (decode : List UInt8 → Option (List UInt8)) (h264 now1 now2 : Nat)
    (created : Bool) (attach : Chan → Bool) (uri : List UInt8) (sm : Option (Media τ)) :
    Run (Described τ) := do
  let sdp := snprintf (List.replicate 2048 0) 2048 (patternLive now1 now2 uri)
  let (m, sdp) ← rtpGetSdp h264 created attach (session decode uri sm) sdp
  pure ⟨m, 200, sdp⟩

/-- The whole of the description. -/
def description (decode : List UInt8 → Option (List UInt8)) (h264 now1 now2 : Nat)
    (attach : Chan → Bool) (uri : List UInt8) (sm : Option (Media τ)) : List UInt8 :=
  patternLive now1 now2 uri ++
    if attached attach (session decode uri sm) then patternVideo h264 else []

/-- The array is not left and ends its text, and an answer 200 has the whole description, of a
session that has the whole path. -/
def Bounded (decode : List UInt8 → Option (List UInt8)) (h264 now1 now2 : Nat) (created : Bool)
    (attach : Chan → Bool) (uri : List UInt8) (sm : Option (Media τ)) : Prop :=
  ∃ d, rtspOndescribe decode h264 now1 now2 created attach uri sm = .ok d ∧
    d.sdp.length = 2048 ∧ 0 ∈ d.sdp ∧
    (d.code = 200 → cstr d.sdp = description decode h264 now1 now2 attach uri sm ∧
      (sm = none → d.media.path = (decode uri).getD []))

/-- The length of a description. -/
def descriptionLength (h264 now1 now2 : Nat) (uri : List UInt8) (video : Bool) : Nat :=
  63 + (decimal now1).length + (decimal now2).length + uri.length +
    if video then 158 + 3 * (decimal h264).length else 0

variable {decode : List UInt8 → Option (List UInt8)} {h264 now1 now2 : Nat} {created : Bool}
  {attach : Chan → Bool} {uri : List UInt8} {sm : Option (Media τ)} {m : Media τ}

theorem length_patternLive : (patternLive now1 now2 uri).length =
    63 + (decimal now1).length + (decimal now2).length + uri.length := by
  have h1 : (ascii "v=0\no=- ").length = 8 := by decide
  have h2 : (ascii " ").length = 1 := by decide
  have h3 : (ascii " IN IP4 0.0.0.0\ns=").length = 18 := by decide
  have h4 : (ascii "\nc=IN IP4 0.0.0.0\nt=0 0\na=control:*\n").length = 36 := by decide
  simp only [patternLive, List.length_append, h1, h2, h3, h4]
  omega

theorem length_patternVideo :
    (patternVideo h264).length = 158 + 3 * (decimal h264).length := by
  have h1 : (ascii "m=video 0 RTP/AVP ").length = 18 := by decide
  have h2 : (ascii "\na=rtpmap:").length = 10 := by decide
  have h3 : (ascii " H264/90000\na=range:npt=now-\na=recvonly\na=control:video\na=fmtp:").length =
    63 := by decide
  have h4 : (ascii
    " profile-level-id=000000;packetization-mode=1;sprop-parameter-sets=").length = 67 := by decide
  simp only [patternVideo, List.length_append, h1, h2, h3, h4]
  omega

theorem zero_notMem_patternLive (h : (0 : UInt8) ∉ uri) :
    (0 : UInt8) ∉ patternLive now1 now2 uri := by
  simp only [patternLive, List.mem_append, not_or, zero_notMem_decimal, h, not_false_eq_true,
    and_true]
  decide

theorem zero_notMem_patternVideo : (0 : UInt8) ∉ patternVideo h264 := by
  simp only [patternVideo, List.mem_append, not_or, zero_notMem_decimal, not_false_eq_true,
    and_true]
  decide

/-- The video section is written exactly for a session with its stream. -/
theorem getSdp_ret : (m.getSdp created attach).2 = if attached attach m then 0 else -1 := by
  cases hf : m.fifo with
  | some c => simp [Media.getSdp, attached, hf]
  | none =>
    cases hp : scanPath m.path with
    | none => simp [Media.getSdp, attached, hf, hp]
    | some c => cases ha : attach c <;> simp [Media.getSdp, attached, hf, hp, ha]

theorem getSdp_path : (m.getSdp created attach).1.path = m.path := by
  obtain ⟨_, _, _, h⟩ := @Media.getSdp_eq τ m created attach
  rw [h]

theorem rtpGetSdp_of_attached {sdp : List UInt8} (h : attached attach m = true)
    {x : Media τ × List UInt8} : rtpGetSdp h264 created attach m sdp = .ok x ↔
      strlen sdp + (patternVideo h264).length + 1 ≤ sdp.length ∧
        x = ((m.getSdp created attach).1, store sdp (strlen sdp) (patternVideo h264 ++ [0])) := by
  have hret : (m.getSdp created attach).2 = 0 := by rw [getSdp_ret, if_pos h]
  simp only [rtpGetSdp, hret, lt_irrefl, if_false, Run.bind_eq_ok, sprintf_eq_ok, Run.pure_eq_ok]
  constructor
  · rintro ⟨sdp', ⟨hfits, rfl⟩, rfl⟩
    exact ⟨hfits, rfl⟩
  · rintro ⟨hfits, rfl⟩
    exact ⟨_, ⟨hfits, rfl⟩, rfl⟩

theorem rtpGetSdp_of_not_attached {sdp : List UInt8} (h : attached attach m = false) :
    rtpGetSdp h264 created attach m sdp = .ok ((m.getSdp created attach).1, sdp) := by
  have hret : (m.getSdp created attach).2 = -1 := by simp [getSdp_ret, h]
  rw [rtpGetSdp]
  simp [hret, pure, Except.pure]

theorem length_description : (description decode h264 now1 now2 attach uri sm).length =
    descriptionLength h264 now1 now2 uri (attached attach (session decode uri sm)) := by
  rw [description, descriptionLength, List.length_append, length_patternLive]
  split_ifs
  · rw [length_patternVideo]
  · rfl

/-- The array after the first print: it ends its text, which is cut where it does not fit. -/
def head (now1 now2 : Nat) (uri : List UInt8) : List UInt8 :=
  snprintf (List.replicate 2048 0) 2048 (patternLive now1 now2 uri)

theorem length_head : (head now1 now2 uri).length = 2048 := by
  rw [head, length_snprintf (by rw [List.length_replicate]), List.length_replicate]

theorem cstr_head (h : (0 : UInt8) ∉ uri) :
    cstr (head now1 now2 uri) = (patternLive now1 now2 uri).take 2047 :=
  cstr_snprintf (zero_notMem_patternLive h) (by decide)

theorem strlen_head (h : (0 : UInt8) ∉ uri) :
    strlen (head now1 now2 uri) = min 2047 (patternLive now1 now2 uri).length :=
  strlen_snprintf (zero_notMem_patternLive h) (by decide)

/-- What DESCRIBE answers for a session with its stream, if the video section fits behind the
first. -/
theorem rtspOndescribe_of_attached {d : Described τ}
    (h : attached attach (session decode uri sm) = true) :
    rtspOndescribe decode h264 now1 now2 created attach uri sm = .ok d ↔
      strlen (head now1 now2 uri) + (patternVideo h264).length + 1 ≤ 2048 ∧
        d = ⟨((session decode uri sm).getSdp created attach).1, 200,
          store (head now1 now2 uri) (strlen (head now1 now2 uri)) (patternVideo h264 ++ [0])⟩ := by
  simp only [rtspOndescribe, ← head.eq_def, Run.bind_eq_ok, rtpGetSdp_of_attached h,
    Run.pure_eq_ok, length_head]
  constructor
  · rintro ⟨x, ⟨hfits, rfl⟩, rfl⟩
    exact ⟨hfits, rfl⟩
  · rintro ⟨hfits, rfl⟩
    exact ⟨_, ⟨hfits, rfl⟩, rfl⟩

theorem rtspOndescribe_of_not_attached
    (h : attached attach (session decode uri sm) = false) :
    rtspOndescribe decode h264 now1 now2 created attach uri sm =
      .ok ⟨((session decode uri sm).getSdp created attach).1, 200, head now1 now2 uri⟩ := by
  simp only [rtspOndescribe, ← head.eq_def, rtpGetSdp_of_not_attached h]
  rfl

/-- The path is cut to what the session's array holds. -/
theorem path_eq_iff (created : Bool) (attach : Chan → Bool) :
    (sm = none → ((session decode uri sm).getSdp created attach).1.path =
      (decode uri).getD []) ↔ (sm = none → ((decode uri).getD []).length ≤ 63) := by
  cases sm with
  | some m => simp
  | none =>
    simp [getSdp_path, session, Media.liveNew, rtspUriParse, List.take_eq_self_iff]

/-- An answer of a session with its stream. -/
theorem bounded_of_attached (hz : (0 : UInt8) ∉ uri)
    (h : attached attach (session decode uri sm) = true) :
    Bounded decode h264 now1 now2 created attach uri sm ↔
      descriptionLength h264 now1 now2 uri true ≤ 2047 ∧
        (sm = none → ((decode uri).getD []).length ≤ 63) := by
  have hlen : (patternLive now1 now2 uri).length + (patternVideo h264).length =
      descriptionLength h264 now1 now2 uri true := by
    rw [← h, ← length_description, description, if_pos h, List.length_append]
  have hvideo := @length_patternVideo h264
  rw [← path_eq_iff created attach]
  constructor
  · rintro ⟨d, hd, -, -, hwhole⟩
    rw [rtspOndescribe_of_attached h, strlen_head hz] at hd
    obtain ⟨hfits, rfl⟩ := hd
    exact ⟨by omega, (hwhole rfl).2⟩
  · rintro ⟨hfits, hpath⟩
    have hstrlen : strlen (head now1 now2 uri) = (patternLive now1 now2 uri).length := by
      rw [strlen_head hz]
      omega
    have hroom : strlen (head now1 now2 uri) + (patternVideo h264 ++ [0]).length ≤
        (head now1 now2 uri).length := by
      rw [length_head, hstrlen, List.length_append, List.length_singleton]
      omega
    refine ⟨_, (rtspOndescribe_of_attached h).mpr ⟨?_, rfl⟩, ?_, ?_, fun _ => ⟨?_, hpath⟩⟩
    · rw [hstrlen]
      omega
    · exact (length_store hroom).trans length_head
    · simp [store]
    · rw [cstr_store_strlen zero_notMem_patternVideo, cstr_head hz, description, if_pos h,
        List.take_of_length_le (by omega)]

/-- An answer of a session without a stream has no video section. -/
theorem bounded_of_not_attached (hz : (0 : UInt8) ∉ uri)
    (h : attached attach (session decode uri sm) = false) :
    Bounded decode h264 now1 now2 created attach uri sm ↔
      descriptionLength h264 now1 now2 uri false ≤ 2047 ∧
        (sm = none → ((decode uri).getD []).length ≤ 63) := by
  have hdesc : description decode h264 now1 now2 attach uri sm = patternLive now1 now2 uri := by
    rw [description, h, if_neg Bool.false_ne_true, List.append_nil]
  have hlen : (patternLive now1 now2 uri).length = descriptionLength h264 now1 now2 uri false := by
    rw [← h, ← length_description, hdesc]
  have hends : 0 ∈ head now1 now2 uri := by
    rw [zero_mem_iff, strlen_head hz, length_head]
    omega
  have hcut : cstr (head now1 now2 uri) = patternLive now1 now2 uri ↔
      descriptionLength h264 now1 now2 uri false ≤ 2047 := by
    rw [cstr_head hz, List.take_eq_self_iff, hlen]
  rw [← path_eq_iff created attach, Bounded,
    rtspOndescribe_of_not_attached h, hdesc, ← hcut]
  constructor
  · rintro ⟨d, hd, -, -, hwhole⟩
    obtain rfl := Except.ok.inj hd
    exact hwhole rfl
  · exact fun hwhole => ⟨_, rfl, length_head, hends, fun _ => hwhole⟩

/-- DESCRIBE stays in its arrays and cuts nothing exactly when they hold the whole description and,
for a new session, the whole path. -/
theorem bounded_iff (hz : (0 : UInt8) ∉ uri) :
    Bounded decode h264 now1 now2 created attach uri sm ↔
      descriptionLength h264 now1 now2 uri (attached attach (session decode uri sm)) ≤ 2047 ∧
        (sm = none → ((decode uri).getD []).length ≤ 63) := by
  cases h : attached attach (session decode uri sm) with
  | true => exact bounded_of_attached hz h
  | false => exact bounded_of_not_attached hz h

/-- Where it answers, it does what the table of sessions sees of it. -/
theorem rtspOndescribe_streams {d : Described τ}
    (h : rtspOndescribe decode h264 now1 now2 created attach uri sm = .ok d) :
    (d.media, d.code) = Streams.rtspOndescribe decode uri created attach sm := by
  cases hs : attached attach (session decode uri sm) with
  | true =>
    rw [rtspOndescribe_of_attached hs] at h
    rw [h.2]
    rfl
  | false =>
    rw [rtspOndescribe_of_not_attached hs] at h
    rw [← Except.ok.inj h]
    rfl

end Freak.Rtsp.Describe
