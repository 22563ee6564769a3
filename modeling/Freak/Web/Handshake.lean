import Freak.Rtsp.Describe

/-! The websocket handshake, which names a stream: `MG_EV_WEBSOCKET_HANDSHAKE_DONE`. -/
namespace Freak.Web.Handshake

open Bytes
open Freak.Rtsp (Chan scanInt)
open Freak.Rtsp.Describe (attached descriptionLength session)

/-- `sscanf(path, "/flv-%d-%d", &chn, &subchn) == 2`. -/
def scanFlv (s : List UInt8) : Option Chan := do
  let s ← (ascii "/flv-").isPrefixOf? s
  let (chn, s) ← scanInt s
  match s with
  | 45 :: s => do
    let (subchn, _) ← scanInt s
    some ⟨chn, subchn⟩
  | _ => none

/-- `web_createMedia`, which reads its path up to the NUL; a media is named by its stream. -/
def webCreateMedia (attach : Chan → Bool) (path : List UInt8) : Run (Option Chan) := do
  Run.access (0 ∈ path)
  pure ((scanFlv (cstr path)).filter attach)

/-- `media_session_new`, `NULL` without memory or without a media. -/
def mediaSessionNew (alloc : Bool) (attach : Chan → Bool) (path : List UInt8) :
    Run (Option Chan) :=
  if alloc then webCreateMedia attach path else pure none

/-- What the handshake leaves: `user_data` of the connection, and the array `path` if it was
filled. -/
structure Handshaken where
  userData : Option Chan
  path : Option (List UInt8)

/-- The array `path` after the copy. -/
def copied (uri : List UInt8) : List UInt8 := store (List.replicate 64 0) 0 uri

/-- The case of `ev_handler`, for a URI of `hm->uri.len` bytes. -/
def evHandler (alloc : Bool) (attach : Chan → Bool) (uri : List UInt8) (userData : Option Chan) :
    Run Handshaken :=
  match userData with
  | some media => pure ⟨some media, none⟩
  | none => do
    Run.access (uri.length ≤ 64)
    let media ← mediaSessionNew alloc attach (copied uri)
    pure ⟨media, some (copied uri)⟩

/-- The array is not left and ends its string, and a session is made of the whole URI only. -/
def Bounded (alloc : Bool) (attach : Chan → Bool) (uri : List UInt8) (userData : Option Chan) :
    Prop :=
  ∃ x, evHandler alloc attach uri userData = .ok x ∧
    ∀ path, x.path = some path → path.length = 64 ∧ 0 ∈ path ∧
      (x.userData ≠ none → cstr path = uri)

variable {τ : Type} {decode : List UInt8 → Option (List UInt8)} {h264 now1 now2 : Nat}
  {created alloc : Bool} {attach : Chan → Bool} {uri : List UInt8} {sm : Option (Rtsp.Media τ)}
  {userData : Option Chan}

theorem length_copied (h : uri.length ≤ 64) : (copied uri).length = 64 := by
  rw [copied, length_store (by rw [List.length_replicate]; omega), List.length_replicate]

/-- The string in the array, when the URI leaves room for the NUL. -/
theorem copied_of_short (hz : (0 : UInt8) ∉ uri) (h : uri.length ≤ 63) :
    0 ∈ copied uri ∧ cstr (copied uri) = uri := by
  obtain ⟨n, hn⟩ : ∃ n, 64 - uri.length = n + 1 := ⟨63 - uri.length, by omega⟩
  rw [copied, store_zero, List.drop_replicate, hn, List.replicate_succ, cstr_append hz]
  simp

/-- A URI that fills the array leaves no room for the NUL. -/
theorem copied_of_full (hz : (0 : UInt8) ∉ uri) (h : uri.length = 64) : 0 ∉ copied uri := by
  rw [copied, store_zero, List.drop_replicate, h]
  simpa using hz

/-- A session is looked for in a string that ends. -/
theorem mediaSessionNew_of_ends {path : List UInt8} (h : 0 ∈ path) :
    mediaSessionNew alloc attach path =
      .ok (if alloc then (scanFlv (cstr path)).filter attach else none) := by
  cases alloc with
  | true =>
    rw [mediaSessionNew, if_pos rfl, webCreateMedia, Run.access, if_pos h]
    rfl
  | false => rfl

/-- A new session's URI is copied whatever its length. -/
theorem evHandler_new {x : Handshaken} : evHandler alloc attach uri none = .ok x ↔
    uri.length ≤ 64 ∧ ∃ media, mediaSessionNew alloc attach (copied uri) = .ok media ∧
      ⟨media, some (copied uri)⟩ = x := by
  simp only [evHandler, Run.bind_eq_ok, Run.access_eq_ok, Run.pure_eq_ok, exists_const]

/-- The handshake stays in its array and cuts nothing exactly when the connection has its session
already or the URI leaves room for the NUL. -/
theorem bounded_iff (hz : (0 : UInt8) ∉ uri) :
    Bounded alloc attach uri userData ↔ userData ≠ none ∨ uri.length ≤ 63 := by
  cases userData with
  | some media =>
    refine iff_of_true ⟨_, rfl, ?_⟩ (.inl (Option.some_ne_none media))
    rintro path ⟨⟩
  | none =>
    have hnew : (none : Option Chan) ≠ none ∨ uri.length ≤ 63 ↔ uri.length ≤ 63 := by simp
    rw [hnew]
    constructor
    · rintro ⟨x, hx, hpath⟩
      obtain ⟨hlen, media, -, rfl⟩ := evHandler_new.mp hx
      have hends := (hpath _ rfl).2.1
      by_contra hlong
      exact copied_of_full hz (by omega) hends
    · intro hshort
      obtain ⟨hends, hwhole⟩ := copied_of_short hz hshort
      have hlen : uri.length ≤ 64 := by omega
      refine ⟨_, evHandler_new.mpr ⟨hlen, _, mediaSessionNew_of_ends hends, rfl⟩, ?_⟩
      rintro path ⟨⟩
      exact ⟨length_copied hlen, hends, fun _ => hwhole⟩

/-- Neither server leaves its array or cuts what a client asks for exactly when the arrays hold
it. -/
theorem uris_bounded_iff (hz : (0 : UInt8) ∉ uri) :
    (Rtsp.Describe.Bounded decode h264 now1 now2 created attach uri sm ↔
      descriptionLength h264 now1 now2 uri (attached attach (session decode uri sm)) ≤ 2047 ∧
        (sm = none → ((decode uri).getD []).length ≤ 63)) ∧
    (Bounded alloc attach uri userData ↔ userData ≠ none ∨ uri.length ≤ 63) :=
  ⟨Rtsp.Describe.bounded_iff hz, bounded_iff hz⟩

/-- The first stream's name, for either server. -/
theorem uris_bounded_short :
    Rtsp.Describe.Bounded (fun _ => some (ascii "/0-1")) 98 1 2 true (fun _ => true)
        (ascii "rtsp://h/0-1") (none : Option (Rtsp.Media Nat)) ∧
      Bounded true (fun _ => true) (ascii "rtsp://h/0-1") none := by
  obtain ⟨hdescribe, hhandshake⟩ := @uris_bounded_iff Nat (fun _ => some (ascii "/0-1")) 98 1 2 true
    true (fun _ => true) (ascii "rtsp://h/0-1") none none (by decide)
  exact ⟨hdescribe.mpr (by decide), hhandshake.mpr (by decide)⟩

theorem zero_notMem_query {t : List UInt8} {n : Nat} (h : (0 : UInt8) ∉ t) :
    (0 : UInt8) ∉ t ++ List.replicate n 97 := by
  rw [List.mem_append, not_or]
  refine ⟨h, fun hmem => ?_⟩
  exact absurd (List.eq_of_mem_replicate hmem) (by decide)

/-- The first stream's name, with 2000 bytes behind it. -/
theorem uris_bounded_long :
    ¬ Rtsp.Describe.Bounded (fun _ => some (ascii "/0-1")) 98 1 2 true (fun _ => true)
        (ascii "rtsp://h/0-1?" ++ List.replicate 2000 97) (none : Option (Rtsp.Media Nat)) ∧
      ¬ Bounded true (fun _ => true) (ascii "/flv-0-1" ++ List.replicate 2000 97) none := by
  constructor
  · intro h
    have hlen := ((Rtsp.Describe.bounded_iff (zero_notMem_query (by decide))).mp h).1
    rw [descriptionLength, List.length_append, List.length_replicate] at hlen
    omega
  · intro h
    rcases (bounded_iff (zero_notMem_query (by decide))).mp h with hdata | hlen
    · exact hdata rfl
    · rw [List.length_append, List.length_replicate] at hlen
      omega

end Freak.Web.Handshake
