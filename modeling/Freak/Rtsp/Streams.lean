import Freak.Lib.Lts
import Freak.Rtsp.Setup

/-! Which stream each client's session is bound to, over its connections and requests. -/
namespace Freak.Rtsp.Streams

open Bytes (ascii)
open Lts

variable {K τ : Type} [DecidableEq K]

/-- `sms` by client key, and for each open connection the URI that its last DESCRIBE was answered
200 for. -/
structure State (K τ : Type) where
  sms : K → Option (Media τ)
  channel : Int
  conn : K → Option (Option (List UInt8))

inductive Action (K τ : Type)
  | connect (k : K)
  | describe (k : K) (uri : List UInt8) (created : Bool) (attach : Chan → Bool)
  | setup (k : K) (uri client : List UInt8) (net : Net τ) (offers : List Offer)
  | play (k : K)
  | pause (k : K)
  | teardown (k : K)
  | error (k : K)

def State.initial : State K τ := ⟨fun _ => none, 0, fun _ => none⟩

/-- What happens at one key. -/
def State.set (s : State K τ) (k : K) (conn : Option (Option (List UInt8)))
    (sm : Option (Media τ)) : State K τ :=
  { s with sms := Function.update s.sms k sm, conn := Function.update s.conn k conn }

/-- `rtsp_uri_parse` into the 64 bytes of a session's path; `decode` is the URI library's. -/
def rtspUriParse (decode : List UInt8 → Option (List UInt8)) (uri : List UInt8) : List UInt8 :=
  ((decode uri).getD []).take 63

/-- The stream that a URI names. -/
def named (decode : List UInt8 → Option (List UInt8)) (uri : List UInt8) : Option Chan :=
  (decode uri).bind scanPath

/-- `rtsp_ondescribe`: the session afterwards and the answer. -/
def rtspOndescribe (decode : List UInt8 → Option (List UInt8)) (uri : List UInt8)
    (created : Bool) (attach : Chan → Bool) (sm : Option (Media τ)) : Media τ × Nat :=
  (((sm.getD (.liveNew (rtspUriParse decode uri))).getSdp created attach).1, 200)

/-- The requests of the open connections, in any order. -/
inductive Step (decode : List UInt8 → Option (List UInt8)) :
    State K τ → Action K τ → State K τ → Prop
  | connect {s : State K τ} {k : K} (hc : s.conn k = none) :
      Step decode s (.connect k) (s.set k (some none) (s.sms k))
  | describe {s : State K τ} {k : K} {d : Option (List UInt8)} {uri : List UInt8}
      {created : Bool} {attach : Chan → Bool} {m : Media τ} {code : Nat}
      (hc : s.conn k = some d)
      (hd : rtspOndescribe decode uri created attach (s.sms k) = (m, code)) :
      Step decode s (.describe k uri created attach)
        (s.set k (some (if code = 200 then some uri else none)) (some m))
  | setup {s : State K τ} {k : K} {d : Option (List UInt8)} {uri client : List UInt8}
      {net : Net τ} {offers : List Offer} {x : Setup τ} (hc : s.conn k = some d)
      (hx : rtspOnsetup net client (s.sms k) s.channel (rtspUriParse decode uri) offers = some x) :
      Step decode s (.setup k uri client net offers)
        { s.set k (some d) x.media with channel := x.channel }
  | play {s : State K τ} {k : K} {d : Option (List UInt8)} (hc : s.conn k = some d) :
      Step decode s (.play k) (s.set k (some d) ((s.sms k).map Media.play))
  | pause {s : State K τ} {k : K} {d : Option (List UInt8)} (hc : s.conn k = some d) :
      Step decode s (.pause k) s
  | teardown {s : State K τ} {k : K} {d : Option (List UInt8)} (hc : s.conn k = some d) :
      Step decode s (.teardown k) (s.set k (some none) none)
  -- `rtsp_onerror` only logs
  | error {s : State K τ} {k : K} {d : Option (List UInt8)} (hc : s.conn k = some d) :
      Step decode s (.error k) (s.set k none (s.sms k))

/-- A connection's last DESCRIBE against the FIFO of the session found for it. -/
def FaithfulAt (decode : List UInt8 → Option (List UInt8)) :
    Option (Option (List UInt8)) → Option (Option Chan) → Prop
  | none, _ => True
  | some none, b => b = none
  | some (some uri), b => ∃ c, named decode uri = some c ∧ b = some (some c)

/-- Every open connection has the session of the stream it was described, or none. -/
def Faithful (decode : List UInt8 → Option (List UInt8)) (s : State K τ) : Prop :=
  ∀ k, FaithfulAt decode (s.conn k) ((s.sms k).map Media.fifo)

/-- No session is left for a new connection; a DESCRIBE names a stream that can be attached, and
the one its connection already has. -/
def Ok (decode : List UInt8 → Option (List UInt8)) (s : State K τ) : Action K τ → Prop
  | .connect k => s.sms k = none
  | .describe k uri _ attach => ∃ c, named decode uri = some c ∧
      match s.sms k with
      | none => scanPath (rtspUriParse decode uri) = some c ∧ attach c = true
      | some m => m.fifo = some c
  | _ => True

variable {decode : List UInt8 → Option (List UInt8)} {s t : State K τ} {a : Action K τ}
  {xs : List (Action K τ)} {k : K}

/-- A change at one key is judged there. -/
theorem faithful_set (h : Faithful decode s) {conn : Option (Option (List UInt8))}
    {sm : Option (Media τ)} :
    Faithful decode (s.set k conn sm) ↔ FaithfulAt decode conn (sm.map Media.fifo) := by
  constructor
  · intro ht
    simpa [State.set] using ht k
  · intro hk j
    rcases eq_or_ne j k with rfl | hj
    · simpa [State.set] using hk
    · simpa [State.set, hj] using h j

theorem getSdp_fifo {m : Media τ} {created : Bool} {attach : Chan → Bool} {c : Chan} :
    (m.getSdp created attach).1.fifo = some c ↔
      m.fifo = some c ∨ m.fifo = none ∧ scanPath m.path = some c ∧ attach c = true := by
  cases hf : m.fifo with
  | some c' => simp [Media.getSdp, hf]
  | none =>
    cases hp : scanPath m.path with
    | none => simp [Media.getSdp, hf, hp]
    | some c' =>
      cases ha : attach c' with
      | false =>
        have hno : c' = c → attach c = false := by
          rintro rfl
          exact ha
        simpa [Media.getSdp, hf, hp, ha] using hno
      | true =>
        have hyes : c' = c → attach c = true := by
          rintro rfl
          exact ha
        simpa [Media.getSdp, hf, hp, ha] using hyes

@[simp] theorem addTransport_fifo {m : Media τ} {name : List UInt8} {t : Option τ} :
    (m.addTransport name t).1.fifo = m.fifo := by
  cases hk : trackOf name <;> simp [Media.addTransport, hk]

theorem addAndReply_fifo {m : Media τ} {channel : Int} {o : Offer} {track : Option (List UInt8)}
    {t : Option τ} {header : TransportHeader} {x : Setup τ}
    (hx : addAndReply m channel o track t header = some x) :
    x.media.map Media.fifo = some m.fifo := by
  cases track with
  | none => cases hx
  | some name =>
    rw [addAndReply_some] at hx
    obtain rfl := Option.some.inj hx
    simp

/-- A SETUP changes transports only. -/
theorem rtspOnsetup_fifo {net : Net τ} {client path : List UInt8} {sm : Option (Media τ)}
    {channel : Int} {offers : List Offer} {x : Setup τ}
    (hx : rtspOnsetup net client sm channel path offers = some x) :
    x.media.map Media.fifo = sm.map Media.fifo := by
  cases sm with
  | none =>
    obtain rfl : _ = x := Option.some.inj hx
    rfl
  | some m =>
    cases ho : selectTransport offers with
    | none =>
      simp only [rtspOnsetup, ho] at hx
      obtain rfl := Option.some.inj hx
      rfl
    | some o =>
      simp only [rtspOnsetup, ho] at hx
      split_ifs at hx
      · exact addAndReply_fifo hx
      · exact addAndReply_fifo hx

omit [DecidableEq K] in
/-- An open connection's session, if there is one, has its FIFO. -/
theorem session_bound (h : Faithful decode s) {d : Option (List UInt8)} (hc : s.conn k = some d) :
    s.sms k = none ∨ ∃ m c, s.sms k = some m ∧ m.fifo = some c := by
  have hk := h k
  rw [hc] at hk
  cases d with
  | none =>
    left
    simpa [FaithfulAt] using hk
  | some uri =>
    right
    obtain ⟨c, -, hb⟩ := hk
    obtain ⟨m, hm, hf⟩ := Option.map_eq_some_iff.mp hb
    exact ⟨m, c, hm, hf⟩

omit [DecidableEq K] in
theorem faithful_describe (h : Faithful decode s) {d : Option (List UInt8)} {uri : List UInt8}
    {created : Bool} {attach : Chan → Bool} (hc : s.conn k = some d) :
    FaithfulAt decode (some (some uri))
        (some (rtspOndescribe decode uri created attach (s.sms k)).1.fifo) ↔
      Ok decode s (.describe k uri created attach) := by
  simp only [FaithfulAt, Ok, rtspOndescribe, Option.some.injEq]
  refine exists_congr fun c => and_congr_right fun _ => ?_
  rcases session_bound h hc with hn | ⟨m, c', hm, hf⟩
  · simp [hn, getSdp_fifo, Media.liveNew]
  · simp [hm, getSdp_fifo, hf]

/-- From a faithful state, one step that is not `Ok` is enough to lose it. -/
theorem faithful_step_iff (h : Faithful decode s) (hs : Step decode s a t) :
    Faithful decode t ↔ Ok decode s a := by
  cases hs with
  | connect hc =>
    rw [faithful_set h]
    simp [FaithfulAt, Ok]
  | describe hc hd =>
    obtain ⟨rfl, rfl⟩ := Prod.mk.inj hd
    rw [faithful_set h]
    exact faithful_describe h hc
  | @setup k d uri client net offers x hc hx =>
    refine iff_of_true ?_ trivial
    have hk : FaithfulAt decode (some d) (x.media.map Media.fifo) := by
      rw [rtspOnsetup_fifo hx, ← hc]
      exact h k
    exact (faithful_set h).mpr hk
  | @play k d hc =>
    refine iff_of_true ?_ trivial
    have hk : FaithfulAt decode (some d) (((s.sms k).map Media.play).map Media.fifo) := by
      rw [Option.map_map, ← hc]
      exact h k
    exact (faithful_set h).mpr hk
  | pause hc => exact iff_of_true h trivial
  | teardown hc =>
    rw [faithful_set h]
    simp [FaithfulAt, Ok]
  | error hc =>
    rw [faithful_set h]
    simp [FaithfulAt, Ok]

omit [DecidableEq K] in
theorem faithful_initial : Faithful decode (State.initial (K := K) (τ := τ)) := fun _ => trivial

/-- The stream played is the one described, in every run whose connections start without an old
session and whose DESCRIBEs name the stream their connection has; and in no longer one. -/
theorem played_is_described
    (h : MTr (Restrict (Step decode) (Ok decode)) (.initial : State K τ) xs s) :
    Faithful decode s ∧ ∀ a t, Step decode s a t → (Faithful decode t ↔ Ok decode s a) := by
  have hs : Faithful decode s := by
    refine mtrInv_of_trInv ?_ h faithful_initial
    rintro s a t ⟨hst, ha⟩ hs
    exact (faithful_step_iff hs hst).mpr ha
  exact ⟨hs, fun a t hst => faithful_step_iff hs hst⟩

/-- The path of `rtsp://h/..`. -/
def sampleDecode (uri : List UInt8) : Option (List UInt8) := some (uri.drop 8)

/-- One client is described a stream. -/
theorem sample_described :
    ∃ t : State Nat Nat, MTr (Restrict (Step sampleDecode) (Ok sampleDecode)) .initial
      [.connect 0, .describe 0 (ascii "rtsp://h/0-0") true fun _ => true] t := by
  refine ⟨_, .stepL ⟨.connect rfl, rfl⟩ <| .stepL ⟨.describe rfl rfl, ?_⟩ .refl⟩
  exact ⟨⟨0, 0⟩, by decide, by decide, rfl⟩

theorem played_is_described_one :
    ∃ t : State Nat Nat, MTr (Restrict (Step sampleDecode) (Ok sampleDecode)) .initial
      [.connect 0, .describe 0 (ascii "rtsp://h/0-0") true fun _ => true] t ∧
      Faithful sampleDecode t := by
  obtain ⟨t, ht⟩ := sample_described
  exact ⟨t, ht, (played_is_described ht).1⟩

/-- A second DESCRIBE on one connection keeps the first one's stream. -/
theorem second_describe :
    ∃ t : State Nat Nat, MTr (Step sampleDecode) .initial
      [.connect 0, .describe 0 (ascii "rtsp://h/0-0") true fun _ => true,
        .describe 0 (ascii "rtsp://h/0-1") true fun _ => true] t ∧
      t.conn 0 = some (some (ascii "rtsp://h/0-1")) ∧
      (t.sms 0).map Media.fifo = some (some ⟨0, 0⟩) :=
  ⟨_, .stepL (.connect rfl) <| .stepL (.describe rfl rfl) <| .stepL (.describe rfl rfl) .refl,
    rfl, by decide⟩

/-- It is answered 200, for a stream that is not the one played. -/
theorem described_again : ¬ ∀ xs (t : State Nat Nat),
    MTr (Step sampleDecode) .initial xs t → Faithful sampleDecode t := by
  intro h
  obtain ⟨t, ht, hc, hf⟩ := second_describe
  have hk := h _ t ht 0
  rw [hc, hf] at hk
  obtain ⟨c, hn, hb⟩ := hk
  have hn' : named sampleDecode (ascii "rtsp://h/0-1") = some ⟨0, 1⟩ := by decide
  cases hn.symm.trans hn'
  cases hb

end Freak.Rtsp.Streams
