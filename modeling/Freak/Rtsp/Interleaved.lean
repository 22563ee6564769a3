import Freak.Lib.Lts
import Freak.Rtsp.Setup

/-! The channels that SETUP announces and those in the frames: `rtp-transport-tcp.c`. -/
namespace Freak.Rtsp

/-- `rtp_tcp_transport_t`. -/
structure TcpTransport where
  rtp : UInt8
  rtcp : UInt8

inductive Transport
  | tcp (t : TcpTransport)
  | udp

namespace TcpTransport

/-- What `rtp_tcp_transport_new` is given is cut to a byte. -/
def new (rtp rtcp : Int) : TcpTransport := ⟨UInt8.ofInt rtp, UInt8.ofInt rtcp⟩

/-- `rtp_tcp_transport_send`, whose buffer has `4 + (1 << 16)` bytes. -/
def send (t : TcpTransport) (rtcp : Bool) (data : List UInt8) : Option (List UInt8) :=
  if 4 + data.length ≤ 4 + 1 <<< 16 then
    some ([36, if rtcp then t.rtcp else t.rtp, UInt8.ofNat (data.length >>> 8),
      UInt8.ofNat data.length] ++ data)
  else none

end TcpTransport

/-- The next frame of a stream, and what follows it. -/
def deinterleave : List UInt8 → Option (UInt8 × List UInt8 × List UInt8)
  | 36 :: chn :: hi :: lo :: bs =>
    let n := 256 * hi.toNat + lo.toNat
    if n ≤ bs.length then some (chn, bs.take n, bs.drop n) else none
  | _ => none

/-- A SETUP, with what the libraries do for it. -/
structure SetupRequest where
  client : List UInt8
  session : Option (Media Transport)
  path : List UInt8
  offers : List Offer
  malloc : Bool
  addrFrom : List UInt8 → UInt16 → Bool
  routeGet : List UInt8 → Option (List UInt8)
  sockpairCreate : Option (List UInt8) → UInt16 × UInt16 → Option (UInt16 × UInt16)

namespace SetupRequest

/-- The transport that is made for an offer. -/
def transport (o : Offer) (channel : Int) : Transport :=
  if o.transport = .rtpTcp then
    .tcp (.new (interleave o channel).1 (interleave o channel).2.1)
  else .udp

def net (r : SetupRequest) (channel : Int) : Net Transport where
  alloc := if r.malloc then (selectTransport r.offers).map fun o => transport o channel else none
  addrFrom := r.addrFrom
  routeGet := r.routeGet
  sockpairCreate := r.sockpairCreate

def onsetup (r : SetupRequest) (channel : Int) : Option (Setup Transport) :=
  rtspOnsetup (r.net channel) r.client r.session channel r.path r.offers

/-- The offer that a SETUP of a session is served by, if it is an interleaved one. -/
def tcpOffer (r : SetupRequest) : Option Offer :=
  match r.session, selectTransport r.offers with
  | some _, some o => if o.transport = .rtpTcp then some o else none
  | _, _ => none

/-- The SETUPs whose channels the server counts out. -/
def counted (r : SetupRequest) : Bool :=
  r.tcpOffer.any fun o => o.interleaved1 = o.interleaved2

end SetupRequest

/-- The server's counter over the SETUPs it handles. -/
def Setups (channel : Int) (r : SetupRequest) (channel' : Int) : Prop :=
  ∃ x, r.onsetup channel = some x ∧ x.channel = channel'

def IsByte (n : Int) : Prop := 0 ≤ n ∧ n ≤ 255

instance (n : Int) : Decidable (IsByte n) := inferInstanceAs (Decidable (_ ∧ _))

/-- The channels announced are bytes, and every packet of the packer goes out on the first one. -/
def Framed (x : Setup Transport) : Prop :=
  ∀ i0 i1, x.replies = [⟨200, some (.tcp i0 i1)⟩] → IsByte i0 ∧ IsByte i1 ∧
    ∀ t, x.created = some t → ∃ tcp, t = .tcp tcp ∧ ∀ data rest, data.length < 2 ^ 16 →
      ∃ frame chn, tcp.send false data = some frame ∧
        deinterleave (frame ++ rest) = some (chn, data, rest) ∧ (chn.toNat : Int) = i0

/-- Fewer than 128 SETUPs have been counted out before one that leaves the channels to the server,
and the numbers that a client asks for itself are bytes. -/
def ChannelsOk (rs : List SetupRequest) (r : SetupRequest) : Prop :=
  ∀ o, r.tcpOffer = some o → if o.interleaved1 = o.interleaved2 then
    rs.countP SetupRequest.counted < 128 else IsByte o.interleaved1 ∧ IsByte o.interleaved2

variable {r : SetupRequest} {rs : List SetupRequest} {channel channel' : Int} {o : Offer}
  {x : Setup Transport}

theorem toNat_ofInt {n : Int} (h : IsByte n) : ((UInt8.ofInt n).toNat : Int) = n := by
  obtain ⟨h0, h255⟩ := h
  have hn : (UInt8.ofInt n).toNat = (n % 2 ^ 8).toNat % 2 ^ 8 := UInt8.toNat_ofNat'
  rw [hn]
  omega

/-- A frame says how long it is. -/
theorem deinterleave_send {t : TcpTransport} {data : List UInt8} (h : data.length < 2 ^ 16)
    (rest : List UInt8) : ∃ frame, t.send false data = some frame ∧
      deinterleave (frame ++ rest) = some (t.rtp, data, rest) := by
  have hroom : 4 + data.length ≤ 4 + 1 <<< 16 := by
    rw [Nat.one_shiftLeft]
    omega
  refine ⟨_, if_pos hroom, ?_⟩
  have hlen : 256 * (data.length >>> 8 % 256) + data.length % 256 = data.length := by
    rw [Nat.shiftRight_eq_div_pow]
    omega
  simp [deinterleave, hlen]

/-- An interleaved offer is answered with its channels, and they are given to its transport. -/
theorem onsetup_tcp (ho : r.tcpOffer = some o) (hx : r.onsetup channel = some x) :
    x.replies = [⟨200, some (.tcp (interleave o channel).1 (interleave o channel).2.1)⟩] ∧
      x.channel = (interleave o channel).2.2 ∧ (x.created = none ∨ x.created = some
        (.tcp (.new (interleave o channel).1 (interleave o channel).2.1))) := by
  cases hm : r.session with
  | none => simp [SetupRequest.tcpOffer, hm] at ho
  | some m =>
    cases hs : selectTransport r.offers with
    | none => simp [SetupRequest.tcpOffer, hm, hs] at ho
    | some o' =>
      have ht : o'.transport = .rtpTcp ∧ o' = o := by
        simpa [SetupRequest.tcpOffer, hm, hs] using ho
      obtain ⟨ht, rfl⟩ := ht
      cases hp : splitTrack r.path with
      | none => simp [SetupRequest.onsetup, rtspOnsetup, hm, hs, ht, hp, addAndReply] at hx
      | some name =>
        have hnew : rtpTcpTransportNew (r.net channel) =
            if r.malloc then some (SetupRequest.transport o' channel) else none := by
          simp [rtpTcpTransportNew, SetupRequest.net, hs]
        simp only [SetupRequest.onsetup, rtspOnsetup, hm, hs, ht, hp, if_true, addAndReply_some,
          hnew, Option.some.injEq] at hx
        subst hx
        refine ⟨rfl, rfl, ?_⟩
        cases hmal : r.malloc with
        | false => exact Or.inl rfl
        | true => exact Or.inr (by simp [SetupRequest.transport, ht])

/-- No other SETUP moves the counter or announces a channel. -/
theorem onsetup_other (ho : r.tcpOffer = none) (hx : r.onsetup channel = some x) :
    x.channel = channel ∧ ∀ i0 i1, x.replies ≠ [⟨200, some (.tcp i0 i1)⟩] := by
  cases hm : r.session with
  | none =>
    simp only [SetupRequest.onsetup, rtspOnsetup, hm, Option.some.injEq] at hx
    subst hx
    exact ⟨rfl, by simp⟩
  | some m =>
    cases hs : selectTransport r.offers with
    | none =>
      simp only [SetupRequest.onsetup, rtspOnsetup, hm, hs, Option.some.injEq] at hx
      subst hx
      exact ⟨rfl, by simp⟩
    | some o =>
      have ht : o.transport ≠ .rtpTcp := by
        simpa [SetupRequest.tcpOffer, hm, hs] using ho
      simp only [SetupRequest.onsetup, rtspOnsetup, hm, hs, if_neg ht] at hx
      split_ifs at hx
      cases hp : splitTrack r.path with
      | none => simp [hp, addAndReply] at hx
      | some name =>
        simp only [hp, addAndReply_some, Option.some.injEq] at hx
        subst hx
        exact ⟨rfl, by simp⟩

/-- The counter has moved by two for every SETUP that it was asked. -/
theorem channel_run (h : Lts.MTr Setups channel rs channel') :
    channel' = channel + 2 * rs.countP SetupRequest.counted := by
  induction h with
  | refl => simp
  | @stepL channel next channel' r rs hs _ ih =>
    obtain ⟨x, hx, rfl⟩ := hs
    have hstep : x.channel = channel + if r.counted then 2 else 0 := by
      cases ho : r.tcpOffer with
      | none => simp [(onsetup_other ho hx).1, SetupRequest.counted, ho]
      | some o =>
        rw [(onsetup_tcp ho hx).2.1]
        by_cases heq : o.interleaved1 = o.interleaved2 <;>
          simp [interleave, SetupRequest.counted, ho, heq]
    rw [ih, hstep, List.countP_cons]
    split <;> push_cast <;> ring

/-- However many SETUPs came before, the frames carry the channels that were announced exactly
when these are bytes. -/
theorem interleaved_iff (h : Lts.MTr Setups 0 rs channel) (hx : r.onsetup channel = some x) :
    Framed x ↔ ChannelsOk rs r := by
  cases ho : r.tcpOffer with
  | none =>
    refine iff_of_true ?_ (by simp [ChannelsOk, ho])
    intro i0 i1 hr
    exact absurd hr ((onsetup_other ho hx).2 i0 i1)
  | some o =>
    obtain ⟨hr, -, hc⟩ := onsetup_tcp ho hx
    have hrange : ChannelsOk rs r ↔
        IsByte (interleave o channel).1 ∧ IsByte (interleave o channel).2.1 := by
      have hchn := channel_run h
      by_cases heq : o.interleaved1 = o.interleaved2
      · simp [ChannelsOk, ho, heq, interleave, IsByte]
        omega
      · simp [ChannelsOk, ho, heq, interleave]
    rw [hrange]
    constructor
    · intro hf
      obtain ⟨h0, h1, -⟩ := hf _ _ hr
      exact ⟨h0, h1⟩
    · rintro ⟨h0, h1⟩ i0 i1 hr'
      obtain ⟨rfl, rfl⟩ : (interleave o channel).1 = i0 ∧ (interleave o channel).2.1 = i1 := by
        simpa using hr.symm.trans hr'
      refine ⟨h0, h1, ?_⟩
      intro t ht
      rcases hc with hc | hc
      · cases hc.symm.trans ht
      · obtain rfl := Option.some.inj (hc.symm.trans ht)
        refine ⟨_, rfl, ?_⟩
        intro data rest hlen
        obtain ⟨frame, hsend, hback⟩ := deinterleave_send hlen rest
        exact ⟨frame, _, hsend, hback, toNat_ofInt h0⟩

/-- A client that asks for two channels. -/
def askFor (i0 i1 : Int) : SetupRequest where
  client := []
  session := some (Media.liveNew (Bytes.ascii "/0-0"))
  path := Bytes.ascii "/0-0/video"
  offers := [⟨.rtpTcp, false, i0, i1, 0, 0, []⟩]
  malloc := true
  addrFrom _ _ := true
  routeGet _ := none
  sockpairCreate _ port := some port

/-- The channels of the second SETUP are counted out after those of the first. -/
theorem interleaved_second : ∃ x, (askFor 0 0).onsetup 2 = some x ∧
    x.replies = [⟨200, some (.tcp 2 3)⟩] ∧ Framed x := by
  have h : Lts.MTr Setups 0 [askFor 0 0] 2 := .stepL ⟨_, rfl, rfl⟩ .refl
  have hx : (askFor 0 0).onsetup 2 = some _ := rfl
  refine ⟨_, hx, rfl, (interleaved_iff h hx).mpr ?_⟩
  rintro o ⟨rfl⟩
  decide

/-- Channel 256 is announced, and frames carry channel 0. -/
theorem interleaved_wraps : ∃ x, (askFor 256 257).onsetup 0 = some x ∧
    x.replies = [⟨200, some (.tcp 256 257)⟩] ∧ ¬ Framed x := by
  refine ⟨_, rfl, rfl, ?_⟩
  intro h
  exact absurd (h 256 257 rfl).1.2 (by decide)

end Freak.Rtsp
