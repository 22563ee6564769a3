import Freak.Rtsp.Media

/-! What SETUP answers and what it does to the session: `rtsp_onsetup`. -/
namespace Freak.Rtsp

open Bytes (ascii)

inductive Protocol
  | rtpUdp
  | rtpTcp
  | other
deriving DecidableEq

/-- `rtsp_header_transport_t`, one of the transports a client offers. -/
structure Offer where
  transport : Protocol
  multicast : Bool
  interleaved1 : Int
  interleaved2 : Int
  clientPort1 : UInt16
  clientPort2 : UInt16
  destination : List UInt8

/-- What the memory and the socket library do for the constructors. -/
structure Net (τ : Type) where
  alloc : Option τ
  addrFrom : List UInt8 → UInt16 → Bool
  routeGet : List UInt8 → Option (List UInt8)
  sockpairCreate : Option (List UInt8) → UInt16 × UInt16 → Option (UInt16 × UInt16)

inductive TransportHeader
  | tcp (interleaved0 interleaved1 : Int)
  | udp (client server : UInt16 × UInt16) (destination : List UInt8)
deriving DecidableEq

structure Reply where
  code : Nat
  transport : Option TransportHeader
deriving DecidableEq

/-- The end of a handled SETUP: what was sent, the session's media, the next interleaved channel,
the offer chosen, what its constructor returned and what was freed. -/
structure Setup (τ : Type) where
  replies : List Reply
  media : Option (Media τ)
  channel : Int
  chosen : Option Offer
  created : Option τ
  freed : List τ

variable {τ : Type}

/-- `rtp_tcp_transport_new`. -/
def rtpTcpTransportNew (net : Net τ) : Option τ := net.alloc

/-- `rtp_udp_transport_new` and the ports it leaves. -/
def rtpUdpTransportNew (net : Net τ) (ip : List UInt8) (port : UInt16 × UInt16) :
    Option τ × (UInt16 × UInt16) :=
  match net.alloc with
  | none => (none, port)
  | some t =>
    if net.addrFrom ip port.1 ∧ net.addrFrom ip port.2 then
      match net.sockpairCreate (net.routeGet ip) port with
      | some port => (some t, port)
      | none => (none, port)
    else (none, port)

def Offer.Supported (o : Offer) : Bool := o.transport = .rtpUdp ∨ o.transport = .rtpTcp

/-- The loop over the offers. -/
def selectTransport (offers : List Offer) : Option Offer := offers.find? Offer.Supported

/-- What follows the last slash, `NULL` without one. -/
def splitTrack (path : List UInt8) : Option (List UInt8) :=
  if 47 ∈ path then some (path.reverse.takeWhile (· ≠ 47)).reverse else none

/-- The track that a SETUP's path names. -/
def trackNamed (path : List UInt8) : Option Track := (splitTrack path).bind trackOf

/-- `add_transport` and the answer to its return value; `strstr` takes no `NULL`. -/
def addAndReply (m : Media τ) (channel : Int) (o : Offer) (track : Option (List UInt8))
    (t : Option τ) (header : TransportHeader) : Option (Setup τ) :=
  match track with
  | none => none
  | some name =>
    match m.addTransport name t with
    | (m, old, ret) =>
      if ret < 0 then some ⟨[⟨451, none⟩], some m, channel, some o, t, old.toList⟩
      else some ⟨[⟨200, some header⟩], some m, channel, some o, t, old.toList⟩

/-- The interleaved channels of a TCP transport and the counter after them. -/
def interleave (o : Offer) (channel : Int) : Int × Int × Int :=
  if o.interleaved1 = o.interleaved2 then (channel, channel + 1, channel + 2)
  else (o.interleaved1, o.interleaved2, channel)

/-- The address a UDP transport sends to. -/
def Offer.ip (o : Offer) (client : List UInt8) : List UInt8 :=
  if o.destination.isEmpty then client else o.destination

/-- `rtsp_onsetup`; `none` is a failed assertion or a `NULL` dereference. -/
def rtspOnsetup (net : Net τ) (client : List UInt8) (session : Option (Media τ)) (channel : Int)
    (path : List UInt8) (offers : List Offer) : Option (Setup τ) :=
  match session with
  | none => some ⟨[⟨454, none⟩], none, channel, none, none, []⟩
  | some m =>
    match selectTransport offers with
    | none => some ⟨[⟨461, none⟩], some m, channel, none, none, []⟩
    | some o =>
      if o.transport = .rtpTcp then
        match interleave o channel with
        | (i0, i1, channel) =>
          addAndReply m channel o (splitTrack path) (rtpTcpTransportNew net) (.tcp i0 i1)
      -- `assert(0)`
      else if o.multicast then none
      else if o.clientPort1 = 0 ∨ o.clientPort2 = 0 then none
      else
        match rtpUdpTransportNew net (o.ip client) (o.clientPort1, o.clientPort2) with
        | (t, server) =>
          addAndReply m channel o (splitTrack path) t
            (.udp (o.clientPort1, o.clientPort2) server o.destination)

/-- One reply, true of what was done, and nothing changed or left over behind a refusal. -/
def Truthful (session : Option (Media τ)) (path : List UInt8) (offers : List Offer)
    (r : Option (Setup τ)) : Prop :=
  ∃ x code header, r = some x ∧ x.replies = [⟨code, header⟩] ∧
    (session = none → code ≠ 200 ∧ x.media = none ∧ x.created = none) ∧
    ∀ m, session = some m →
      x.chosen = selectTransport offers ∧
      (code = 461 ↔ selectTransport offers = none) ∧
      (code = 200 ↔ ∃ t k, x.created = some t ∧ trackNamed path = some k ∧
        x.media = some { m with transport := Function.update m.transport k (some t) }) ∧
      (code ≠ 200 → x.media = some m ∧ ∀ t, x.created = some t → t ∈ x.freed)

/-- The constructor of an offer's transport has all it needs and returns one. -/
def Offer.Serves (o : Offer) (net : Net τ) (client : List UInt8) : Prop :=
  if o.transport = .rtpTcp then rtpTcpTransportNew net ≠ none
  else o.multicast = false ∧ o.clientPort1 ≠ 0 ∧ o.clientPort2 ≠ 0 ∧
    (rtpUdpTransportNew net (o.ip client) (o.clientPort1, o.clientPort2)).1 ≠ none

/-- A session that is offered a supported transport gets it on a track that exists. -/
def SetupOk (net : Net τ) (client : List UInt8) (session : Option (Media τ))
    (path : List UInt8) (offers : List Offer) : Prop :=
  ∀ m o, session = some m → selectTransport offers = some o →
    (∃ k, trackNamed path = some k) ∧ o.Serves net client

variable {net : Net τ} {client path : List UInt8} {session : Option (Media τ)} {channel : Int}
  {offers : List Offer} {m : Media τ} {o : Offer} {t : Option τ} {header : TransportHeader}

/-- Whatever was brought and wherever it went, the answer is 200. -/
theorem addAndReply_some {name : List UInt8} :
    addAndReply m channel o (some name) t header =
      some ⟨[⟨200, some header⟩], some (m.addTransport name t).1, channel, some o, t,
        (m.addTransport name t).2.1.toList⟩ := by
  cases hk : trackOf name <;> simp [addAndReply, Media.addTransport, hk]

theorem truthful_addAndReply (ho : selectTransport offers = some o) :
    Truthful (some m) path offers (addAndReply m channel o (splitTrack path) t header) ↔
      (∃ k, trackNamed path = some k) ∧ t ≠ none := by
  cases hs : splitTrack path with
  | none =>
    constructor
    · rintro ⟨x, code, h, hx, -⟩
      cases hx
    · rintro ⟨⟨k, hk⟩, -⟩
      simp [trackNamed, hs] at hk
  | some name =>
    have hname : trackNamed path = trackOf name := by simp [trackNamed, hs]
    rw [addAndReply_some, hname]
    constructor
    · rintro ⟨x, code, h, hx, hr, -, hm⟩
      obtain rfl := Option.some.inj hx
      obtain ⟨rfl, -⟩ : 200 = code ∧ some header = h := by simpa using hr
      obtain ⟨-, -, h200, -⟩ := hm m rfl
      obtain ⟨t', k, ht, hk, -⟩ := h200.mp rfl
      exact ⟨⟨k, hname ▸ hk⟩, by simp only at ht; simp [ht]⟩
    · rintro ⟨⟨k, hk⟩, ht⟩
      obtain ⟨t', rfl⟩ := Option.ne_none_iff_exists'.mp ht
      refine ⟨_, 200, some header, rfl, rfl, nofun, ?_⟩
      rintro m' ⟨rfl⟩
      refine ⟨ho.symm, by simp [ho], ?_, by simp⟩
      simp [Media.addTransport, hk, hname]

/-- SETUP is truthful exactly where the track exists and the transport was made. -/
theorem setup_truthful_iff (net : Net τ) (client : List UInt8) (session : Option (Media τ))
    (channel : Int) (path : List UInt8) (offers : List Offer) :
    Truthful session path offers (rtspOnsetup net client session channel path offers) ↔
      SetupOk net client session path offers := by
  cases session with
  | none =>
    constructor
    · intro _ m o h
      cases h
    · intro _
      exact ⟨_, 454, none, rfl, rfl, fun _ => ⟨by decide, rfl, rfl⟩, nofun⟩
  | some m =>
    cases ho : selectTransport offers with
    | none =>
      refine ⟨fun _ m' o _ h => ?_, fun _ => ?_⟩
      · cases ho.symm.trans h
      · have hr : rtspOnsetup net client (some m) channel path offers =
            some ⟨[⟨461, none⟩], some m, channel, none, none, []⟩ := by
          simp only [rtspOnsetup, ho]
        refine ⟨_, 461, none, hr, rfl, nofun, ?_⟩
        rintro m' ⟨rfl⟩
        simp [ho]
    | some o =>
      have hok : SetupOk net client (some m) path offers ↔
          (∃ k, trackNamed path = some k) ∧ o.Serves net client := by
        constructor
        · exact fun h => h m o rfl ho
        · rintro h m' o' - ho'
          obtain rfl := Option.some.inj (ho.symm.trans ho')
          exact h
      have hfail : ∀ x : Option (Setup τ), x = none → ¬ Truthful (some m) path offers x := by
        rintro x rfl ⟨y, code, h, hy, -⟩
        cases hy
      rw [hok]
      simp only [rtspOnsetup, ho, Offer.Serves]
      by_cases htcp : o.transport = .rtpTcp
      · simp only [htcp, if_true]
        exact truthful_addAndReply ho
      · rw [if_neg htcp, if_neg htcp]
        by_cases hmc : o.multicast = true
        · rw [if_pos hmc]
          simp [hmc, hfail]
        · rw [if_neg hmc]
          by_cases hport : o.clientPort1 = 0 ∨ o.clientPort2 = 0
          · rw [if_pos hport]
            refine iff_of_false (hfail _ rfl) ?_
            rintro ⟨-, -, h1, h2, -⟩
            exact hport.elim h1 h2
          · rw [if_neg hport]
            obtain ⟨h1, h2⟩ := not_or.mp hport
            rw [truthful_addAndReply ho]
            simp [hmc, h1, h2]

/-- An interleaved transport, offered for a track there is not. -/
def sampleOffer : Offer := ⟨.rtpTcp, false, 0, 1, 0, 0, []⟩

def sampleNet : Net Nat := ⟨some 7, fun _ _ => true, fun _ => none, fun _ port => some port⟩

/-- The answer is 200, the transport is on no track and it is not released. -/
theorem setup_unknown_track :
    ¬ Truthful (some (Media.liveNew (ascii "/0-0"))) (ascii "/0-0/other") [sampleOffer]
      (rtspOnsetup sampleNet [] (some (Media.liveNew (ascii "/0-0"))) 0 (ascii "/0-0/other")
        [sampleOffer]) := by
  rintro ⟨x, code, header, hx, hr, -, hm⟩
  obtain rfl := Option.some.inj hx
  obtain ⟨rfl, -⟩ : 200 = code ∧
      some (TransportHeader.tcp sampleOffer.interleaved1 sampleOffer.interleaved2) = header := by
    simpa using hr
  obtain ⟨-, -, h200, -⟩ := hm _ rfl
  obtain ⟨t, k, -, hk, -⟩ := h200.mp rfl
  have hnone : trackNamed (ascii "/0-0/other") = none := by decide
  cases hnone.symm.trans hk

end Freak.Rtsp
