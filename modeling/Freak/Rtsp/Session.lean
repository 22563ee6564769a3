import Freak.Lib.Lts
import Freak.Rtsp.Media

/-! One connection's session: its requests, one after another, against the sender thread. -/
namespace Freak.Rtsp.Session

/-- `rtp_send_data`: at the test of `status`, after it, with a record for the packer, inside
`__packet` with the transport it loaded, inside that transport's `send`. -/
inductive Sender
  | absent
  | check
  | fetch
  | packing
  | loaded (t : Option Nat)
  | sending (t : Nat)
  | done
deriving DecidableEq

/-- The request being handled, between its steps. -/
inductive Handler
  | idle
  | sdp
  | replaced (old : Option Nat)
  | exiting
deriving DecidableEq

/-- Transports are named by numbers, in the order they are created. -/
structure State where
  media : Option (Media Nat)
  sender : Sender
  handler : Handler
  next : Nat
  installed : List Nat
  freed : List Nat

inductive Action
  | describe (path : List UInt8)
  | sdp (created : Bool) (attach : Chan → Bool)
  | setup (track : List UInt8) (made : Bool)
  | release
  | play
  | pause
  | teardown
  | exit
  | sender

def State.initial : State := ⟨none, .absent, .idle, 0, [], []⟩

def tracks : List Track := [.video, .audio, .metadata]

/-- The transports `rtp_media_live_free` frees. -/
def held (m : Media Nat) : List Nat := tracks.filterMap m.transport

/-- The transport a SETUP brings, `NULL` when its constructor failed. -/
def brought (next : Nat) (made : Bool) : Option Nat := if made then some next else none

inductive Step : State → Action → State → Prop
  | describeNew {s : State} {path : List UInt8} (hh : s.handler = .idle) (hm : s.media = none) :
      Step s (.describe path)
        { s with media := some (.liveNew path), sender := .check, handler := .sdp }
  | describeOld {s : State} {path : List UInt8} {m : Media Nat} (hh : s.handler = .idle)
      (hm : s.media = some m) : Step s (.describe path) { s with handler := .sdp }
  | sdp {s : State} {m : Media Nat} {created : Bool} {attach : Chan → Bool}
      (hh : s.handler = .sdp) (hm : s.media = some m) :
      Step s (.sdp created attach)
        { s with media := some (m.getSdp created attach).1, handler := .idle }
  -- 454
  | setupNone {s : State} {track : List UInt8} {made : Bool} (hh : s.handler = .idle)
      (hm : s.media = none) : Step s (.setup track made) s
  | setup {s : State} {m : Media Nat} {track : List UInt8} {made : Bool} {k : Track}
      (hh : s.handler = .idle) (hm : s.media = some m) (hk : trackOf track = some k) :
      Step s (.setup track made) { s with
        media := some (m.addTransport track (brought s.next made)).1
        handler := .replaced (m.transport k)
        next := s.next + 1
        installed := (brought s.next made).toList ++ s.installed }
  -- no such track: the new transport is forgotten
  | setupLost {s : State} {m : Media Nat} {track : List UInt8} {made : Bool}
      (hh : s.handler = .idle) (hm : s.media = some m) (hk : trackOf track = none) :
      Step s (.setup track made) { s with next := s.next + 1 }
  | release {s : State} {old : Option Nat} (hh : s.handler = .replaced old) :
      Step s .release { s with freed := old.toList ++ s.freed, handler := .idle }
  | playNone {s : State} (hh : s.handler = .idle) (hm : s.media = none) : Step s .play s
  | play {s : State} {m : Media Nat} (hh : s.handler = .idle) (hm : s.media = some m) :
      Step s .play { s with media := some m.play }
  | pause {s : State} (hh : s.handler = .idle) : Step s .pause s
  | teardownNone {s : State} (hh : s.handler = .idle) (hm : s.media = none) : Step s .teardown s
  | teardown {s : State} {m : Media Nat} (hh : s.handler = .idle) (hm : s.media = some m) :
      Step s .teardown
        { s with media := some { m with status := .exit }, handler := .exiting }
  -- the thread has been joined
  | exit {s : State} {m : Media Nat} (hh : s.handler = .exiting) (hm : s.media = some m)
      (hs : s.sender = .done) :
      Step s .exit { s with
        media := none, sender := .absent, handler := .idle, freed := held m ++ s.freed }
  | leave {s : State} {m : Media Nat} (hs : s.sender = .check) (hm : s.media = some m)
      (hst : m.status = .exit) : Step s .sender { s with sender := .done }
  | wait {s : State} {m : Media Nat} (hs : s.sender = .check) (hm : s.media = some m)
      (hst : m.status ≠ .play) : Step s .sender s
  | look {s : State} {m : Media Nat} (hs : s.sender = .check) (hm : s.media = some m)
      (hst : m.status = .play) : Step s .sender { s with sender := .fetch }
  -- no FIFO, no record or no packer
  | nothing {s : State} (hs : s.sender = .fetch) : Step s .sender { s with sender := .check }
  | record {s : State} {m : Media Nat} {c : Chan} (hs : s.sender = .fetch) (hm : s.media = some m)
      (hf : m.fifo = some c) (hp : m.packer = true) : Step s .sender { s with sender := .packing }
  | load {s : State} {m : Media Nat} (hs : s.sender = .packing) (hm : s.media = some m) :
      Step s .sender { s with sender := .loaded (m.transport .video) }
  | send {s : State} {t : Nat} (hs : s.sender = .loaded (some t)) :
      Step s .sender { s with sender := .sending t }
  | sent {s : State} {t : Nat} (hs : s.sender = .sending t) :
      Step s .sender { s with sender := .packing }
  | packed {s : State} (hs : s.sender = .packing) : Step s .sender { s with sender := .check }

/-- The sender has a record for the packer, or is inside it. -/
def Sender.Packs : Sender → Prop
  | .packing | .loaded _ | .sending _ => True
  | .absent | .check | .fetch | .done => False

/-- The record in the sender's hands has a transport to go to. -/
def HasTransport (s : State) : Prop :=
  s.sender.Packs → ∃ m, s.media = some m ∧ m.transport .video ≠ none ∧ s.sender ≠ .loaded none

/-- PLAY comes after a SETUP of the video track, and no later SETUP takes its transport away. -/
def OkPlay (s : State) : Action → Prop
  | .play => ∀ m, s.media = some m → m.transport .video ≠ none
  | .setup track made => ∀ m, s.media = some m → m.status ≠ .setup →
      trackOf track = some .video → made = true
  | _ => True

/-- A transport may be gone only while nothing has been played. -/
structure PlayInv (s : State) : Prop where
  idle : s.media = none → s.sender = .absent
  waiting : ∀ m, s.media = some m → m.status = .setup → s.sender = .check
  playing : ∀ m, s.media = some m → m.status = .play → m.transport .video ≠ none
  leaving : ∀ m, s.media = some m → s.sender ≠ .check → s.sender ≠ .done →
    m.transport .video ≠ none
  loaded : s.sender ≠ .loaded none

theorem hasTransport_of_inv {s : State} (h : PlayInv s) : HasTransport s := by
  intro hp
  cases hm : s.media with
  | none =>
    rw [h.idle hm] at hp
    exact absurd hp id
  | some m =>
    refine ⟨m, rfl, h.leaving m hm ?_ ?_, h.loaded⟩
    · intro hs
      simp [hs, Sender.Packs] at hp
    · intro hs
      simp [hs, Sender.Packs] at hp

variable {s t : State} {a : Action} {acts : List Action}

theorem addTransport_of_trackOf {m : Media Nat} {track : List UInt8} {t : Option Nat} {k : Track}
    (hk : trackOf track = some k) :
    m.addTransport track t =
      ({ m with transport := Function.update m.transport k t }, m.transport k, 0) := by
  simp [Media.addTransport, hk]

/-- Steps of the sender leave the media alone and only pack what is being played. -/
theorem playInv_sender (h : Step s .sender t) (hs : PlayInv s) : PlayInv t := by
  obtain ⟨hidle, hwait, hplay, hleave, hload⟩ := hs
  cases h with
  | leave hs hm hst =>
    refine ⟨?_, ?_, hplay, ?_, nofun⟩
    · simp [hm]
    · simp [hm, hst]
    · simp
  | wait => exact ⟨hidle, hwait, hplay, hleave, hload⟩
  | look hs hm hst =>
    refine ⟨?_, ?_, hplay, ?_, nofun⟩
    · simp [hm]
    · simp [hm, hst]
    · intro m hm' _ _
      obtain rfl := Option.some.inj (hm.symm.trans hm')
      exact hplay _ hm hst
  | nothing hs =>
    refine ⟨?_, fun _ _ _ => rfl, hplay, by simp, nofun⟩
    intro hm
    cases (hidle hm).symm.trans hs
  | record hs hm hf hp =>
    refine ⟨?_, ?_, hplay, ?_, nofun⟩
    · simp [hm]
    · intro m hm' hst
      cases (hwait m hm' hst).symm.trans hs
    · intro m hm' _ _
      exact hleave m hm' (by simp [hs]) (by simp [hs])
  | load hs hm =>
    have hne := hleave _ hm (by simp [hs]) (by simp [hs])
    refine ⟨?_, ?_, hplay, ?_, ?_⟩
    · simp [hm]
    · intro m hm' hst
      cases (hwait m hm' hst).symm.trans hs
    · intro m hm' _ _
      obtain rfl := Option.some.inj (hm.symm.trans hm')
      exact hne
    · simpa using hne
  | send hs | sent hs | packed hs =>
    refine ⟨?_, ?_, hplay, ?_, nofun⟩
    · intro hm
      cases (hidle hm).symm.trans hs
    · intro m hm hst
      cases (hwait m hm hst).symm.trans hs
    · intro m hm _ _
      exact hleave m hm (by simp [hs]) (by simp [hs])

theorem playInv_step (h : Step s a t) (ha : OkPlay s a) (hs : PlayInv s) : PlayInv t := by
  have hsender := hs
  obtain ⟨hidle, hwait, hplay, hleave, hload⟩ := hs
  cases h with
  | describeNew hh hm =>
    refine ⟨nofun, fun _ _ _ => rfl, ?_, ?_, nofun⟩
    · rintro m ⟨rfl⟩ hst
      cases hst
    · rintro m - h -
      exact absurd rfl h
  | describeOld hh hm | release hh => exact ⟨hidle, hwait, hplay, hleave, hload⟩
  | sdp hh hm =>
    refine ⟨nofun, ?_, ?_, ?_, hload⟩
    · rintro m ⟨rfl⟩ hst
      exact hwait _ hm (by simpa using hst)
    · rintro m ⟨rfl⟩ hst
      simpa using hplay _ hm (by simpa using hst)
    · rintro m ⟨rfl⟩ hc hd
      simpa using hleave _ hm hc hd
  | setupNone | playNone | pause | teardownNone =>
    exact ⟨hidle, hwait, hplay, hleave, hload⟩
  | setup hh hm hk =>
    rename_i m track made k
    have hvideo : m.status ≠ .setup → m.transport .video ≠ none →
        (m.addTransport track (brought s.next made)).1.transport .video ≠ none := by
      intro hst hne
      rw [addTransport_of_trackOf hk]
      by_cases hkv : k = .video
      · subst hkv
        simp [brought, ha m hm hst hk]
      · simpa [Function.update_of_ne (Ne.symm hkv)] using hne
    refine ⟨nofun, ?_, ?_, ?_, hload⟩
    · rintro m' ⟨rfl⟩ hst
      exact hwait m hm (by simpa using hst)
    · rintro m' ⟨rfl⟩ hst
      have hst : m.status = .play := by simpa using hst
      exact hvideo (by simp [hst]) (hplay m hm hst)
    · rintro m' ⟨rfl⟩ hc hd
      exact hvideo (fun hst => hc (hwait m hm hst)) (hleave m hm hc hd)
  | setupLost hh hm hk => exact ⟨hidle, hwait, hplay, hleave, hload⟩
  | play hh hm =>
    refine ⟨nofun, ?_, ?_, ?_, hload⟩
    · rintro m ⟨rfl⟩ hst
      cases hst
    · rintro m ⟨rfl⟩ -
      simpa using ha _ hm
    · rintro m ⟨rfl⟩ hc hd
      simpa using hleave _ hm hc hd
  | teardown hh hm =>
    refine ⟨nofun, ?_, ?_, ?_, hload⟩
    · rintro m ⟨rfl⟩ hst
      cases hst
    · rintro m ⟨rfl⟩ hst
      cases hst
    · rintro m ⟨rfl⟩ hc hd
      have hne := hleave _ hm hc hd
      exact hne
  | exit hh hm hs => exact ⟨fun _ => rfl, nofun, nofun, nofun, nofun⟩
  | leave hs hm hst => exact playInv_sender (.leave hs hm hst) hsender
  | wait => exact hsender
  | look hs hm hst => exact playInv_sender (.look hs hm hst) hsender
  | nothing hs => exact playInv_sender (.nothing hs) hsender
  | record hs hm hf hp => exact playInv_sender (.record hs hm hf hp) hsender
  | load hs hm => exact playInv_sender (.load hs hm) hsender
  | send hs => exact playInv_sender (.send hs) hsender
  | sent hs => exact playInv_sender (.sent hs) hsender
  | packed hs => exact playInv_sender (.packed hs) hsender

/-- In a run that plays no track without a transport the sender always has one. -/
theorem sender_has_transport
    (h : Lts.MTr (Lts.Restrict Step OkPlay) State.initial acts s) : HasTransport s := by
  have hinv : Lts.TrInv (Lts.Restrict Step OkPlay) PlayInv := by
    intro s a t hs hi
    exact playInv_step hs.1 hs.2 hi
  refine hasTransport_of_inv (Lts.mtrInv_of_trInv hinv h ?_)
  exact ⟨fun _ => rfl, nofun, nofun, nofun, nofun⟩

/-- DESCRIBE, SETUP of the video track, PLAY, and the sender packs its first record. -/
theorem sender_has_transport_setup : ∃ s, s.sender = .packing ∧ HasTransport s := by
  refine ⟨_, ?_, sender_has_transport <|
    .stepL ⟨@Step.describeNew _ (Bytes.ascii "/0-0") rfl rfl, trivial⟩ <|
    .stepL ⟨@Step.sdp _ _ true (fun _ => true) rfl rfl, trivial⟩ <|
    .stepL ⟨@Step.setup _ _ (Bytes.ascii "video") true _ rfl rfl rfl,
      fun _ _ _ _ => rfl⟩ <|
    .stepL ⟨.release rfl, trivial⟩ <|
    .stepL ⟨.play rfl rfl, by rintro m ⟨rfl⟩; decide⟩ <|
    .stepL ⟨.look rfl rfl rfl, trivial⟩ <|
    .stepL ⟨.record rfl rfl rfl rfl, trivial⟩ .refl⟩
  rfl

/-- PLAY without a SETUP: the sender packs a record that has no transport to go to. -/
theorem sender_without_transport : ∃ acts s, Lts.MTr Step State.initial acts s ∧
    s.sender = .packing ∧ ¬ HasTransport s := by
  refine ⟨_, _,
    .stepL (@Step.describeNew _ (Bytes.ascii "/0-0") rfl rfl) <|
    .stepL (@Step.sdp _ _ true (fun _ => true) rfl rfl) <|
    .stepL (.play rfl rfl) <|
    .stepL (.look rfl rfl rfl) <|
    .stepL (.record rfl rfl rfl rfl) .refl, rfl, ?_⟩
  intro h
  obtain ⟨m, hm, hne, -⟩ := h trivial
  obtain rfl := Option.some.inj hm
  exact hne rfl

/-! Who frees which transport. -/

/-- The transports that are still to be freed: the replaced one and those of the tracks. -/
def live (s : State) : List Nat :=
  (match s.handler with
    | .replaced old => old.toList
    | _ => []) ++ s.media.elim [] held

def Sender.Holds (s : Sender) (t : Nat) : Prop := s = .loaded (some t) ∨ s = .sending t

/-- No transport is used after it is freed, and each is freed once, the last by TEARDOWN. -/
def TransportsSafe (s : State) : Prop :=
  (∀ t, s.sender = .sending t → t ∉ s.freed) ∧ s.freed.Nodup ∧
    (s.media = none → ∀ t ∈ s.installed, s.freed.count t = 1)

/-- A replaced transport is freed only while the sender is not between loading it and the end of
its `send`. -/
def OkFree (s : State) : Action → Prop
  | .release => ∀ t, s.handler = .replaced (some t) → ¬ s.sender.Holds t
  | _ => True

structure OwnInv (s : State) : Prop where
  absent : s.media = none → s.sender = .absent ∧ s.handler = .idle
  perm : (live s ++ s.freed).Perm s.installed
  nodup : s.installed.Nodup
  fresh : ∀ t ∈ s.installed, t < s.next
  holds : ∀ t, s.sender.Holds t →
    (∃ m, s.media = some m ∧ m.transport .video = some t) ∨ s.handler = .replaced (some t)

theorem held_eq (m : Media Nat) : held m = (m.transport .video).toList ++
    (m.transport .audio).toList ++ (m.transport .metadata).toList := by
  cases hv : m.transport .video <;> cases ha : m.transport .audio <;>
    cases hm : m.transport .metadata <;> simp [held, tracks, hv, ha, hm]

/-- A new transport takes the place of the one that is handed on to be freed. -/
theorem held_replaced (m : Media Nat) (k : Track) (t : Option Nat) :
    ((m.transport k).toList ++ held { m with transport := Function.update m.transport k t }).Perm
      (t.toList ++ held m) := by
  rw [List.perm_iff_count]
  intro x
  simp only [held_eq, List.count_append]
  cases k <;> simp [Function.update] <;> omega

theorem holds_mem_live (h : OwnInv s) {t : Nat} (ht : s.sender.Holds t) : t ∈ live s := by
  rcases h.holds t ht with ⟨m, hm, hv⟩ | hh
  · have hmem : t ∈ held m := by
      rw [held_eq]
      simp [hv]
    simp [live, hm, hmem]
  · simp [live, hh]

theorem transportsSafe_of_inv (h : OwnInv s) : TransportsSafe s := by
  have hnd : (live s ++ s.freed).Nodup := h.perm.nodup_iff.mpr h.nodup
  refine ⟨?_, hnd.of_append_right, ?_⟩
  · intro t ht hf
    exact (List.nodup_append.mp hnd).2.2 t (holds_mem_live h (Or.inr ht)) t hf rfl
  · intro hm t ht
    have hlive : live s = [] := by simp [live, hm, (h.absent hm).2]
    have hcount := h.perm.count_eq t
    rw [hlive, List.nil_append, List.count_eq_one_of_mem h.nodup ht] at hcount
    exact hcount

/-- The sender frees nothing and holds what its track has. -/
theorem ownInv_sender (h : Step s .sender t) (hs : OwnInv s) : OwnInv t := by
  obtain ⟨habs, hperm, hnd, hfresh, hholds⟩ := hs
  cases h with
  | wait => exact ⟨habs, hperm, hnd, hfresh, hholds⟩
  | leave hs hm | look hs hm | record hs hm =>
    exact ⟨by simp [hm], hperm, hnd, hfresh, by rintro t (h | h) <;> cases h⟩
  | nothing hs | packed hs =>
    refine ⟨?_, hperm, hnd, hfresh, by rintro t (h | h) <;> cases h⟩
    intro hm
    cases (habs hm).1.symm.trans hs
  | sent hs =>
    refine ⟨?_, hperm, hnd, hfresh, by rintro t (h | h) <;> cases h⟩
    intro hm
    cases (habs hm).1.symm.trans hs
  | load hs hm =>
    refine ⟨by simp [hm], hperm, hnd, hfresh, ?_⟩
    rintro t (h | h)
    · exact Or.inl ⟨_, hm, by simpa using h⟩
    · cases h
  | send hs =>
    refine ⟨?_, hperm, hnd, hfresh, ?_⟩
    · intro hm
      cases (habs hm).1.symm.trans hs
    · rintro t (h | h)
      · cases h
      · cases h
        exact hholds _ (Or.inl hs)

theorem live_of_idle (hh : s.handler = .idle) (m : Media Nat) (hm : s.media = some m) :
    live s = held m := by
  simp [live, hh, hm]

/-- Between requests the sender holds nothing but its track's transport. -/
theorem holds_track (h : OwnInv s) (hr : ∀ o, s.handler ≠ .replaced o) {m : Media Nat}
    (hm : s.media = some m) {t : Nat} (ht : s.sender.Holds t) : m.transport .video = some t := by
  rcases h.holds t ht with ⟨m', hm', hv⟩ | hh
  · obtain rfl := Option.some.inj (hm.symm.trans hm')
    exact hv
  · exact absurd hh (hr _)

theorem not_replaced {p : Handler} (hp : s.handler = p) (h : ∀ o, p ≠ .replaced o) :
    ∀ o, s.handler ≠ .replaced o := fun o => hp ▸ h o

/-- A SETUP hands the transport that it takes the place of on to be freed. -/
theorem ownInv_setup {m : Media Nat} {track : List UInt8} {made : Bool} {k : Track}
    (hs : OwnInv s) (hh : s.handler = .idle) (hm : s.media = some m)
    (hk : trackOf track = some k) :
    OwnInv { s with
      media := some (m.addTransport track (brought s.next made)).1
      handler := .replaced (m.transport k)
      next := s.next + 1
      installed := (brought s.next made).toList ++ s.installed } := by
  have hperm := hs.perm
  rw [live_of_idle hh m hm] at hperm
  refine ⟨nofun, ?_, ?_, ?_, ?_⟩
  · have hrep := (held_replaced m k (brought s.next made)).append_right s.freed
    rw [List.append_assoc (brought s.next made).toList] at hrep
    simpa [live, addTransport_of_trackOf hk] using hrep.trans (hperm.append_left _)
  · cases made with
    | false => exact hs.nodup
    | true => exact List.nodup_cons.mpr ⟨fun hmem => absurd (hs.fresh _ hmem) (by omega), hs.nodup⟩
  · intro t ht
    rcases List.mem_append.mp ht with ht | ht
    · cases made with
      | false => cases ht
      | true =>
        obtain rfl := List.mem_singleton.mp ht
        exact Nat.lt_succ_self _
    · exact Nat.lt_succ_of_lt (hs.fresh t ht)
  · intro t ht
    have hv := holds_track hs (not_replaced hh nofun) hm ht
    by_cases hkv : k = .video
    · subst hkv
      exact Or.inr (by simp [hv])
    · refine Or.inl ⟨_, rfl, ?_⟩
      simpa [addTransport_of_trackOf hk, Function.update_of_ne (Ne.symm hkv)] using hv

theorem ownInv_step (h : Step s a t) (ha : OkFree s a) (hs : OwnInv s) : OwnInv t := by
  have hsender := hs
  obtain ⟨habs, hperm, hnd, hfresh, hholds⟩ := hs
  cases h with
  | describeNew hh hm =>
    have hlive : live s = [] := by simp [live, hh, hm]
    refine ⟨nofun, ?_, hnd, hfresh, by rintro t (h | h) <;> cases h⟩
    rw [hlive] at hperm
    simpa [live, held, tracks, Media.liveNew] using hperm
  | describeOld hh hm =>
    refine ⟨by simp [hm], ?_, hnd, hfresh, ?_⟩
    · rw [live_of_idle hh _ hm] at hperm
      simpa [live, hm] using hperm
    · exact fun t ht => Or.inl ⟨_, hm, holds_track hsender (not_replaced hh nofun) hm ht⟩
  | sdp hh hm =>
    refine ⟨nofun, ?_, hnd, hfresh, ?_⟩
    · simpa [live, hh, hm, held] using hperm
    · intro t ht
      have hv := holds_track hsender (not_replaced hh nofun) hm ht
      exact Or.inl ⟨_, rfl, by simpa using hv⟩
  | setupNone | playNone | pause | teardownNone => exact hsender
  | setup hh hm hk => exact ownInv_setup hsender hh hm hk
  | setupLost hh hm hk =>
    exact ⟨habs, hperm, hnd, fun t ht => Nat.lt_succ_of_lt (hfresh t ht), hholds⟩
  | release hh =>
    rename_i old
    refine ⟨fun hm => ⟨(habs hm).1, rfl⟩, ?_, hnd, hfresh, ?_⟩
    · have hl : live s = old.toList ++ s.media.elim [] held := by simp [live, hh]
      rw [hl, List.append_assoc] at hperm
      simpa [live] using List.perm_append_comm_assoc _ _ _ |>.trans hperm
    · intro t ht
      rcases hholds t ht with h | h
      · exact Or.inl h
      · exact absurd ht (ha t h)
  | play hh hm | teardown hh hm =>
    refine ⟨nofun, ?_, hnd, hfresh, ?_⟩
    · rw [live_of_idle hh _ hm] at hperm
      simpa [live, hh, held] using hperm
    · exact fun t ht => Or.inl ⟨_, rfl, holds_track hsender (not_replaced hh nofun) hm ht⟩
  | exit hh hm hs =>
    refine ⟨fun _ => ⟨rfl, rfl⟩, ?_, hnd, hfresh, by rintro t (h | h) <;> cases h⟩
    simpa [live, hh, hm] using hperm
  | leave hs hm hst => exact ownInv_sender (.leave hs hm hst) hsender
  | wait => exact hsender
  | look hs hm hst => exact ownInv_sender (.look hs hm hst) hsender
  | nothing hs => exact ownInv_sender (.nothing hs) hsender
  | record hs hm hf hp => exact ownInv_sender (.record hs hm hf hp) hsender
  | load hs hm => exact ownInv_sender (.load hs hm) hsender
  | send hs => exact ownInv_sender (.send hs) hsender
  | sent hs => exact ownInv_sender (.sent hs) hsender
  | packed hs => exact ownInv_sender (.packed hs) hsender

/-- In a run that frees no transport under the sender every transport is used before it is freed
and freed once. -/
theorem transports_safe
    (h : Lts.MTr (Lts.Restrict Step OkFree) State.initial acts s) : TransportsSafe s := by
  have hinv : Lts.TrInv (Lts.Restrict Step OkFree) OwnInv := by
    intro s a t hs hi
    exact ownInv_step hs.1 hs.2 hi
  refine transportsSafe_of_inv (Lts.mtrInv_of_trInv hinv h ?_)
  exact ⟨fun _ => ⟨rfl, rfl⟩, .nil, .nil, nofun, by rintro t (h | h) <;> cases h⟩

/-- Two SETUPs of the video track and a TEARDOWN, with the sender at rest. -/
theorem transports_safe_teardown : ∃ s, s.installed = [1, 0] ∧ s.freed = [1, 0] ∧
    TransportsSafe s := by
  refine ⟨_, ?_, ?_, transports_safe <|
    .stepL ⟨@Step.describeNew _ (Bytes.ascii "/0-0") rfl rfl, trivial⟩ <|
    .stepL ⟨@Step.sdp _ _ true (fun _ => true) rfl rfl, trivial⟩ <|
    .stepL ⟨@Step.setup _ _ (Bytes.ascii "video") true _ rfl rfl rfl, trivial⟩ <|
    .stepL ⟨.release rfl, by rintro t - (h | h) <;> cases h⟩ <|
    .stepL ⟨@Step.setup _ _ (Bytes.ascii "video") true _ rfl rfl rfl, trivial⟩ <|
    .stepL ⟨.release rfl, by rintro t - (h | h) <;> cases h⟩ <|
    .stepL ⟨.teardown rfl rfl, trivial⟩ <|
    .stepL ⟨.leave rfl rfl rfl, trivial⟩ <|
    .stepL ⟨.exit rfl rfl rfl, trivial⟩ .refl⟩
  · rfl
  · rfl

/-- A second SETUP frees the transport the sender has just loaded, and the sender sends on it. -/
theorem send_on_freed : ∃ acts s, Lts.MTr Step State.initial acts s ∧
    s.sender = .sending 0 ∧ s.freed = [0] ∧ ¬ TransportsSafe s := by
  refine ⟨_, _,
    .stepL (@Step.describeNew _ (Bytes.ascii "/0-0") rfl rfl) <|
    .stepL (@Step.sdp _ _ true (fun _ => true) rfl rfl) <|
    .stepL (@Step.setup _ _ (Bytes.ascii "video") true _ rfl rfl rfl) <|
    .stepL (.release rfl) <|
    .stepL (.play rfl rfl) <|
    .stepL (.look rfl rfl rfl) <|
    .stepL (.record rfl rfl rfl rfl) <|
    .stepL (.load rfl rfl) <|
    .stepL (@Step.setup _ _ (Bytes.ascii "video") true _ rfl rfl rfl) <|
    .stepL (.release rfl) <|
    .stepL (@Step.send _ 0 rfl) .refl, rfl, rfl, ?_⟩
  intro h
  exact h.1 0 rfl (List.mem_singleton.mpr rfl)

end Freak.Rtsp.Session
