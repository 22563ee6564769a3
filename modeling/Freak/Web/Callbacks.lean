import Freak.Lib.Lts

/-! A web media object's callbacks: the thread that creates it and registers them, and the sender
`flv_send_proc` that `web_createMedia` starts before that. -/
namespace Freak.Web

/-- `web_media_cb_t`. -/
inductive Field
  | args
  | pre
  | proc
  | post
  deriving DecidableEq

inductive Status
  | setup
  | play
  | exit
  deriving DecidableEq

/-- The thread that has created the object: inside `regcallback`, behind it, behind `destroy`. -/
inductive Creator
  | created
  | copying
  | registered
  | destroyed
  deriving DecidableEq

/-- `flv_send_proc`: `write` is `web_media_write`, which the writer calls when it is created and for
the packets of a record. -/
inductive Sender
  | wait
  | testPre
  | callPre
  | write (header : Bool)
  | callProc (header : Bool) (data : List UInt8)
  | loop
  | packets
  | testPost
  | callPost
  | done

inductive CallKind
  | pre
  | proc
  | post
  deriving DecidableEq

/-- A callback that was run, and whether it was given its arguments. -/
structure Call where
  kind : CallKind
  args : Bool

/-- `web_media_priv_t`: which of its callbacks' fields are set, with the callbacks that have run and
whether a half written set was ever read. -/
structure Media where
  snd : Field → Bool
  status : Status
  creator : Creator
  sender : Sender
  calls : List Call
  torn : Bool

namespace Media

/-- After `web_createMedia`. -/
def initial : Media := ⟨fun _ => false, .setup, .created, .wait, [], false⟩

/-- All fields are set, or none is. -/
def whole (s : Media) : Bool :=
  s.snd .args == s.snd .pre && s.snd .pre == s.snd .proc && s.snd .proc == s.snd .post

def read (s : Media) : Media := { s with torn := s.torn || !s.whole }

/-- A call reads the callback again, and its arguments. -/
def call (s : Media) (k : CallKind) : Media :=
  { s.read with calls := s.calls ++ [⟨k, s.snd .args⟩] }

/-- What follows a chunk. -/
def written (header : Bool) : Sender := if header then .loop else .packets

inductive Action
  | creator
  | sender
  | pre
  | chunk (data : List UInt8)
  | proc (data : List UInt8)
  | post

inductive Step : Media → Action → Media → Prop
  | regcallback {s : Media} (hc : s.creator = .created) :
      Step s .creator { s with creator := .copying }
  -- `priv->snd = *cb`, in no particular order
  | copy {s : Media} {f : Field} (hc : s.creator = .copying) (hf : s.snd f = false) :
      Step s .creator { s with snd := Function.update s.snd f true }
  | play {s : Media} (hc : s.creator = .copying) (hf : ∀ f, s.snd f = true) :
      Step s .creator { s with status := .play, creator := .registered }
  | destroy {s : Media} (hc : s.creator = .created ∨ s.creator = .registered) :
      Step s .creator { s with status := .exit, creator := .destroyed }
  -- the loop ends in a `break`, whatever the status
  | wait {s : Media} (hs : s.sender = .wait) : Step s .sender { s with sender := .testPre }
  | testPre {s : Media} (hs : s.sender = .testPre) :
      Step s .sender { s.read with sender := if s.snd .pre then .callPre else .write true }
  | pre {s : Media} (hs : s.sender = .callPre) :
      Step s .pre { s.call .pre with sender := .write true }
  | chunk {s : Media} {header : Bool} {data : List UInt8} (hs : s.sender = .write header) :
      Step s (.chunk data) { s.read with
        sender := if s.snd .proc then .callProc header data else written header }
  | proc {s : Media} {header : Bool} {data : List UInt8} (hs : s.sender = .callProc header data) :
      Step s (.proc data) { s.call .proc with sender := written header }
  | exit {s : Media} (hs : s.sender = .loop) (he : s.status = .exit) :
      Step s .sender { s with sender := .testPost }
  | get {s : Media} (hs : s.sender = .loop) (he : s.status ≠ .exit) :
      Step s .sender { s with sender := .packets }
  | packet {s : Media} (hs : s.sender = .packets) :
      Step s .sender { s with sender := .write false }
  | next {s : Media} (hs : s.sender = .packets) : Step s .sender { s with sender := .loop }
  | testPost {s : Media} (hs : s.sender = .testPost) :
      Step s .sender { s.read with sender := if s.snd .post then .callPost else .done }
  | post {s : Media} (hs : s.sender = .callPost) :
      Step s .post { s.call .post with sender := .done }

/-- The callbacks are registered. -/
def All (s : Media) : Prop := ∀ f, s.snd f = true

def Unset (s : Media) : Prop := ∀ f, s.snd f = false

/-- `pre` has run, and behind it only `proc`. -/
def Began (s : Media) : Prop := ∃ n, s.calls.map Call.kind = .pre :: List.replicate n .proc

/-- And then `post`, which frees the session. -/
def Ended (s : Media) : Prop :=
  ∃ n, s.calls.map Call.kind = .pre :: List.replicate n .proc ++ [.post]

/-- What has run is `pre`, any number of `proc` and one `post`, or the beginning of that, and all of
it when the sender has ended; each was given the session, and no half written set was read. -/
structure Ordered (s : Media) : Prop where
  whole : s.torn = false
  args : ∀ c ∈ s.calls, c.args = true
  sequence : s.calls = [] ∨ s.Began ∨ s.Ended
  complete : s.All → s.sender = .done → s.Ended

/-- The condition on a step, read off the state before it: the sender looks for `pre` when the
callbacks are registered, or never will be. -/
def Ok (s : Media) (a : Action) : Prop :=
  a ≠ .creator → s.sender = .testPre → s.All ∨ s.creator = .destroyed

/-- Without callbacks for good. -/
def Silent (s : Media) : Prop := s.creator = .destroyed ∧ s.Unset ∧ s.calls = []

/-- What has run, by where the sender is. -/
def Phase (s : Media) : Prop :=
  match s.sender with
  | .wait | .testPre => s.calls = []
  | .callPre => s.All ∧ s.calls = []
  | .callProc _ _ | .callPost => s.All ∧ s.Began
  | .done => s.All ∧ s.Ended ∨ s.Silent
  | .write _ | .loop | .packets | .testPost => s.All ∧ s.Began ∨ s.Silent

structure Inv (s : Media) : Prop where
  whole : s.torn = false
  args : ∀ c ∈ s.calls, c.args = true
  created : s.creator = .created → s.Unset
  registered : s.creator = .registered → s.All
  destroyed : s.creator = .destroyed → s.All ∨ s.Unset
  exit : s.status = .exit → s.creator = .destroyed
  ended : s.sender = .testPost ∨ s.sender = .callPost ∨ s.sender = .done → s.creator = .destroyed
  phase : s.Phase

variable {s t : Media} {a : Action} {acts : List Action}

theorem whole_of (h : s.All ∨ s.Unset) : s.whole = true := by
  rcases h with h | h <;> simp [whole, h _]

theorem not_unset_of_all (h : s.All) : ¬ s.Unset := fun hu => by
  have hargs := (h .args).symm.trans (hu .args)
  cases hargs

theorem ordered_of_inv (h : Inv s) : Ordered s where
  whole := h.whole
  args := h.args
  sequence := by
    have hp := h.phase
    cases hs : s.sender <;> simp only [Phase, hs, Silent] at hp <;> tauto
  complete hall hs := by
    have hp := h.phase
    simp only [Phase, hs] at hp
    exact (hp.resolve_right fun h => not_unset_of_all hall h.2.1).2

theorem inv_initial : Inv initial where
  whole := rfl
  args _ h := by cases h
  created _ _ := rfl
  registered h := by cases h
  destroyed h := by cases h
  exit h := by cases h
  ended := by rintro (h | h | h) <;> cases h
  phase := rfl

/-- A step of the creator keeps what it has registered, and comes only before `destroy`. -/
theorem phase_creator {snd : Field → Bool} {status : Status} {creator : Creator}
    (hp : s.Phase) (hall : s.All → ∀ f, snd f = true) (hd : s.creator ≠ .destroyed) :
    Phase { s with snd := snd, status := status, creator := creator } := by
  have hsilent : ¬ s.Silent := fun h => hd h.1
  cases hs : s.sender <;> simp only [Phase, hs] at hp ⊢
  case wait | testPre => exact hp
  case callPre => exact ⟨hall hp.1, hp.2⟩
  case callProc | callPost => exact ⟨hall hp.1, hp.2⟩
  case done => exact .inl ⟨hall (hp.resolve_right hsilent).1, (hp.resolve_right hsilent).2⟩
  case write | loop | packets | testPost =>
    exact .inl ⟨hall (hp.resolve_right hsilent).1, (hp.resolve_right hsilent).2⟩

theorem inv_creator {snd : Field → Bool} {status : Status} {creator : Creator} (h : Inv s)
    (hd : s.creator ≠ .destroyed) (hall : s.All → ∀ f, snd f = true)
    (hc : creator = .created → ∀ f, snd f = false) (hr : creator = .registered → ∀ f, snd f = true)
    (hde : creator = .destroyed → (∀ f, snd f = true) ∨ ∀ f, snd f = false)
    (hx : status = .exit → creator = .destroyed) :
    Inv { s with snd := snd, status := status, creator := creator } where
  whole := h.whole
  args := h.args
  created := hc
  registered := hr
  destroyed := hde
  exit := hx
  ended hs := absurd (h.ended hs) hd
  phase := phase_creator h.phase hall hd

/-- A step of the sender that runs no callback. -/
theorem inv_sender {pc : Sender} (h : Inv s) (hw : s.All ∨ s.Unset)
    (he : pc = .testPost ∨ pc = .callPost ∨ pc = .done → s.creator = .destroyed)
    (hp : Phase { s with sender := pc }) : Inv { s.read with sender := pc } where
  whole := by
    simp only [read, h.whole, whole_of hw]
    rfl
  args := h.args
  created := h.created
  registered := h.registered
  destroyed := h.destroyed
  exit := h.exit
  ended := he
  phase := hp

/-- A step of the sender that runs one. -/
theorem inv_call {pc : Sender} {k : CallKind} (h : Inv s) (hall : s.All)
    (he : pc = .testPost ∨ pc = .callPost ∨ pc = .done → s.creator = .destroyed)
    (hp : Phase { s.call k with sender := pc }) : Inv { s.call k with sender := pc } where
  whole := by
    simp only [call, read, h.whole, whole_of (.inl hall)]
    rfl
  args c hc := by
    rcases List.mem_append.mp hc with hc | hc
    · exact h.args c hc
    · rw [List.mem_singleton.mp hc]
      exact hall .args
  created := h.created
  registered := h.registered
  destroyed := h.destroyed
  exit := h.exit
  ended := he
  phase := hp

theorem settled (h : s.All ∧ s.Began ∨ s.Silent) : s.All ∨ s.Unset :=
  h.imp And.left fun h => h.2.1

theorem began_pre (h : s.calls = []) : (s.call .pre).Began :=
  ⟨0, by simp [call, h]⟩

theorem began_proc (h : s.Began) : (s.call .proc).Began := by
  obtain ⟨n, hn⟩ := h
  refine ⟨n + 1, ?_⟩
  simp [call, hn, List.replicate_succ']

theorem ended_post (h : s.Began) : (s.call .post).Ended := by
  obtain ⟨n, hn⟩ := h
  exact ⟨n, by simp [call, hn]⟩

/-- The creator does nothing behind `destroy`. -/
theorem not_destroyed (hs : Step s .creator t) : s.creator ≠ .destroyed := by
  cases hs with
  | regcallback hc | copy hc | play hc =>
    rw [hc]
    nofun
  | destroy hc => rcases hc with hc | hc <;> rw [hc] <;> nofun

theorem inv_creator_step (hs : Step s .creator t) (h : Inv s) : Inv t := by
  have hd := not_destroyed hs
  have hx : s.status ≠ .exit := fun hx => hd (h.exit hx)
  cases hs with
  | regcallback hc => exact inv_creator h hd id nofun nofun nofun fun h => absurd h hx
  | @copy f hc hf =>
    have hnot : ¬ s.All := fun hall => by
      have hset := hf.symm.trans (hall f)
      cases hset
    refine inv_creator h hd (fun hall => absurd hall hnot) ?_ ?_ ?_ fun h => absurd h hx
    all_goals
      intro hc'
      cases hc.symm.trans hc'
  | play hc hf => exact inv_creator h hd id nofun (fun _ => hf) nofun nofun
  | destroy hc =>
    refine inv_creator h hd id nofun nofun (fun _ => ?_) fun _ => rfl
    exact hc.symm.imp h.registered h.created

theorem inv_step (hs : Step s a t) (hok : Ok s a) (h : Inv s) : Inv t := by
  have hp := h.phase
  cases hs with
  | regcallback hc => exact inv_creator_step (.regcallback hc) h
  | copy hc hf => exact inv_creator_step (.copy hc hf) h
  | play hc hf => exact inv_creator_step (.play hc hf) h
  | destroy hc => exact inv_creator_step (.destroy hc) h
  | wait hs =>
    simp only [Phase, hs] at hp
    exact { h with ended := nofun, phase := hp }
  | testPre hs =>
    simp only [Phase, hs] at hp
    rcases hok nofun hs with hall | hd
    · refine inv_sender h (.inl hall) ?_ ?_
      · rw [if_pos (hall .pre)]
        nofun
      · rw [if_pos (hall .pre)]
        exact ⟨hall, hp⟩
    · rcases h.destroyed hd with hall | hu
      · refine inv_sender h (.inl hall) (fun _ => hd) ?_
        rw [if_pos (hall .pre)]
        exact ⟨hall, hp⟩
      · refine inv_sender h (.inr hu) (fun _ => hd) ?_
        rw [hu .pre]
        exact .inr ⟨hd, hu, hp⟩
  | pre hs =>
    simp only [Phase, hs] at hp
    exact inv_call h hp.1 nofun (.inl ⟨hp.1, began_pre hp.2⟩)
  | @chunk header data hs =>
    simp only [Phase, hs] at hp
    refine inv_sender h (settled hp) ?_ ?_
    · cases s.snd .proc <;> cases header <;> nofun
    · rcases hp with ⟨hall, hbegan⟩ | hsilent
      · rw [if_pos (hall .proc)]
        exact ⟨hall, hbegan⟩
      · rw [hsilent.2.1 .proc]
        cases header <;> exact .inr hsilent
  | @proc header data hs =>
    simp only [Phase, hs] at hp
    refine inv_call h hp.1 ?_ ?_
    · cases header <;> nofun
    · cases header <;> exact .inl ⟨hp.1, began_proc hp.2⟩
  | exit hs he =>
    simp only [Phase, hs] at hp
    exact { h with ended := fun _ => h.exit he, phase := hp }
  | get hs he =>
    simp only [Phase, hs] at hp
    exact { h with ended := nofun, phase := hp }
  | packet hs =>
    simp only [Phase, hs] at hp
    exact { h with ended := nofun, phase := hp }
  | next hs =>
    simp only [Phase, hs] at hp
    exact { h with ended := nofun, phase := hp }
  | testPost hs =>
    simp only [Phase, hs] at hp
    refine inv_sender h (settled hp) (fun _ => h.ended (.inl hs)) ?_
    rcases hp with ⟨hall, hbegan⟩ | hsilent
    · rw [if_pos (hall .post)]
      exact ⟨hall, hbegan⟩
    · rw [hsilent.2.1 .post]
      exact .inr hsilent
  | post hs =>
    simp only [Phase, hs] at hp
    exact inv_call h hp.1 (fun _ => h.ended (.inr (.inl hs))) (.inl ⟨hp.1, ended_post hp.2⟩)

theorem inv_run (h : Lts.MTr (Lts.Restrict Step Ok) initial acts s) : Inv s :=
  Lts.mtrInv_of_trInv (fun _ _ _ hs hi => inv_step hs.1 hs.2 hi) h inv_initial

/-- In every run whose steps meet the condition the callbacks run in their order. -/
theorem callbacks_ordered (h : Lts.MTr (Lts.Restrict Step Ok) initial acts s) : Ordered s :=
  ordered_of_inv (inv_run h)

/-- The callbacks are registered before the sender starts. -/
theorem callbacks_ordered_once : ∃ s, s.calls.map Call.kind = [.pre, .proc] ∧ Ordered s := by
  refine ⟨_, ?_, callbacks_ordered <|
    .stepL ⟨.regcallback rfl, fun h => absurd rfl h⟩ <|
    .stepL ⟨.copy (f := .args) rfl rfl, fun h => absurd rfl h⟩ <|
    .stepL ⟨.copy (f := .pre) rfl rfl, fun h => absurd rfl h⟩ <|
    .stepL ⟨.copy (f := .proc) rfl rfl, fun h => absurd rfl h⟩ <|
    .stepL ⟨.copy (f := .post) rfl rfl, fun h => absurd rfl h⟩ <|
    .stepL ⟨.play rfl (by rintro (_ | _ | _ | _) <;> rfl), fun h => absurd rfl h⟩ <|
    .stepL ⟨.wait rfl, nofun⟩ <|
    .stepL ⟨.testPre rfl, fun _ _ => .inl (by rintro (_ | _ | _ | _) <;> rfl)⟩ <|
    .stepL ⟨.pre rfl, nofun⟩ <|
    .stepL ⟨@Step.chunk _ true [0x46] rfl, nofun⟩ <|
    .stepL ⟨.proc rfl, nofun⟩ .refl⟩
  rfl

/-- The sender looks for `pre` before it is registered, and finds `proc` later. -/
theorem pre_skipped : ∃ acts s, Lts.MTr Step initial acts s ∧
    s.calls.map Call.kind = [.proc] ∧ ¬ Ordered s := by
  refine ⟨_, _,
    .stepL (.wait rfl) <|
    .stepL (.testPre rfl) <|
    .stepL (.regcallback rfl) <|
    .stepL (.copy (f := .args) rfl rfl) <|
    .stepL (.copy (f := .pre) rfl rfl) <|
    .stepL (.copy (f := .proc) rfl rfl) <|
    .stepL (.copy (f := .post) rfl rfl) <|
    .stepL (.play rfl (by rintro (_ | _ | _ | _) <;> rfl)) <|
    .stepL (@Step.chunk _ true [0x46] rfl) <|
    .stepL (.proc rfl) .refl, rfl, ?_⟩
  intro h
  rcases h.sequence with hnil | ⟨n, hn⟩ | ⟨n, hn⟩
  · cases hnil
  · cases hn
  · cases hn

end Media

end Freak.Web
