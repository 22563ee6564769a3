import Freak.Rtsp.Session

/-! PAUSE is answered by `rtsp_onpause`, which does not reach `rtp_pause`. -/
namespace Freak.Rtsp.Session

/-- The last of PAUSE and PLAY that the session heard was a PAUSE. -/
def heard (paused : Bool) : Action → Bool
  | .pause => true
  | .play => false
  | _ => paused

def pausedBy (acts : List Action) : Bool := acts.foldl heard false

/-- The sender passes the test of `status`, to fetch a record for the packer. -/
def Begins (s t : State) : Prop := s.sender = .check ∧ t.sender = .fetch

/-- Behind a PAUSE the sender begins no pass. -/
def Pauses (acts : List Action) (s : State) : Prop :=
  pausedBy acts = true → ∀ a t, Step s a t → ¬ Begins s t

/-- A session is paused only while it does not play. -/
def OkPause (s : State) : Action → Prop
  | .pause => ∀ m, s.media = some m → m.status ≠ .play
  | _ => True

def Stopped (paused : Bool) (s : State) : Prop :=
  paused = true → ∀ m, s.media = some m → m.status ≠ .play

variable {s t : State} {a : Action} {acts : List Action} {paused : Bool}

/-- Only the test of `status` leads to a pass. -/
theorem playing_of_begins (h : Step s a t) (hb : Begins s t) :
    ∃ m, s.media = some m ∧ m.status = .play := by
  obtain ⟨hs, ht⟩ := hb
  cases h with
  | look _ hm hst => exact ⟨_, hm, hst⟩
  | describeNew | leave | nothing | record | load | send | sent | packed | exit => cases ht
  | describeOld | sdp | setupNone | setup | setupLost | release | playNone | play | pause
  | teardownNone | teardown | wait =>
    cases hs.symm.trans ht

/-- Only PLAY starts a session. -/
theorem stopped_step (h : Step s a t) (ha : OkPause s a) (hs : Stopped paused s) :
    Stopped (heard paused a) t := by
  cases h with
  | describeNew hh hm =>
    rintro - m ⟨rfl⟩ hst
    cases hst
  | sdp hh hm =>
    rintro hp m ⟨rfl⟩ hst
    exact hs hp _ hm (by simpa using hst)
  | setup hh hm hk =>
    rintro hp m ⟨rfl⟩ hst
    exact hs hp _ hm (by simpa using hst)
  | playNone | play => nofun
  | pause hh => exact fun _ => ha
  | teardown hh hm =>
    rintro - m ⟨rfl⟩ hst
    cases hst
  | exit => nofun
  | describeOld | setupNone | setupLost | release | teardownNone | leave | wait | look | nothing
  | record | load | send | sent | packed => exact hs

theorem stopped_run (h : Lts.MTr (Lts.Restrict Step OkPause) s acts t) (hs : Stopped paused s) :
    Stopped (acts.foldl heard paused) t := by
  induction h generalizing paused with
  | refl => exact hs
  | stepL h _ ih => exact ih (stopped_step h.1 h.2 hs)

/-- In a run that pauses no playing session no pass begins behind a PAUSE. -/
theorem pause_pauses (h : Lts.MTr (Lts.Restrict Step OkPause) State.initial acts s) :
    Pauses acts s := by
  intro hp a t hst hb
  obtain ⟨m, hm, hplay⟩ := playing_of_begins hst hb
  have hstop : Stopped (pausedBy acts) s := stopped_run h nofun
  exact hstop hp m hm hplay

/-- PAUSE before the first PLAY. -/
theorem pause_pauses_early : ∃ s, s.sender = .check ∧ ∀ t, Step s .sender t → ¬ Begins s t := by
  have h : Lts.MTr (Lts.Restrict Step OkPause) State.initial _ _ :=
    .stepL ⟨@Step.describeNew _ (Bytes.ascii "/0-0") rfl rfl, trivial⟩ <|
    .stepL ⟨@Step.sdp _ _ true (fun _ => true) rfl rfl, trivial⟩ <|
    .stepL ⟨.pause rfl, by rintro m ⟨rfl⟩; decide⟩ .refl
  exact ⟨_, rfl, pause_pauses h rfl _⟩

/-- PAUSE of a session that plays: the sender goes on. -/
theorem pause_passed : ∃ acts s, Lts.MTr Step State.initial acts s ∧ ¬ Pauses acts s := by
  refine ⟨_, _,
    .stepL (@Step.describeNew _ (Bytes.ascii "/0-0") rfl rfl) <|
    .stepL (@Step.sdp _ _ true (fun _ => true) rfl rfl) <|
    .stepL (@Step.setup _ _ (Bytes.ascii "video") true _ rfl rfl rfl) <|
    .stepL (.release rfl) <|
    .stepL (.play rfl rfl) <|
    .stepL (.pause rfl) .refl, ?_⟩
  intro h
  exact h rfl _ _ (.look rfl rfl rfl) ⟨rfl, rfl⟩

/-- So it does behind every PAUSE of one, as soon as it is back at the test. -/
theorem begins_of_not_ok (ha : ¬ OkPause s .pause) (hs : s.sender = .check) :
    ∃ t, Step s .sender t ∧ Begins s t := by
  obtain ⟨m, h⟩ := not_forall.mp ha
  obtain ⟨hm, hst⟩ := not_forall.mp h
  exact ⟨_, .look hs hm (not_not.mp hst), hs, rfl⟩

end Freak.Rtsp.Session
