import Freak.Lib.Lts

/-! Media callbacks: the message thread creates and destroys FIFOs and registers callbacks while
the encoder thread and the VPSS threads run them. -/
namespace Freak.Vsf

inductive Kind
  | stream
  | frame
  deriving DecidableEq

/-- A place in a manager's `fifo`, `cfgs` and `caps`. -/
structure Slot where
  kind : Kind
  id : Int
  deriving DecidableEq

/-- The channel fields of a capability record. -/
structure Cap where
  chn : Int
  subchn : Int
  deriving DecidableEq

/-- `mfifo_init_t` -/
structure Channel where
  type : Kind
  chn : Int
  subchn : Int
  deriving DecidableEq

inductive StreamType
  | h264
  | h265
  | jpeg
  | mjpeg
  deriving DecidableEq

/-- Who produces data: an encoder, or a channel of a VPSS group. -/
inductive Producer
  | venc (id : Int)
  | vpss (chn subchn : Int)
  deriving DecidableEq

/-- One thread serves all encoders; every VPSS channel has its own. -/
inductive Thread
  | encoder
  | vpss (chn subchn : Int)
  deriving DecidableEq

def Producer.thread : Producer → Thread
  | .venc _ => .encoder
  | .vpss chn subchn => .vpss chn subchn

def vsfStreamMax : Int := 6
def vsfFrameMax : Int := 8
def vpssMaxPhyChnNum : Int := 4

def Kind.max : Kind → Int
  | .stream => vsfStreamMax
  | .frame => vsfFrameMax

/-- What the configuration fixes. -/
structure Board where
  caps : Slot → Cap
  cfgIds : Slot → Int
  vencNum : Int
  vpssNum : Int
  payload : Int → StreamType

namespace Board

variable (b : Board)

/-- What `mfifo_create` is told for a slot. -/
def channelOf (x : Slot) : Channel := ⟨x.kind, (b.caps x).chn, (b.caps x).subchn⟩

/-- The channel whose data a producer hands over. -/
def channel : Producer → Channel
  | .venc id => b.channelOf ⟨.stream, id⟩
  | .vpss chn subchn => ⟨.frame, chn, subchn⟩

/-- The object `VSF_createVenc` or `VSF_createVpss` returns for a slot. -/
def producerOf (x : Slot) : Option Producer :=
  match x.kind with
  | .stream => if x.id < b.vencNum then some (.venc x.id) else none
  | .frame =>
    if (b.caps x).chn < b.vpssNum then some (.vpss (b.caps x).chn (b.caps x).subchn) else none

/-- The producers whose callback puts data into a FIFO. -/
def Puts : Producer → Prop
  | .venc id => b.payload id = .h264
  | .vpss _ _ => True

/-- Every index a SET request of this slot makes the manager use lies in its array. -/
def InBounds (x : Slot) : Prop :=
  0 ≤ x.id ∧ x.id < x.kind.max ∧
    (x.kind = .frame → 0 ≤ (b.caps x).chn ∧ ((b.caps x).chn < b.vpssNum →
      0 ≤ (b.caps x).subchn ∧ (b.caps x).subchn < vpssMaxPhyChnNum))

end Board

/-- `fifo[id]` and what it points to. -/
inductive FifoPtr
  | null
  | live (c : Channel)
  | dangling
  deriving DecidableEq

/-- `vsf_stream_cb_t` and `vsf_frame_cb_t`: `args` points to a record of `cfgs`. -/
structure Callback where
  args : Option Slot
  func : Bool
  deriving DecidableEq

/-- Where the message thread is in a SET request. -/
inductive Msg
  | idle
  | set (x : Slot) (enable : Bool)
  | clear (x : Slot)
  | regArgs (x : Slot) (enable : Bool)
  | regFunc (x : Slot) (enable : Bool)
  | store (x : Slot)
  deriving DecidableEq

/-- A thread has read a callback, or is inside it. -/
inductive ThreadPc
  | idle
  | held (p : Producer) (args : Option Slot)
  | running (p : Producer) (args : Option Slot)
  deriving DecidableEq

structure State where
  fifo : Slot → FifoPtr
  cfgId : Slot → Int
  cb : Producer → Callback
  msg : Msg
  threads : Thread → ThreadPc

inductive Action
  | request (x : Slot) (enable : Bool)
  | message
  | read (p : Producer)
  | run (i : Thread)
  | finish (i : Thread)

def Board.initial (b : Board) : State where
  fifo _ := .null
  cfgId := b.cfgIds
  cb _ := ⟨none, false⟩
  msg := .idle
  threads _ := .idle

/-- One step of any thread. The message thread follows `__vsf_stream_set` and `__vsf_frame_set`
and then stores the record, as the message handler does. -/
inductive Step (b : Board) : State → Action → State → Prop
  | request {s : State} {x : Slot} {en : Bool} (hm : s.msg = .idle) :
      Step b s (.request x en) { s with msg := .set x en }
  -- an index outside its array: from here on anything may happen
  | wild {s t : State} {x : Slot} {en : Bool} (hm : s.msg = .set x en) (hx : ¬ b.InBounds x) :
      Step b s .message t
  | create {s : State} {x : Slot} (hm : s.msg = .set x true) (hx : b.InBounds x)
      (hf : s.fifo x = .null) :
      Step b s .message { s with
        fifo := Function.update s.fifo x (.live (b.channelOf x)), msg := .regArgs x true }
  | keep {s : State} {x : Slot} (hm : s.msg = .set x true) (hx : b.InBounds x)
      (hf : s.fifo x ≠ .null) : Step b s .message { s with msg := .regArgs x true }
  | destroy {s : State} {x : Slot} (hm : s.msg = .set x false) (hx : b.InBounds x)
      (hf : s.fifo x ≠ .null) :
      Step b s .message { s with
        fifo := Function.update s.fifo x .dangling, msg := .clear x }
  | clear {s : State} {x : Slot} (hm : s.msg = .clear x) :
      Step b s .message { s with
        fifo := Function.update s.fifo x .null, msg := .regArgs x false }
  | absent {s : State} {x : Slot} (hm : s.msg = .set x false) (hx : b.InBounds x)
      (hf : s.fifo x = .null) : Step b s .message { s with msg := .regArgs x false }
  | noProducer {s : State} {x : Slot} {en : Bool} (hm : s.msg = .regArgs x en)
      (hp : b.producerOf x = none) : Step b s .message { s with msg := .store x }
  | regArgs {s : State} {x : Slot} {en : Bool} {p : Producer} (hm : s.msg = .regArgs x en)
      (hp : b.producerOf x = some p) :
      Step b s .message { s with
        cb := Function.update s.cb p ⟨if en then some x else none, (s.cb p).func⟩,
        msg := .regFunc x en }
  | regFunc {s : State} {x : Slot} {en : Bool} {p : Producer} (hm : s.msg = .regFunc x en)
      (hp : b.producerOf x = some p) :
      Step b s .message { s with
        cb := Function.update s.cb p ⟨(s.cb p).args, en⟩, msg := .store x }
  | store {s : State} {x : Slot} (hm : s.msg = .store x) :
      Step b s .message { s with
        cfgId := Function.update s.cfgId x x.id, msg := .idle }
  | read {s : State} {p : Producer} (ht : s.threads p.thread = .idle)
      (hc : (s.cb p).func = true) :
      Step b s (.read p) { s with
        threads := Function.update s.threads p.thread (.held p (s.cb p).args) }
  | pass {s : State} {p : Producer} (ht : s.threads p.thread = .idle)
      (hc : (s.cb p).func = false) : Step b s (.read p) s
  | run {s : State} {i : Thread} {p : Producer} {a : Option Slot} (ht : s.threads i = .held p a)
      (hp : b.Puts p) :
      Step b s (.run i) { s with threads := Function.update s.threads i (.running p a) }
  | other {s : State} {i : Thread} {p : Producer} {a : Option Slot}
      (ht : s.threads i = .held p a) (hp : ¬ b.Puts p) :
      Step b s (.run i) { s with threads := Function.update s.threads i .idle }
  | finish {s : State} {i : Thread} {p : Producer} {a : Option Slot}
      (ht : s.threads i = .running p a) :
      Step b s (.finish i) { s with threads := Function.update s.threads i .idle }

/-- Inside `__vsf_stream_h264_proc` and `__vsf_get_frame_proc` the FIFO they look up is live and
belongs to the producer's channel. -/
def Safe (b : Board) (s : State) : Prop :=
  ∀ i p a, s.threads i = .running p a →
    ∃ x, a = some x ∧ s.fifo ⟨x.kind, s.cfgId x⟩ = .live (b.channel p)

namespace State

/-- A thread has read, or is inside, a callback that puts into the FIFO of this slot. -/
def InUse (b : Board) (s : State) (x : Slot) : Prop :=
  ∃ i p, b.Puts p ∧ (s.threads i = .held p (some x) ∨ s.threads i = .running p (some x))

/-- The FIFO of the slot is destroyed and its callback not yet withdrawn. -/
def Disabling (s : State) (x : Slot) : Prop := s.msg = .clear x ∨ s.msg = .regArgs x false

end State

/-- The condition on a step, read off the state before it: SET requests stay inside the arrays,
a FIFO is destroyed only while no thread uses its callback, a callback is read only while its
FIFO is not being taken down, and run only when its record carries its own id. -/
def Ok (b : Board) (s : State) : Action → Prop
  | .request x _ => b.InBounds x
  | .message => ∀ x, s.msg = .set x false → s.fifo x ≠ .null → ¬ s.InUse b x
  | .read p => b.Puts p → (s.cb p).func = true → ∃ x, (s.cb p).args = some x ∧ ¬ s.Disabling x
  | .run i => ∀ p x, s.threads i = .held p (some x) → b.Puts p → s.cfgId x = x.id
  | .finish _ => True

variable {b : Board} {s t : State} {a : Action} {x : Slot} {p : Producer}

theorem channel_eq (h : b.producerOf x = some p) : b.channel p = b.channelOf x := by
  obtain ⟨kind, id⟩ := x
  cases kind with
  | stream =>
    simp only [Board.producerOf] at h
    split at h
    · obtain rfl := Option.some.inj h
      rfl
    · cases h
  | frame =>
    simp only [Board.producerOf] at h
    split at h
    · obtain rfl := Option.some.inj h
      rfl
    · cases h

/-- The slot a producer may use: registered for it, with a live FIFO. -/
def Usable (b : Board) (s : State) (p : Producer) (a : Option Slot) : Prop :=
  ∃ x, a = some x ∧ b.producerOf x = some p ∧ s.fifo x = .live (b.channelOf x)

/-- What holds in every state of a run whose steps meet the condition. -/
structure Inv (b : Board) (s : State) : Prop where
  bounds : ∀ x en, s.msg = .set x en → b.InBounds x
  slots : ∀ x, s.fifo x = .null ∨ s.fifo x = .live (b.channelOf x) ∨
    (s.fifo x = .dangling ∧ s.msg = .clear x)
  cleared : ∀ x, s.msg = .clear x → s.fifo x = .dangling
  created : ∀ x, s.msg = .regArgs x true → s.fifo x = .live (b.channelOf x)
  registered : ∀ p x, (s.cb p).args = some x → b.producerOf x = some p ∧
    (s.fifo x = .live (b.channelOf x) ∨ s.Disabling x)
  held : ∀ i p a, s.threads i = .held p a → b.Puts p → Usable b s p a
  running : ∀ i p a, s.threads i = .running p a →
    b.Puts p ∧ Usable b s p a ∧ ∀ x, a = some x → s.cfgId x = x.id

theorem safe_of_inv (h : Inv b s) : Safe b s := by
  intro i p a hr
  obtain ⟨-, ⟨x, ha, hp, hf⟩, hid⟩ := h.running i p a hr
  refine ⟨x, ha, ?_⟩
  rw [hid x ha, channel_eq hp]
  exact hf

theorem inv_initial (b : Board) : Inv b b.initial where
  bounds _ _ h := by cases h
  slots _ := .inl rfl
  cleared _ h := by cases h
  created _ h := by cases h
  registered _ _ h := by cases h
  held _ _ _ h := by cases h
  running _ _ _ h := by cases h

/-- A pointer dangles only until the message thread clears it. -/
theorem slots_of_not_clear {y : Slot} {m : Msg} (hi : Inv b s) (hs : ∀ z, s.msg ≠ .clear z) :
    s.fifo y = .null ∨ s.fifo y = .live (b.channelOf y) ∨
      (s.fifo y = .dangling ∧ m = .clear y) := by
  rcases hi.slots y with h | h | ⟨-, h⟩
  · exact .inl h
  · exact .inr (.inl h)
  · exact (hs y h).elim

theorem slots_update {y : Slot} {q : FifoPtr} {m : Msg} (hi : Inv b s)
    (hs : ∀ z, s.msg = .clear z → z = x)
    (hq : q = .null ∨ q = .live (b.channelOf x) ∨ (q = .dangling ∧ m = .clear x)) :
    Function.update s.fifo x q y = .null ∨ Function.update s.fifo x q y = .live (b.channelOf y) ∨
      (Function.update s.fifo x q y = .dangling ∧ m = .clear y) := by
  by_cases hy : y = x
  · rw [hy, Function.update_self]
    exact hq
  · rw [Function.update_of_ne hy]
    rcases hi.slots y with h | h | ⟨-, h⟩
    · exact .inl h
    · exact .inr (.inl h)
    · exact (hy (hs y h)).elim

/-- What is registered is live while its slot is not being disabled. -/
theorem registered_live {y : Slot} (hi : Inv b s) (hd : ¬ s.Disabling y)
    (h : (s.cb p).args = some y) :
    b.producerOf y = some p ∧ s.fifo y = .live (b.channelOf y) := by
  obtain ⟨hp, hf⟩ := hi.registered p y h
  exact ⟨hp, hf.resolve_right hd⟩

theorem not_usable_cleared (hi : Inv b s) (hm : s.msg = .clear x) : ¬ Usable b s p (some x) := by
  rintro ⟨y, hy, -, hf⟩
  obtain rfl := Option.some.inj hy
  rw [hi.cleared x hm] at hf
  cases hf

/-- A step of the message thread that only moves on. -/
theorem inv_msg {m : Msg} (hi : Inv b s) (hs : ∀ x, s.msg ≠ .clear x) (hc : ∀ x, m ≠ .clear x)
    (hb : ∀ x en, m = .set x en → b.InBounds x)
    (hr : ∀ x, m = .regArgs x true → s.fifo x = .live (b.channelOf x))
    (hd : ∀ p x, (s.cb p).args = some x → s.msg = .regArgs x false → m = .regArgs x false) :
    Inv b { s with msg := m } where
  bounds := hb
  slots _ := slots_of_not_clear (s := s) hi hs
  cleared x h := (hc x h).elim
  created := hr
  registered p x h := by
    obtain ⟨hp, hf | hf | hf⟩ := hi.registered p x h
    · exact ⟨hp, .inl hf⟩
    · exact (hs x hf).elim
    · exact ⟨hp, .inr (.inr (hd p x h hf))⟩
  held := hi.held
  running := hi.running

/-- A step of a producer's thread. -/
theorem inv_thread {i : Thread} {pc : ThreadPc} (hi : Inv b s)
    (hh : ∀ p a, pc = .held p a → b.Puts p → Usable b s p a)
    (hr : ∀ p a, pc = .running p a →
      b.Puts p ∧ Usable b s p a ∧ ∀ x, a = some x → s.cfgId x = x.id) :
    Inv b { s with threads := Function.update s.threads i pc } where
  bounds := hi.bounds
  slots := hi.slots
  cleared := hi.cleared
  created := hi.created
  registered := hi.registered
  held j p a h := by
    simp only [Function.update_apply] at h
    split at h
    · exact hh p a h
    · exact hi.held j p a h
  running j p a h := by
    simp only [Function.update_apply] at h
    split at h
    · exact hr p a h
    · exact hi.running j p a h

theorem usable_update {a : Option Slot} {q : FifoPtr} {m : Msg} (hx : a ≠ some x)
    (h : Usable b s p a) :
    Usable b { s with fifo := Function.update s.fifo x q, msg := m } p a := by
  obtain ⟨y, rfl, hp, hf⟩ := h
  have hne : y ≠ x := by
    rintro rfl
    exact hx rfl
  exact ⟨y, rfl, hp, (Function.update_of_ne hne ..).trans hf⟩

theorem usable_create {a : Option Slot} {m : Msg} (h : Usable b s p a) :
    Usable b { s with fifo := Function.update s.fifo x (.live (b.channelOf x)), msg := m } p a := by
  obtain ⟨y, rfl, hp, hf⟩ := h
  refine ⟨y, rfl, hp, ?_⟩
  by_cases hy : y = x
  · subst hy
    exact Function.update_self ..
  · exact (Function.update_of_ne hy ..).trans hf

theorem inv_create (hi : Inv b s) (hm : s.msg = .set x true) :
    Inv b { s with
      fifo := Function.update s.fifo x (.live (b.channelOf x)), msg := .regArgs x true } where
  bounds y en h := by cases h
  slots _ := slots_update hi (by simp [hm]) (.inr (.inl rfl))
  cleared y h := by cases h
  created y h := by
    cases h
    exact Function.update_self ..
  registered p y h := by
    obtain ⟨hp, hf⟩ := registered_live hi (by simp [State.Disabling, hm]) h
    obtain ⟨z, hz, -, hl⟩ := usable_create (x := x) (m := .idle) ⟨y, rfl, hp, hf⟩
    obtain rfl := Option.some.inj hz
    exact ⟨hp, .inl hl⟩
  held i p a h hp := usable_create (hi.held i p a h hp)
  running i p a h := by
    obtain ⟨hp, hu, hid⟩ := hi.running i p a h
    exact ⟨hp, usable_create hu, hid⟩

theorem inv_destroy (hi : Inv b s) (hm : s.msg = .set x false) (hu : ¬ s.InUse b x) :
    Inv b { s with fifo := Function.update s.fifo x .dangling, msg := .clear x } where
  bounds y en h := by cases h
  slots _ := slots_update hi (by simp [hm]) (.inr (.inr ⟨rfl, rfl⟩))
  cleared y h := by
    cases h
    exact Function.update_self ..
  created y h := by cases h
  registered p y h := by
    obtain ⟨hp, hf⟩ := registered_live hi (by simp [State.Disabling, hm]) h
    by_cases hy : y = x
    · subst hy
      exact ⟨hp, .inr (.inl rfl)⟩
    · exact ⟨hp, .inl ((Function.update_of_ne hy ..).trans hf)⟩
  held i p a h hp := by
    refine usable_update ?_ (hi.held i p a h hp)
    rintro rfl
    exact hu ⟨i, p, hp, .inl h⟩
  running i p a h := by
    obtain ⟨hp, hus, hid⟩ := hi.running i p a h
    refine ⟨hp, usable_update ?_ hus, hid⟩
    rintro rfl
    exact hu ⟨i, p, hp, .inr h⟩

theorem inv_clear (hi : Inv b s) (hm : s.msg = .clear x) :
    Inv b { s with fifo := Function.update s.fifo x .null, msg := .regArgs x false } where
  bounds y en h := by cases h
  slots _ := by
    refine slots_update hi ?_ (.inl rfl)
    rw [hm]
    intro z hz
    exact (Msg.clear.inj hz).symm
  cleared y h := by cases h
  created y h := by cases h
  registered p y h := by
    obtain ⟨hp, hf | hd | hd⟩ := hi.registered p y h
    · by_cases hy : y = x
      · subst hy
        exact ⟨hp, .inr (.inr rfl)⟩
      · exact ⟨hp, .inl ((Function.update_of_ne hy ..).trans hf)⟩
    · rw [hm] at hd
      obtain rfl := Msg.clear.inj hd
      exact ⟨hp, .inr (.inr rfl)⟩
    · simp [hm] at hd
  held i p a h hp := by
    have hus := hi.held i p a h hp
    refine usable_update ?_ hus
    rintro rfl
    exact not_usable_cleared hi hm hus
  running i p a h := by
    obtain ⟨hp, hus, hid⟩ := hi.running i p a h
    refine ⟨hp, usable_update ?_ hus, hid⟩
    rintro rfl
    exact not_usable_cleared hi hm hus

theorem inv_regArgs {en : Bool} {q : Producer} (hi : Inv b s) (hm : s.msg = .regArgs x en)
    (hq : b.producerOf x = some q) :
    Inv b { s with
      cb := Function.update s.cb q ⟨if en then some x else none, (s.cb q).func⟩,
      msg := .regFunc x en } where
  bounds y e h := by cases h
  slots _ := slots_of_not_clear (s := s) hi (by simp [hm])
  cleared y h := by cases h
  created y h := by cases h
  registered p y h := by
    by_cases hp : p = q
    · subst hp
      simp only [Function.update_self] at h
      cases en with
      | false => cases h
      | true =>
        obtain rfl := Option.some.inj h
        exact ⟨hq, .inl (hi.created x hm)⟩
    · simp only [Function.update_of_ne hp] at h
      obtain ⟨hy, hf | hd | hd⟩ := hi.registered p y h
      · exact ⟨hy, .inl hf⟩
      · simp [hm] at hd
      · rw [hm] at hd
        obtain ⟨rfl, -⟩ := Msg.regArgs.inj hd
        exact (hp (Option.some.inj (hy.symm.trans hq))).elim
  held := hi.held
  running := hi.running

theorem inv_regFunc {en : Bool} {q : Producer} (hi : Inv b s) (hm : s.msg = .regFunc x en) :
    Inv b { s with
      cb := Function.update s.cb q ⟨(s.cb q).args, en⟩, msg := .store x } where
  bounds y e h := by cases h
  slots _ := slots_of_not_clear (s := s) hi (by simp [hm])
  cleared y h := by cases h
  created y h := by cases h
  registered p y h := by
    have hargs : (s.cb p).args = some y := by
      by_cases hp : p = q
      · subst hp
        simpa only [Function.update_self] using h
      · simpa only [Function.update_of_ne hp] using h
    obtain ⟨hy, hf⟩ := registered_live hi (by simp [State.Disabling, hm]) hargs
    exact ⟨hy, .inl hf⟩
  held := hi.held
  running := hi.running

theorem inv_store (hi : Inv b s) (hm : s.msg = .store x) :
    Inv b { s with cfgId := Function.update s.cfgId x x.id, msg := .idle } where
  bounds y e h := by cases h
  slots _ := slots_of_not_clear (s := s) hi (by simp [hm])
  cleared y h := by cases h
  created y h := by cases h
  registered p y h := by
    obtain ⟨hy, hf⟩ := registered_live hi (by simp [State.Disabling, hm]) h
    exact ⟨hy, .inl hf⟩
  held := hi.held
  running i p a h := by
    obtain ⟨hp, hu, hid⟩ := hi.running i p a h
    refine ⟨hp, hu, ?_⟩
    intro y hy
    by_cases hx : y = x
    · subst hx
      exact Function.update_self ..
    · exact (Function.update_of_ne hx ..).trans (hid y hy)

theorem inv_step (hs : Step b s a t) (hok : Ok b s a) (hi : Inv b s) : Inv b t := by
  cases hs with
  | request hm =>
    rename_i x en
    apply inv_msg hi <;> simp_all [Ok]
  | wild hm hx => exact (hx (hi.bounds _ _ hm)).elim
  | create hm _ _ => exact inv_create hi hm
  | keep hm hx hf =>
    rename_i x
    apply inv_msg hi <;> simp_all
    rcases hi.slots x with h | h | ⟨-, h⟩ <;> simp_all
  | destroy hm _ hf => exact inv_destroy hi hm (hok _ hm hf)
  | clear hm => exact inv_clear hi hm
  | absent hm _ _ => apply inv_msg hi <;> simp_all
  | noProducer hm hp =>
    rename_i x en
    apply inv_msg hi <;> simp_all
    intro p y hy he
    have := (hi.registered p y hy).1
    simp_all
  | regArgs hm hp => exact inv_regArgs hi hm hp
  | regFunc hm _ => exact inv_regFunc hi hm
  | store hm => exact inv_store hi hm
  | read ht hc =>
    rename_i p
    refine inv_thread hi ?_ (by simp)
    intro q a h hq
    obtain ⟨rfl, rfl⟩ := ThreadPc.held.inj h
    obtain ⟨x, hx, hd⟩ := hok hq hc
    obtain ⟨hp, hf | hf⟩ := hi.registered p x hx
    · exact ⟨x, hx, hp, hf⟩
    · exact (hd hf).elim
  | pass _ _ => exact hi
  | run ht hp =>
    refine inv_thread hi (by simp) ?_
    intro q a h
    obtain ⟨rfl, rfl⟩ := ThreadPc.running.inj h
    refine ⟨hp, hi.held _ _ _ ht hp, ?_⟩
    rintro x rfl
    exact hok _ x ht hp
  | other _ _ => exact inv_thread hi (by simp) (by simp)
  | finish _ => exact inv_thread hi (by simp) (by simp)

/-- In every run whose steps meet the condition, every state reached is safe. -/
theorem callback_safe (b : Board) (s : State) (acts : List Action)
    (h : Lts.MTr (Lts.Restrict (Step b) (Ok b)) b.initial acts s) : Safe b s := by
  have hinv : Lts.TrInv (Lts.Restrict (Step b) (Ok b)) (Inv b) := by
    intro s a t hs hi
    exact inv_step hs.1 hs.2 hi
  exact safe_of_inv (Lts.mtrInv_of_trInv hinv h (inv_initial b))

/-- The configuration the program is built with. -/
def defaultBoard : Board where
  caps x :=
    match x.kind with
    | .stream => ⟨0, if x.id = 1 then 1 else if x.id = 2 then 2 else 0⟩
    | .frame => ⟨0, if x.id = 0 then 1 else if x.id = 1 then 2 else 0⟩
  cfgIds x :=
    match x.kind with
    | .stream => if x.id = 1 ∨ x.id = 2 then x.id else 0
    | .frame => if x.id = 1 then 1 else 0
  vencNum := 3
  vpssNum := 1
  payload id := if id = 2 then .jpeg else .h264

theorem defaultBoard_inBounds : defaultBoard.InBounds ⟨.stream, 0⟩ := by
  refine ⟨by decide, by decide, ?_⟩
  intro h
  cases h

/-- Stream 0 is enabled, and the encoder thread is inside the callback. -/
theorem callback_safe_enabled :
    ∃ s, s.threads .encoder = .running (.venc 0) (some ⟨.stream, 0⟩) ∧ Safe defaultBoard s := by
  have hx := defaultBoard_inBounds
  refine ⟨_, ?_, callback_safe defaultBoard _ _ <|
    .stepL ⟨@Step.request _ _ ⟨.stream, 0⟩ true rfl, hx⟩ <|
    .stepL ⟨.create rfl hx rfl, fun _ h => by cases h⟩ <|
    .stepL ⟨.regArgs (p := .venc 0) rfl rfl, fun _ h => by cases h⟩ <|
    .stepL ⟨.regFunc (p := .venc 0) rfl rfl, fun _ h => by cases h⟩ <|
    .stepL ⟨.store rfl, fun _ h => by cases h⟩ <|
    .stepL ⟨.read (p := .venc 0) rfl rfl, fun _ _ => ⟨_, rfl, by rintro (h | h) <;> cases h⟩⟩ <|
    .stepL ⟨.run (i := .encoder) rfl rfl, fun _ _ h _ => by cases h; rfl⟩ .refl⟩
  rfl

/-- Stream 0 is enabled and disabled again. Between the destruction of its FIFO and the
withdrawal of its callback the encoder thread reads the callback and runs it. -/
theorem callback_on_destroyed :
    ∃ acts s, Lts.MTr (Step defaultBoard) defaultBoard.initial acts s ∧
      s.threads .encoder = .running (.venc 0) (some ⟨.stream, 0⟩) ∧
      s.cfgId ⟨.stream, 0⟩ = 0 ∧ s.fifo ⟨.stream, 0⟩ = .dangling ∧ ¬ Safe defaultBoard s := by
  have hx := defaultBoard_inBounds
  refine ⟨_, _,
    .stepL (@Step.request _ _ ⟨.stream, 0⟩ true rfl) <|
    .stepL (.create rfl hx rfl) <|
    .stepL (.regArgs (p := .venc 0) rfl rfl) <|
    .stepL (.regFunc (p := .venc 0) rfl rfl) <|
    .stepL (.store rfl) <|
    .stepL (@Step.request _ _ ⟨.stream, 0⟩ false rfl) <|
    .stepL (.destroy rfl hx nofun) <|
    .stepL (.read (p := .venc 0) rfl rfl) <|
    .stepL (.run (i := .encoder) rfl rfl) .refl, rfl, rfl, rfl, ?_⟩
  intro h
  obtain ⟨x, hx, hf⟩ := h .encoder (.venc 0) (some ⟨.stream, 0⟩) rfl
  obtain rfl := Option.some.inj hx
  cases hf

end Freak.Vsf
