import Freak.Web.Callbacks

/-! What the sessions' senders produce and what goes out on the websocket connections: the
callbacks of `web-http.c` on the server thread, over `mg_broadcast`. -/
namespace Freak.Web

/-- `web_media_session_t`: its media object, its buffer once `mbuf_init` has run, and whether its
sender is inside `mg_broadcast`; with the chunks that its muxer has produced. -/
structure Session where
  media : Media
  buf : Option (List UInt8)
  sending : Bool
  produced : List (List UInt8)

/-- A connection: `user_data`, `send_mbuf.len`, whether it is being closed, and the binary frames
sent on it. -/
structure Conn where
  userData : Option Nat
  sendLen : Nat
  closing : Bool
  frames : List (List UInt8)

/-- The server thread: in `mg_mgr_poll`, inside `media_session_new` for a connection, or running a
session's broadcast for the connections that are left. -/
inductive Server
  | idle
  | creating (c i : Nat)
  | broadcasting (i : Nat) (rest : List Nat)

/-- Sessions and connections by their addresses. -/
structure World where
  sessions : Nat → Option Session
  conns : Nat → Option Conn
  server : Server

inductive Action
  | media (i : Nat) (a : Media.Action)
  | server

def sendLimit : Nat := 1024 * 1024

namespace Session

/-- After `malloc` and `web_createMedia`. -/
def initial : Session := ⟨.initial, none, false, []⟩

/-- What `media_send_proc` is about to append. -/
def pending (x : Session) : List UInt8 :=
  match x.media.sender with
  | .callProc _ data => data
  | _ => []

/-- What the buffer holds. -/
def held (x : Session) : List UInt8 := x.buf.getD []

end Session

namespace World

def initial : World := ⟨fun _ => none, fun _ => none, .idle⟩

def setSession (w : World) (i : Nat) (x : Option Session) : World :=
  { w with sessions := Function.update w.sessions i x }

def setConn (w : World) (c : Nat) (y : Option Conn) : World :=
  { w with conns := Function.update w.conns c y }

inductive Step : World → Action → World → Prop
  | accept {w : World} {c : Nat} (hw : w.server = .idle) (hc : w.conns c = none) :
      Step w .server (w.setConn c (some ⟨none, 0, false, []⟩))
  -- `MG_EV_WEBSOCKET_HANDSHAKE_DONE`
  | handshake {w : World} {c i : Nat} {y : Conn} (hw : w.server = .idle)
      (hc : w.conns c = some y) (hu : y.userData = none) (hi : w.sessions i = none) :
      Step w .server { w.setSession i (some .initial) with server := .creating c i }
  | register {w : World} {c i : Nat} {x : Session} {m : Media}
      (hw : w.server = .creating c i) (hi : w.sessions i = some x)
      (hm : Media.Step x.media .creator m) (hd : m.creator ≠ .destroyed) :
      Step w (.media i .creator) (w.setSession i (some { x with media := m }))
  | attach {w : World} {c i : Nat} {x : Session} {y : Conn}
      (hw : w.server = .creating c i) (hi : w.sessions i = some x)
      (hr : x.media.creator = .registered) (hc : w.conns c = some y) :
      Step w .server { w.setConn c (some { y with userData := some i }) with server := .idle }
  -- `MG_EV_CLOSE`
  | close {w : World} {c i : Nat} {x : Session} {y : Conn} {m : Media}
      (hw : w.server = .idle) (hc : w.conns c = some y) (hu : y.userData = some i)
      (hi : w.sessions i = some x) (hm : Media.Step x.media .creator m)
      (hd : m.creator = .destroyed) :
      Step w (.media i .creator) ((w.setSession i (some { x with media := m })).setConn c none)
  | closeUnused {w : World} {c : Nat} {y : Conn} (hw : w.server = .idle)
      (hc : w.conns c = some y) (hu : y.userData = none) : Step w .server (w.setConn c none)
  -- the connection's data leaves, and is answered
  | flush {w : World} {c : Nat} {y : Conn} {n : Nat} (hw : w.server = .idle)
      (hc : w.conns c = some y) :
      Step w .server (w.setConn c (some { y with sendLen := n }))
  | sender {w : World} {i : Nat} {x : Session} {m : Media} (hi : w.sessions i = some x)
      (hs : x.sending = false) (hm : Media.Step x.media .sender m) :
      Step w (.media i .sender) (w.setSession i (some { x with media := m }))
  | pre {w : World} {i : Nat} {x : Session} {m : Media} (hi : w.sessions i = some x)
      (hs : x.sending = false) (hm : Media.Step x.media .pre m) :
      Step w (.media i .pre) (w.setSession i (some { x with media := m, buf := some [] }))
  | chunk {w : World} {i : Nat} {x : Session} {m : Media} {data : List UInt8}
      (hi : w.sessions i = some x) (hs : x.sending = false)
      (hm : Media.Step x.media (.chunk data) m) :
      Step w (.media i (.chunk data))
        (w.setSession i (some { x with media := m, produced := x.produced ++ [data] }))
  | proc {w : World} {i : Nat} {x : Session} {m : Media} {data buf : List UInt8}
      (hi : w.sessions i = some x) (hs : x.sending = false)
      (hm : Media.Step x.media (.proc data) m) (hb : x.buf = some buf) :
      Step w (.media i (.proc data)) (w.setSession i (some
        { x with media := m, buf := some (buf ++ data), sending := true }))
  -- `mbuf_append` to a buffer that was never initialised
  | wild {w u : World} {i : Nat} {x : Session} {m : Media} {data : List UInt8}
      (hi : w.sessions i = some x) (hs : x.sending = false)
      (hm : Media.Step x.media (.proc data) m) (hb : x.buf = none) :
      Step w (.media i (.proc data)) u
  | post {w : World} {i : Nat} {x : Session} {m : Media} (hi : w.sessions i = some x)
      (hs : x.sending = false) (hm : Media.Step x.media .post m) :
      Step w (.media i .post) (w.setSession i (some { x with media := m, buf := none }))
  | free {w : World} {i : Nat} {x : Session} (hi : w.sessions i = some x)
      (hs : x.sending = false) (hm : x.media.sender = .done) :
      Step w .server (w.setSession i none)
  -- the server thread takes up one of the broadcasts that wait
  | broadcast {w : World} {i : Nat} {x : Session} {rest : List Nat} (hw : w.server = .idle)
      (hi : w.sessions i = some x) (hs : x.sending = true)
      (hr : ∀ c, c ∈ rest ↔ w.conns c ≠ none) (hn : rest.Nodup) :
      Step w .server { w with server := .broadcasting i rest }
  -- `on_media_read`
  | other {w : World} {c i : Nat} {y : Conn} {rest : List Nat}
      (hw : w.server = .broadcasting i (c :: rest)) (hc : w.conns c = some y)
      (hu : y.userData ≠ some i) :
      Step w .server { w with server := .broadcasting i rest }
  | full {w : World} {c i : Nat} {x : Session} {y : Conn} {rest : List Nat}
      {buf : List UInt8} (hw : w.server = .broadcasting i (c :: rest)) (hc : w.conns c = some y)
      (hu : y.userData = some i) (hi : w.sessions i = some x) (hb : x.buf = some buf)
      (hf : buf.length ≤ 0 ∨ sendLimit ≤ y.sendLen) :
      Step w .server
        { w.setConn c (some { y with closing := true }) with server := .broadcasting i rest }
  | send {w : World} {c i : Nat} {x : Session} {y : Conn} {rest : List Nat}
      {buf : List UInt8} {n : Nat} (hw : w.server = .broadcasting i (c :: rest))
      (hc : w.conns c = some y) (hu : y.userData = some i) (hi : w.sessions i = some x)
      (hb : x.buf = some buf) (hf : 0 < buf.length ∧ y.sendLen < sendLimit) :
      Step w .server { (w.setSession i (some { x with buf := some [] })).setConn c
        (some { y with frames := y.frames ++ [buf], sendLen := n }) with
          server := .broadcasting i rest }
  | back {w : World} {i : Nat} {x : Session} (hw : w.server = .broadcasting i [])
      (hi : w.sessions i = some x) :
      Step w .server { w.setSession i (some { x with sending := false }) with server := .idle }

/-- What was sent on a connection that is not being closed is what its session has produced, up to
the chunk that the sender is just handing over. -/
def Delivered (w : World) : Prop :=
  ∀ c y i x, w.conns c = some y → y.userData = some i → y.closing = false →
    w.sessions i = some x →
    y.frames.flatten <+: x.produced.flatten ∧
      (x.sending = false → (∀ header data, x.media.sender ≠ .callProc header data) →
        y.frames.flatten = x.produced.flatten)

/-- The condition on a step, read off the state before it: a sender looks for `pre` only when its
session's callbacks are registered. -/
def Ok (w : World) : Action → Prop
  | .media i a => ∀ x, w.sessions i = some x → x.media.Ok a
  | .server => True

/-- Before the callbacks have begun. -/
def Early : Sender → Prop
  | .wait | .testPre | .callPre => True
  | _ => False

/-- What a session is by itself. -/
structure Sound (x : Session) : Prop where
  media : x.media.Inv
  early : Early x.media.sender → x.produced = []
  opened : x.media.All → ¬ Early x.media.sender → x.media.sender ≠ .done → x.buf ≠ none

/-- What a session has produced was sent on its connection, or is in its buffer, or is about to be;
the buffer is empty outside a broadcast, and behind the callback for the connection. -/
structure Balanced (w : World) (c i : Nat) (x : Session) (y : Conn) : Prop where
  total : y.frames.flatten ++ x.held ++ x.pending = x.produced.flatten
  quiet : x.sending = false → x.held = []
  passed : ∀ rest, w.server = .broadcasting i rest → c ∉ rest → x.held = []

structure Inv (w : World) : Prop where
  session : ∀ i x, w.sessions i = some x → Sound x
  unused : ∀ c y, w.conns c = some y → y.userData = none → y.frames = []
  attached : ∀ c y i, w.conns c = some y → y.userData = some i →
    ∃ x, w.sessions i = some x ∧ x.media.creator = .registered ∧
      (y.closing = false → Balanced w c i x y)
  unique : ∀ c d y z i, w.conns c = some y → w.conns d = some z → y.userData = some i →
    z.userData = some i → c = d
  creating : ∀ c i, w.server = .creating c i → ∃ x y, w.sessions i = some x ∧
    x.media.creator ≠ .destroyed ∧ w.conns c = some y ∧ y.userData = none ∧ Balanced w c i x y ∧
      ∀ d z, w.conns d = some z → z.userData ≠ some i
  broadcasting : ∀ i rest, w.server = .broadcasting i rest →
    ∃ x, w.sessions i = some x ∧ x.sending = true

variable {w u : World} {acts : List Action} {a : Media.Action} {i c : Nat} {x x' : Session}
  {y : Conn} {m : Media}

@[simp] theorem setSession_conns {o : Option Session} : (w.setSession i o).conns = w.conns := rfl

@[simp] theorem setSession_server {o : Option Session} :
    (w.setSession i o).server = w.server := rfl

@[simp] theorem setSession_self {o : Option Session} : (w.setSession i o).sessions i = o :=
  Function.update_self ..

theorem setSession_ne {o : Option Session} {j : Nat} (h : j ≠ i) :
    (w.setSession i o).sessions j = w.sessions j := Function.update_of_ne h ..

@[simp] theorem setConn_sessions {o : Option Conn} :
    (w.setConn c o).sessions = w.sessions := rfl

@[simp] theorem setConn_server {o : Option Conn} : (w.setConn c o).server = w.server := rfl

@[simp] theorem setConn_self {o : Option Conn} : (w.setConn c o).conns c = o :=
  Function.update_self ..

theorem setConn_ne {o : Option Conn} {d : Nat} (h : d ≠ c) :
    (w.setConn c o).conns d = w.conns d := Function.update_of_ne h ..

theorem pending_eq_nil (h : ∀ header data, x.media.sender ≠ .callProc header data) :
    x.pending = [] := by
  rw [Session.pending]
  cases hx : x.media.sender <;> first | rfl | exact absurd hx (h _ _)

/-- The session that a connection is attached to. -/
theorem attached_to (h : Inv w) (hc : w.conns c = some y) (hu : y.userData = some i)
    (hi : w.sessions i = some x) :
    x.media.creator = .registered ∧ (y.closing = false → Balanced w c i x y) := by
  obtain ⟨z, hz, hattached⟩ := h.attached c y i hc hu
  obtain rfl := Option.some.inj (hi.symm.trans hz)
  exact hattached

/-- The session that is being made for a connection. -/
theorem created_for (h : Inv w) (hw : w.server = .creating c i) (hi : w.sessions i = some x)
    (hc : w.conns c = some y) : x.media.creator ≠ .destroyed ∧ Balanced w c i x y ∧
      ∀ d z, w.conns d = some z → z.userData ≠ some i := by
  obtain ⟨x', y', hi', hd, hc', -, hb, hno⟩ := h.creating c i hw
  obtain rfl := Option.some.inj (hi.symm.trans hi')
  obtain rfl := Option.some.inj (hc.symm.trans hc')
  exact ⟨hd, hb, hno⟩

theorem sending_of_broadcasting {rest : List Nat} (h : Inv w) (hi : w.sessions i = some x)
    (hw : w.server = .broadcasting i rest) : x.sending = true := by
  obtain ⟨z, hz, hsend⟩ := h.broadcasting i rest hw
  obtain rfl := Option.some.inj (hi.symm.trans hz)
  exact hsend

theorem not_broadcasting (h : Inv w) (hi : w.sessions i = some x) (hs : x.sending = false) :
    ∀ rest, w.server ≠ .broadcasting i rest := by
  intro rest hr
  cases hs.symm.trans (sending_of_broadcasting h hi hr)

theorem delivered_of_inv (h : Inv w) : Delivered w := by
  intro c y i x hc hu hclosing hi
  have hb := (attached_to h hc hu hi).2 hclosing
  refine ⟨⟨x.held ++ x.pending, by rw [← List.append_assoc, hb.total]⟩, fun hs hp => ?_⟩
  have htotal := hb.total
  rwa [hb.quiet hs, pending_eq_nil hp, List.append_nil, List.append_nil] at htotal

theorem inv_initial : Inv (initial : World) where
  session _ _ h := by cases h
  unused _ _ h := by cases h
  attached _ _ _ h := by cases h
  unique _ _ _ _ _ h := by cases h
  creating _ _ h := by cases h
  broadcasting _ _ h := by cases h

/-- Between the buffer and what is pending nothing is lost; a chunk that is produced is pending. -/
def Keeps (x x' : Session) : Prop :=
  (x'.held ++ x'.pending = x.held ++ x.pending ∧ x'.produced = x.produced) ∨
    (x'.held = [] ∧ x.pending = [] ∧ x'.produced.flatten = x.produced.flatten ++ x'.pending)

/-- A step of the sender keeps its session's balance. -/
theorem balanced_sender (hb : Balanced w c i x y) (hs : x.sending = false) (hk : Keeps x x')
    (hq : x'.sending = false → x'.held = [])
    (hserver : ∀ rest, w.server ≠ .broadcasting i rest) : Balanced w c i x' y where
  total := by
    have htotal := hb.total
    rcases hk with ⟨heq, hprod⟩ | ⟨hheld, hpend, hprod⟩
    · rw [List.append_assoc, heq, hprod, ← List.append_assoc]
      exact htotal
    · rw [hb.quiet hs, hpend, List.append_nil, List.append_nil] at htotal
      rw [hheld, List.append_nil, htotal, hprod]
  quiet := hq
  passed rest hr := absurd hr (hserver rest)

theorem inv_setSession {o : Option Session} (h : Inv w) (hsound : ∀ z, o = some z → Sound z)
    (hat : ∀ c y, w.conns c = some y → y.userData = some i → ∃ z, o = some z ∧
      z.media.creator = .registered ∧ (y.closing = false → Balanced w c i z y))
    (hcr : ∀ c y, w.server = .creating c i → w.conns c = some y → ∃ z, o = some z ∧
      z.media.creator ≠ .destroyed ∧ Balanced w c i z y)
    (hbr : ∀ rest, w.server = .broadcasting i rest → ∃ z, o = some z ∧ z.sending = true) :
    Inv (w.setSession i o) := by
  have hbal : ∀ {c j z y}, Balanced w c j z y → Balanced (w.setSession i o) c j z y :=
    fun hb => ⟨hb.total, hb.quiet, hb.passed⟩
  refine ⟨?_, h.unused, ?_, h.unique, ?_, ?_⟩
  · intro j z hz
    by_cases hj : j = i
    · subst hj
      exact hsound z (setSession_self.symm.trans hz)
    · exact h.session j z ((setSession_ne hj).symm.trans hz)
  · intro c y j hc hu
    by_cases hj : j = i
    · subst hj
      obtain ⟨z, hz, hreg, hb⟩ := hat c y hc hu
      exact ⟨z, setSession_self.trans hz, hreg, fun hcl => hbal (hb hcl)⟩
    · obtain ⟨z, hz, hreg, hb⟩ := h.attached c y j hc hu
      exact ⟨z, (setSession_ne hj).trans hz, hreg, fun hcl => hbal (hb hcl)⟩
  · intro c j hs
    obtain ⟨z, y, hz, hd, hc, hu, hb, hno⟩ := h.creating c j hs
    by_cases hj : j = i
    · subst hj
      obtain ⟨z', hz', hd', hb'⟩ := hcr c y hs hc
      exact ⟨z', y, setSession_self.trans hz', hd', hc, hu, hbal hb', hno⟩
    · exact ⟨z, y, (setSession_ne hj).trans hz, hd, hc, hu, hbal hb, hno⟩
  · intro j rest hs
    by_cases hj : j = i
    · subst hj
      obtain ⟨z, hz, hsend⟩ := hbr rest hs
      exact ⟨z, setSession_self.trans hz, hsend⟩
    · obtain ⟨z, hz, hsend⟩ := h.broadcasting j rest hs
      exact ⟨z, (setSession_ne hj).trans hz, hsend⟩

theorem inv_setConn {o : Option Conn} (h : Inv w) (hs : ∀ d i, w.server ≠ .creating d i)
    (hun : ∀ z, o = some z → z.userData = none → z.frames = [])
    (hat : ∀ z i, o = some z → z.userData = some i →
      (∃ x, w.sessions i = some x ∧ x.media.creator = .registered ∧
        (z.closing = false → Balanced w c i x z)) ∧
      ∀ d y, d ≠ c → w.conns d = some y → y.userData ≠ some i) :
    Inv (w.setConn c o) := by
  have hbal : ∀ {d j x y}, Balanced w d j x y → Balanced (w.setConn c o) d j x y :=
    fun hb => ⟨hb.total, hb.quiet, hb.passed⟩
  refine ⟨h.session, ?_, ?_, ?_, fun d i hd => absurd hd (hs d i), h.broadcasting⟩
  · intro d z hz
    by_cases hd : d = c
    · subst hd
      exact hun z (setConn_self.symm.trans hz)
    · exact h.unused d z ((setConn_ne hd).symm.trans hz)
  · intro d z i hz hu
    by_cases hd : d = c
    · subst hd
      obtain ⟨⟨x, hx, hreg, hb⟩, -⟩ := hat z i (setConn_self.symm.trans hz) hu
      exact ⟨x, hx, hreg, fun hcl => hbal (hb hcl)⟩
    · obtain ⟨x, hx, hreg, hb⟩ := h.attached d z i ((setConn_ne hd).symm.trans hz) hu
      exact ⟨x, hx, hreg, fun hcl => hbal (hb hcl)⟩
  · intro d e y z i hy hz hu hu'
    by_cases hd : d = c <;> by_cases he : e = c
    · exact hd.trans he.symm
    · subst hd
      obtain ⟨-, hno⟩ := hat y i (setConn_self.symm.trans hy) hu
      exact absurd hu' (hno e z he ((setConn_ne he).symm.trans hz))
    · subst he
      obtain ⟨-, hno⟩ := hat z i (setConn_self.symm.trans hz) hu'
      exact absurd hu (hno d y hd ((setConn_ne hd).symm.trans hy))
    · exact h.unique d e y z i ((setConn_ne hd).symm.trans hy) ((setConn_ne he).symm.trans hz)
        hu hu'

/-- The server thread turns to a broadcast, or back to its loop. -/
theorem inv_turn {sv : Server} (h : Inv w) (hcr : ∀ c i, sv ≠ .creating c i)
    (hbr : ∀ i rest, sv = .broadcasting i rest → ∃ x, w.sessions i = some x ∧ x.sending = true ∧
      ∀ c y, w.conns c = some y → y.userData = some i → y.closing = false → c ∉ rest →
        x.held = []) :
    Inv { w with server := sv } := by
  refine ⟨h.session, h.unused, ?_, h.unique, fun c i hc => absurd hc (hcr c i), ?_⟩
  · intro c y i hc hu
    obtain ⟨x, hx, hreg, hb⟩ := h.attached c y i hc hu
    refine ⟨x, hx, hreg, fun hcl => ⟨(hb hcl).total, (hb hcl).quiet, fun rest hr hrest => ?_⟩⟩
    obtain ⟨x', hx', -, hheld⟩ := hbr i rest hr
    obtain rfl := Option.some.inj (hx.symm.trans hx')
    exact hheld c y hc hu hcl hrest
  · intro i rest hr
    obtain ⟨x, hx, hsend, -⟩ := hbr i rest hr
    exact ⟨x, hx, hsend⟩

theorem inv_idle (h : Inv w) : Inv { w with server := .idle } := inv_turn h nofun nofun

/-- A step of a sender that is not inside `mg_broadcast`. -/
theorem inv_sender (h : Inv w) (hi : w.sessions i = some x) (hs : x.sending = false)
    (hsound : Sound x') (hcr : x'.media.creator = x.media.creator)
    (hk : x.held = [] → x.media.creator ≠ .destroyed →
      Keeps x x' ∧ (x'.sending = false → x'.held = [])) :
    Inv (w.setSession i (some x')) := by
  have hserver := not_broadcasting h hi hs
  have hbal : ∀ c y, x.media.creator ≠ .destroyed → Balanced w c i x y →
      Balanced w c i x' y := by
    intro c y hd hb
    obtain ⟨hkeeps, hq⟩ := hk (hb.quiet hs) hd
    exact balanced_sender hb hs hkeeps hq hserver
  refine inv_setSession h ?_ ?_ ?_ fun rest hr => absurd hr (hserver rest)
  · rintro _ ⟨⟩
    exact hsound
  · intro c y hc hu
    obtain ⟨hreg, hb⟩ := attached_to h hc hu hi
    refine ⟨x', rfl, hcr.trans hreg, fun hcl => hbal c y ?_ (hb hcl)⟩
    rw [hreg]
    nofun
  · intro c y hsv hc
    obtain ⟨hd, hb, -⟩ := created_for h hsv hi hc
    exact ⟨x', rfl, by rwa [hcr], hbal c y hd hb⟩

/-- The media object's step as the sender's session sees it. -/
theorem step_creator (hm : Media.Step x.media a m) (ha : a ≠ .creator) :
    m.creator = x.media.creator ∧ m.snd = x.media.snd := by
  cases hm <;> first | exact absurd rfl ha | exact ⟨rfl, rfl⟩

theorem not_early_written {header : Bool} : ¬ Early (Media.written header) := by
  cases header <;> exact id

/-- The callbacks begin once. -/
theorem early_step (hm : Media.Step x.media a m) (ha : a ≠ .creator) (he : Early m.sender) :
    Early x.media.sender := by
  cases hm with
  | regcallback | copy | play | destroy => exact absurd rfl ha
  | wait hs | testPre hs | pre hs =>
    rw [hs]
    trivial
  | chunk hs =>
    dsimp only at he
    split at he
    · exact he.elim
    · exact absurd he not_early_written
  | proc hs => exact absurd he not_early_written
  | exit | get | packet | next => exact he.elim
  | testPost hs =>
    dsimp only at he
    split at he <;> exact he.elim
  | post hs => exact he.elim

/-- A silent step of the sender ends no chunk and begins none, and passes `pre` only where there is
none. -/
theorem pending_sender (hm : Media.Step x.media .sender m) :
    x.pending = [] ∧ (∀ header data, m.sender ≠ .callProc header data) ∧
      (m.All → ¬ Early m.sender → ¬ Early x.media.sender ∧ x.media.sender ≠ .done) := by
  cases hm with
  | wait hs => simp [Session.pending, hs, Early]
  | testPre hs =>
    refine ⟨by simp [Session.pending, hs], ?_, ?_⟩
    · intro header data
      dsimp only
      split <;> nofun
    · intro hall he
      have hpre : x.media.snd .pre = true := hall .pre
      exact absurd (by simp [hpre, Early]) he
  | exit hs he => simp [Session.pending, hs, Early]
  | get hs he => simp [Session.pending, hs, Early]
  | packet hs => simp [Session.pending, hs, Early]
  | next hs => simp [Session.pending, hs, Early]
  | testPost hs =>
    refine ⟨by simp [Session.pending, hs], ?_, by simp [hs, Early]⟩
    intro header data
    dsimp only
    split <;> nofun

theorem inv_silent (h : Inv w) (hi : w.sessions i = some x) (hs : x.sending = false)
    (hm : Media.Step x.media .sender m) (hok : x.media.Ok .sender) :
    Inv (w.setSession i (some { x with media := m })) := by
  have hx := h.session i x hi
  obtain ⟨hcr, hsnd⟩ := step_creator hm nofun
  obtain ⟨hp, hp', hopen⟩ := pending_sender hm
  refine inv_sender h hi hs ⟨Media.inv_step hm hok hx.media, ?_, ?_⟩ hcr ?_
  · exact fun he => hx.early (early_step hm nofun he)
  · intro hall he _
    obtain ⟨hearly, hdone⟩ := hopen hall he
    have hall' : x.media.All := fun f => by rw [← hsnd]; exact hall f
    exact hx.opened hall' hearly hdone
  · intro hheld _
    refine ⟨.inl ⟨?_, rfl⟩, fun _ => hheld⟩
    rw [hp, pending_eq_nil hp']
    rfl

theorem inv_pre (h : Inv w) (hi : w.sessions i = some x) (hs : x.sending = false)
    (hm : Media.Step x.media .pre m) (hok : x.media.Ok .pre) :
    Inv (w.setSession i (some { x with media := m, buf := some [] })) := by
  have hx := h.session i x hi
  obtain ⟨hcr, -⟩ := step_creator hm nofun
  refine inv_sender h hi hs ⟨Media.inv_step hm hok hx.media, ?_, fun _ _ _ => nofun⟩ hcr ?_
  · exact fun he => hx.early (early_step hm nofun he)
  · intro hheld _
    refine ⟨.inl ⟨?_, rfl⟩, fun _ => rfl⟩
    cases hm with
    | pre hc =>
      rw [hheld]
      simp [Session.pending, Session.held, hc]

theorem inv_chunk {data : List UInt8} (h : Inv w) (hi : w.sessions i = some x)
    (hs : x.sending = false) (hm : Media.Step x.media (.chunk data) m)
    (hok : x.media.Ok (.chunk data)) :
    Inv (w.setSession i (some { x with media := m, produced := x.produced ++ [data] })) := by
  have hx := h.session i x hi
  obtain ⟨hcr, hsnd⟩ := step_creator hm (by rintro ⟨⟩)
  have hinv := Media.inv_step hm hok hx.media
  cases hm with
  | @chunk header _ hc =>
    have hp := hx.media.phase
    simp only [Media.Phase, hc] at hp
    refine inv_sender h hi hs ⟨hinv, ?_, ?_⟩ hcr ?_
    · intro he
      dsimp only at he
      split at he
      · exact he.elim
      · exact absurd he not_early_written
    · intro hall _ _
      refine hx.opened hall ?_ ?_ <;> rw [hc] <;> rintro ⟨⟩
    · intro hheld hd
      have hproc : x.media.snd .proc = true := (hp.resolve_right fun h => hd h.1).1 .proc
      refine ⟨.inr ⟨hheld, ?_, ?_⟩, fun _ => hheld⟩
      · simp [Session.pending, hc]
      · simp [Session.pending, hproc]

theorem inv_proc {data buf : List UInt8} (h : Inv w) (hi : w.sessions i = some x)
    (hs : x.sending = false) (hm : Media.Step x.media (.proc data) m)
    (hok : x.media.Ok (.proc data)) (hb : x.buf = some buf) :
    Inv (w.setSession i (some
      { x with media := m, buf := some (buf ++ data), sending := true })) := by
  have hx := h.session i x hi
  obtain ⟨hcr, -⟩ := step_creator hm nofun
  refine inv_sender h hi hs ⟨Media.inv_step hm hok hx.media, ?_, fun _ _ _ => nofun⟩ hcr ?_
  · exact fun he => hx.early (early_step hm nofun he)
  · intro _ _
    refine ⟨.inl ⟨?_, rfl⟩, nofun⟩
    cases hm with
    | @proc header _ hc =>
      cases header <;> simp [Session.pending, Session.held, hc, hb, Media.written]

/-- No sender calls back on a buffer that was never initialised. -/
theorem opened_proc {data : List UInt8} (h : Inv w) (hi : w.sessions i = some x)
    (hm : Media.Step x.media (.proc data) m) : x.buf ≠ none := by
  have hx := h.session i x hi
  cases hm with
  | proc hc =>
    have hp := hx.media.phase
    simp only [Media.Phase, hc] at hp
    refine hx.opened hp.1 ?_ ?_ <;> rw [hc] <;> rintro ⟨⟩

theorem inv_post (h : Inv w) (hi : w.sessions i = some x) (hs : x.sending = false)
    (hm : Media.Step x.media .post m) (hok : x.media.Ok .post) :
    Inv (w.setSession i (some { x with media := m, buf := none })) := by
  have hx := h.session i x hi
  obtain ⟨hcr, -⟩ := step_creator hm nofun
  have hinv := Media.inv_step hm hok hx.media
  cases hm with
  | post hc =>
    refine inv_sender h hi hs ⟨hinv, fun he => he.elim, fun _ _ hd => absurd rfl hd⟩ hcr ?_
    intro _ hd
    exact absurd (hx.media.ended (.inr (.inl hc))) hd

theorem inv_free (h : Inv w) (hi : w.sessions i = some x) (hs : x.sending = false)
    (hm : x.media.sender = .done) : Inv (w.setSession i none) := by
  have hd := (h.session i x hi).media.ended (.inr (.inr hm))
  refine inv_setSession h nofun ?_ ?_ fun rest hr => absurd hr (not_broadcasting h hi hs rest)
  · intro c y hc hu
    cases hd.symm.trans (attached_to h hc hu hi).1
  · intro c y hsv hc
    exact absurd hd (created_for h hsv hi hc).1

/-- What has begun before `destroy` was registered. -/
theorem all_of_begun (hx : Sound x) (he : ¬ Early x.media.sender)
    (hd : x.media.creator ≠ .destroyed) : x.media.All := by
  have hp := hx.media.phase
  have hsilent : ¬ x.media.Silent := fun h => hd h.1
  cases hs : x.media.sender <;> simp only [Media.Phase, hs] at hp
  case wait | testPre | callPre =>
    rw [hs] at he
    exact absurd trivial he
  case callProc | callPost => exact hp.1
  case done | write | loop | packets | testPost => exact (hp.resolve_right hsilent).1

/-- A step of the creator leaves the sender alone. -/
theorem sound_creator (hx : Sound x) (hm : Media.Step x.media .creator m) :
    Sound { x with media := m } ∧ m.sender = x.media.sender := by
  have hd := Media.not_destroyed hm
  have hsender : m.sender = x.media.sender := by cases hm <;> rfl
  refine ⟨⟨Media.inv_creator_step hm hx.media, ?_, ?_⟩, hsender⟩
  · intro he
    exact hx.early (hsender ▸ he)
  · intro _ he hdone
    rw [hsender] at he hdone
    exact hx.opened (all_of_begun hx he hd) he hdone

theorem inv_register (h : Inv w) (hw : w.server = .creating c i) (hi : w.sessions i = some x)
    (hm : Media.Step x.media .creator m) (hd : m.creator ≠ .destroyed) :
    Inv (w.setSession i (some { x with media := m })) := by
  obtain ⟨hsound, hsender⟩ := sound_creator (h.session i x hi) hm
  have hpending : Session.pending { x with media := m } = x.pending := by
    simp only [Session.pending, hsender]
  refine inv_setSession h ?_ ?_ ?_ ?_
  · rintro _ ⟨⟩
    exact hsound
  · intro d z hd hu
    obtain ⟨-, y, -, -, -, -, -, hno⟩ := h.creating c i hw
    exact absurd hu (hno d z hd)
  · intro d y hsv hc
    obtain ⟨-, hb, -⟩ := created_for h hsv hi hc
    refine ⟨_, rfl, hd, ?_, hb.quiet, hb.passed⟩
    rw [hpending]
    exact hb.total
  · intro rest hr
    cases hw.symm.trans hr

theorem not_creating (h : w.server = .idle) : ∀ d i, w.server ≠ .creating d i := by
  intro d i hd
  cases h.symm.trans hd

theorem inv_attach (h : Inv w) (hw : w.server = .creating c i) (hi : w.sessions i = some x)
    (hr : x.media.creator = .registered) (hc : w.conns c = some y) :
    Inv { w.setConn c (some { y with userData := some i }) with server := .idle } := by
  obtain ⟨-, hb, hno⟩ := created_for h hw hi hc
  refine inv_setConn (w := { w with server := .idle }) (inv_idle h) nofun ?_ ?_
  · rintro _ ⟨⟩ ⟨⟩
  · rintro _ j ⟨⟩ ⟨⟩
    exact ⟨⟨x, hi, hr, fun _ => ⟨hb.total, hb.quiet, nofun⟩⟩, fun d z _ hd => hno d z hd⟩

theorem inv_handshake (h : Inv w) (hw : w.server = .idle) (hc : w.conns c = some y)
    (hu : y.userData = none) (hi : w.sessions i = none) :
    Inv { w.setSession i (some .initial) with server := .creating c i } := by
  have hno : ∀ d z, w.conns d = some z → z.userData ≠ some i := by
    intro d z hd hu'
    obtain ⟨x, hx, -⟩ := h.attached d z i hd hu'
    cases hi.symm.trans hx
  have hset : Inv (w.setSession i (some .initial)) := by
    refine inv_setSession h ?_ ?_ ?_ ?_
    · rintro _ ⟨⟩
      exact ⟨Media.inv_initial, fun _ => rfl, fun _ he => absurd trivial he⟩
    · exact fun d z hd hu' => absurd hu' (hno d z hd)
    · exact fun d z hd => absurd hd (not_creating hw d i)
    · exact fun rest hr => by cases hw.symm.trans hr
  refine ⟨hset.session, hset.unused, ?_, hset.unique, ?_, nofun⟩
  · intro d z j hd hu'
    obtain ⟨x, hx, hreg, hb⟩ := hset.attached d z j hd hu'
    exact ⟨x, hx, hreg, fun hcl => ⟨(hb hcl).total, (hb hcl).quiet, nofun⟩⟩
  · rintro _ _ ⟨⟩
    refine ⟨.initial, y, setSession_self, nofun, hc, hu, ⟨?_, fun _ => rfl, nofun⟩, hno⟩
    rw [h.unused c y hc hu]
    rfl

/-- A session whose connection is gone is on its own. -/
theorem inv_detached (h : Inv w) (hs : ∀ d i, w.server ≠ .creating d i)
    (hc : w.conns c = some y) (hu : y.userData = some i) (hsound : Sound x)
    (hsend : ∀ rest, w.server = .broadcasting i rest → x.sending = true) :
    Inv ((w.setConn c none).setSession i (some x)) := by
  refine inv_setSession (inv_setConn h hs nofun nofun) ?_ ?_ ?_ ?_
  · rintro _ ⟨⟩
    exact hsound
  · intro d z hd hu'
    by_cases hdc : d = c
    · subst hdc
      cases setConn_self.symm.trans hd
    · exact absurd (h.unique d c z y i ((setConn_ne hdc).symm.trans hd) hc hu' hu) hdc
  · exact fun d _ hd => absurd hd (hs d i)
  · exact fun rest hr => ⟨x, rfl, hsend rest hr⟩

theorem inv_close (h : Inv w) (hw : w.server = .idle) (hc : w.conns c = some y)
    (hu : y.userData = some i) (hi : w.sessions i = some x)
    (hm : Media.Step x.media .creator m) :
    Inv ((w.setSession i (some { x with media := m })).setConn c none) := by
  refine inv_detached h (not_creating hw) hc hu (sound_creator (h.session i x hi) hm).1 ?_
  intro rest hr
  cases hw.symm.trans hr

theorem inv_accept (h : Inv w) (hw : w.server = .idle) :
    Inv (w.setConn c (some ⟨none, 0, false, []⟩)) := by
  refine inv_setConn h (not_creating hw) ?_ ?_
  · rintro _ ⟨⟩ _
    rfl
  · rintro _ _ ⟨⟩ ⟨⟩

/-- What a connection is for is unchanged, and what was sent on it. -/
theorem inv_flags {n : Nat} {closing : Bool} (h : Inv w) (hs : ∀ d i, w.server ≠ .creating d i)
    (hc : w.conns c = some y) (hcl : closing = false → y.closing = false) :
    Inv (w.setConn c (some { y with sendLen := n, closing := closing })) := by
  refine inv_setConn h hs ?_ ?_
  · rintro _ ⟨⟩ hu
    exact h.unused c y hc hu
  · rintro _ i ⟨⟩ hu
    obtain ⟨x, hx, hreg, hb⟩ := h.attached c y i hc hu
    refine ⟨⟨x, hx, hreg, fun hz => ?_⟩, ?_⟩
    · have hb' := hb (hcl hz)
      exact ⟨hb'.total, hb'.quiet, hb'.passed⟩
    · exact fun d z hd hz hu' => hd (h.unique d c z y i hz hc hu' hu)

theorem inv_broadcast {rest : List Nat} (h : Inv w) (hi : w.sessions i = some x)
    (hs : x.sending = true) (hr : ∀ c, c ∈ rest ↔ w.conns c ≠ none) :
    Inv { w with server := .broadcasting i rest } := by
  refine inv_turn h nofun ?_
  rintro _ _ ⟨⟩
  refine ⟨x, hi, hs, fun c y hc _ _ hrest => absurd ((hr c).mpr ?_) hrest⟩
  rw [hc]
  nofun

/-- The callback has run for a connection, which is not the session's or has its data. -/
theorem inv_advance {rest : List Nat} (h : Inv w) (hw : w.server = .broadcasting i (c :: rest))
    (hc : ∀ y x, w.conns c = some y → y.userData = some i → y.closing = false →
      w.sessions i = some x → x.held = []) :
    Inv { w with server := .broadcasting i rest } := by
  refine inv_turn h nofun ?_
  rintro _ _ ⟨⟩
  obtain ⟨x, hi, hsend⟩ := h.broadcasting i (c :: rest) hw
  refine ⟨x, hi, hsend, fun d y hd hu hcl hrest => ?_⟩
  by_cases hdc : d = c
  · subst hdc
    exact hc y x hd hu hcl hi
  · have hb := (attached_to h hd hu hi).2
    exact (hb hcl).passed (c :: rest) hw (List.not_mem_cons_of_ne_of_not_mem hdc hrest)

theorem inv_full {rest : List Nat} (h : Inv w) (hw : w.server = .broadcasting i (c :: rest))
    (hc : w.conns c = some y) :
    Inv { w.setConn c (some { y with closing := true }) with server := .broadcasting i rest } := by
  have hs : ∀ d i, w.server ≠ .creating d i := by
    intro d i hd
    cases hw.symm.trans hd
  have hflags : Inv (w.setConn c (some { y with closing := true })) :=
    inv_flags (n := y.sendLen) h hs hc nofun
  refine inv_advance hflags hw fun z _ hz _ hcl _ => ?_
  obtain rfl := Option.some.inj (setConn_self.symm.trans hz)
  cases hcl

theorem inv_send {rest : List Nat} {buf : List UInt8} {n : Nat} (h : Inv w)
    (hw : w.server = .broadcasting i (c :: rest)) (hc : w.conns c = some y)
    (hu : y.userData = some i) (hi : w.sessions i = some x) (hb : x.buf = some buf) :
    Inv { (w.setSession i (some { x with buf := some [] })).setConn c
      (some { y with frames := y.frames ++ [buf], sendLen := n }) with
        server := .broadcasting i rest } := by
  have hs : ∀ d i, w.server ≠ .creating d i := by
    intro d i hd
    cases hw.symm.trans hd
  obtain ⟨hreg, hbal⟩ := attached_to h hc hu hi
  have hx := h.session i x hi
  have hcleared : Inv ((w.setConn c none).setSession i (some { x with buf := some [] })) := by
    refine inv_detached h hs hc hu ⟨hx.media, hx.early, fun _ _ _ => nofun⟩ fun _ hr => ?_
    exact sending_of_broadcasting (x := x) h hi hr
  have hsent : Inv (((w.setConn c none).setSession i (some { x with buf := some [] })).setConn c
      (some { y with frames := y.frames ++ [buf], sendLen := n })) := by
    refine inv_setConn hcleared hs ?_ ?_
    · rintro _ ⟨⟩ hu'
      cases hu.symm.trans hu'
    · rintro _ j ⟨⟩ hu'
      obtain rfl := Option.some.inj (hu.symm.trans hu')
      refine ⟨⟨_, setSession_self, hreg, fun hcl => ⟨?_, fun _ => rfl, fun _ _ _ => rfl⟩⟩, ?_⟩
      · have htotal := (hbal hcl).total
        simpa [Session.held, Session.pending, hb] using htotal
      · intro d z hdc hz hu''
        exact hdc (h.unique d c z y i ((setConn_ne hdc).symm.trans hz) hc hu'' hu)
  refine inv_advance (w := (w.setSession i (some { x with buf := some [] })).setConn c
    (some { y with frames := y.frames ++ [buf], sendLen := n })) ?_ hw fun z x' _ _ _ hz => ?_
  · simpa [setConn, setSession] using hsent
  · obtain rfl := Option.some.inj (setSession_self.symm.trans hz)
    rfl

theorem inv_back (h : Inv w) (hw : w.server = .broadcasting i []) (hi : w.sessions i = some x) :
    Inv { w.setSession i (some { x with sending := false }) with server := .idle } := by
  have hx := h.session i x hi
  refine inv_setSession (w := { w with server := .idle }) (inv_idle h) ?_ ?_ nofun nofun
  · rintro _ ⟨⟩
    exact ⟨hx.media, hx.early, hx.opened⟩
  · intro c y hc hu
    obtain ⟨hreg, hb⟩ := attached_to h hc hu hi
    refine ⟨_, rfl, hreg, fun hcl => ⟨(hb hcl).total, fun _ => ?_, nofun⟩⟩
    exact (hb hcl).passed [] hw List.not_mem_nil

theorem inv_step {b : Action} (hs : Step w b u) (hok : Ok w b) (h : Inv w) : Inv u := by
  cases hs with
  | accept hw _ => exact inv_accept h hw
  | handshake hw hc hu hi => exact inv_handshake h hw hc hu hi
  | register hw hi hm hd => exact inv_register h hw hi hm hd
  | attach hw hi hr hc => exact inv_attach h hw hi hr hc
  | close hw hc hu hi hm _ => exact inv_close h hw hc hu hi hm
  | closeUnused hw _ _ => exact inv_setConn h (not_creating hw) nofun nofun
  | flush hw hc => exact inv_flags h (not_creating hw) hc id
  | sender hi hs hm => exact inv_silent h hi hs hm (hok _ hi)
  | pre hi hs hm => exact inv_pre h hi hs hm (hok _ hi)
  | chunk hi hs hm => exact inv_chunk h hi hs hm (hok _ hi)
  | proc hi hs hm hb => exact inv_proc h hi hs hm (hok _ hi) hb
  | wild hi _ hm hb => exact absurd hb (opened_proc h hi hm)
  | post hi hs hm => exact inv_post h hi hs hm (hok _ hi)
  | free hi hs hm => exact inv_free h hi hs hm
  | broadcast _ hi hs hr _ => exact inv_broadcast h hi hs hr
  | other hw hc hu =>
    refine inv_advance h hw fun z _ hz hu' _ _ => absurd hu' ?_
    obtain rfl := Option.some.inj (hc.symm.trans hz)
    exact hu
  | full hw hc _ _ _ _ => exact inv_full h hw hc
  | send hw hc hu hi hb _ => exact inv_send h hw hc hu hi hb
  | back hw hi => exact inv_back h hw hi

theorem inv_run (h : Lts.MTr (Lts.Restrict Step Ok) initial acts w) : Inv w :=
  Lts.mtrInv_of_trInv (fun _ _ _ hs hi => inv_step hs.1 hs.2 hi) h inv_initial

/-- In every run whose steps meet the condition each connection has what its own sender has
produced. -/
theorem frames_delivered (h : Lts.MTr (Lts.Restrict Step Ok) initial acts w) : Delivered w :=
  delivered_of_inv (inv_run h)

theorem ok_media (hi : w.sessions i = some x) (hok : x.media.Ok a) : Ok w (.media i a) := by
  intro z hz
  obtain rfl := Option.some.inj (hi.symm.trans hz)
  exact hok

/-- A connection whose session's first chunk was sent. -/
theorem frames_delivered_first : ∃ w, w.conns 0 = some ⟨some 0, 3, false, [[0x46]]⟩ ∧
    Delivered w := by
  refine ⟨_, ?_, frames_delivered <|
    .stepL ⟨.accept (c := 0) rfl rfl, trivial⟩ <|
    .stepL ⟨.handshake (c := 0) (i := 0) rfl rfl rfl rfl, trivial⟩ <|
    .stepL ⟨.register rfl rfl (.regcallback rfl) nofun, ok_media rfl fun h => absurd rfl h⟩ <|
    .stepL ⟨.register rfl rfl (.copy (f := .args) rfl rfl) nofun,
      ok_media rfl fun h => absurd rfl h⟩ <|
    .stepL ⟨.register rfl rfl (.copy (f := .pre) rfl rfl) nofun,
      ok_media rfl fun h => absurd rfl h⟩ <|
    .stepL ⟨.register rfl rfl (.copy (f := .proc) rfl rfl) nofun,
      ok_media rfl fun h => absurd rfl h⟩ <|
    .stepL ⟨.register rfl rfl (.copy (f := .post) rfl rfl) nofun,
      ok_media rfl fun h => absurd rfl h⟩ <|
    .stepL ⟨.register rfl rfl (.play rfl (by rintro (_ | _ | _ | _) <;> rfl)) nofun,
      ok_media rfl fun h => absurd rfl h⟩ <|
    .stepL ⟨.attach rfl rfl rfl rfl, trivial⟩ <|
    .stepL ⟨.sender (i := 0) rfl rfl (.wait rfl), ok_media rfl nofun⟩ <|
    .stepL ⟨.sender (i := 0) rfl rfl (.testPre rfl),
      ok_media rfl fun _ _ => .inl (by rintro (_ | _ | _ | _) <;> rfl)⟩ <|
    .stepL ⟨.pre (i := 0) rfl rfl (.pre rfl), ok_media rfl nofun⟩ <|
    .stepL ⟨.chunk (i := 0) rfl rfl (@Media.Step.chunk _ true [0x46] rfl), ok_media rfl nofun⟩ <|
    .stepL ⟨.proc (i := 0) rfl rfl (.proc rfl) rfl, ok_media rfl nofun⟩ <|
    .stepL ⟨@Step.broadcast _ 0 _ [0] rfl rfl rfl ?_ (List.nodup_singleton 0), trivial⟩ <|
    .stepL ⟨.send (n := 3) rfl rfl rfl rfl rfl ⟨by decide, by decide⟩, trivial⟩ <|
    .stepL ⟨.back rfl rfl, trivial⟩ .refl⟩
  · rfl
  · intro c
    refine List.mem_singleton.trans ⟨?_, fun h => ?_⟩
    · rintro rfl
      exact Option.some_ne_none _
    · by_contra hc
      exact h ((Function.update_of_ne hc ..).trans (Function.update_of_ne hc ..))

/-- The sender looks for `pre` before it is registered; the first chunk goes nowhere. -/
theorem header_lost : ∃ acts w, Lts.MTr Step initial acts w ∧ ¬ Delivered w := by
  refine ⟨_, _,
    .stepL (.accept (c := 0) rfl rfl) <|
    .stepL (.handshake (c := 0) (i := 0) rfl rfl rfl rfl) <|
    .stepL (.sender (i := 0) rfl rfl (.wait rfl)) <|
    .stepL (.sender (i := 0) rfl rfl (.testPre rfl)) <|
    .stepL (.chunk (i := 0) rfl rfl (@Media.Step.chunk _ true [0x46] rfl)) <|
    .stepL (.register rfl rfl (.regcallback rfl) nofun) <|
    .stepL (.register rfl rfl (.copy (f := .args) rfl rfl) nofun) <|
    .stepL (.register rfl rfl (.copy (f := .pre) rfl rfl) nofun) <|
    .stepL (.register rfl rfl (.copy (f := .proc) rfl rfl) nofun) <|
    .stepL (.register rfl rfl (.copy (f := .post) rfl rfl) nofun) <|
    .stepL (.register rfl rfl (.play rfl (by rintro (_ | _ | _ | _) <;> rfl)) nofun) <|
    .stepL (.attach rfl rfl rfl rfl) .refl, ?_⟩
  intro h
  have hlost := (h 0 ⟨some 0, 0, false, []⟩ 0 _ rfl rfl rfl rfl).2 rfl nofun
  cases hlost

end World

end Freak.Web
