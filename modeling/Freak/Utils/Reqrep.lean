import Freak.Lib.Lts

/-! Requests and replies: `nnm_rep_routine` against any number of `nnm_req_exchange`. -/
namespace Freak.Utils.Reqrep

/-- What a client sends, with the number by which the library tells its requests apart. -/
structure Request (ι : Type) where
  client : ι
  id : Nat
  data : List UInt8
deriving DecidableEq

/-- A request that the callback has returned from: its result and what it put out. -/
structure Round (ι : Type) where
  req : Request ι
  ret : Int
  out : List UInt8

/-- The server's calls: `nn_recv`, `nn_send` and `nn_freemsg`. -/
inductive Event (ι : Type)
  | received (q : Request ι)
  | replied (q : Request ι) (out : List UInt8)
  | freed (q : Request ι)

/-- Where the routine stands: in `nn_recv`, in the callback, in `nn_send`, in `nn_freemsg`, behind
its loop, or in `fatal`. -/
inductive Server (ι : Type)
  | recv
  | callback (q : Request ι)
  | send (r : Round ι)
  | free (r : Round ι)
  | ended
  | exited (r : Round ι)

/-- `nnm_req_exchange`: not called, blocked in `nn_recv`, or back with a reply. -/
inductive Client (ι : Type)
  | ready
  | blocked (q : Request ι)
  | answered (out : List UInt8)

structure State (ι : Type) where
  server : Server ι
  client : ι → Client ι
  -- the number of a client's next request
  next : ι → Nat
  -- requests on their way to the server
  inbox : List (Request ι)
  log : List (Event ι)

inductive Action (ι : Type)
  | exchange (i : ι) (data : List UInt8)
  | resend (i : ι)
  | back (i : ι)
  | recv (q : Request ι)
  | recvFail
  | callback (ret : Int) (out : List UInt8)
  | send
  | sendFail
  | free

variable {ι : Type}

/-- No request yet. -/
def start : State ι := ⟨.recv, fun _ => .ready, fun _ => 0, [], []⟩

/-- Behind the callback: `if (!self->callback(...))`. -/
def Round.next (r : Round ι) : Server ι := if r.ret = 0 then .send r else .free r

/-- A reply ends the exchange that it belongs to and no other. -/
def Client.reply [DecidableEq ι] (c : Client ι) (r : Round ι) : Client ι :=
  match c with
  | .blocked q => if q = r.req then .answered r.out else c
  | _ => c

inductive Step [DecidableEq ι] : State ι → Action ι → State ι → Prop
  | exchange {s : State ι} {i : ι} {data : List UInt8} (hc : s.client i = .ready) :
      Step s (.exchange i data)
        { s with
          client := Function.update s.client i (.blocked ⟨i, s.next i, data⟩)
          next := Function.update s.next i (s.next i + 1)
          inbox := s.inbox ++ [⟨i, s.next i, data⟩] }
  -- the library may send a request again that has no reply yet
  | resend {s : State ι} {i : ι} {q : Request ι} (hc : s.client i = .blocked q) :
      Step s (.resend i) { s with inbox := s.inbox ++ [q] }
  | back {s : State ι} {i : ι} {out : List UInt8} (hc : s.client i = .answered out) :
      Step s (.back i) { s with client := Function.update s.client i .ready }
  | recv {s : State ι} {q : Request ι} {pre post : List (Request ι)} (hs : s.server = .recv)
      (hq : s.inbox = pre ++ q :: post) :
      Step s (.recv q)
        { s with server := .callback q, inbox := pre ++ post, log := s.log ++ [.received q] }
  | recvFail {s : State ι} (hs : s.server = .recv) : Step s .recvFail { s with server := .ended }
  | callback {s : State ι} {q : Request ι} {ret : Int} {out : List UInt8}
      (hs : s.server = .callback q) :
      Step s (.callback ret out) { s with server := Round.next ⟨q, ret, out⟩ }
  | send {s : State ι} {r : Round ι} (hs : s.server = .send r) :
      Step s .send
        { s with
          server := .free r
          client := Function.update s.client r.req.client ((s.client r.req.client).reply r)
          log := s.log ++ [.replied r.req r.out] }
  | sendFail {s : State ι} {r : Round ι} (hs : s.server = .send r) :
      Step s .sendFail { s with server := .exited r }
  | free {s : State ι} {r : Round ι} (hs : s.server = .free r) :
      Step s .free { s with server := .recv, log := s.log ++ [.freed r.req] }

/-- The events of a round: one reply if the callback succeeded. -/
def Round.events (r : Round ι) : List (Event ι) :=
  if r.ret = 0 then [.received r.req, .replied r.req r.out, .freed r.req]
  else [.received r.req, .freed r.req]

/-- The events of the round that is not over yet. -/
def Server.pending : Server ι → List (Event ι)
  | .recv | .ended => []
  | .callback q => [.received q]
  | .send r | .exited r => [.received r.req]
  | .free r => if r.ret = 0 then [.received r.req, .replied r.req r.out] else [.received r.req]

/-- The request of the round that is not over yet. -/
def Server.holds (v : Server ι) (q : Request ι) : Prop :=
  match v with
  | .recv | .ended => False
  | .callback p => p = q
  | .send r | .free r | .exited r => r.req = q

/-- The round of which only `nn_freemsg` is left. -/
def Server.over : Server ι → List (Round ι)
  | .free r => [r]
  | _ => []

/-- The request that the callback has not returned from. -/
def Server.asked : Server ι → Option (Request ι)
  | .callback q => some q
  | _ => none

/-- The round that the callback has returned in and that is not over yet. -/
def Server.returned : Server ι → List (Round ι)
  | .send r | .free r | .exited r => [r]
  | _ => []

/-- The request that the callback works on behind an action. -/
def Action.asks (q : Option (Request ι)) : Action ι → Option (Request ι)
  | .recv p => some p
  | .callback _ _ => none
  | _ => q

/-- What the callback returns at an action. -/
def Action.returns (q : Option (Request ι)) : Action ι → List (Round ι)
  | .callback ret out => q.toList.map (⟨·, ret, out⟩)
  | _ => []

/-- The rounds of a run: each request received, with what the callback then returned. -/
def called (q : Option (Request ι)) : List (Action ι) → List (Round ι)
  | [] => []
  | a :: acts => a.returns q ++ called (a.asks q) acts

/-- A step at which the callback returns one of the results allowed. -/
def Returns (P : Int → Prop) (_ : State ι) : Action ι → Prop
  | .callback ret _ => P ret
  | _ => True

/-- The log is that of the rounds, requests are told apart by their numbers, and a client that waits
has its request somewhere and has not been replied to. -/
structure Inv (P : Int → Prop) (s : State ι) (rounds : List (Round ι)) : Prop where
  log : s.log = rounds.flatMap Round.events ++ s.server.pending
  inbox : ∀ q ∈ s.inbox, q.id < s.next q.client
  held : ∀ q, s.server.holds q → q.id < s.next q.client
  past : ∀ r ∈ rounds, r.req.id < s.next r.req.client
  allowed : ∀ r ∈ rounds ++ s.server.over, P r.ret
  sent : ∀ r, s.server = .send r → r.ret = 0 ∧ P r.ret
  own : ∀ i q, s.client i = .blocked q → q.client = i
  waits : ∀ i q, s.client i = .blocked q →
    q ∈ s.inbox ∨ s.server.holds q ∨ ∃ r ∈ rounds, r.req = q
  unanswered : ∀ i q, s.client i = .blocked q →
    ∀ r ∈ rounds ++ s.server.over, r.req = q → r.ret ≠ 0

variable {P : Int → Prop} {s t : State ι} {a : Action ι} {acts : List (Action ι)}
  {rounds : List (Round ι)}

theorem inv_start : Inv P (start : State ι) [] where
  log := rfl
  inbox := nofun
  held := nofun
  past := nofun
  allowed := nofun
  sent := nofun
  own := nofun
  waits := nofun
  unanswered := nofun

theorem blocked_of_update [DecidableEq ι] {f : ι → Client ι} {c : Client ι} {i j : ι}
    {q : Request ι} (h : Function.update f i c j = .blocked q) :
    j = i ∧ c = .blocked q ∨ j ≠ i ∧ f j = .blocked q := by
  by_cases hj : j = i
  · subst hj
    rw [Function.update_self] at h
    exact Or.inl ⟨rfl, h⟩
  · rw [Function.update_of_ne hj] at h
    exact Or.inr ⟨hj, h⟩

theorem holds_of_mem_over {v : Server ι} {r : Round ι} (hr : r ∈ v.over) : v.holds r.req := by
  cases v with
  | free r' =>
    obtain rfl := List.mem_singleton.mp hr
    rfl
  | _ => cases hr

theorem le_update_succ [DecidableEq ι] (f : ι → Nat) (i j : ι) :
    f j ≤ Function.update f i (f i + 1) j := by
  by_cases hj : j = i
  · subst hj
    rw [Function.update_self]
    omega
  · rw [Function.update_of_ne hj]

/-- The number of a new request is taken by none before it. -/
theorem Inv.fresh {i : ι} {data : List UInt8} (hi : Inv P s rounds) :
    ∀ r ∈ rounds ++ s.server.over, r.req ≠ ⟨i, s.next i, data⟩ := by
  intro r hr heq
  have hlt : r.req.id < s.next r.req.client := by
    rcases List.mem_append.mp hr with hr | hr
    · exact hi.past r hr
    · exact hi.held r.req (holds_of_mem_over hr)
  rw [heq] at hlt
  exact lt_irrefl _ hlt

theorem inv_exchange [DecidableEq ι] {i : ι} {data : List UInt8} (hi : Inv P s rounds) :
    Inv P { s with
      client := Function.update s.client i (.blocked ⟨i, s.next i, data⟩)
      next := Function.update s.next i (s.next i + 1)
      inbox := s.inbox ++ [⟨i, s.next i, data⟩] } rounds := by
  have hnext := le_update_succ s.next i
  refine ⟨hi.log, ?_, fun q hq => (hi.held q hq).trans_le (hnext _),
    fun r hr => (hi.past r hr).trans_le (hnext _), hi.allowed, hi.sent, ?_, ?_, ?_⟩
  · intro q hq
    rcases List.mem_append.mp hq with hq | hq
    · exact (hi.inbox q hq).trans_le (hnext _)
    · obtain rfl := List.mem_singleton.mp hq
      simp
  · intro j q hq
    obtain ⟨rfl, hq⟩ | ⟨-, hq⟩ := blocked_of_update hq
    · rw [← Client.blocked.inj hq]
    · exact hi.own j q hq
  · intro j q hq
    obtain ⟨rfl, hq⟩ | ⟨-, hq⟩ := blocked_of_update hq
    · exact Or.inl (List.mem_append_right _ (List.mem_singleton.mpr (Client.blocked.inj hq).symm))
    · exact (hi.waits j q hq).imp_left (List.mem_append_left _)
  · intro j q hq r hr hrq
    obtain ⟨rfl, hq⟩ | ⟨-, hq⟩ := blocked_of_update hq
    · exact absurd (hrq.trans (Client.blocked.inj hq).symm) (hi.fresh r hr)
    · exact hi.unanswered j q hq r hr hrq

theorem inv_resend {i : ι} {q : Request ι} (hi : Inv P s rounds) (hc : s.client i = .blocked q) :
    Inv P { s with inbox := s.inbox ++ [q] } rounds := by
  refine { hi with inbox := ?_, waits := ?_ }
  · intro p hp
    rcases List.mem_append.mp hp with hp | hp
    · exact hi.inbox p hp
    · obtain rfl := List.mem_singleton.mp hp
      obtain hp | hp | ⟨r, hr, rfl⟩ := hi.waits i p hc
      · exact hi.inbox p hp
      · exact hi.held p hp
      · exact hi.past r hr
  · intro j p hp
    exact (hi.waits j p hp).imp_left (List.mem_append_left _)

theorem inv_back [DecidableEq ι] {i : ι} (hi : Inv P s rounds) :
    Inv P { s with client := Function.update s.client i .ready } rounds := by
  have hback : ∀ {j q}, Function.update s.client i .ready j = .blocked q →
      s.client j = .blocked q := by
    intro j q hq
    obtain ⟨-, hq⟩ | ⟨-, hq⟩ := blocked_of_update hq
    · cases hq
    · exact hq
  exact { hi with
    own := fun j q hq => hi.own j q (hback hq)
    waits := fun j q hq => hi.waits j q (hback hq)
    unanswered := fun j q hq => hi.unanswered j q (hback hq) }

theorem inv_recv {q : Request ι} {pre post : List (Request ι)} (hi : Inv P s rounds)
    (hs : s.server = .recv) (hq : s.inbox = pre ++ q :: post) :
    Inv P { s with server := .callback q, inbox := pre ++ post, log := s.log ++ [.received q] }
      rounds := by
  have hsub : ∀ p ∈ pre ++ post, p ∈ s.inbox := by
    intro p hp
    rw [hq]
    rcases List.mem_append.mp hp with hp | hp
    · exact List.mem_append_left _ hp
    · exact List.mem_append_right _ (List.mem_cons_of_mem _ hp)
  have hlog := hi.log
  have hover := hi.allowed
  have hnone := hi.unanswered
  rw [hs] at hlog hover hnone
  refine ⟨?_, fun p hp => hi.inbox p (hsub p hp), ?_, hi.past, hover, nofun, hi.own, ?_, hnone⟩
  · rw [hlog]
    simp [Server.pending]
  · rintro p rfl
    exact hi.inbox q (by simp [hq])
  · intro j p hp
    obtain hp | hp | hp := hi.waits j p hp
    · rw [hq, List.mem_append, List.mem_cons] at hp
      rcases hp with hp | rfl | hp
      · exact Or.inl (List.mem_append_left _ hp)
      · exact Or.inr (Or.inl rfl)
      · exact Or.inl (List.mem_append_right _ hp)
    · rw [hs] at hp
      cases hp
    · exact Or.inr (Or.inr hp)

/-- The server moves on with its request, or with none, and nothing else changes. -/
theorem inv_server {v : Server ι} (hi : Inv P s rounds) (hp : v.pending = s.server.pending)
    (hh : ∀ q, v.holds q ↔ s.server.holds q) (ha : ∀ r ∈ v.over, P r.ret ∧ r.ret ≠ 0)
    (hs : ∀ r, v = .send r → r.ret = 0 ∧ P r.ret) : Inv P { s with server := v } rounds where
  log := by
    rw [hp]
    exact hi.log
  inbox := hi.inbox
  held q hq := hi.held q ((hh q).mp hq)
  past := hi.past
  allowed r hr := by
    rcases List.mem_append.mp hr with hr | hr
    · exact hi.allowed r (List.mem_append_left _ hr)
    · exact (ha r hr).1
  sent := hs
  own := hi.own
  waits j q hq := by
    rw [hh]
    exact hi.waits j q hq
  unanswered j q hq r hr hrq := by
    rcases List.mem_append.mp hr with hr | hr
    · exact hi.unanswered j q hq r (List.mem_append_left _ hr) hrq
    · exact (ha r hr).2

theorem inv_callback {q : Request ι} {ret : Int} {out : List UInt8} (hi : Inv P s rounds)
    (hs : s.server = .callback q) (hret : P ret) :
    Inv P { s with server := Round.next ⟨q, ret, out⟩ } rounds := by
  by_cases h0 : ret = 0
  · have hnext : Round.next (⟨q, ret, out⟩ : Round ι) = .send ⟨q, ret, out⟩ := if_pos h0
    rw [hnext]
    refine inv_server hi (by rw [hs]; rfl) (fun p => by rw [hs]; rfl) nofun ?_
    rintro r ⟨⟩
    exact ⟨h0, hret⟩
  · have hnext : Round.next (⟨q, ret, out⟩ : Round ι) = .free ⟨q, ret, out⟩ := if_neg h0
    rw [hnext]
    refine inv_server hi ?_ (fun p => by rw [hs]; rfl) ?_ nofun
    · rw [hs]
      exact if_neg h0
    · intro r hr
      obtain rfl := List.mem_singleton.mp hr
      exact ⟨hret, h0⟩

@[simp] theorem returned_next (r : Round ι) : r.next.returned = [r] := by
  rw [Round.next]
  split_ifs <;> rfl

/-- A client that waits behind a reply waited before it, for another one. -/
theorem Inv.blocked_of_reply [DecidableEq ι] {r : Round ι} {j : ι} {q : Request ι}
    (hi : Inv P s rounds) (hq : Function.update s.client r.req.client
      ((s.client r.req.client).reply r) j = .blocked q) : s.client j = .blocked q ∧ q ≠ r.req := by
  obtain ⟨rfl, hreply⟩ | ⟨hj, hq⟩ := blocked_of_update hq
  · cases hc : s.client r.req.client with
    | blocked p =>
      simp only [hc, Client.reply] at hreply
      split_ifs at hreply with hp
      obtain rfl := Client.blocked.inj hreply
      exact ⟨rfl, hp⟩
    | ready =>
      rw [hc] at hreply
      cases hreply
    | answered out =>
      rw [hc] at hreply
      cases hreply
  · refine ⟨hq, ?_⟩
    rintro rfl
    exact hj (hi.own j r.req hq).symm

/-- A reply reaches the client that waits for it, and leaves the others waiting. -/
theorem inv_send [DecidableEq ι] {r : Round ι} (hi : Inv P s rounds) (hs : s.server = .send r) :
    Inv P { s with
      server := .free r
      client := Function.update s.client r.req.client ((s.client r.req.client).reply r)
      log := s.log ++ [.replied r.req r.out] } rounds := by
  obtain ⟨h0, hret⟩ := hi.sent r hs
  have hlog := hi.log
  rw [hs] at hlog
  refine ⟨?_, hi.inbox, fun q hq => hi.held q (hs ▸ hq), hi.past, ?_, nofun,
    fun j q hq => hi.own j q (hi.blocked_of_reply hq).1, ?_, ?_⟩
  · rw [hlog]
    simp [Server.pending, h0]
  · intro r' hr'
    rcases List.mem_append.mp hr' with hr' | hr'
    · exact hi.allowed r' (List.mem_append_left _ hr')
    · obtain rfl := List.mem_singleton.mp hr'
      exact hret
  · intro j q hq
    have hw := hi.waits j q (hi.blocked_of_reply hq).1
    rw [hs] at hw
    exact hw
  · intro j q hq r' hr' hrq
    rcases List.mem_append.mp hr' with hr' | hr'
    · exact hi.unanswered j q (hi.blocked_of_reply hq).1 r' (List.mem_append_left _ hr') hrq
    · obtain rfl := List.mem_singleton.mp hr'
      exact absurd hrq.symm (hi.blocked_of_reply hq).2

theorem inv_free {r : Round ι} (hi : Inv P s rounds) (hs : s.server = .free r) :
    Inv P { s with server := .recv, log := s.log ++ [.freed r.req] } (rounds ++ [r]) := by
  have hlog := hi.log
  have hallowed := hi.allowed
  have hnone := hi.unanswered
  rw [hs] at hlog hallowed hnone
  refine ⟨?_, hi.inbox, nofun, ?_, ?_, nofun, hi.own, ?_, ?_⟩
  · rw [hlog, List.flatMap_append, List.flatMap_singleton, Round.events]
    simp only [Server.pending]
    split_ifs <;> simp
  · intro r' hr'
    rcases List.mem_append.mp hr' with hr' | hr'
    · exact hi.past r' hr'
    · obtain rfl := List.mem_singleton.mp hr'
      exact hi.held r'.req (hs ▸ rfl)
  · simpa only [Server.over, List.append_nil] using hallowed
  · intro j q hq
    obtain hw | hw | ⟨r', hr', hrq⟩ := hi.waits j q hq
    · exact Or.inl hw
    · rw [hs] at hw
      exact Or.inr (Or.inr ⟨r, by simp, hw⟩)
    · exact Or.inr (Or.inr ⟨r', List.mem_append_left _ hr', hrq⟩)
  · simpa only [Server.over, List.append_nil] using hnone

/-- A step ends no round but the one in hand, and begins one with what the callback returns. -/
theorem inv_step [DecidableEq ι] (h : Step s a t) (ha : Returns P s a) (hi : Inv P s rounds) :
    ∃ rounds', Inv P t rounds' ∧ rounds' ++ t.server.returned =
      rounds ++ s.server.returned ++ a.returns s.server.asked := by
  cases h with
  | exchange hc => exact ⟨rounds, inv_exchange hi, (List.append_nil _).symm⟩
  | resend hc => exact ⟨rounds, inv_resend hi hc, (List.append_nil _).symm⟩
  | back hc => exact ⟨rounds, inv_back hi, (List.append_nil _).symm⟩
  | recv hs hq =>
    refine ⟨rounds, inv_recv hi hs hq, ?_⟩
    rw [hs]
    simp [Server.returned, Action.returns]
  | recvFail hs =>
    refine ⟨rounds, inv_server hi (by rw [hs]; rfl) (fun q => by rw [hs]; rfl) nofun nofun, ?_⟩
    rw [hs]
    simp [Server.returned, Action.returns]
  | @callback q ret out hs =>
    refine ⟨rounds, inv_callback hi hs ha, ?_⟩
    rw [hs, returned_next]
    simp [Server.returned, Server.asked, Action.returns]
  | send hs =>
    refine ⟨rounds, inv_send hi hs, ?_⟩
    rw [hs]
    simp [Server.returned, Action.returns]
  | sendFail hs =>
    refine ⟨rounds, inv_server hi (by rw [hs]; rfl) (fun q => by rw [hs]; rfl) nofun nofun, ?_⟩
    rw [hs]
    simp [Server.returned, Action.returns]
  | free hs =>
    refine ⟨_, inv_free hi hs, ?_⟩
    rw [hs]
    simp [Server.returned, Action.returns]

theorem asked_step [DecidableEq ι] (h : Step s a t) :
    t.server.asked = a.asks s.server.asked := by
  cases h with
  | callback hs =>
    rw [hs]
    simp only [Round.next]
    split_ifs <;> rfl
  | recvFail hs | send hs | sendFail hs | free hs =>
    rw [hs]
    rfl
  | exchange | resend | back | recv => rfl

/-- Behind a run the rounds are those over, and the one that the callback has returned in. -/
theorem inv_mtr [DecidableEq ι] (h : Lts.MTr (Lts.Restrict Step (Returns P)) s acts t)
    (hi : Inv P s rounds) : ∃ rounds', Inv P t rounds' ∧ rounds' ++ t.server.returned =
      rounds ++ s.server.returned ++ called s.server.asked acts := by
  induction h generalizing rounds with
  | refl => exact ⟨rounds, hi, (List.append_nil _).symm⟩
  | stepL h _ ih =>
    obtain ⟨rounds', hi', hret⟩ := inv_step h.1 h.2 hi
    obtain ⟨rounds'', hi'', hret'⟩ := ih hi'
    refine ⟨rounds'', hi'', ?_⟩
    rw [hret', hret, asked_step h.1, called, List.append_assoc _ _ (called _ _)]

theorem inv_run [DecidableEq ι] (h : Lts.MTr (Lts.Restrict Step (Returns P)) start acts s) :
    ∃ rounds, Inv P s rounds ∧ called none acts = rounds ++ s.server.returned := by
  obtain ⟨rounds, hi, hret⟩ := inv_mtr h inv_start
  exact ⟨rounds, hi, hret.symm⟩

/-- The callback may return anything. -/
theorem mtr_returns [DecidableEq ι] (h : Lts.MTr Step s acts t) :
    Lts.MTr (Lts.Restrict Step (Returns fun _ => True)) s acts t := by
  induction h with
  | refl => exact .refl
  | stepL h _ ih =>
    refine .stepL ⟨h, ?_⟩ ih
    cases h <;> trivial

/-- Between two rounds every request received has one reply, and the client that waits for one has
its request on the way. -/
def OneReply (s : State ι) : Prop :=
  s.server = .recv →
    (∃ rounds : List (Round ι), s.log = rounds.flatMap fun r =>
      [.received r.req, .replied r.req r.out, .freed r.req]) ∧
    ∀ i q, s.client i = .blocked q → q ∈ s.inbox

/-- With a callback that does not fail every request has its one reply. -/
theorem one_reply_of_success [DecidableEq ι]
    (h : Lts.MTr (Lts.Restrict Step (Returns (· = 0))) start acts s) : OneReply s := by
  obtain ⟨rounds, hi, -⟩ := inv_run h
  intro hs
  have hlog := hi.log
  rw [hs, Server.pending, List.append_nil] at hlog
  have hzero : ∀ r ∈ rounds, r.ret = 0 := fun r hr => hi.allowed r (List.mem_append_left _ hr)
  refine ⟨⟨rounds, hlog.trans ?_⟩, ?_⟩
  · refine congrArg List.flatten (List.map_congr_left fun r hr => ?_)
    rw [Round.events, if_pos (hzero r hr)]
  · intro i q hq
    obtain hw | hw | ⟨r, hr, hrq⟩ := hi.waits i q hq
    · exact hw
    · rw [hs] at hw
      cases hw
    · exact absurd (hzero r hr) (hi.unanswered i q hq r (List.mem_append_left _ hr) hrq)

end Freak.Utils.Reqrep
