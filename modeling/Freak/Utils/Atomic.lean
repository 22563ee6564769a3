import Freak.Utils.Reqrep

/-! What requests and replies come to when the callback keeps a state: calls that take effect one at
a time, each while its client waits for it. -/
namespace Freak.Utils.Reqrep

/-- What is seen of a step. A client knows its request by its number. -/
inductive Mark (ι C : Type)
  | asked (q : Request ι) (c : C)
  | again (q : Request ι)
  | ran (q : Request ι) (c : C) (out : List UInt8)
  | told (x : ι × Nat) (c : C) (out : List UInt8)
  | passed

/-- A client, and which of its requests. -/
def Request.name {ι : Type} (q : Request ι) : ι × Nat := (q.client, q.id)

/-- The connections, the state behind the callback, and which call a request was sent for. -/
structure Service (ι C σ : Type) where
  net : State ι
  store : σ
  made : ι × Nat → C

/-- The routine's steps but the callback. -/
def Action.Routine {ι : Type} : Action ι → Prop
  | .recv _ | .recvFail | .send | .sendFail | .free => True
  | .exchange _ _ | .resend _ | .back _ | .callback _ _ => False

section

variable {ι C σ : Type} [DecidableEq ι] (Sends : C → List UInt8 → Prop)
  (Handle : σ → C → List UInt8 → List UInt8 → σ → Prop)

/-- Clients that send what their calls come to, and a callback that always puts out a reply. -/
inductive Serves : Service ι C σ → Mark ι C → Service ι C σ → Prop
  | exchange {s : Service ι C σ} {net : State ι} {i : ι} {c : C} {data : List UInt8}
      (hc : Sends c data) (h : Step s.net (.exchange i data) net) :
      Serves s (.asked ⟨i, s.net.next i, data⟩ c)
        ⟨net, s.store, Function.update s.made (i, s.net.next i) c⟩
  | resend {s : Service ι C σ} {net : State ι} {i : ι} {q : Request ι}
      (hq : s.net.client i = .blocked q) (h : Step s.net (.resend i) net) :
      Serves s (.again q) { s with net := net }
  | callback {s : Service ι C σ} {net : State ι} {q : Request ι} {out : List UInt8} {store : σ}
      (hq : s.net.server = .callback q) (hh : Handle s.store (s.made q.name) q.data out store)
      (h : Step s.net (.callback 0 out) net) :
      Serves s (.ran q (s.made q.name) out) { s with net := net, store := store }
  | back {s : Service ι C σ} {net : State ι} {i : ι} {n : Nat} {out : List UInt8}
      (hc : s.net.client i = .answered out) (hn : s.net.next i = n + 1)
      (h : Step s.net (.back i) net) :
      Serves s (.told (i, n) (s.made (i, n)) out) { s with net := net }
  | routine {s : Service ι C σ} {net : State ι} {a : Action ι} (ha : a.Routine)
      (h : Step s.net a net) : Serves s .passed { s with net := net }

end

namespace Mark

variable {ι C : Type}

/-- A run of the callback: the request, the call that it was sent for, and the reply. -/
def run : Mark ι C → Option (Request ι × C × List UInt8)
  | ran q c out => some (q, c, out)
  | _ => none

def repeated : Mark ι C → Option (Request ι)
  | again q => some q
  | _ => none

end Mark

/-- The runs of the callback, in their order. -/
def runs {ι C : Type} (ms : List (Mark ι C)) : List (Request ι × C × List UInt8) :=
  ms.filterMap Mark.run

/-- The requests that the library has sent again. -/
def repeats {ι C : Type} (ms : List (Mark ι C)) : List (Request ι) := ms.filterMap Mark.repeated

/-- Whether a request is with the callback. -/
def Server.calls {ι : Type} [DecidableEq ι] (v : Server ι) (q : Request ι) : Nat :=
  match v with
  | .callback p => if p = q then 1 else 0
  | _ => 0

section

variable {ι C σ : Type} [DecidableEq ι]

/-- A request on the way was asked, one with a reply was run, and none is run more often than it was
sent. -/
structure Past (ms : List (Mark ι C)) (s : Service ι C σ) : Prop where
  next : ∀ q c, .asked q c ∈ ms → q.id < s.net.next q.client ∧ s.made q.name = c
  unique : ∀ q c q' c', .asked q c ∈ ms → .asked q' c' ∈ ms → q.name = q'.name → q = q'
  inbox : ∀ q ∈ s.net.inbox, .asked q (s.made q.name) ∈ ms
  held : ∀ q, s.net.server = .callback q → .asked q (s.made q.name) ∈ ms
  ran : ∀ q c out, .ran q c out ∈ ms → .asked q c ∈ ms
  sent : ∀ r, s.net.server = .send r → .ran r.req (s.made r.req.name) r.out ∈ ms
  waits : ∀ i q, s.net.client i = .blocked q →
    q.client = i ∧ q.id + 1 = s.net.next i ∧ .asked q (s.made q.name) ∈ ms
  answered : ∀ i out, s.net.client i = .answered out →
    ∃ q, q.client = i ∧ q.id + 1 = s.net.next i ∧ .ran q (s.made q.name) out ∈ ms
  count : ∀ q, s.net.inbox.count q + s.net.server.calls q + ((runs ms).map Prod.fst).count q ≤
    (repeats ms).count q + 1

variable {Sends : C → List UInt8 → Prop} {Handle : σ → C → List UInt8 → List UInt8 → σ → Prop}
  {s t : Service ι C σ} {ms : List (Mark ι C)} {m : Mark ι C} {net : State ι}

omit [DecidableEq ι] in
theorem runs_append {ms' : List (Mark ι C)} : runs (ms ++ ms') = runs ms ++ runs ms' :=
  List.filterMap_append

omit [DecidableEq ι] in
theorem mem_runs {x : Request ι × C × List UInt8} : x ∈ runs ms ↔ .ran x.1 x.2.1 x.2.2 ∈ ms := by
  simp only [runs, List.mem_filterMap]
  constructor
  · rintro ⟨m, hm, hrun⟩
    cases m with
    | ran q c out =>
      obtain rfl := Option.some.inj hrun
      exact hm
    | _ => cases hrun
  · exact fun hm => ⟨_, hm, rfl⟩

theorem past_start {store : σ} {made : ι × Nat → C} :
    Past [] (⟨start, store, made⟩ : Service ι C σ) where
  next := nofun
  unique := nofun
  inbox := nofun
  held := nofun
  ran := nofun
  sent := nofun
  waits := nofun
  answered := nofun
  count _ := Nat.zero_le _

theorem answered_of_update {f : ι → Client ι} {c : Client ι} {i j : ι}
    {out : List UInt8} (h : Function.update f i c j = .answered out) :
    j = i ∧ c = .answered out ∨ j ≠ i ∧ f j = .answered out := by
  by_cases hj : j = i
  · subst hj
    rw [Function.update_self] at h
    exact .inl ⟨rfl, h⟩
  · rw [Function.update_of_ne hj] at h
    exact .inr ⟨hj, h⟩

/-- The name of a new request is taken by none before it. -/
theorem Past.name_ne {q : Request ι} {c : C} {i : ι} (hp : Past ms s) (hq : .asked q c ∈ ms) :
    q.name ≠ (i, s.net.next i) := by
  intro h
  obtain ⟨hlt, -⟩ := hp.next q c hq
  obtain ⟨rfl, hid⟩ := Prod.mk.inj h
  omega

/-- A new request is nowhere yet. -/
theorem Past.fresh {i : ι} {data : List UInt8} (hp : Past ms s) :
    s.net.inbox.count ⟨i, s.net.next i, data⟩ = 0 ∧
      s.net.server.calls ⟨i, s.net.next i, data⟩ = 0 ∧
      ((runs ms).map Prod.fst).count ⟨i, s.net.next i, data⟩ = 0 := by
  have hno : ∀ c, .asked ⟨i, s.net.next i, data⟩ c ∉ ms := fun c hc => hp.name_ne hc rfl
  refine ⟨List.count_eq_zero.mpr fun h => hno _ (hp.inbox _ h), ?_, List.count_eq_zero.mpr ?_⟩
  · cases hs : s.net.server with
    | callback p =>
      refine if_neg ?_
      rintro rfl
      exact hno _ (hp.held _ hs)
    | _ => rfl
  · intro h
    obtain ⟨⟨q, c, out⟩, hmem, rfl⟩ := List.mem_map.mp h
    exact hno _ (hp.ran _ _ _ (mem_runs.mp hmem))

theorem past_exchange {i : ι} {c : C} {data : List UInt8} (hp : Past ms s) :
    Past (ms ++ [.asked ⟨i, s.net.next i, data⟩ c])
      ⟨{ s.net with
          client := Function.update s.net.client i (.blocked ⟨i, s.net.next i, data⟩)
          next := Function.update s.net.next i (s.net.next i + 1)
          inbox := s.net.inbox ++ [⟨i, s.net.next i, data⟩] }, s.store,
        Function.update s.made (i, s.net.next i) c⟩ := by
  have hnext := le_update_succ s.net.next i
  have hmade : ∀ q c', .asked q c' ∈ ms →
      Function.update s.made (i, s.net.next i) c q.name = s.made q.name :=
    fun q c' hq => Function.update_of_ne (hp.name_ne hq) _ _
  have hnew : Function.update s.made (i, s.net.next i) c (i, s.net.next i) = c :=
    Function.update_self _ _ _
  have hold : ∀ q, .asked q (s.made q.name) ∈ ms →
      .asked q (Function.update s.made (i, s.net.next i) c q.name) ∈
        ms ++ [.asked ⟨i, s.net.next i, data⟩ c] := by
    intro q hq
    rw [hmade q _ hq]
    exact List.mem_append_left _ hq
  have hran : ∀ q out, .ran q (s.made q.name) out ∈ ms →
      .ran q (Function.update s.made (i, s.net.next i) c q.name) out ∈
        ms ++ [.asked ⟨i, s.net.next i, data⟩ c] := by
    intro q out hq
    rw [hmade q _ (hp.ran _ _ _ hq)]
    exact List.mem_append_left _ hq
  have hlast : .asked ⟨i, s.net.next i, data⟩
      (Function.update s.made (i, s.net.next i) c (i, s.net.next i)) ∈
        ms ++ [.asked ⟨i, s.net.next i, data⟩ c] := by
    rw [hnew]
    exact List.mem_append_right _ (List.mem_singleton_self _)
  have hasked : ∀ q c', .asked q c' ∈ ms ++ [.asked ⟨i, s.net.next i, data⟩ c] →
      .asked q c' ∈ ms ∨ q = ⟨i, s.net.next i, data⟩ ∧ c' = c := by
    intro q c' hq
    simpa using hq
  refine ⟨?_, ?_, ?_, fun q hq => hold q (hp.held q hq), ?_, fun r hr => hran _ _ (hp.sent r hr),
    ?_, ?_, ?_⟩
  · intro q c' hq
    obtain hq | ⟨rfl, rfl⟩ := hasked q c' hq
    · obtain ⟨hlt, hc⟩ := hp.next q c' hq
      exact ⟨hlt.trans_le (hnext _), (hmade q c' hq).trans hc⟩
    · exact ⟨by simp, hnew⟩
  · intro q a q' a' hq hq' hname
    rcases hasked q a hq, hasked q' a' hq' with ⟨hq | ⟨rfl, -⟩, hq' | ⟨rfl, -⟩⟩
    · exact hp.unique q a q' a' hq hq' hname
    · exact absurd hname (hp.name_ne hq)
    · exact absurd hname.symm (hp.name_ne hq')
    · rfl
  · intro q hq
    rcases List.mem_append.mp hq with hq | hq
    · exact hold q (hp.inbox q hq)
    · obtain rfl := List.mem_singleton.mp hq
      exact hlast
  · intro q c' out hq
    exact List.mem_append_left _ (hp.ran q c' out (by simpa using hq))
  · intro j q hq
    obtain ⟨rfl, hq⟩ | ⟨hj, hq⟩ := blocked_of_update hq
    · obtain rfl := Client.blocked.inj hq
      exact ⟨rfl, (Function.update_self j _ s.net.next).symm, hlast⟩
    · obtain ⟨hc, hn, hq⟩ := hp.waits j q hq
      exact ⟨hc, hn.trans (Function.update_of_ne hj _ s.net.next).symm, hold q hq⟩
  · intro j out hq
    obtain ⟨-, hq⟩ | ⟨hj, hq⟩ := answered_of_update hq
    · cases hq
    · obtain ⟨q, hc, hn, hq⟩ := hp.answered j out hq
      exact ⟨q, hc, hn.trans (Function.update_of_ne hj _ s.net.next).symm, hran q out hq⟩
  · intro q
    have hcount := hp.count q
    simp only [runs_append, List.map_append, List.count_append]
    have hnone : runs [(.asked ⟨i, s.net.next i, data⟩ c : Mark ι C)] = [] := rfl
    have hsame : repeats (ms ++ [.asked ⟨i, s.net.next i, data⟩ c]) = repeats ms := by
      simp [repeats, Mark.repeated]
    rw [hnone, hsame, List.map_nil, List.count_nil]
    by_cases hq : q = ⟨i, s.net.next i, data⟩
    · subst hq
      obtain ⟨hin, hheld, hrun⟩ := @Past.fresh _ _ _ _ _ _ i data hp
      rw [hin, hheld, hrun, List.count_singleton_self]
      omega
    · rw [List.count_singleton, beq_eq_false_iff_ne.mpr (Ne.symm hq)]
      simpa using hcount

/-- A step at which no call is made. -/
theorem Past.of {store : σ} (hp : Past ms s) (hm : ∀ q c, m ≠ .asked q c)
    (hnext : net.next = s.net.next) (hinbox : ∀ q ∈ net.inbox, .asked q (s.made q.name) ∈ ms)
    (hheld : ∀ q, net.server = .callback q → .asked q (s.made q.name) ∈ ms)
    (hran : ∀ q c out, m = .ran q c out → .asked q c ∈ ms)
    (hsent : ∀ r, net.server = .send r → .ran r.req (s.made r.req.name) r.out ∈ ms ++ [m])
    (hwaits : ∀ i q, net.client i = .blocked q → s.net.client i = .blocked q)
    (hanswered : ∀ i out, net.client i = .answered out → s.net.client i = .answered out ∨
      ∃ q, q.client = i ∧ q.id + 1 = net.next i ∧ .ran q (s.made q.name) out ∈ ms)
    (hcount : ∀ q, net.inbox.count q + net.server.calls q +
      ((runs (ms ++ [m])).map Prod.fst).count q ≤ (repeats (ms ++ [m])).count q + 1) :
    Past (ms ++ [m]) ⟨net, store, s.made⟩ := by
  have hasked : ∀ q c, .asked q c ∈ ms ++ [m] → .asked q c ∈ ms := by
    intro q c hq
    rcases List.mem_append.mp hq with hq | hq
    · exact hq
    · exact absurd (List.mem_singleton.mp hq).symm (hm q c)
  have hleft : ∀ {x}, x ∈ ms → x ∈ ms ++ [m] := fun hx => List.mem_append_left _ hx
  refine ⟨?_, ?_, fun q hq => hleft (hinbox q hq), fun q hq => hleft (hheld q hq), ?_, hsent, ?_,
    ?_, hcount⟩
  · intro q c hq
    rw [hnext]
    exact hp.next q c (hasked q c hq)
  · exact fun q c q' c' hq hq' => hp.unique q c q' c' (hasked q c hq) (hasked q' c' hq')
  · intro q c out hq
    rcases List.mem_append.mp hq with hq | hq
    · exact hleft (hp.ran q c out hq)
    · exact hleft (hran q c out (List.mem_singleton.mp hq).symm)
  · intro i q hq
    obtain ⟨hc, hn, hq⟩ := hp.waits i q (hwaits i q hq)
    exact ⟨hc, by rwa [hnext], hleft hq⟩
  · intro i out hout
    obtain hout | ⟨q, hc, hn, hq⟩ := hanswered i out hout
    · obtain ⟨q, hc, hn, hq⟩ := hp.answered i out hout
      exact ⟨q, hc, by rwa [hnext], hleft hq⟩
    · exact ⟨q, hc, hn, hleft hq⟩

/-- A mark that tells nothing of runs and repeats. -/
theorem Past.count_of {v : Server ι} {inbox : List (Request ι)} (hp : Past ms s)
    (hrun : m.run = none) (hrep : m.repeated = none)
    (hle : ∀ q, inbox.count q + v.calls q ≤ s.net.inbox.count q + s.net.server.calls q)
    (q : Request ι) : inbox.count q + v.calls q + ((runs (ms ++ [m])).map Prod.fst).count q ≤
      (repeats (ms ++ [m])).count q + 1 := by
  have hruns : runs (ms ++ [m]) = runs ms := by simp [runs, hrun]
  have hrepeats : repeats (ms ++ [m]) = repeats ms := by simp [repeats, hrep]
  have hcount := hp.count q
  have hq := hle q
  rw [hruns, hrepeats]
  omega

theorem past_resend {i : ι} {q : Request ι} (hp : Past ms s) (hq : s.net.client i = .blocked q) :
    Past (ms ++ [.again q]) { s with net := { s.net with inbox := s.net.inbox ++ [q] } } := by
  obtain ⟨-, -, hasked⟩ := hp.waits i q hq
  refine hp.of nofun rfl ?_ hp.held nofun (fun r hr => List.mem_append_left _ (hp.sent r hr))
    (fun _ _ h => h) (fun _ _ h => .inl h) ?_
  · intro p hin
    rcases List.mem_append.mp hin with hin | hin
    · exact hp.inbox p hin
    · obtain rfl := List.mem_singleton.mp hin
      exact hasked
  · intro p
    have hcount := hp.count p
    simp only [runs, repeats, List.filterMap_append, List.map_append, List.count_append,
      List.filterMap_cons, List.filterMap_nil, Mark.run, Mark.repeated, List.map_nil,
      List.count_nil] at hcount ⊢
    omega

theorem past_back {i : ι} {x : ι × Nat} {c : C} {out : List UInt8} (hp : Past ms s) :
    Past (ms ++ [.told x c out])
      { s with net := { s.net with client := Function.update s.net.client i .ready } } := by
  refine hp.of nofun rfl hp.inbox hp.held nofun
    (fun r hr => List.mem_append_left _ (hp.sent r hr)) ?_ ?_
    (hp.count_of rfl rfl fun _ => le_rfl)
  · intro j q hq
    obtain ⟨-, hq⟩ | ⟨-, hq⟩ := blocked_of_update hq
    · cases hq
    · exact hq
  · intro j out hout
    obtain ⟨-, hout⟩ | ⟨-, hout⟩ := answered_of_update hout
    · cases hout
    · exact .inl hout

theorem past_callback {q : Request ι} {out : List UInt8} {store : σ} (hp : Past ms s)
    (hq : s.net.server = .callback q) :
    Past (ms ++ [.ran q (s.made q.name) out])
      { s with net := { s.net with server := Round.next ⟨q, 0, out⟩ }, store := store } := by
  have hnext : Round.next (⟨q, 0, out⟩ : Round ι) = .send ⟨q, 0, out⟩ := if_pos rfl
  rw [hnext]
  refine hp.of nofun rfl hp.inbox nofun ?_ ?_ (fun _ _ h => h) (fun _ _ h => .inl h) ?_
  · rintro q' c out' ⟨⟩
    exact hp.held q hq
  · rintro r ⟨⟩
    exact List.mem_append_right _ (List.mem_singleton_self _)
  · intro p
    have hcount := hp.count p
    rw [hq] at hcount
    simp only [runs, repeats, List.filterMap_append, List.map_append, List.count_append,
      List.filterMap_cons, List.filterMap_nil, Mark.run, Mark.repeated, List.map_nil, List.map_cons,
      List.count_nil, Server.calls, List.count_singleton, beq_iff_eq] at hcount ⊢
    omega

theorem past_recv {q : Request ι} {pre post : List (Request ι)} {log : List (Event ι)}
    (hp : Past ms s) (hs : s.net.server = .recv) (hq : s.net.inbox = pre ++ q :: post) :
    Past (ms ++ [.passed])
      { s with net := { s.net with server := .callback q, inbox := pre ++ post, log := log } } := by
  refine hp.of nofun rfl ?_ ?_ nofun nofun (fun _ _ h => h) (fun _ _ h => .inl h)
    (hp.count_of rfl rfl fun p => ?_)
  · intro p hin
    refine hp.inbox p ?_
    rw [hq]
    rcases List.mem_append.mp hin with hin | hin
    · exact List.mem_append_left _ hin
    · exact List.mem_append_right _ (List.mem_cons_of_mem _ hin)
  · rintro p ⟨⟩
    refine hp.inbox q ?_
    rw [hq]
    simp
  · rw [hq, hs]
    simp only [List.count_append, List.count_cons, Server.calls, beq_iff_eq]
    omega

theorem blocked_of_reply {c : Client ι} {r : Round ι} {q : Request ι}
    (h : c.reply r = .blocked q) : c = .blocked q := by
  cases c with
  | blocked p =>
    rw [Client.reply] at h
    split_ifs at h
    exact h
  | _ => cases h

theorem answered_of_reply {c : Client ι} {r : Round ι} {out : List UInt8}
    (h : c.reply r = .answered out) : c = .answered out ∨ c = .blocked r.req ∧ out = r.out := by
  cases c with
  | blocked p =>
    rw [Client.reply] at h
    split_ifs at h with hp
    exact .inr ⟨by rw [hp], (Client.answered.inj h).symm⟩
  | _ => exact .inl h

/-- A reply is that of the request its client waits for. -/
theorem past_send {r : Round ι} {log : List (Event ι)} (hp : Past ms s)
    (hs : s.net.server = .send r) :
    Past (ms ++ [.passed])
      { s with net := { s.net with
        server := .free r
        client := Function.update s.net.client r.req.client ((s.net.client r.req.client).reply r)
        log := log } } := by
  refine hp.of nofun rfl hp.inbox nofun nofun nofun ?_ ?_ (hp.count_of rfl rfl fun p => ?_)
  · intro j q hq
    obtain ⟨rfl, hblocked⟩ | ⟨-, hblocked⟩ := blocked_of_update hq
    · exact blocked_of_reply hblocked
    · exact hblocked
  · intro j out hout
    obtain ⟨rfl, hreply⟩ | ⟨-, hreply⟩ := answered_of_update hout
    · obtain hreply | ⟨hc, rfl⟩ := answered_of_reply hreply
      · exact .inl hreply
      · obtain ⟨-, hn, -⟩ := hp.waits _ _ hc
        exact .inr ⟨r.req, rfl, hn, hp.sent r hs⟩
    · exact .inl hreply
  · rw [hs]
    exact le_rfl

/-- The routine moves on, and has no request in hand. -/
theorem past_server {v : Server ι} {log : List (Event ι)} (hp : Past ms s)
    (hcall : ∀ q, v ≠ .callback q) (hsend : ∀ r, v ≠ .send r) :
    Past (ms ++ [.passed]) { s with net := { s.net with server := v, log := log } } := by
  refine hp.of nofun rfl hp.inbox (fun q hq => absurd hq (hcall q)) nofun
    (fun r hr => absurd hr (hsend r)) (fun _ _ h => h) (fun _ _ h => .inl h)
    (hp.count_of rfl rfl fun q => ?_)
  have hnone : v.calls q = 0 := by
    cases v with
    | callback p => exact absurd rfl (hcall p)
    | _ => rfl
  rw [hnone]
  exact Nat.le_add_right _ _

theorem past_step (hp : Past ms s) (h : Serves Sends Handle s m t) : Past (ms ++ [m]) t := by
  cases h with
  | exchange _ h =>
    cases h
    exact past_exchange hp
  | resend hq h =>
    cases h with
    | resend hc =>
      obtain rfl := Client.blocked.inj (hc.symm.trans hq)
      exact past_resend hp hq
  | callback hq _ h =>
    cases h with
    | callback hs =>
      obtain rfl := Server.callback.inj (hs.symm.trans hq)
      exact past_callback hp hq
  | back _ _ h =>
    cases h
    exact past_back hp
  | routine ha h =>
    cases h with
    | recv hs hq => exact past_recv hp hs hq
    | recvFail _ => exact past_server hp nofun nofun
    | send hs => exact past_send hp hs
    | sendFail _ => exact past_server hp nofun nofun
    | free _ => exact past_server hp nofun nofun
    | exchange _ => cases ha
    | resend _ => cases ha
    | back _ => cases ha
    | callback _ => cases ha

variable {store : σ} {made : ι × Nat → C} {pre mid post : List (Mark ι C)} {q : Request ι} {c : C}
  {out : List UInt8}

theorem past_run (h : Lts.MTr (Serves Sends Handle) ⟨start, store, made⟩ ms t) : Past ms t :=
  Lts.mtr_history (I := Past) (fun _ _ _ _ hp h => past_step hp h) h past_start

/-- The callback is run for requests that have been made. -/
theorem asked_of_ran (h : Lts.MTr (Serves Sends Handle) ⟨start, store, made⟩ ms t)
    (hms : ms = pre ++ .ran q c out :: post) : .asked q c ∈ pre := by
  subst hms
  obtain ⟨u, hpre, hrest⟩ := Lts.mtr_append.mp h
  cases hrest with
  | stepL h _ =>
    cases h with
    | callback hq _ _ => exact (past_run hpre).held q hq

/-- What a client is told was put out for its request. -/
theorem ran_of_told {x : ι × Nat} (h : Lts.MTr (Serves Sends Handle) ⟨start, store, made⟩ ms t)
    (hms : ms = pre ++ .told x c out :: post) : ∃ q, q.name = x ∧ .ran q c out ∈ pre := by
  subst hms
  obtain ⟨u, hpre, hrest⟩ := Lts.mtr_append.mp h
  cases hrest with
  | stepL h _ =>
    cases h with
    | @back _ i n _ hc hn _ =>
      obtain ⟨q, rfl, hid, hran⟩ := (past_run hpre).answered i out hc
      obtain rfl : q.id = n := by omega
      exact ⟨q, rfl, hran⟩

/-- A call takes effect between its start and its end. -/
theorem ran_between {c' : C} (h : Lts.MTr (Serves Sends Handle) ⟨start, store, made⟩ ms t)
    (hms : ms = pre ++ .asked q c :: mid ++ .told q.name c' out :: post) :
    c' = c ∧ .ran q c out ∈ mid := by
  obtain ⟨q', hname, hran⟩ := ran_of_told h hms
  subst hms
  obtain ⟨v, hprefix, -⟩ := Lts.mtr_append.mp h
  have hpast := past_run hprefix
  have hasked : .asked q c ∈ pre ++ .asked q c :: mid := by simp
  obtain rfl := hpast.unique q' c' q c (hpast.ran q' c' out hran) hasked hname
  have hc : c' = c :=
    (hpast.next q' c' (hpast.ran q' c' out hran)).2.symm.trans (hpast.next q' c hasked).2
  subst hc
  refine ⟨rfl, ?_⟩
  rcases List.mem_append.mp hran with hran | hran
  · obtain ⟨u, hpre, hrest⟩ := Lts.mtr_append.mp hprefix
    cases hrest with
    | stepL h _ =>
      cases h with
      | exchange _ _ => exact absurd rfl ((past_run hpre).name_ne ((past_run hpre).ran _ _ _ hran))
  · rcases List.mem_cons.mp hran with hran | hran
    · cases hran
    · exact hran

/-- No request is run more often than it was sent. -/
theorem count_runs_le (h : Lts.MTr (Serves Sends Handle) ⟨start, store, made⟩ ms t)
    (q : Request ι) : ((runs ms).map Prod.fst).count q ≤ (repeats ms).count q + 1 := by
  have hcount := (past_run h).count q
  omega

/-- Nor is one run twice that the library has not sent again. -/
theorem ran_once {c' : C} {out' : List UInt8}
    (h : Lts.MTr (Serves Sends Handle) ⟨start, store, made⟩ ms t) (hms : ms = pre ++ post)
    (hno : q ∉ repeats ms) (hpre : .ran q c out ∈ pre) : .ran q c' out' ∉ post := by
  intro hpost
  have hcount := count_runs_le h q
  have hin : ∀ {c out} {ms : List (Mark ι C)}, .ran q c out ∈ ms →
      0 < ((runs ms).map Prod.fst).count q := by
    intro c out ms hq
    exact List.count_pos_iff.mpr (List.mem_map_of_mem (f := Prod.fst)
      (mem_runs (x := (q, c, out)).mpr hq))
  have hfirst := hin hpre
  have hsecond := hin hpost
  rw [List.count_eq_zero.mpr hno, hms, runs_append, List.map_append, List.count_append] at hcount
  omega

/-- A request whose call is over is not run any more. -/
theorem not_ran_of_told {c' : C} {out' : List UInt8}
    (h : Lts.MTr (Serves Sends Handle) ⟨start, store, made⟩ ms t) (hms : ms = pre ++ post)
    (hno : q ∉ repeats ms) (htold : .told q.name c out ∈ pre) : .ran q c' out' ∉ post := by
  intro hran
  obtain ⟨a, b, rfl⟩ := List.append_of_mem htold
  obtain ⟨p, hname, hp⟩ := ran_of_told h (hms.trans (List.append_assoc a _ post))
  have hpast := past_run h
  have hin : ∀ {m}, m ∈ a ++ .told q.name c out :: b ∨ m ∈ post → m ∈ ms := fun hm => by
    rwa [hms, List.mem_append]
  obtain rfl := hpast.unique p c q c' (hpast.ran p c out (hin (.inl (List.mem_append_left _ hp))))
    (hpast.ran q c' out' (hin (.inr hran))) hname
  exact ran_once h hms hno (List.mem_append_left _ hp) hran

theorem sends_of_asked (h : Lts.MTr (Serves Sends Handle) s ms t) (hq : .asked q c ∈ ms) :
    Sends c q.data := by
  induction h with
  | refl => cases hq
  | stepL h _ ih =>
    rcases List.mem_cons.mp hq with rfl | hq
    · cases h with
      | exchange hc _ => exact hc
    · exact ih hq

/-- The runs of the callback take the state along. -/
theorem mtr_runs (h : Lts.MTr (Serves Sends Handle) s ms t) :
    Lts.MTr (fun x (r : Request ι × C × List UInt8) y => Handle x r.2.1 r.1.data r.2.2 y) s.store
      (runs ms) t.store := by
  induction h with
  | refl => exact .refl
  | stepL h _ ih =>
    cases h with
    | callback hq hh _ => exact .stepL hh ih
    | exchange _ _ => exact ih
    | resend _ _ => exact ih
    | back _ _ _ => exact ih
    | routine _ _ => exact ih

end

end Freak.Utils.Reqrep
