import Freak.Manager.Network
import Freak.Proto.Wire
import Freak.Utils.Atomic

/-! The calls of the clients as they go over their connections: each is served while its client
waits, one after the other. -/
namespace Freak.Manager

open Bytes Json Schema Lts
open Freak.Proto (Action Key Node Server packageMaxsize Sent)
open Freak.Utils (Reqrep.Request Reqrep.Mark Reqrep.Service Reqrep.Serves)
open Freak.Utils.Reqrep (runs repeats)

/-- A call as its client makes it. -/
structure Asked where
  json : Bool
  key : Key
  action : Action
  sent : List UInt8

def Asked.call (c : Asked) (back : List UInt8) : Call := ⟨c.json, c.key, c.action, c.sent, back⟩

/-- A SET for an id of a manager. -/
def Asked.Sets (c : Asked) (k : Key) (i : Nat) : Prop :=
  c.action = .set ∧ c.key = k ∧ idOf c.sent = i

section

variable (h : Hal) (v : Server State) (n : Node)

/-- What a client sends. -/
def Asked.Sends (c : Asked) (data : List UInt8) : Prop :=
  (c.call []).Fair h n ∧
    ∃ ts, v.request c.json c.key c.action ((c.call []).record h).ty c.sent ts = .ok data

/-- What a client makes of a reply. -/
def Asked.post (c : Asked) (reply : List UInt8) : Run (List UInt8) :=
  v.clientPost c.json c.key ((c.call []).record h).ty reply c.sent

/-- `__rep_recv`, whatever the stack and the reply buffer held. -/
inductive Replies : State → List UInt8 → List UInt8 → State → Prop
  | mk {s t : State} {data stack obuf tail : List UInt8} {now : UInt64} {r : Sent}
      (hstack : stack.length = 428) (hobuf : obuf.length = packageMaxsize) (htail : tail.length = 2)
      (hr : v.msgboxDoHandler s data stack obuf now = .ok (t, r)) :
      Replies s data (r.bytes obuf tail) t

/-- The callback's run for a call whose texts are short. -/
def Handles (s : State) (c : Asked) (data reply : List UInt8) (t : State) : Prop :=
  Replies v s data reply t ∧ Short h v s (c.call [])

/-- A module and its clients. -/
def Connected {ι : Type} [DecidableEq ι] :
    Reqrep.Service ι Asked State → Reqrep.Mark ι Asked → Reqrep.Service ι Asked State → Prop :=
  Reqrep.Serves (Asked.Sends h v n) (Handles h v)

/-- A run of the handler, as a call that the module has served. -/
def Answers {ι : Type} (x : Reqrep.Request ι × Asked × List UInt8) (c : Call) : Prop :=
  ∃ back, c = x.2.1.call back ∧ x.2.1.post h v x.2.2 = .ok back

end

section

variable {h : Hal} {v : Server State} {n : Node} {s t : State} {data stack obuf tail : List UInt8}
  {ts now : UInt64} {r : Sent}

/-- The client finds a record in the reply. -/
theorem decoded_of_reply {c : Call} (hv : v.handler = h.handler n) (hshow : h.ShowsRecord)
    (hs : Sound h n s) (hfair : c.Fair h n) (hobuf : obuf.length = packageMaxsize)
    (hinp : v.request c.json c.key c.action (c.record h).ty c.sent ts = .ok data)
    (hr : v.msgboxDoHandler s data stack obuf now = .ok (t, r)) :
    ∃ back, v.dataIn c.json (c.record h).ty r.header.size.toNat r.data c.sent = .ok back := by
  obtain ⟨hops, hchn, htrigger⟩ := hfair.handled hv
  obtain ⟨hk, hd, -, hl, -⟩ := hfair
  have hrespects := @among_respects c.action h c.key 0 s hshow hd (hs c.key hk hd)
  rw [c.record_eq] at hinp hl ⊢
  obtain ⟨e, -, -, rfl⟩ := Proto.Server.request_eq_ok.mp hinp
  obtain ⟨-, -, -, ops, a, e', hops', ha, hfunc, hpack⟩ :=
    Proto.Server.msgboxDoHandler_eq_ok.mp hr
  have hread := @Proto.read_fillHeader ts (c.action.chn c.sent) c.key c.action c.json e.size
    (e.mem.take (e.size.toNat + 2))
  rw [hread] at hops' ha hfunc hpack
  -- it is the manager's call that answers
  obtain rfl := Option.some.inj (hops.symm.trans hops')
  have haction : (among c.key (h.ops c.key 0)).action (UInt32.ofNat c.action.value).toUInt8 =
      some c.action := Proto.Ops.action_of_value (by cases c.action <;> rfl) htrigger
  simp only [hchn] at ha hfunc
  obtain rfl := Option.some.inj (haction.symm.trans ha)
  obtain ⟨got, out, hgot, hcall, he'⟩ := Proto.Server.func_eq_ok.mp hfunc
  obtain ⟨hfits, rfl⟩ := Proto.Server.pack_eq_ok.mp hpack
  have hjson : ((UInt32.ofNat c.json.toNat).toUInt8 == 1) = c.json := by
    cases c.json <;> rfl
  simp only [hjson] at hgot he'
  refine Proto.Server.dataIn_reply he' (Proto.Server.length_drop_obuf hobuf) hfits
    (Proto.Record.size_le _) fun hj => hrespects.length got t out ?_ hcall
  simp only [hj, Server.dataIn, Bool.false_eq_true, if_false, Run.bind_eq_ok, Run.access_eq_ok,
    Run.assert_eq_ok, Run.pure_eq_ok, exists_const] at hgot
  obtain ⟨hsize, hle, rfl⟩ := hgot
  rw [List.length_take, ← hsize]
  exact min_eq_left hle

/-- A run of the handler for a client's request is a call that is served. -/
theorem serve_of_handles {c : Asked} {reply : List UInt8} (hv : v.handler = h.handler n)
    (hshow : h.ShowsRecord) (hs : Sound h n s) (hsends : c.Sends h v n data)
    (hh : Handles h v s c data reply t) :
    ∃ back, Serve h v n s (c.call back) t ∧ c.post h v reply = .ok back := by
  obtain ⟨hfair, ts, hinp⟩ := hsends
  obtain ⟨hh, hshort⟩ := hh
  cases hh with
  | mk hstack hobuf _ hr =>
    obtain ⟨back, hback⟩ := decoded_of_reply hv hshow hs hfair hobuf hinp hr
    obtain ⟨hcall, hpost⟩ := Proto.Server.clientCall_of_reply hobuf hinp hr hback
    have hfair' : (c.call back).Fair h n :=
      ⟨hfair.key, hfair.ne_dummy, hfair.tgr, hfair.length, hfair.terminated⟩
    exact ⟨back, ⟨.mk hfair' hstack hobuf hcall rfl, hshort⟩, hpost⟩

variable {ι : Type} {xs : List (Reqrep.Request ι × Asked × List UInt8)}

/-- The runs of the handler are calls that are served one after the other. -/
theorem serves_of_runs (hv : v.handler = h.handler n) (hnum : ∀ n, 0 ∉ v.numText n)
    (hlaw : v.cs.Lawful) (hshow : h.ShowsRecord) (hs : Sound h n s)
    (hrun : MTr (fun s (x : Reqrep.Request ι × Asked × List UInt8) t =>
      Handles h v s x.2.1 x.1.data x.2.2 t) s xs t)
    (hsends : ∀ x ∈ xs, x.2.1.Sends h v n x.1.data)
    (hread : ∀ x ∈ xs, Legible h v (x.2.1.call [])) :
    ∃ calls, MTr (Serve h v n) s calls t ∧ List.Forall₂ (Answers h v) xs calls ∧
      ∀ c ∈ calls, Legible h v c := by
  induction hrun with
  | refl => exact ⟨[], .refl, .nil, nofun⟩
  | @stepL s u t x xs hh _ ih =>
    obtain ⟨back, hserve, hpost⟩ := serve_of_handles hv hshow hs (hsends x List.mem_cons_self) hh
    have hread' : Legible h v (x.2.1.call back) := hread x List.mem_cons_self
    have hu := sound_step hv hnum hlaw hshow hs hread' hserve
    obtain ⟨calls, hcalls, hanswers, hlegible⟩ := ih hu
      (fun y hy => hsends y (List.mem_cons_of_mem _ hy))
      fun y hy => hread y (List.mem_cons_of_mem _ hy)
    exact ⟨x.2.1.call back :: calls, .stepL hserve hcalls, .cons ⟨back, rfl, hpost⟩ hanswers,
      List.forall_mem_cons.mpr ⟨hread', hlegible⟩⟩

/-- Calls that do not set the record leave the last that did. -/
theorem latest_of_answers {k : Key} {i : Nat} {served calls : List Call}
    (hcalls : List.Forall₂ (Answers h v) xs calls) (hno : ∀ x ∈ xs, ¬ x.2.1.Sets k i) :
    latest s k i (served ++ calls) = latest s k i served := by
  induction hcalls generalizing served with
  | nil => rw [List.append_nil]
  | @cons x c xs calls hx _ ih =>
    obtain ⟨back, rfl, -⟩ := hx
    have hskip : latest s k i (served ++ [x.2.1.call back]) = latest s k i served := by
      rw [latest_append]
      exact if_neg (hno x List.mem_cons_self)
    rw [List.append_cons, ih fun y hy => hno y (List.mem_cons_of_mem _ hy), hskip]

/-- A SET is the last one if no other is served behind it. -/
theorem latest_of_set {x : Reqrep.Request ι × Asked × List UInt8}
    {ys : List (Reqrep.Request ι × Asked × List UInt8)} {k : Key} {i : Nat} {calls : List Call}
    (hcalls : List.Forall₂ (Answers h v) (xs ++ x :: ys) calls) (hset : x.2.1.Sets k i)
    (hno : ∀ y ∈ ys, ¬ y.2.1.Sets k i) : latest s k i calls = x.2.1.sent := by
  have hsplit := List.forall₂_drop xs.length hcalls
  rw [List.drop_left] at hsplit
  obtain ⟨a, rest, ⟨back, rfl, -⟩, hrest, heq⟩ := List.forall₂_cons_left_iff.mp hsplit
  rw [← List.take_append_drop xs.length calls, heq, List.append_cons, latest_of_answers hrest hno,
    latest_append]
  exact if_pos hset

variable [DecidableEq ι] {made : ι × Nat → Asked}
  {ms pre mid gap mid' post : List (Reqrep.Mark ι Asked)}
  {u : Reqrep.Service ι Asked State}

section

variable (hv : v.handler = h.handler n) (hnum : ∀ n, 0 ∉ v.numText n) (hlaw : v.cs.Lawful)
  (hshow : h.ShowsRecord) (hs : Sound h n s)
  (hrun : MTr (Connected h v n) ⟨Utils.Reqrep.start, s, made⟩ ms u)
  (hread : ∀ q c, .asked q c ∈ ms → Legible h v (c.call []))
include hv hnum hlaw hshow hs hrun hread

theorem serves_of_marks :
    ∃ calls, MTr (Serve h v n) s calls u.store ∧ List.Forall₂ (Answers h v) (runs ms) calls ∧
      ∀ c ∈ calls, Legible h v c := by
  have hasked : ∀ x ∈ runs ms, .asked x.1 x.2.1 ∈ ms := fun x hx =>
    (Utils.Reqrep.past_run hrun).ran _ _ _ (Utils.Reqrep.mem_runs.mp hx)
  exact serves_of_runs hv hnum hlaw hshow hs (Utils.Reqrep.mtr_runs hrun)
    (fun x hx => Utils.Reqrep.sends_of_asked hrun (hasked x hx))
    fun x hx => hread _ _ (hasked x hx)

/-- However the messages of the clients and of the server are interleaved, the module serves the
calls one after the other: each in its handler's run for it, which lies between the call's start and
its end, and a client finds in its reply what its call was served with. No request is handled more
often than it was sent. -/
theorem calls_atomic : ∃ calls, MTr (Serve h v n) s calls u.store ∧
    List.Forall₂ (Answers h v) (runs ms) calls ∧
    (∀ pre q c out post, ms = pre ++ .ran q c out :: post → .asked q c ∈ pre) ∧
    (∀ pre q c mid c' out post, ms = pre ++ .asked q c :: mid ++ .told q.name c' out :: post →
      c' = c ∧ .ran q c out ∈ mid) ∧
    ∀ q, ((runs ms).map Prod.fst).count q ≤ (repeats ms).count q + 1 := by
  obtain ⟨calls, hcalls, hanswers, -⟩ := serves_of_marks hv hnum hlaw hshow hs hrun hread
  exact ⟨calls, hcalls, hanswers, fun _ _ _ _ _ hms => Utils.Reqrep.asked_of_ran hrun hms,
    fun _ _ _ _ _ _ _ hms => Utils.Reqrep.ran_between hrun hms,
    Utils.Reqrep.count_runs_le hrun⟩

/-- What a client reads is what another has written, when that SET was over before the GET began
and every other SET for the id that began before the GET's end was over before that SET. -/
theorem read_after_write {q q' : Reqrep.Request ι} {c c' c₁ c₂ : Asked} {out out' : List UInt8}
    {k : Key} {i : Nat}
    (hms : ms = pre ++ .asked q c :: mid ++ .told q.name c₁ out :: gap ++ .asked q' c' :: mid' ++
      .told q'.name c₂ out' :: post)
    (hset : c.Sets k i) (hget : c'.action = .get ∧ c'.key = k ∧ idOf c'.sent = i)
    (hno : repeats ms = [])
    (hothers : ∀ p d, .asked p d ∈ pre ++ mid ++ gap ++ mid' → d.Sets k i →
      ∃ o, .told p.name d o ∈ pre) :
    ∃ back, c'.post h v out' = .ok back ∧ ((c'.call []).record h).ty.Same back c.sent := by
  -- both calls have their runs, each while it lasts
  obtain ⟨-, hget'⟩ := Utils.Reqrep.ran_between hrun hms
  have hms' : ms = pre ++ .asked q c :: mid ++ .told q.name c₁ out ::
      (gap ++ .asked q' c' :: mid' ++ .told q'.name c₂ out' :: post) := by
    rw [hms]
    simp only [List.append_assoc, List.cons_append]
  obtain ⟨-, hset'⟩ := Utils.Reqrep.ran_between hrun hms'
  obtain ⟨m, m', rfl⟩ := List.append_of_mem hget'
  obtain ⟨l, l', rfl⟩ := List.append_of_mem hset'
  obtain ⟨early, hearly⟩ : ∃ early, early = pre ++ .asked q c :: l ++ [.ran q c out] := ⟨_, rfl⟩
  obtain ⟨late, hlate⟩ : ∃ late, late = l' ++ .told q.name c₁ out :: gap ++ .asked q' c' :: m :=
    ⟨_, rfl⟩
  have hsplit : ms = (early ++ late) ++ .ran q' c' out' ::
      (m' ++ .told q'.name c₂ out' :: post) := by
    rw [hms, hearly, hlate]
    simp only [List.append_assoc, List.cons_append, List.nil_append]
  have hclean : ∀ p, p ∉ repeats (early ++ late) := by
    rw [hsplit, repeats, List.filterMap_append, List.append_eq_nil_iff] at hno
    intro p
    rw [repeats, hno.1]
    exact List.not_mem_nil
  have hread' : ∀ p d, .asked p d ∈ early ++ late → Legible h v (d.call []) := by
    intro p d hp
    refine hread p d ?_
    rw [hsplit]
    exact List.mem_append_left _ hp
  rw [Connected, hsplit] at hrun
  obtain ⟨w, hbefore, hrest⟩ := mtr_append.mp hrun
  have hpast := Utils.Reqrep.past_run hbefore
  -- no other SET for the id is served in between
  have hnone : ∀ y ∈ runs late, ¬ y.2.1.Sets k i := by
    rintro ⟨p, d, o⟩ hy hd
    have hran := Utils.Reqrep.mem_runs.mp hy
    have hasked := hpast.ran p d o (List.mem_append_right _ hran)
    have hwhere : .asked p d ∈ pre ++ (l ++ .ran q c out :: l') ++ gap ++
        (m ++ .ran q' c' out' :: m') ∨ p = q ∨ d = c' := by
      rw [hearly, hlate] at hasked
      simp only [List.mem_append, List.mem_cons, List.not_mem_nil, or_false, reduceCtorEq,
        Reqrep.Mark.asked.injEq] at hasked ⊢
      clear * - hasked
      tauto
    obtain hother | rfl | rfl := hwhere
    · obtain ⟨o', htold⟩ := hothers p d hother hd
      have hover : .told p.name d o' ∈ early := by
        rw [hearly]
        simp [htold]
      exact Utils.Reqrep.not_ran_of_told hbefore rfl (hclean p) hover hran
    · have hthere : .ran p c out ∈ early := by
        rw [hearly]
        simp
      exact Utils.Reqrep.ran_once hbefore rfl (hclean p) hthere hran
    · have hnot : Action.get = .set := hget.1.symm.trans hd.1
      cases hnot
  obtain ⟨calls, hcalls, hanswers, hlegible⟩ :=
    serves_of_marks hv hnum hlaw hshow hs hbefore hread'
  have hruns : runs (early ++ late) =
      runs (pre ++ .asked q c :: l) ++ (q, c, out) :: runs late := by
    rw [hearly, Utils.Reqrep.runs_append, Utils.Reqrep.runs_append, List.append_assoc]
    rfl
  rw [hruns] at hanswers
  have hlatest : latest s k i calls = c.sent := latest_of_set hanswers hset hnone
  -- the GET is told the record of the last one
  have htracks := tracks_run hv hnum hlaw hshow hcalls (tracks_start hs) hlegible
  rw [List.nil_append] at htracks
  have hasked : .asked q' c' ∈ ms := by
    rw [hms]
    simp
  have hsends : c'.Sends h v n q'.data := Utils.Reqrep.sends_of_asked hrun (hsplit ▸ hasked)
  cases hrest with
  | stepL hstep _ =>
    cases hstep with
    | callback _ hh _ =>
      obtain ⟨back, hserve, hpost⟩ := serve_of_handles hv hshow htracks.sound hsends hh
      refine ⟨back, hpost, ?_⟩
      have hlegible' : Legible h v ((w.made q'.name).call back) := hread q' _ hasked
      have hanswer := answer_step hv hnum hlaw hshow htracks hlegible' hserve
      have htold : ((w.made q'.name).call back).answer s calls = latest s k i calls := by
        simp only [Call.answer, Asked.call, hget.1, hget.2.1, hget.2.2, Int.toNat_natCast]
      rwa [htold, hlatest] at hanswer

end

/-- What a module serves goes over the connections. -/
theorem handles_of_serve {c : Asked} {back : List UInt8} (hserve : Serve h v n s (c.call back) t) :
    ∃ data reply, c.Sends h v n data ∧ Handles h v s c data reply t := by
  obtain ⟨hserve, hshort⟩ := hserve
  cases hserve with
  | mk hfair hstack hobuf ho hback =>
    simp only [Server.clientCall, Run.bind_eq_ok, Run.pure_eq_ok, Run.assert_eq_ok, exists_const,
      Prod.exists] at ho
    obtain ⟨data, hinp, t, r, hr, -, -, back', -, rfl⟩ := ho
    exact ⟨data, _, ⟨⟨hfair.key, hfair.ne_dummy, hfair.tgr, hfair.length, hfair.terminated⟩, _,
      hinp⟩, .mk hstack hobuf (List.length_replicate (n := 2) (a := 0)) hr, hshort⟩

/-- No call is under way. -/
def Quiet (x : Reqrep.Service ι Asked State) : Prop :=
  x.net.server = .recv ∧ x.net.inbox = [] ∧ ∀ i, x.net.client i = .ready

/-- A call's run, and what the thread does before and after it. -/
def ranMarks (q : Reqrep.Request ι) (c : Asked) (out : List UInt8) :
    List (Reqrep.Mark ι Asked) :=
  [.passed, .ran q c out, .passed]

/-- A call from its start to its end, when no other is under way. -/
def callMarks (q : Reqrep.Request ι) (c : Asked) (out : List UInt8) :
    List (Reqrep.Mark ι Asked) :=
  .asked q c :: (ranMarks q c out ++ [.told q.name c out, .passed])

omit [DecidableEq ι] in
theorem callMarks_append {q q' : Reqrep.Request ι} {c c' : Asked} {out out' : List UInt8} :
    callMarks q c out ++ callMarks q' c' out' =
      [] ++ .asked q c :: ranMarks q c out ++ .told q.name c out :: [.passed] ++
        .asked q' c' :: ranMarks q' c' out' ++ .told q'.name c' out' :: [.passed] :=
  rfl

/-- A client that calls alone. -/
theorem connected_call {x : Reqrep.Service ι Asked State} {c : Asked} {back : List UInt8}
    (hquiet : Quiet x) (hserve : Serve h v n x.store (c.call back) t) (i : ι) :
    ∃ q out y, MTr (Connected h v n) x (callMarks q c out) y ∧ Quiet y ∧ y.store = t := by
  obtain ⟨data, reply, hsends, hh⟩ := handles_of_serve hserve
  obtain ⟨hrecv, hinbox, hready⟩ := hquiet
  obtain ⟨q, hq⟩ : ∃ q, q = (⟨i, x.net.next i, data⟩ : Reqrep.Request ι) := ⟨_, rfl⟩
  obtain ⟨x₁, h₁, hs₁, hin₁, hc₁, hn₁, hst₁, hm₁⟩ : ∃ x₁, Connected h v n x (.asked q c) x₁ ∧
      x₁.net.server = .recv ∧ x₁.net.inbox = [q] ∧
      x₁.net.client = Function.update x.net.client i (.blocked q) ∧ x₁.net.next i = q.id + 1 ∧
      x₁.store = x.store ∧ x₁.made q.name = c := by
    subst hq
    exact ⟨_, .exchange hsends (.exchange (hready i)), hrecv, by rw [hinbox]; rfl, rfl,
      Function.update_self i _ x.net.next, rfl, Function.update_self _ c x.made⟩
  obtain ⟨x₂, h₂, hs₂, hin₂, hc₂, hn₂, hst₂, hm₂⟩ : ∃ x₂, Connected h v n x₁ .passed x₂ ∧
      x₂.net.server = .callback q ∧ x₂.net.inbox = [] ∧ x₂.net.client = x₁.net.client ∧
      x₂.net.next = x₁.net.next ∧ x₂.store = x₁.store ∧ x₂.made = x₁.made :=
    ⟨_, .routine (a := .recv q) trivial (.recv hs₁ (show x₁.net.inbox = [] ++ q :: [] from hin₁)),
      rfl, rfl, rfl, rfl, rfl, rfl⟩
  obtain ⟨x₃, h₃, hs₃, hin₃, hc₃, hn₃, hst₃, hm₃⟩ : ∃ x₃, Connected h v n x₂ (.ran q c reply) x₃ ∧
      x₃.net.server = .send ⟨q, 0, reply⟩ ∧ x₃.net.inbox = [] ∧ x₃.net.client = x₁.net.client ∧
      x₃.net.next = x₁.net.next ∧ x₃.store = t ∧ x₃.made = x₁.made := by
    have hmade : x₂.made q.name = c := by rw [hm₂, hm₁]
    rw [← hst₁, ← hst₂, ← hmade] at hh
    have hdata : data = q.data := by rw [hq]
    rw [hdata] at hh
    have hran : Connected h v n x₂ (.ran q (x₂.made q.name) reply) _ :=
      .callback hs₂ hh (.callback hs₂)
    rw [hmade] at hran
    have hnext : Utils.Reqrep.Round.next ⟨q, 0, reply⟩ = .send ⟨q, 0, reply⟩ := if_pos rfl
    exact ⟨_, hran, hnext, hin₂, hc₂, hn₂, rfl, hm₂⟩
  obtain ⟨x₄, h₄, hs₄, hin₄, hc₄, hn₄, hst₄, hm₄⟩ : ∃ x₄, Connected h v n x₃ .passed x₄ ∧
      x₄.net.server = .free ⟨q, 0, reply⟩ ∧ x₄.net.inbox = [] ∧
      x₄.net.client = Function.update x.net.client i (.answered reply) ∧
      x₄.net.next = x₁.net.next ∧ x₄.store = t ∧ x₄.made = x₁.made := by
    refine ⟨_, .routine (a := .send) trivial (.send hs₃), rfl, hin₃, ?_, hn₃, hst₃, hm₃⟩
    have hi : q.client = i := by rw [hq]
    have hreply : (Utils.Reqrep.Client.blocked q).reply ⟨q, 0, reply⟩ = .answered reply :=
      if_pos rfl
    simp only [hc₃, hc₁, hi, Function.update_self, Function.update_idem, hreply]
  obtain ⟨x₅, h₅, hs₅, hin₅, hc₅, hst₅⟩ : ∃ x₅, Connected h v n x₄ (.told q.name c reply) x₅ ∧
      x₅.net.server = .free ⟨q, 0, reply⟩ ∧ x₅.net.inbox = [] ∧
      x₅.net.client = Function.update x.net.client i .ready ∧ x₅.store = t := by
    have hname : q.name = (i, q.id) := by rw [hq]; rfl
    have hanswered : x₄.net.client i = .answered reply := by rw [hc₄, Function.update_self]
    have htold : Connected h v n x₄ (.told (i, q.id) (x₄.made (i, q.id)) reply) _ :=
      .back hanswered (by rw [hn₄, hn₁]) (.back hanswered)
    rw [hm₄, ← hname, hm₁] at htold
    refine ⟨_, htold, hs₄, hin₄, ?_, hst₄⟩
    simp only [hc₄, Function.update_idem]
  obtain ⟨x₆, h₆, hs₆, hin₆, hc₆, hst₆⟩ : ∃ x₆, Connected h v n x₅ .passed x₆ ∧
      x₆.net.server = .recv ∧ x₆.net.inbox = [] ∧ x₆.net.client = x₅.net.client ∧
      x₆.store = x₅.store :=
    ⟨_, .routine (a := .free) trivial (.free hs₅), rfl, hin₅, rfl, rfl⟩
  refine ⟨q, reply, x₆, .stepL h₁ <| .stepL h₂ <| .stepL h₃ <| .stepL h₄ <| .stepL h₅ <|
    .stepL h₆ .refl, ⟨hs₆, hin₆, fun j => ?_⟩, hst₆.trans hst₅⟩
  rw [hc₆, hc₅]
  by_cases hj : j = i
  · rw [hj, Function.update_self]
  · rw [Function.update_of_ne hj, hready j]

end

open Proto (sampleHal)

/-- One client sets an overlay. -/
def sampleSetting : Asked := ⟨false, .osd, .set, sampleOverlay⟩

/-- Another one asks for it, in JSON. -/
def sampleGetting : Asked := ⟨true, .osd, .get, le 4 1 ++ List.replicate 424 0⟩

theorem sample_connected : ∃ (q q' : Reqrep.Request Nat) (out out' : List UInt8)
    (u : Reqrep.Service Nat Asked State), MTr (Connected sampleHal (sampleNetwork .vsf) .vsf)
      ⟨Utils.Reqrep.start, sampleState, fun _ => sampleSetting⟩
      (callMarks q sampleSetting out ++ callMarks q' sampleGetting out') u := by
  obtain ⟨s, t, back, hone, htwo⟩ := sample_served
  have hquiet : Quiet (⟨Utils.Reqrep.start, sampleState, fun _ => sampleSetting⟩ :
      Reqrep.Service Nat Asked State) := ⟨rfl, rfl, fun _ => rfl⟩
  obtain ⟨q, out, x, hx, hxq, rfl⟩ := connected_call hquiet (c := sampleSetting) hone 0
  obtain ⟨q', out', y, hy, -, -⟩ := connected_call hxq (c := sampleGetting) htwo 1
  exact ⟨q, q', out, out', y, mtr_append.mpr ⟨x, hx, hy⟩⟩

/-- Two calls are served. -/
theorem calls_atomic_two : ∃ (ms : List (Reqrep.Mark Nat Asked)) (t : State) (calls : List Call),
    MTr (Serve sampleHal (sampleNetwork .vsf) .vsf) sampleState calls t ∧ (runs ms).length = 2 ∧
    List.Forall₂ (Answers sampleHal (sampleNetwork .vsf)) (runs ms) calls := by
  obtain ⟨q, q', out, out', u, hrun⟩ := sample_connected
  obtain ⟨calls, hcalls, hanswers, -⟩ := calls_atomic rfl zero_notMem_decimal plain_lawful
    (fun _ _ _ _ _ => rfl) (sample_sound .vsf) hrun fun _ c _ => sample_legible (c.call []) .vsf
  exact ⟨_, u.store, calls, hcalls, rfl, hanswers⟩

/-- The second client reads what the first one has set. -/
theorem read_after_write_two : ∃ out back,
    sampleGetting.post sampleHal (sampleNetwork .vsf) out = .ok back ∧
      Proto.Record.osdCfg.ty.Same back sampleOverlay := by
  obtain ⟨q, q', out, out', u, hrun⟩ := sample_connected
  obtain ⟨hset, hget⟩ : sampleSetting.Sets .osd 1 ∧ sampleGetting.action = .get ∧
      sampleGetting.key = .osd ∧ idOf sampleGetting.sent = (1 : Nat) :=
    ⟨⟨rfl, rfl, sample_id.1⟩, rfl, rfl, sample_id.2⟩
  have hothers : ∀ p d, (.asked p d : Reqrep.Mark Nat Asked) ∈
      [] ++ ranMarks q sampleSetting out ++ [.passed] ++ ranMarks q' sampleGetting out' →
      d.Sets .osd 1 → ∃ o, .told p.name d o ∈ ([] : List (Reqrep.Mark Nat Asked)) := by
    intro p d hd
    simp [ranMarks] at hd
  obtain ⟨back, hpost, hsame⟩ := read_after_write rfl zero_notMem_decimal plain_lawful
    (fun _ _ _ _ _ => rfl) (sample_sound .vsf) hrun
    (fun _ c _ => sample_legible (c.call []) .vsf) callMarks_append hset hget rfl hothers
  exact ⟨out', back, hpost, hsame⟩

end Freak.Manager
