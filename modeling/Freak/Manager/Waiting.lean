import Freak.Utils.Progress
import Freak.Manager.Clients

/-! No client waits forever for what is in a module's tables. -/
namespace Freak.Manager

open Bytes Json Schema Lts
open Freak.Proto (Action Key Node Server packageMaxsize Sent)
open Freak.Utils (Reqrep.Works Reqrep.Service Reqrep.Request Reqrep.Mark)
open Freak.Utils.Reqrep (Servable)

section

variable {h : Hal} {v : Server State} {n : Node} {s t : State} {c : Asked} {data reply : List UInt8}

/-- What is asked for in the tables is not set. -/
theorem reads_of_inTable {c : Call} (h : c.InTable s) : c.action ≠ .set ∧ c.action ≠ .tgr := by
  rw [Call.InTable] at h
  constructor <;> intro ha <;> rw [ha] at h <;> exact h

/-- A NUM, a CAP or a GET leaves its manager as it is. -/
theorem call_of_reads {k : Key} {a : Action} {s u : Slots} {got out : List UInt8} (hk : k ≠ .dummy)
    (ha : a ≠ .set ∧ a ≠ .tgr) (hcall : (h.ops k 0).call a s got = .ok (u, out)) : u = s := by
  obtain ⟨cfgRec, capRec, set, tgr, heq⟩ := ops_slots (h := h) hk
  rw [heq] at hcall
  cases a with
  | num => exact (manager_num_eq_ok.mp hcall).2.1
  | cap =>
    obtain ⟨-, -, hu, -⟩ := manager_cap_eq_ok.mp hcall
    exact hu
  | get =>
    obtain ⟨-, -, hu, -⟩ := manager_get_eq_ok.mp hcall
    exact hu
  | set => exact absurd rfl ha.1
  | tgr => exact absurd rfl ha.2

/-- So does the handler leave the module. -/
theorem handles_reads (hv : v.handler = h.handler n) (hnum : ∀ n, 0 ∉ v.numText n)
    (hlaw : v.cs.Lawful) (hshow : h.ShowsRecord) (hs : Sound h n s)
    (hread : Legible h v (c.call [])) (hsends : c.Sends h v n data)
    (htable : (c.call []).InTable s) (hh : Handles h v s c data reply t) : t = s := by
  obtain ⟨back, hserve, -⟩ := serve_of_handles hv hshow hs hsends hh
  have hread' : Legible h v (c.call back) := hread
  obtain ⟨hfair, got, u, out, -, -, -, hcall, rfl, -⟩ :=
    serve_cases hv hnum hlaw hshow hs hread' hserve
  obtain rfl := call_of_reads hfair.ne_dummy (reads_of_inTable htable) hcall
  exact Function.update_eq_self c.key s

/-- The handler has an answer to what is in the tables. -/
theorem handles_of_inTable (hv : v.handler = h.handler n) (hnum : ∀ n, 0 ∉ v.numText n)
    (hlaw : v.cs.Lawful) (hshow : h.ShowsRecord) (hs : Sound h n s)
    (hread : Legible h v (c.call [])) (hsends : c.Sends h v n data)
    (htable : (c.call []).InTable s) (hshort : Short h v s (c.call [])) :
    ∃ reply, Handles h v s c data reply s := by
  obtain ⟨hfair, ts, hinp⟩ := hsends
  have hobuf : (List.replicate packageMaxsize (0 : UInt8)).length = packageMaxsize :=
    List.length_replicate
  obtain ⟨o, ho⟩ := @clientCall_of_inTable h n (c.call []) v s hv hnum hlaw hshow hs hfair hread
    hshort (List.replicate 428 0) _ ts 0 List.length_replicate hobuf htable
  simp only [Server.clientCall, Run.bind_eq_ok, Run.pure_eq_ok, Run.assert_eq_ok, exists_const,
    Prod.exists] at ho
  obtain ⟨inp, hinp', t, r, hr, -⟩ := ho
  obtain rfl := Except.ok.inj (hinp.symm.trans hinp')
  have hh : Handles h v s c data (r.bytes (List.replicate packageMaxsize 0) [0, 0]) t :=
    ⟨.mk List.length_replicate hobuf rfl hr, hshort⟩
  obtain rfl := handles_reads hv hnum hlaw hshow hs hread ⟨hfair, ts, hinp⟩ htable hh
  exact ⟨_, hh⟩

variable {ι : Type} [DecidableEq ι] {made : ι × Nat → Asked} {ms ms' : List (Reqrep.Mark ι Asked)}
  {u w : Reqrep.Service ι Asked State}

/-- The calls that are still to be served can be, and leave the module as it is. -/
theorem servable_of_inTable (hv : v.handler = h.handler n) (hnum : ∀ n, 0 ∉ v.numText n)
    (hlaw : v.cs.Lawful) (hshow : h.ShowsRecord) (hs : Sound h n s)
    (hrun : MTr (Connected h v n) ⟨Utils.Reqrep.start, s, made⟩ ms u)
    (hread : ∀ q c, .asked q c ∈ ms → Legible h v (c.call []))
    (htable : ∀ q, u.net.Pending q → ((u.made q.name).call []).InTable u.store)
    (hshort : ∀ q, u.net.Pending q → Short h v u.store ((u.made q.name).call [])) :
    Servable (Handles h v) u := by
  have hsound : Sound h n u.store := by
    obtain ⟨calls, hcalls, -, hlegible⟩ := serves_of_marks hv hnum hlaw hshow hs hrun hread
    exact (tracks_run hv hnum hlaw hshow hcalls (tracks_start hs) hlegible).sound
  have hasked : ∀ q, u.net.Pending q → .asked q (u.made q.name) ∈ ms := by
    have hpast := Utils.Reqrep.past_run hrun
    rintro q (hq | hq)
    · exact hpast.inbox q hq
    · exact hpast.held q hq
  constructor
  · intro q hq
    exact handles_of_inTable hv hnum hlaw hshow hsound (hread q _ (hasked q hq))
      (Utils.Reqrep.sends_of_asked hrun (hasked q hq)) (htable q hq) (hshort q hq)
  · intro q out store hq hh
    exact handles_reads hv hnum hlaw hshow hsound (hread q _ (hasked q hq))
      (Utils.Reqrep.sends_of_asked hrun (hasked q hq)) (htable q hq) hh

/-- Whatever has happened on the connections of a module, with NUM, CAP and GET of what is in the
tables still to be served: however its thread goes on, whichever request it receives first, it comes
to the end of its work, and every client that waited has an answer and finds a record in it. -/
theorem clients_answered (hv : v.handler = h.handler n) (hnum : ∀ n, 0 ∉ v.numText n)
    (hlaw : v.cs.Lawful) (hshow : h.ShowsRecord) (hs : Sound h n s)
    (hrun : MTr (Connected h v n) ⟨Utils.Reqrep.start, s, made⟩ ms u)
    (hread : ∀ q c, .asked q c ∈ ms → Legible h v (c.call [])) (hup : u.net.server.Running)
    (htable : ∀ q, u.net.Pending q → ((u.made q.name).call []).InTable u.store)
    (hshort : ∀ q, u.net.Pending q → Short h v u.store ((u.made q.name).call []))
    (hworks : MTr (Reqrep.Works (Handles h v)) u ms' w) :
    ∃ ms'' x, MTr (Reqrep.Works (Handles h v)) w ms'' x ∧ (ms' ++ ms'').length = u.net.work ∧
      ∀ i q, u.net.client i = .blocked q → ∃ out back, x.net.client i = .answered out ∧
        (u.made q.name).post h v out = .ok back := by
  have hservable := servable_of_inTable hv hnum hlaw hshow hs hrun hread htable hshort
  obtain ⟨ms'', x, hrest, hlen, hanswered⟩ :=
    Utils.Reqrep.answered_of_works hrun hup hservable hworks
  refine ⟨ms'', x, hrest, hlen, fun i q hq => ?_⟩
  obtain ⟨out, hout, hran⟩ := hanswered i q hq
  -- the run of the handler is one of a call that was served
  have hall : MTr (Connected h v n) ⟨Utils.Reqrep.start, s, made⟩ (ms ++ (ms' ++ ms'')) x :=
    mtr_append.mpr ⟨u, hrun, Utils.Reqrep.mtr_of_works (mtr_append.mpr ⟨w, hworks, hrest⟩)⟩
  have hread' : ∀ q c, .asked q c ∈ ms ++ (ms' ++ ms'') → Legible h v (c.call []) := by
    intro q c hq
    rcases List.mem_append.mp hq with hq | hq
    · exact hread q c hq
    · exact absurd hq (Utils.Reqrep.asked_notMem_of_works (mtr_append.mpr ⟨w, hworks, hrest⟩))
  obtain ⟨calls, -, hcalls, -⟩ := serves_of_marks hv hnum hlaw hshow hs hall hread'
  obtain ⟨before, behind, hsplit⟩ := List.append_of_mem
    ((Utils.Reqrep.mem_runs (x := (q, u.made q.name, out))).mpr hran)
  have hfrom := List.forall₂_drop before.length hcalls
  rw [hsplit, List.drop_left] at hfrom
  obtain ⟨call, -, ⟨back, -, hpost⟩, -⟩ := List.forall₂_cons_left_iff.mp hfrom
  exact ⟨out, back, hout, hpost⟩

end

open Proto (sampleHal)

/-- Two clients have asked for an overlay, and have their answers after eight steps. -/
theorem clients_answered_two : ∃ (u x : Reqrep.Service Nat Asked State)
    (ms : List (Reqrep.Mark Nat Asked)),
    MTr (Reqrep.Works (Handles sampleHal (sampleNetwork .vsf))) u ms x ∧ ms.length = 8 ∧
    ∀ i < 2, (∃ q, u.net.client i = .blocked q) ∧ ∃ out back, x.net.client i = .answered out ∧
      sampleGetting.post sampleHal (sampleNetwork .vsf) out = .ok back := by
  have hshow : sampleHal.ShowsRecord := fun _ _ _ _ _ => rfl
  obtain ⟨s, t, back, -, htwo⟩ := sample_served
  obtain ⟨data, -, hsends, -⟩ := handles_of_serve (c := sampleGetting) htwo
  obtain ⟨u, hrun, hrecv, hinbox, hzero, hone, hstore, hmade⟩ :
      ∃ u : Reqrep.Service Nat Asked State,
        MTr (Connected sampleHal (sampleNetwork .vsf) .vsf)
          ⟨Utils.Reqrep.start, sampleState, fun _ => sampleGetting⟩
          [.asked ⟨0, 0, data⟩ sampleGetting, .asked ⟨1, 0, data⟩ sampleGetting] u ∧
        u.net.server = .recv ∧ u.net.inbox = [⟨0, 0, data⟩, ⟨1, 0, data⟩] ∧
        u.net.client 0 = .blocked ⟨0, 0, data⟩ ∧ u.net.client 1 = .blocked ⟨1, 0, data⟩ ∧
        u.store = sampleState ∧ ∀ x, u.made x = sampleGetting := by
    refine ⟨_, .stepL (.exchange hsends (.exchange (i := 0) rfl))
      (.stepL (.exchange hsends (.exchange (i := 1) rfl)) .refl), rfl, rfl, rfl, rfl, rfl, ?_⟩
    intro x
    simp only [Function.update_apply, ite_self]
  have htable : ∀ q, u.net.Pending q → ((u.made q.name).call []).InTable u.store := by
    intro q _
    rw [hmade]
    exact sample_inTable u.store true []
  have hshort : ∀ q, u.net.Pending q →
      Short sampleHal (sampleNetwork .vsf) u.store ((u.made q.name).call []) := by
    intro q _
    rw [hmade, hstore]
    have hzero : Short sampleHal (sampleNetwork .vsf) sampleState (sampleGet true []) :=
      sample_short (by decide)
    exact hzero
  obtain ⟨ms, x, hworks, hlen, hanswered⟩ := clients_answered rfl zero_notMem_decimal plain_lawful
    hshow (sample_sound .vsf) hrun
    (fun _ c _ => sample_legible (c.call []) .vsf) (by rw [hrecv]; trivial) htable hshort .refl
  refine ⟨u, x, ms, hworks, ?_, fun i hi => ?_⟩
  · rw [List.nil_append] at hlen
    rw [hlen, Utils.Reqrep.State.work, hrecv, hinbox]
    rfl
  · have hclient : ∃ q, u.net.client i = .blocked q := by
      obtain rfl | rfl : i = 0 ∨ i = 1 := by omega
      · exact ⟨_, hzero⟩
      · exact ⟨_, hone⟩
    obtain ⟨q, hq⟩ := hclient
    obtain ⟨out, back, hout, hpost⟩ := hanswered i q hq
    exact ⟨⟨q, hq⟩, out, back, hout, hmade q.name ▸ hpost⟩

end Freak.Manager
