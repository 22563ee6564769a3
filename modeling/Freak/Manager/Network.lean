import Freak.Manager.Formats

/-! The configuration service: any number of clients, in either format, and the modules that serve
their calls one after the other. -/
namespace Freak.Manager

open Bytes Json Schema Lts
open Freak.Proto (Record Action Key Node registered Server Outcome packageMaxsize)

/-- A call as its client makes it, and the record that comes back. -/
structure Call where
  json : Bool
  key : Key
  action : Action
  sent : List UInt8
  back : List UInt8

/-- The type of the record that goes there and back. -/
def Call.record (h : Hal) (c : Call) : Record := (h.ops c.key 0).record c.action

theorem Call.record_eq {h : Hal} (c : Call) :
    c.record h = (among c.key (h.ops c.key 0)).record c.action := record_among.symm

/-- A record of its type whose strings end inside their fields, for a manager of the module. -/
structure Call.Fair (h : Hal) (n : Node) (c : Call) : Prop where
  key : c.key ∈ registered n
  ne_dummy : c.key ≠ .dummy
  tgr : c.action = .tgr → c.key = .osd
  length : c.sent.length = (c.record h).ty.size
  terminated : (c.record h).ty.Terminated c.sent

/-- A call comes to its end, whatever the module's stack and its reply buffer held. -/
inductive Ends (h : Hal) (v : Server State) (n : Node) : State → Call → State → Prop
  | mk {s : State} {c : Call} {stack obuf : List UInt8} {ts now : UInt64} {o : Outcome State}
      (hfair : c.Fair h n) (hstack : stack.length = 428) (hobuf : obuf.length = packageMaxsize)
      (ho : v.clientCall c.json c.key c.action (c.record h).ty s c.sent stack obuf ts now = .ok o)
      (hback : c.back = o.returned) : Ends h v n s c o.state

/-- No text of a call is cut, on its way there or back. -/
def Short (h : Hal) (v : Server State) (s : State) (c : Call) : Prop :=
  c.json = true → v.TextsShort (among c.key (h.ops c.key 0)) c.action s c.sent

/-- A module serves a call: it comes to its end, and its texts are short. -/
def Serve (h : Hal) (v : Server State) (n : Node) : State → Call → State → Prop :=
  Restrict (Ends h v n) (Short h v)

/-- The record of the last SET for an id, or the one that was there before. -/
def latest (s : State) (k : Key) (i : Nat) (served : List Call) : List UInt8 :=
  match served.reverse.find? fun c => c.action == .set && c.key == k && idOf c.sent == i with
  | some c => c.sent
  | none => (s k).info.cfgs i

/-- What a client is to be told, when the module has served some calls before. -/
def Call.answer (s : State) (served : List Call) (c : Call) : List UInt8 :=
  match c.action with
  | .num => le 4 (s c.key).info.num.toNat
  | .cap => (s c.key).info.caps (idOf c.sent).toNat
  | .get => latest s c.key (idOf c.sent).toNat served
  | .set | .tgr => c.sent

/-- The records behind the managers of a module are of their types, and their strings end. -/
def Sound (h : Hal) (n : Node) (s : State) : Prop :=
  ∀ k ∈ registered n, k ≠ .dummy → (s k).Sound (h.ops k 0)

/-- A module has the records that the calls so far have left, as they are read, in its tables. -/
structure Tracks (h : Hal) (n : Node) (s : State) (served : List Call) (t : State) : Prop where
  start : Sound h n s
  sound : Sound h n t
  num : ∀ k ∈ registered n, k ≠ .dummy → (t k).info.num = (s k).info.num
  caps : ∀ k ∈ registered n, k ≠ .dummy → ∀ i < slots k,
    (h.ops k 0).capRec.ty.Same ((t k).info.caps i) ((s k).info.caps i)
  length : ∀ k ∈ registered n, k ≠ .dummy → ∀ i,
    (latest s k i served).length = (h.ops k 0).cfgRec.ty.size
  cfgs : ∀ k ∈ registered n, k ≠ .dummy → ∀ i < slots k,
    (h.ops k 0).cfgRec.ty.Same ((t k).info.cfgs i) (latest s k i served)

section

variable {h : Hal} {n : Node} {v : Server State} {s t u : State} {c : Call} {k : Key}
  {served : List Call} {i : Nat}

theorem latest_append : latest s k i (served ++ [c]) =
    if c.action = .set ∧ c.key = k ∧ idOf c.sent = i then c.sent else latest s k i served := by
  simp only [latest, List.reverse_append, List.reverse_singleton, List.singleton_append,
    List.find?_cons]
  by_cases hc : c.action = .set ∧ c.key = k ∧ idOf c.sent = i
  · obtain ⟨ha, hk, hi⟩ := hc
    simp [ha, hk, hi]
  · rw [if_neg hc]
    have hb : (c.action == .set && c.key == k && idOf c.sent == i) = false := by
      rw [Bool.eq_false_iff]
      simpa [and_assoc] using hc
    rw [hb]

/-- What a manager answers. -/
def Slots.told (s : Slots) (a : Action) (got : List UInt8) : List UInt8 :=
  match a with
  | .num => le 4 s.info.num.toNat
  | .cap => s.info.caps (idOf got).toNat
  | .get => s.info.cfgs (idOf got).toNat
  | .set | .tgr => got

/-- What a manager's call makes of its records, and what it answers. -/
theorem call_spec {a : Action} {chn : UInt8} {got out : List UInt8} {s u : Slots}
    (hshow : h.ShowsRecord) (hk : k ≠ .dummy) (hcall : (h.ops k chn).call a s got = .ok (u, out)) :
    u.info.num = s.info.num ∧ u.info.caps = s.info.caps ∧
      (u.info.cfgs = if a = .set then Function.update s.info.cfgs (idOf got).toNat got
        else s.info.cfgs) ∧
      (a ≠ .num → a ≠ .tgr → 0 ≤ idOf got) ∧ out = s.told a got := by
  obtain ⟨cfgRec, capRec, max, set, tgr, heq, hf, -, hinfo⟩ := @ops_eq_manager h k chn hshow hk
  rw [heq] at hcall
  cases a with
  | num =>
    obtain ⟨-, rfl, rfl⟩ := manager_num_eq_ok.mp hcall
    exact ⟨rfl, rfl, rfl, by simp, rfl⟩
  | cap =>
    obtain ⟨i, ⟨hi, -⟩, rfl, rfl⟩ := manager_cap_eq_ok.mp hcall
    exact ⟨rfl, rfl, rfl, by omega, by simp [Slots.told, hi]⟩
  | get =>
    obtain ⟨i, ⟨hi, -⟩, rfl, rfl⟩ := manager_get_eq_ok.mp hcall
    exact ⟨rfl, rfl, rfl, by omega, by simp [Slots.told, hi]⟩
  | set =>
    obtain ⟨w, i, hw, ⟨hi, -⟩, rfl, rfl⟩ := manager_set_eq_ok.mp hcall
    have hwi := hinfo s _ w 0 hw
    refine ⟨by simp [Info.put, hwi], by simp [Info.put, hwi], ?_, by omega, rfl⟩
    simp [Info.put, hwi, hi]
  | tgr =>
    obtain ⟨f, hsome, hw, rfl⟩ := manager_tgr_eq_ok.mp hcall
    have hwi := hinfo s _ u 0 (hf f hsome ▸ hw)
    rw [hwi]
    exact ⟨rfl, rfl, rfl, by simp, rfl⟩

/-- The module has a handler for the call's key, and a manager behind it that does not depend on the
channel. -/
theorem Call.Fair.handled (hfair : c.Fair h n) (hv : v.handler = h.handler n) :
    v.handler c.key.value.toNat = some (fun chn => among c.key (h.ops c.key chn)) ∧
      among c.key (h.ops c.key (c.action.chn c.sent)) = among c.key (h.ops c.key 0) ∧
      (c.action = .tgr → (among c.key (h.ops c.key 0)).tgr.isSome) := by
  obtain ⟨hk, hd, htgr, -, -⟩ := hfair
  refine ⟨by rw [hv, handler_registered hk], ?_, fun ha => ?_⟩
  · cases hkey : c.key with
    | dummy => exact absurd hkey hd
    | _ => rfl
  · rw [htgr ha]
    rfl

/-- The parser reads the texts that a call is made of. -/
def Legible (h : Hal) (v : Server State) (c : Call) : Prop :=
  c.json = true → ∀ img, img.length = (c.record h).ty.size →
    (c.record h).ty.Terminated img → v.Reads ((c.record h).ty.s2j v.cs img)

/-- The manager is called with a record that says what the client sent, and the client is told what
the manager answered. -/
theorem serve_cases (hv : v.handler = h.handler n) (hnum : ∀ n, 0 ∉ v.numText n)
    (hlaw : v.cs.Lawful) (hshow : h.ShowsRecord) (hs : Sound h n s) (hread : Legible h v c)
    (hserve : Serve h v n s c t) :
    c.Fair h n ∧ ∃ got u out, got.length = (c.record h).ty.size ∧
      (c.record h).ty.Terminated got ∧ (c.record h).ty.Same got c.sent ∧
      (h.ops c.key 0).call c.action (s c.key) got = .ok (u, out) ∧
      t = Function.update s c.key u ∧ out.length = (c.record h).ty.size ∧
      (c.record h).ty.Same c.back out ∧ c.back.length = (c.record h).ty.size := by
  obtain ⟨⟨hfair, hstack, hobuf, ho, hback⟩, hshort⟩ := hserve
  rename_i stack obuf ts now o
  refine ⟨hfair, ?_⟩
  obtain ⟨hops, hchn, htrigger⟩ := hfair.handled hv
  obtain ⟨hk, hd, -, hl, hterm⟩ := hfair
  have hr := @among_respects c.action h c.key 0 s hshow hd (hs c.key hk hd)
  -- the manager's call is one of the module's
  have hdirect : ∀ got out, (among c.key (h.ops c.key 0)).call c.action s got = .ok (o.state, out) →
      ∃ u, (h.ops c.key 0).call c.action (s c.key) got = .ok (u, out) ∧
        o.state = Function.update s c.key u := by
    intro got out hcall
    rw [call_among, Run.map_eq_ok] at hcall
    obtain ⟨⟨u, out⟩, hcall, heq⟩ := hcall
    obtain ⟨hstate, rfl⟩ := Prod.mk.inj heq
    exact ⟨u, hcall, hstate.symm⟩
  rw [c.record_eq] at hl hterm ho ⊢
  cases hj : c.json with
  | false =>
    rw [hj] at ho
    obtain ⟨t', out, hcall, rfl⟩ :=
      (Proto.Server.structCall_eq_ok hops hchn htrigger hobuf hr hl).mp ho
    obtain ⟨u, hu, htu⟩ := hdirect _ _ hcall
    have hout := hr.length _ _ _ hl hcall
    refine ⟨c.sent, u, out, hl, hterm, Ty.same_refl _ _, hu, htu, hout, ?_, ?_⟩
    · rw [hback]
      exact Ty.same_refl _ _
    · rw [hback, hout]
  | true =>
    rw [hj] at ho
    have hread := hread hj
    rw [c.record_eq] at hread
    have hold : (stack.take ((among c.key (h.ops c.key 0)).record c.action).ty.size).length = _ :=
      Proto.Server.length_take_stack hstack
    obtain ⟨hfits, hglen, hgot⟩ := Proto.Server.same_of_short hnum hlaw hl hterm (hread _ hl hterm)
      (hshort hj).1 (List.length_replicate (n := 2010) (a := 0)) hold
    obtain ⟨got, t', out, e, rfl, hcall, rfl, -, rfl⟩ :=
      (Proto.Server.jsonCall_eq_ok hops hchn htrigger hobuf hfits).mp ho
    obtain ⟨u, hu, htu⟩ := hdirect _ _ hcall
    have hwf := ((among c.key (h.ops c.key 0)).record c.action).wf
    have hgterm := Ty.terminated_of_same _ hwf _ _ hglen hl hgot hterm
    have hout := hr.length _ _ _ hglen hcall
    obtain ⟨hboth, hsame⟩ := Run.corres_iff.mp (hr.same _ _ hglen hl hgot)
    obtain ⟨⟨t'', out'⟩, hcall'⟩ := hboth.mp ⟨_, hcall⟩
    have hout' := hr.length _ _ _ hl hcall'
    have hoterm := hr.terminated _ _ _ hglen hgterm hcall
    have hoshort : v.Short ((among c.key (h.ops c.key 0)).record c.action).ty out := by
      rw [Proto.Server.Short,
        Ty.s2j_congr hlaw _ hwf out out' hout hout' (hsame _ _ hcall hcall').2]
      exact (hshort hj).2 t'' out' hcall'
    obtain ⟨-, hblen, hbsame⟩ := Proto.Server.same_of_short hnum hlaw hout hoterm
      (hread out hout hoterm) hoshort (Proto.Server.length_drop_obuf hobuf) hl
    refine ⟨_, u, out, hglen, hgterm, hgot, hu, htu, hout, ?_, ?_⟩
    · rw [hback, List.take_of_length_le hout.le]
      exact hbsame
    · rw [hback, List.take_of_length_le hout.le]
      exact hblen

theorem ops_slots {k : Key} (hk : k ≠ .dummy) :
    ∃ cfgRec capRec set tgr, h.ops k 0 = manager cfgRec capRec (slots k) set tgr := by
  cases k with
  | dummy => exact absurd rfl hk
  | _ => exact ⟨_, _, _, _, rfl⟩

/-- A CAP or a GET that is served is for an id of the table. -/
theorem id_of_call {k : Key} {a : Action} {s u : Slots} {got out : List UInt8} (hk : k ≠ .dummy)
    (hcall : (h.ops k 0).call a s got = .ok (u, out)) (ha : a = .cap ∨ a = .get) :
    0 ≤ idOf got ∧ idOf got < slots k := by
  obtain ⟨cfgRec, capRec, set, tgr, heq⟩ := ops_slots (h := h) hk
  rw [heq] at hcall
  rcases ha with rfl | rfl
  · obtain ⟨i, ⟨hi, hlt⟩, -⟩ := manager_cap_eq_ok.mp hcall
    omega
  · obtain ⟨i, ⟨hi, hlt⟩, -⟩ := manager_get_eq_ok.mp hcall
    omega

theorem tracks_start (hs : Sound h n s) : Tracks h n s [] s :=
  ⟨hs, hs, fun _ _ _ => rfl, fun _ _ _ _ _ => Ty.same_refl _ _,
    fun k hk hd i => ((hs k hk hd).cfgs i).1, fun _ _ _ _ _ => Ty.same_refl _ _⟩

section

variable (hv : v.handler = h.handler n) (hnum : ∀ n, 0 ∉ v.numText n) (hlaw : v.cs.Lawful)
  (hshow : h.ShowsRecord)
include hv hnum hlaw hshow

theorem sound_step (hs : Sound h n t) (hread : Legible h v c) (hserve : Serve h v n t c u) :
    Sound h n u := by
  obtain ⟨hfair, got, w, out, hglen, hgterm, -, hcall, rfl, -⟩ :=
    serve_cases hv hnum hlaw hshow hs hread hserve
  intro k hk hd
  by_cases hkc : k = c.key
  · subst hkc
    rw [Function.update_self]
    exact sound_call hshow hd (hs c.key hk hd) hglen hgterm hcall
  · rw [Function.update_of_ne hkc]
    exact hs k hk hd

/-- A client is told what the calls before have left. -/
theorem answer_step (ht : Tracks h n s served t) (hread : Legible h v c)
    (hserve : Serve h v n t c u) : (c.record h).ty.Same c.back (c.answer s served) := by
  obtain ⟨hfair, got, w, out, hglen, -, hgot, hcall, -, hout, hback, hblen⟩ :=
    serve_cases hv hnum hlaw hshow ht.sound hread hserve
  obtain ⟨hk, hd, -, hl, -⟩ := hfair
  obtain ⟨-, -, -, -, hans⟩ := call_spec hshow hd hcall
  have hgid : idOf got = idOf c.sent := idOf_congr hgot
  have hindex : c.action = .cap ∨ c.action = .get → (idOf c.sent).toNat < slots c.key := by
    intro ha
    have hid := id_of_call hd hcall ha
    rw [hgid] at hid
    exact (Int.toNat_lt hid.1).mpr hid.2
  have hanswer : (c.answer s served).length = (c.record h).ty.size ∧
      (c.record h).ty.Same out (c.answer s served) := by
    rw [hans] at hout ⊢
    cases ha : c.action with
    | num =>
      simp only [Slots.told, Call.answer, ha, ht.num c.key hk hd] at hout ⊢
      exact ⟨hout, Ty.same_refl _ _⟩
    | cap =>
      simp only [Slots.told, Call.answer, ha, hgid, Call.record]
      exact ⟨((ht.start c.key hk hd).caps _).1, ht.caps c.key hk hd _ (hindex (.inl ha))⟩
    | get =>
      simp only [Slots.told, Call.answer, ha, hgid, Call.record]
      exact ⟨ht.length c.key hk hd _, ht.cfgs c.key hk hd _ (hindex (.inr ha))⟩
    | set | tgr =>
      simp only [Slots.told, Call.answer, ha]
      exact ⟨hl, hgot⟩
  exact Ty.same_trans _ (c.record h).wf _ _ _ hblen hout hanswer.1 hback hanswer.2

/-- A call leaves the record that it sets. -/
theorem tracks_step (ht : Tracks h n s served t) (hread : Legible h v c)
    (hserve : Serve h v n t c u) : Tracks h n s (served ++ [c]) u := by
  have hsound := sound_step hv hnum hlaw hshow ht.sound hread hserve
  obtain ⟨hfair, got, w, out, -, -, hgot, hcall, rfl, -⟩ :=
    serve_cases hv hnum hlaw hshow ht.sound hread hserve
  obtain ⟨-, hd, -, hl, -⟩ := hfair
  obtain ⟨hwnum, hwcaps, hwcfgs, hid, -⟩ := call_spec hshow hd hcall
  have hgid : idOf got = idOf c.sent := idOf_congr hgot
  have hrec : c.action = .set → c.record h = (h.ops c.key 0).cfgRec := by
    intro ha
    rw [Call.record, ha]
    rfl
  refine ⟨ht.start, hsound, fun k hk hd => ?_, fun k hk hd i hi => ?_, fun k hk hd i => ?_,
    fun k hk hd i hi => ?_⟩
  · rw [Function.update_apply]
    split_ifs with hkc
    · rw [hwnum, ← hkc, ht.num k hk hd]
    · exact ht.num k hk hd
  · rw [Function.update_apply]
    split_ifs with hkc
    · rw [hwcaps, ← hkc]
      exact ht.caps k hk hd i hi
    · exact ht.caps k hk hd i hi
  · rw [latest_append]
    split_ifs with hset
    · obtain ⟨ha, rfl, -⟩ := hset
      rw [hl, hrec ha]
    · exact ht.length k hk hd i
  · rw [latest_append]
    by_cases hset : c.action = .set ∧ c.key = k ∧ idOf c.sent = i
    · obtain ⟨ha, rfl, hsent⟩ := hset
      rw [if_pos ⟨ha, rfl, hsent⟩, Function.update_self, hwcfgs, if_pos ha, hgid, hsent,
        Int.toNat_natCast, Function.update_self, ← hrec ha]
      exact hgot
    · rw [if_neg hset]
      have hold := ht.cfgs k hk hd i hi
      by_cases hkc : k = c.key
      · subst hkc
        rw [Function.update_self, hwcfgs]
        split_ifs with ha
        · have hne : i ≠ (idOf got).toNat := by
            have hpos := hid (by simp [ha]) (by simp [ha])
            intro hi
            have hsent : idOf c.sent = i := by rw [hi, Int.toNat_of_nonneg hpos, hgid]
            exact hset ⟨ha, rfl, hsent⟩
          rwa [Function.update_of_ne hne]
        · exact hold
      · rwa [Function.update_of_ne hkc]

/-- Whatever a module has served before. -/
theorem tracks_run {calls : List Call} (hrun : MTr (Serve h v n) t calls u)
    (ht : Tracks h n s served t) (hread : ∀ c ∈ calls, Legible h v c) :
    Tracks h n s (served ++ calls) u := by
  induction hrun generalizing served with
  | refl => rwa [List.append_nil]
  | @stepL t u w c calls hserve _ ih =>
    have hstep := tracks_step hv hnum hlaw hshow ht (hread c List.mem_cons_self) hserve
    have hrest := ih hstep fun c hc => hread c (List.mem_cons_of_mem _ hc)
    rwa [List.append_assoc, List.singleton_append] at hrest

end

end

section

variable {h : Hal} {v : Node → Server State} {ss ts : Node → State}
  {acts pre post : List (Node × Call)} {n : Node} {c : Call}

/-- What a client is told by a module that has the records that other calls have left. -/
theorem answer_of_run {s : State} {served : List Call} (hv : ∀ n, (v n).handler = h.handler n)
    (hnum : ∀ n i, 0 ∉ (v n).numText i) (hlaw : ∀ n, (v n).cs.Lawful) (hshow : h.ShowsRecord)
    (hs : Tracks h n s served (ss n)) (hrun : MTr (Side fun n => Serve h (v n) n) ss acts ts)
    (hread : ∀ n c, (n, c) ∈ acts → Legible h (v n) c) (hacts : acts = pre ++ (n, c) :: post) :
    (c.record h).ty.Same c.back (c.answer s (served ++ own n pre)) := by
  have hown : own n acts = own n pre ++ c :: own n post := by
    simp [hacts, own, List.filterMap_append]
  have hmem : ∀ c ∈ own n acts, Legible h (v n) c := fun c hc => hread n c (mem_own.mp hc)
  have hone := mtr_own hrun n
  rw [hown] at hone hmem
  obtain ⟨t, hpre, hrest⟩ := mtr_append.mp hone
  have htracks := tracks_run (hv n) (hnum n) (hlaw n) hshow hpre hs
    fun c hc => hmem c (List.mem_append_left _ hc)
  cases hrest with
  | stepL hserve _ =>
    exact answer_step (hv n) (hnum n) (hlaw n) hshow htracks (hmem c (by simp)) hserve

/-- However the calls of all clients are interleaved over the modules, a GET is told the record of
the last SET for its id at its manager, or the one from the start, and the other calls what they
ask for, as their records are read. -/
theorem network_answers (hv : ∀ n, (v n).handler = h.handler n)
    (hnum : ∀ n i, 0 ∉ (v n).numText i) (hlaw : ∀ n, (v n).cs.Lawful) (hshow : h.ShowsRecord)
    (hs : ∀ n, Sound h n (ss n)) (hrun : MTr (Side fun n => Serve h (v n) n) ss acts ts)
    (hread : ∀ n c, (n, c) ∈ acts → Legible h (v n) c) (hacts : acts = pre ++ (n, c) :: post) :
    (c.record h).ty.Same c.back (c.answer (ss n) (own n pre)) := by
  have hans := answer_of_run hv hnum hlaw hshow (tracks_start (hs n)) hrun hread hacts
  rwa [List.nil_append] at hans

/-- What a NUM, a CAP or a GET asks for is in the manager's tables. -/
def Call.InTable (s : State) (c : Call) : Prop :=
  match c.action with
  | .num => 0 ≤ (s c.key).info.num
  | .cap | .get => 0 ≤ idOf c.sent ∧ idOf c.sent < slots c.key
  | .set | .tgr => False

theorem call_of_inTable {k : Key} {a : Action} {s : Slots} {got : List UInt8} (hk : k ≠ .dummy)
    (ha : match a with
      | .num => 0 ≤ s.info.num
      | .cap | .get => 0 ≤ idOf got ∧ idOf got < slots k
      | .set | .tgr => False) : ∃ u out, (h.ops k 0).call a s got = .ok (u, out) := by
  obtain ⟨cfgRec, capRec, set, tgr, heq⟩ := ops_slots (h := h) hk
  rw [heq]
  cases a with
  | num => exact ⟨_, _, manager_num_eq_ok.mpr ⟨ha, rfl, rfl⟩⟩
  | cap =>
    refine ⟨_, _, manager_cap_eq_ok.mpr ⟨(idOf got).toNat, ⟨?_, ?_⟩, rfl, rfl⟩⟩
    · exact (Int.toNat_of_nonneg ha.1).symm
    · exact (Int.toNat_lt ha.1).mpr ha.2
  | get =>
    refine ⟨_, _, manager_get_eq_ok.mpr ⟨(idOf got).toNat, ⟨?_, ?_⟩, rfl, rfl⟩⟩
    · exact (Int.toNat_of_nonneg ha.1).symm
    · exact (Int.toNat_lt ha.1).mpr ha.2
  | set | tgr => exact ha.elim

section

variable {w : Server State} {s : State} (hv : w.handler = h.handler n)
  (hnum : ∀ i, 0 ∉ w.numText i) (hlaw : w.cs.Lawful) (hshow : h.ShowsRecord) (hs : Sound h n s)
  (hfair : c.Fair h n) (hc : Legible h w c) (hshort : Short h w s c) {stack obuf : List UInt8}
  {clock now : UInt64} (hstack : stack.length = 428) (hobuf : obuf.length = packageMaxsize)
include hv hnum hlaw hshow hs hfair hc hshort hstack hobuf

/-- A call comes to an end in either format if the manager takes it. -/
theorem clientCall_of_takes
    (htakes : ∃ u out, (h.ops c.key 0).call c.action (s c.key) c.sent = .ok (u, out)) :
    ∃ o, w.clientCall c.json c.key c.action (c.record h).ty s c.sent stack obuf clock now =
      .ok o := by
  obtain ⟨hops, hchn, htrigger⟩ := hfair.handled hv
  obtain ⟨hk, hd, -, hl, hterm⟩ := hfair
  have hr := @among_respects c.action h c.key 0 s hshow hd (hs c.key hk hd)
  obtain ⟨u, out, hcall⟩ := htakes
  have hstruct : ∀ clock now, ∃ o, w.clientCall false c.key c.action (c.record h).ty s c.sent stack
      obuf clock now = .ok o := by
    intro clock now
    rw [c.record_eq] at hl ⊢
    have hamong : (among c.key (h.ops c.key 0)).call c.action s c.sent =
        .ok (Function.update s c.key u, out) := by
      rw [call_among, hcall]
      rfl
    exact ⟨_, (Proto.Server.structCall_eq_ok hops hchn htrigger hobuf hr hl).mpr
      ⟨_, _, hamong, rfl⟩⟩
  cases hj : c.json with
  | false => exact hstruct clock now
  | true =>
    have hreads := hc hj
    rw [c.record_eq] at hl hterm hstruct hreads ⊢
    have hagree := Proto.Server.agree_of_short hnum hlaw hreads hr hl hterm hops hchn htrigger
      (hshort hj)
    exact (Run.corres_iff.mp (hagree stack obuf clock now stack obuf clock now hstack hobuf hstack
      hobuf)).1.mpr (hstruct clock now)

/-- What is in a manager's tables can be asked for. -/
theorem clientCall_of_inTable (htable : c.InTable s) :
    ∃ o, w.clientCall c.json c.key c.action (c.record h).ty s c.sent stack obuf clock now =
      .ok o :=
  clientCall_of_takes hv hnum hlaw hshow hs hfair hc hshort hstack hobuf
    (call_of_inTable hfair.ne_dummy htable)

end

/-- Whatever all clients have called before, a NUM, a CAP or a GET for an id of the table comes to
an end, in either format and whatever the stack and the reply buffer held. -/
theorem network_serves (hv : ∀ n, (v n).handler = h.handler n) (hnum : ∀ n i, 0 ∉ (v n).numText i)
    (hlaw : ∀ n, (v n).cs.Lawful) (hshow : h.ShowsRecord) (hs : ∀ n, Sound h n (ss n))
    (hrun : MTr (Side fun n => Serve h (v n) n) ss acts ts)
    (hread : ∀ n c, (n, c) ∈ acts → Legible h (v n) c) (hfair : c.Fair h n) (hc : Legible h (v n) c)
    (hshort : Short h (v n) (ts n) c) (htable : c.InTable (ss n)) {stack obuf : List UInt8}
    {clock now : UInt64} (hstack : stack.length = 428) (hobuf : obuf.length = packageMaxsize) :
    ∃ o, (v n).clientCall c.json c.key c.action (c.record h).ty (ts n) c.sent stack obuf clock now =
      .ok o := by
  have htracks := tracks_run (hv n) (hnum n) (hlaw n) hshow (mtr_own hrun n) (tracks_start (hs n))
    fun c hc => hread n c (mem_own.mp hc)
  -- no call has changed how many records there are
  have htable' : c.InTable (ts n) := by
    rw [Call.InTable, htracks.num c.key hfair.key hfair.ne_dummy]
    exact htable
  exact clientCall_of_inTable (hv n) (hnum n) (hlaw n) hshow htracks.sound hfair hc hshort hstack
    hobuf htable'

section

variable {w : Server State} {s : State} {u : Slots} (hv : w.handler = h.handler n)
  (hshow : h.ShowsRecord) (hs : Sound h n s) (hfair : c.Fair h n) (hj : c.json = false)
  (hcall : (h.ops c.key 0).call c.action (s c.key) c.sent = .ok (u, c.back))
include hv hshow hs hfair hj hcall

/-- With records a call comes to an end if the manager takes it. -/
theorem clientCall_of_call : w.clientCall c.json c.key c.action (c.record h).ty s c.sent
    (List.replicate 428 0) (List.replicate packageMaxsize 0) 0 0 =
      .ok ⟨Function.update s c.key u, c.sent, c.back⟩ := by
  have hr := @among_respects c.action h c.key 0 s hshow hfair.ne_dummy
    (hs c.key hfair.key hfair.ne_dummy)
  obtain ⟨hops, hchn, htrigger⟩ := hfair.handled hv
  have hamong : (among c.key (h.ops c.key 0)).call c.action s c.sent =
      .ok (Function.update s c.key u, c.back) := by
    rw [call_among, hcall]
    rfl
  have hend := (@Proto.Server.structCall_eq_ok State w _ c.key c.action s _ _ c.sent
    (List.replicate 428 0) (List.replicate packageMaxsize 0) 0 0
    ⟨Function.update s c.key u, c.sent, c.back⟩ hops hchn htrigger List.length_replicate hr
    (by rw [hfair.length, c.record_eq])).mpr ⟨_, _, hamong, rfl⟩
  rwa [← hj, ← c.record_eq] at hend

/-- With records a module serves what its manager takes. -/
theorem serve_of_call : Serve h w n s c (Function.update s c.key u) :=
  ⟨.mk hfair List.length_replicate List.length_replicate
    (clientCall_of_call hv hshow hs hfair hj hcall) rfl, by simp [Short, hj]⟩

end

end

open Proto (sampleHal)

/-- The modules of a board. -/
def sampleNetwork (n : Node) : Server State :=
  ⟨decimal, plain, parseObject, sampleHal.handler n⟩

/-- One client sets the overlay. -/
def sampleSet : Call := ⟨false, .osd, .set, sampleOverlay, sampleOverlay⟩

/-- Another client asks for it. -/
def sampleGet (json : Bool) (back : List UInt8) : Call :=
  ⟨json, .osd, .get, le 4 1 ++ List.replicate 424 0, back⟩

theorem sample_sound (n : Node) : Sound sampleHal n sampleState := by
  intro k hk hd
  have hzeros : ∀ k : Key, (sampleHal.ops k 0).cfgRec.ty.Terminated
      (List.replicate (sampleHal.ops k 0).cfgRec.ty.size 0) ∧
        (sampleHal.ops k 0).capRec.ty.Terminated
          (List.replicate (sampleHal.ops k 0).capRec.ty.size 0) := by
    intro k
    cases k <;> decide
  exact ⟨fun _ => ⟨List.length_replicate, (hzeros k).1⟩,
    fun _ => ⟨List.length_replicate, (hzeros k).2⟩⟩

theorem sample_fair : sampleSet.Fair sampleHal .vsf ∧
    ∀ json back, (sampleGet json back).Fair sampleHal .vsf := by
  have hlen : sampleOverlay.length = Record.osdCfg.ty.size ∧
      (le 4 1 ++ List.replicate 424 0).length = Record.osdCfg.ty.size := by
    decide +kernel
  have hterm : Record.osdCfg.ty.Terminated sampleOverlay ∧
      Record.osdCfg.ty.Terminated (le 4 1 ++ List.replicate 424 0) := by
    decide
  have hkey : Key.osd ∈ registered .vsf ∧ Key.osd ≠ .dummy := by decide
  exact ⟨⟨hkey.1, hkey.2, fun _ => rfl, hlen.1, hterm.1⟩,
    fun _ _ => ⟨hkey.1, hkey.2, fun _ => rfl, hlen.2, hterm.2⟩⟩

theorem sample_id : idOf sampleSet.sent = (1 : Nat) ∧
    idOf (sampleGet true []).sent = (1 : Nat) := by
  decide

/-- The parser reads whatever the modules print. -/
theorem sample_legible (c : Call) (n : Node) : Legible sampleHal (sampleNetwork n) c :=
  fun _ img _ _ => reads_record n _ img

/-- No text is cut. -/
theorem sample_short {s : State} {json : Bool} {back : List UInt8}
    (hstored : (text decimal (Record.osdCfg.ty.s2j plain ((s .osd).info.cfgs 1))).length ≤ 2007) :
    Short sampleHal (sampleNetwork .vsf) s (sampleGet json back) := by
  intro _
  constructor
  · have hsent : (text decimal (Record.osdCfg.ty.s2j plain
        (le 4 1 ++ List.replicate 424 0))).length ≤ 2007 := by
      decide
    exact hsent
  · intro t out hcall
    rw [call_among, Run.map_eq_ok] at hcall
    obtain ⟨⟨u, out⟩, hcall, heq⟩ := hcall
    obtain ⟨-, rfl⟩ := Prod.mk.inj heq
    obtain ⟨n, ⟨hn, -⟩, -, rfl⟩ := manager_get_eq_ok.mp hcall
    obtain rfl : n = 1 := Int.ofNat.inj (hn.symm.trans sample_id.2)
    exact hstored

/-- The overlay is set. -/
theorem sample_stored : ∃ s,
    Serve sampleHal (sampleNetwork .vsf) .vsf sampleState sampleSet s ∧
    Sound sampleHal .vsf s ∧ (s .osd).info.cfgs 1 = sampleOverlay := by
  have hshow : sampleHal.ShowsRecord := fun _ _ _ _ _ => rfl
  have hset : sampleHal.osdCtrl (sampleState .osd) sampleOverlay = .ok (sampleState .osd, 0) := by
    have hid : idOf sampleOverlay = (1 : Nat) := sample_id.1
    have hencoder : (sampleState .osd).encoderOf sampleOverlay = 0 := by decide
    have hone : uword sampleOverlay 40 = 1 := by decide
    rw [Hal.osdCtrl, if_neg (by decide), if_pos (by decide), Hal.overlay, hid,
      hencoder, hone]
    rfl
  obtain ⟨s, hone, hstored⟩ : ∃ s,
      Serve sampleHal (sampleNetwork .vsf) .vsf sampleState sampleSet s ∧
      (s .osd).info.cfgs 1 = sampleOverlay :=
    ⟨_, serve_of_call rfl hshow (sample_sound .vsf) sample_fair.1 rfl
      (manager_set_eq_ok.mpr ⟨_, 1, hset, ⟨sample_id.1, by decide⟩, rfl, rfl⟩), rfl⟩
  exact ⟨s, hone, sound_step rfl zero_notMem_decimal plain_lawful hshow (sample_sound .vsf)
    (sample_legible _ .vsf) hone, hstored⟩

theorem sample_inTable (s : State) (json : Bool) (back : List UInt8) :
    (sampleGet json back).InTable s := by
  simp only [Call.InTable, sampleGet]
  decide

/-- Both are served, the second in JSON. -/
theorem sample_served : ∃ s t back,
    Serve sampleHal (sampleNetwork .vsf) .vsf sampleState sampleSet s ∧
    Serve sampleHal (sampleNetwork .vsf) .vsf s (sampleGet true back) t := by
  obtain ⟨s, hone, hsound, hstored⟩ := sample_stored
  have hshort : ∀ back, Short sampleHal (sampleNetwork .vsf) s (sampleGet true back) := by
    intro back
    refine sample_short ?_
    rw [hstored]
    decide +kernel
  have hstack : (List.replicate 428 (0 : UInt8)).length = 428 := List.length_replicate
  have hobuf : (List.replicate packageMaxsize (0 : UInt8)).length = packageMaxsize :=
    List.length_replicate
  obtain ⟨o, ho⟩ := @clientCall_of_inTable sampleHal .vsf (sampleGet true []) (sampleNetwork .vsf) s
    rfl zero_notMem_decimal plain_lawful (fun _ _ _ _ _ => rfl) hsound (sample_fair.2 true [])
    (sample_legible _ .vsf) (hshort []) _ _ 0 0 hstack hobuf (sample_inTable s true [])
  exact ⟨s, o.state, o.returned, hone,
    .mk (sample_fair.2 true o.returned) hstack hobuf ho rfl, hshort o.returned⟩

/-- What the second client is to be told. -/
theorem sample_answer (json : Bool) (back : List UInt8) :
    (sampleGet json back).answer sampleState [sampleSet] = sampleOverlay := by
  have hid : idOf sampleSet.sent = ((idOf (sampleGet true []).sent).toNat : Int) := by
    rw [sample_id.1, sample_id.2]
    rfl
  have hanswer : (sampleGet json back).answer sampleState [sampleSet] =
      latest sampleState .osd (idOf (sampleGet true []).sent).toNat ([] ++ [sampleSet]) := rfl
  rw [hanswer, latest_append]
  exact if_pos ⟨rfl, rfl, hid⟩

/-- The second client is told what the first one set. -/
theorem network_answers_set : ∃ ts back,
    MTr (Side fun n => Serve sampleHal (sampleNetwork n) n) (fun _ => sampleState)
      [(.vsf, sampleSet), (.vsf, sampleGet true back)] ts ∧
    Record.osdCfg.ty.Same back sampleOverlay := by
  have hshow : sampleHal.ShowsRecord := fun _ _ _ _ _ => rfl
  obtain ⟨s, t, back, hone, htwo⟩ := sample_served
  rw [← Function.update_self Node.vsf s fun _ => sampleState] at htwo
  have hrun : MTr (Side fun n => Serve sampleHal (sampleNetwork n) n) (fun _ => sampleState) _ _ :=
    .stepL (.mk hone) (.stepL (.mk htwo) .refl)
  have hsplit : [(Node.vsf, sampleSet), (.vsf, sampleGet true back)] =
      [(.vsf, sampleSet)] ++ (.vsf, sampleGet true back) :: [] := rfl
  have hans := network_answers (fun _ => rfl) (fun _ => zero_notMem_decimal)
    (fun _ => plain_lawful) hshow sample_sound hrun (fun n c _ => sample_legible c n) hsplit
  exact ⟨_, back, hrun, sample_answer true back ▸ hans⟩

/-- An overlay that nobody has set is there, too. -/
theorem network_serves_get : ∃ o, (sampleNetwork .vsf).clientCall true .osd .get
    Record.osdCfg.ty sampleState (sampleGet true []).sent (List.replicate 428 0)
    (List.replicate packageMaxsize 0) 0 0 = .ok o :=
  network_serves (n := .vsf) (c := sampleGet true []) (v := sampleNetwork) (fun _ => rfl)
    (fun _ => zero_notMem_decimal) (fun _ => plain_lawful) (fun _ _ _ _ _ => rfl) sample_sound .refl
    nofun (sample_fair.2 true []) (sample_legible _ .vsf) (sample_short (by decide))
    (sample_inTable sampleState true []) List.length_replicate List.length_replicate

end Freak.Manager
