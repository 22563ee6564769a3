import Freak.Manager.Compiled

/-! The servers the rtsp and web managers run, against the records they store. -/
namespace Freak.Manager

open Lts

/-- What an instance was started for: the id, the ip and the port. -/
structure Address where
  id : Nat
  ip : List UInt8
  port : Int
deriving DecidableEq

/-- `server`, with the instances ever started, in order, and those stopped; `fails` tells which
calls of `*_server_init` return `NULL`. -/
structure Servers where
  server : Nat → Option Nat
  started : List Address
  stopped : List Nat
  fails : Nat → Bool

namespace Servers

/-- `*_server_init` for a new instance. -/
def start (d : Servers) (a : Address) : Servers :=
  { d with
    server := Function.update d.server a.id (some d.started.length)
    started := d.started ++ [a] }

/-- `*_server_uninit`. -/
def stop (d : Servers) (id n : Nat) : Servers :=
  { d with server := Function.update d.server id none, stopped := d.stopped ++ [n] }

end Servers

/-- `__rtsp_svr_set` and `__web_svr_set`. -/
def svrSet (d : Servers) (cfg : SvrCfg) : Option (Servers × Int) :=
  if cfg.enable ≠ 0 then
    match d.server cfg.id.toNat with
    | some _ => some (d, 0)
    | none =>
      -- the assertion
      if d.fails d.started.length then none
      else some (d.start ⟨cfg.id.toNat, cfg.ip, cfg.port⟩, 0)
  else
    match d.server cfg.id.toNat with
    | some n => some (d.stop cfg.id.toNat n, 0)
    | none => some (d, 0)

def rtspSvr : Mgr Servers SvrCfg SvrCap := Kind.rtsp.mgr svrSet svrSet

def webSvr : Mgr Servers SvrCfg SvrCap := Kind.web.mgr svrSet svrSet

namespace Servers

/-- Before the first SET. -/
def initial (fails : Nat → Bool) : Servers := ⟨fun _ => none, [], [], fails⟩

/-- The instance was started for the id and has not been stopped. -/
def Alive (d : Servers) (id n : Nat) : Prop :=
  (∃ a, d.started[n]? = some a ∧ a.id = id) ∧ n ∉ d.stopped

/-- One instance for each id, none stopped twice, and none running but those in `server`. -/
structure Accounted (d : Servers) : Prop where
  once : d.stopped.Nodup
  born : ∀ n ∈ d.stopped, n < d.started.length
  alive : ∀ id n, d.Alive id n ↔ d.server id = some n

end Servers

/-- The server of an id runs as its record says, where it says. -/
def RunsStored (s : Store Servers SvrCfg SvrCap) (i : Int) : Prop :=
  ((s.dev.server i.toNat).isSome ↔ (s.info.get i).enable ≠ 0) ∧
  ∀ n, s.dev.server i.toNat = some n →
    s.dev.started[n]? = some ⟨i.toNat, (s.info.get i).ip, (s.info.get i).port⟩

/-- A SET that finds its server running gives the address it runs at. -/
def SameAddress (s : Store Servers SvrCfg SvrCap) : Request SvrCfg SvrCap → Prop
  | .set cfg => cfg.enable ≠ 0 → ∀ n, s.dev.server cfg.id.toNat = some n →
      s.dev.started[n]? = some ⟨cfg.id.toNat, cfg.ip, cfg.port⟩
  | _ => True

namespace Servers

variable {d e : Servers} {a : Address} {id n : Nat}

theorem accounted_initial (fails : Nat → Bool) : (initial fails).Accounted := by
  constructor <;> simp [initial, Alive]

theorem alive_lt (h : d.Alive id n) : n < d.started.length := by
  obtain ⟨⟨a, ha, -⟩, -⟩ := h
  exact (List.getElem?_eq_some_iff.mp ha).1

theorem accounted_start (h : d.Accounted) (hs : d.server a.id = none) :
    (d.start a).Accounted := by
  have hout : d.started.length ∉ d.stopped := fun hm => (h.born _ hm).false
  refine ⟨h.once, fun n hn => ?_, fun id n => ?_⟩
  · simp only [start, List.length_append, List.length_singleton]
    exact Nat.lt_succ_of_lt (h.born n hn)
  · rcases eq_or_ne n d.started.length with rfl | hn
    · have hid : d.server id ≠ some d.started.length := by
        intro hid
        exact (alive_lt ((h.alive id _).mpr hid)).false
      rcases eq_or_ne id a.id with rfl | hne
      · simp [Alive, start, hout]
      · simp [Alive, start, hout, hne, hid, hne.symm]
    · have halive : (d.start a).Alive id n ↔ d.Alive id n := by
        simp only [Alive, start]
        rcases Nat.lt_or_gt_of_ne hn with hlt | hgt
        · rw [List.getElem?_append_left hlt]
        · simp [List.getElem?_append, hgt.not_gt, Nat.sub_ne_zero_of_lt hgt]
      rw [halive, h.alive]
      rcases eq_or_ne id a.id with rfl | hne
      · simp [start, hs, hn.symm]
      · simp [start, hne]

theorem accounted_stop (h : d.Accounted) (hs : d.server id = some n) :
    (d.stop id n).Accounted := by
  have hn : d.Alive id n := (h.alive id n).mpr hs
  have hlt : n < d.started.length := alive_lt hn
  refine ⟨?_, ?_, fun j k => ?_⟩
  · simp only [stop]
    exact h.once.append (List.nodup_singleton n) (List.disjoint_singleton.mpr hn.2)
  · intro k hk
    rcases List.mem_append.mp hk with hk | hk
    · exact h.born k hk
    · obtain rfl := List.mem_singleton.mp hk
      exact hlt
  · have halive : (d.stop id n).Alive j k ↔ d.Alive j k ∧ k ≠ n := by
      simp [Alive, stop, and_assoc]
    rw [halive, h.alive]
    rcases eq_or_ne j id with rfl | hj
    · simp only [stop, Function.update_self, reduceCtorEq, iff_false, not_and, not_not]
      rintro hk
      exact (Option.some.inj (hs.symm.trans hk)).symm
    · simp only [stop, Function.update_of_ne hj, and_iff_left_iff_imp]
      rintro hk rfl
      obtain ⟨⟨a, ha, haj⟩, -⟩ := (h.alive j k).mpr hk
      obtain ⟨⟨b, hb, hbi⟩, -⟩ := hn
      cases ha.symm.trans hb
      exact hj (haj.symm.trans hbi)

end Servers

variable {m : Mgr Servers SvrCfg SvrCap} {s t : Store Servers SvrCfg SvrCap} {cfg : SvrCfg}
  {q : Request SvrCfg SvrCap} {qs : List (Request SvrCfg SvrCap)} {d e : Servers} {i : Int}

/-- Enabled: the server that runs is left alone, else one is started. Disabled: it is stopped. -/
theorem svrSet_cases (h : svrSet d cfg = some (e, 0)) :
    (cfg.enable ≠ 0 ∧ ∃ n, d.server cfg.id.toNat = some n ∧ e = d) ∨
    (cfg.enable ≠ 0 ∧ d.server cfg.id.toNat = none ∧
      e = d.start ⟨cfg.id.toNat, cfg.ip, cfg.port⟩) ∨
    (cfg.enable = 0 ∧ ∃ n, d.server cfg.id.toNat = some n ∧ e = d.stop cfg.id.toNat n) ∨
    (cfg.enable = 0 ∧ d.server cfg.id.toNat = none ∧ e = d) := by
  by_cases hen : cfg.enable = 0
  · cases hs : d.server cfg.id.toNat with
    | none => simpa [svrSet, hen, hs, eq_comm] using h
    | some n => simpa [svrSet, hen, hs, eq_comm] using h
  · cases hs : d.server cfg.id.toNat with
    | none =>
      have hd : d.fails d.started.length = false ∧
          d.start ⟨cfg.id.toNat, cfg.ip, cfg.port⟩ = e := by
        simpa [svrSet, hen, hs] using h
      exact .inr (.inl ⟨hen, rfl, hd.2.symm⟩)
    | some n => simpa [svrSet, hen, hs, eq_comm] using h

theorem svrSet_accounted (h : svrSet d cfg = some (e, 0)) (ha : d.Accounted) : e.Accounted := by
  rcases svrSet_cases h with ⟨-, n, hs, rfl⟩ | ⟨-, hs, rfl⟩ | ⟨-, n, hs, rfl⟩ | ⟨-, hs, rfl⟩
  · exact ha
  · exact Servers.accounted_start ha hs
  · exact Servers.accounted_stop ha hs
  · exact ha

/-- After its SET a server is as stored exactly when the SET did not move it. -/
theorem runsStored_set_iff (h : svrSet s.dev cfg = some (t.dev, 0))
    (ht : t.info = s.info.put cfg.id cfg) :
    RunsStored t cfg.id ↔ SameAddress s (.set cfg) := by
  have hg : t.info.get cfg.id = cfg := by rw [ht, Mgr.get_put]
  simp only [RunsStored, SameAddress, hg]
  rcases svrSet_cases h with ⟨hen, n, hs, he⟩ | ⟨hen, hs, he⟩ | ⟨hen, n, hs, he⟩ | ⟨hen, hs, he⟩
  · simp [he, hs, hen]
  · simp [he, hs, hen, Servers.start]
  · simp [he, hs, hen, Servers.stop]
  · simp [he, hs, hen]

/-- Another id's server and record are left as they are. -/
theorem runsStored_other (h : svrSet s.dev cfg = some (t.dev, 0))
    (ht : t.info = s.info.put cfg.id cfg) (hc : 0 ≤ cfg.id) (hi : 0 ≤ i) (hne : i ≠ cfg.id)
    (hr : RunsStored s i) : RunsStored t i := by
  have hg : t.info.get i = s.info.get i := by rw [ht, Mgr.get_put_ne _ hc hi hne]
  have hn : i.toNat ≠ cfg.id.toNat := by omega
  have hserver : t.dev.server i.toNat = s.dev.server i.toNat := by
    rcases svrSet_cases h with ⟨-, n, -, he⟩ | ⟨-, -, he⟩ | ⟨-, n, -, he⟩ | ⟨-, -, he⟩ <;>
      simp [he, Servers.start, Servers.stop, hn]
  have hstarted : ∀ (n : Nat) (a : Address), s.dev.started[n]? = some a →
      t.dev.started[n]? = some a := by
    intro n a ha
    have hlt : n < s.dev.started.length := (List.getElem?_eq_some_iff.mp ha).1
    rcases svrSet_cases h with ⟨-, n, -, he⟩ | ⟨-, -, he⟩ | ⟨-, n, -, he⟩ | ⟨-, -, he⟩ <;>
      simpa [he, Servers.start, Servers.stop, List.getElem?_append_left hlt] using ha
  rw [RunsStored, hserver, hg]
  exact ⟨hr.1, fun n hs => hstarted n _ (hr.2 n hs)⟩

/-- What the managers keep: the instances are accounted for, and each server that was ever set
runs as stored. -/
structure RunsAsStored (m : Mgr Servers SvrCfg SvrCap) (qs : List (Request SvrCfg SvrCap))
    (s : Store Servers SvrCfg SvrCap) : Prop where
  accounted : s.dev.Accounted
  stored : ∀ i, 0 ≤ i → m.Sets qs i → RunsStored s i

theorem step_accounted (h : rtspSvr.Step s q t) (ha : s.dev.Accounted) : t.dev.Accounted := by
  rcases Mgr.step_spec h with ⟨cfg, rfl, -, hd, -⟩ | ⟨-, -, hd⟩
  · exact svrSet_accounted hd ha
  · rwa [hd rfl]

theorem step_runsStored (h : rtspSvr.Step s q t) (hq : SameAddress s q) (hi : 0 ≤ i)
    (hr : RunsStored s i ∨ rtspSvr.Sets [q] i) : RunsStored t i := by
  rcases Mgr.step_spec h with ⟨cfg, rfl, hc, hd, ht⟩ | ⟨hne, ht, hd⟩
  · rcases eq_or_ne i cfg.id with rfl | hic
    · exact (runsStored_set_iff hd ht).mpr hq
    · refine runsStored_other hd ht hc hi hic (hr.resolve_right ?_)
      rintro ⟨r, hm, rfl⟩
      cases List.mem_singleton.mp hm
      exact hic rfl
  · have hs : RunsStored s i := by
      refine hr.resolve_right ?_
      rintro ⟨r, hm, -⟩
      exact hne r (List.mem_singleton.mp hm).symm
    rwa [RunsStored, hd rfl, ht]

theorem run_runsStored (h : MTr (Restrict rtspSvr.Step SameAddress) s qs t)
    (ha : s.dev.Accounted) :
    t.dev.Accounted ∧ ∀ i, 0 ≤ i → RunsStored s i ∨ rtspSvr.Sets qs i → RunsStored t i := by
  induction h with
  | refl => exact ⟨ha, fun i _ hr => hr.resolve_right (by simp [Mgr.Sets])⟩
  | stepL h _ ih =>
    obtain ⟨hacc, hrun⟩ := ih (step_accounted h.1 ha)
    refine ⟨hacc, fun i hi hr => hrun i hi ?_⟩
    rw [Mgr.sets_cons, ← or_assoc] at hr
    exact hr.imp_left (step_runsStored h.1 h.2 hi)

/-- Both managers run what they store as long as no SET moves a running server, and the first one
that does leaves it where it was. -/
theorem runs_as_stored (hm : m = rtspSvr ∨ m = webSvr) {fails : Nat → Bool}
    {f : Info SvrCfg SvrCap}
    (h : MTr (Restrict m.Step SameAddress) ⟨.initial fails, f⟩ qs t) :
    RunsAsStored m qs t ∧
    ∀ cfg u, m.Step t (.set cfg) u → (RunsStored u cfg.id ↔ SameAddress t (.set cfg)) := by
  have hm' : m = rtspSvr := hm.elim id fun h => h
  subst hm'
  obtain ⟨hacc, hrun⟩ := run_runsStored h (Servers.accounted_initial fails)
  refine ⟨⟨hacc, fun i hi hs => hrun i hi (.inr hs)⟩, fun cfg u hu => ?_⟩
  rcases Mgr.step_spec hu with ⟨r, hr, -, hd, ht⟩ | ⟨hne, -⟩
  · cases hr
    exact runsStored_set_iff hd ht
  · exact (hne cfg rfl).elim

/-- Enabled, then disabled. -/
theorem runs_as_stored_two :
    ∃ t, MTr (Restrict webSvr.Step SameAddress) ⟨.initial fun _ => false, webInfo⟩
        [.set ⟨0, 1, [], 8080⟩, .set ⟨0, 0, [], 80⟩] t ∧ t.dev.stopped = [0] ∧
      RunsAsStored webSvr [.set ⟨0, 1, [], 8080⟩, .set ⟨0, 0, [], 80⟩] t := by
  have hrun : ∃ t, MTr (Restrict webSvr.Step SameAddress) ⟨.initial fun _ => false, webInfo⟩
      [.set ⟨0, 1, [], 8080⟩, .set ⟨0, 0, [], 80⟩] t ∧ t.dev.stopped = [0] :=
    ⟨_, .stepL ⟨⟨⟨by decide, by decide⟩, _, rfl⟩, nofun⟩ <|
      .stepL ⟨⟨⟨by decide, by decide⟩, _, rfl⟩, fun h => (h rfl).elim⟩ .refl, rfl⟩
  obtain ⟨t, ht, hs⟩ := hrun
  exact ⟨t, ht, hs, (runs_as_stored (.inr rfl) ht).1⟩

/-- A SET that moves a running server stores the new port and leaves the server at the old one. -/
theorem port_moved :
    ¬ ∀ qs t, MTr rtspSvr.Step ⟨.initial fun _ => false, rtspInfo⟩ qs t →
      RunsAsStored rtspSvr qs t := by
  intro h
  have hrun : MTr rtspSvr.Step ⟨.initial fun _ => false, rtspInfo⟩
      [.set ⟨0, 1, [], 1234⟩, .set ⟨0, 1, [], 554⟩] _ :=
    .stepL ⟨⟨by decide, by decide⟩, _, rfl⟩ <| .stepL ⟨⟨by decide, by decide⟩, _, rfl⟩ .refl
  have hs := (h _ _ hrun).stored 0 le_rfl ⟨⟨0, 1, [], 554⟩, by simp, rfl⟩
  have hport := hs.2 0 rfl
  exact absurd hport (by decide)

end Freak.Manager
