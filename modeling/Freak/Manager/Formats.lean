import Freak.Manager.Index
import Freak.Proto.Formats

/-! The managers in the two formats. -/
namespace Freak.Manager

open Bytes Json Schema
open Freak.Proto (Ops Record Action Key Node registered Server)

/-- Stored records that are the same; all else is equal. -/
structure Slots.Same (t : Ty) (s s' : Slots) : Prop where
  num : s.info.num = s'.info.num
  caps : s.info.caps = s'.info.caps
  held : s.held = s'.held
  cfgs : ∀ n, t.Same (s.info.cfgs n) (s'.info.cfgs n)

/-- Every record is of its type, and its strings end inside their fields. -/
structure Slots.Sound (m : Ops Slots) (s : Slots) : Prop where
  cfgs : ∀ n, (s.info.cfgs n).length = m.cfgRec.ty.size ∧ m.cfgRec.ty.Terminated (s.info.cfgs n)
  caps : ∀ n, (s.info.caps n).length = m.capRec.ty.size ∧ m.capRec.ty.Terminated (s.info.caps n)

/-- The managers of a module, one by one. -/
def Hal.StateSame (h : Hal) (s s' : State) : Prop :=
  ∀ k, Slots.Same (h.ops k 0).cfgRec.ty (s k) (s' k)

/-- The display shows what an OSD record says, not what lies behind its strings and beside the
overlay in use. -/
def Hal.ShowsRecord (h : Hal) : Prop :=
  ∀ cfg cfg', cfg.length = Record.osdCfg.ty.size → cfg'.length = Record.osdCfg.ty.size →
    Record.osdCfg.ty.Same cfg cfg' → h.display cfg = h.display cfg'

section Fields

variable {cfg cfg' : List UInt8}

theorem word_congr {n : Nat} (h : (cfg.drop n).take 4 = (cfg'.drop n).take 4) :
    word cfg n = word cfg' n :=
  congrArg (fun bs : List UInt8 => (ofLe bs : Int).bmod (2 ^ 32)) h

theorem idOf_congr {r : Record} (h : r.ty.Same cfg cfg') : idOf cfg = idOf cfg' := by
  have hfirst : (cfg.drop 0).take 4 = (cfg'.drop 0).take 4 := Record.same_first h
  simp only [idOf, word_congr hfirst]

/-- The condition of an OSD record, and how many entries its overlay has. -/
theorem osd_congr (hl : cfg.length = Record.osdCfg.ty.size)
    (hl' : cfg'.length = Record.osdCfg.ty.size) (h : Record.osdCfg.ty.Same cfg cfg') :
    (∀ name, 0 ∉ ascii name → condIs name (conditionOf cfg) = condIs name (conditionOf cfg')) ∧
      (condIs "texts" (conditionOf cfg) = true → uword cfg 40 = uword cfg' 40) ∧
      (condIs "objs" (conditionOf cfg) = true → uword cfg 40 = uword cfg' 40) := by
  obtain ⟨-, -, ⟨hcond, -, htexts, hobjs, -⟩, -⟩ := h
  have hint : Proto.intTy.size = 4 := rfl
  have hunion : Proto.osdUnionTy.size = 420 := rfl
  have hcondition : ∀ cfg : List UInt8, ((((cfg.drop Proto.intTy.size).drop
      Proto.intTy.size).take Proto.osdUnionTy.size).take 32) = conditionOf cfg := by
    intro cfg
    rw [hint, hunion, List.take_take, List.drop_drop]
    rfl
  have hnum : ∀ (cfg : List UInt8) (n : Nat), 4 ≤ n → n ≤ 388 → ((((((cfg.drop
      Proto.intTy.size).drop Proto.intTy.size).take Proto.osdUnionTy.size).drop 32).take n).take
        4) = slice cfg 40 4 := by
    intro cfg n hn hle
    rw [hint, hunion, List.take_take, List.drop_take, List.take_take, List.drop_drop,
      List.drop_drop, slice]
    congr 1
    omega
  rw [hcondition, hcondition] at hcond
  rw [hcondition] at htexts hobjs
  refine ⟨?_, ?_, ?_⟩
  · intro name hname
    refine condIs_congr hname ?_ hcond
    rw [conditionOf, conditionOf, slice, slice, List.length_take, List.length_take,
      List.length_drop, List.length_drop, hl, hl']
  · intro hc
    have hfirst : _ = _ := (htexts hc).1
    exact congrArg ofLe ((hnum cfg _ (by decide) (by decide)).symm.trans
      (hfirst.trans (hnum cfg' _ (by decide) (by decide))))
  · intro hc
    have hfirst : _ = _ := (hobjs hc).1
    exact congrArg ofLe ((hnum cfg _ (by decide) (by decide)).symm.trans
      (hfirst.trans (hnum cfg' _ (by decide) (by decide))))

end Fields

section Set

variable {h : Hal} {s : Slots} {cfg cfg' : List UInt8}

theorem frameSet_congr (hs : Record.frameCfg.ty.Same cfg cfg') :
    h.frameSet s cfg = h.frameSet s cfg' := by
  have henable : word cfg 4 = word cfg' 4 := word_congr hs.2.1
  simp only [Hal.frameSet, Slots.capOf, idOf_congr hs, henable]

theorem streamSet_congr (hs : Record.streamCfg.ty.Same cfg cfg') :
    h.streamSet s cfg = h.streamSet s cfg' := by
  have henable : word cfg 4 = word cfg' 4 := word_congr hs.2.1
  simp only [Hal.streamSet, idOf_congr hs, henable]

theorem svrSet_congr (hs : Record.rtspCfg.ty.Same cfg cfg') : h.svrSet s cfg = h.svrSet s cfg' := by
  have henable : word cfg 4 = word cfg' 4 := word_congr hs.2.1
  simp only [Hal.svrSet, idOf_congr hs, henable]

theorem algSet_congr (hs : Record.algCfg.ty.Same cfg cfg') : h.algSet s cfg = h.algSet s cfg' := by
  have htype : word cfg 4 = word cfg' 4 := word_congr hs.2.1
  have henable : word cfg 8 = word cfg' 8 := by
    have hs : _ = _ := hs.2.2.1
    rw [List.drop_drop, List.drop_drop] at hs
    exact word_congr hs
  simp only [Hal.algSet, idOf_congr hs, htype, henable]

/-- Only the overlay in use is read of an OSD record. -/
theorem osdCtrl_congr (hshow : h.ShowsRecord) (hl : cfg.length = Record.osdCfg.ty.size)
    (hl' : cfg'.length = Record.osdCfg.ty.size) (hs : Record.osdCfg.ty.Same cfg cfg') :
    h.osdCtrl s cfg = h.osdCtrl s cfg' := by
  obtain ⟨hcond, htexts, hobjs⟩ := osd_congr hl hl' hs
  have hid := idOf_congr hs
  have hdisplay := hshow cfg cfg' hl hl' hs
  rw [Hal.osdCtrl, Hal.osdCtrl, ← hcond _ (by decide), ← hcond _ (by decide),
    ← hcond _ (by decide)]
  split_ifs with _ hc hc
  · simp only [Hal.cover, Slots.capOf, hid, hdisplay]
    rfl
  · simp only [Hal.overlay, Slots.encoderOf, Slots.capOf, hid, htexts hc, hdisplay]
    rfl
  · simp only [Hal.overlay, Slots.encoderOf, Slots.capOf, hid, hobjs hc, hdisplay]
    rfl
  · rfl

variable {u : Slots} {ret : Int}

theorem info_of_pure {n : Int} (hu : (pure (s, n) : Run (Slots × Int)) = .ok (u, ret)) :
    u.info = s.info := by
  obtain ⟨rfl, -⟩ := Prod.mk.inj (Run.pure_eq_ok.mp hu)
  rfl

/-- No `set` touches a stored record. -/
theorem frameSet_info (hu : h.frameSet s cfg = .ok (u, ret)) : u.info = s.info := by
  obtain ⟨n, -, hu⟩ := Run.bind_eq_ok.mp hu
  obtain ⟨t, ht, hu⟩ := Run.bind_eq_ok.mp hu
  obtain ⟨r, -, hu⟩ := Run.bind_eq_ok.mp hu
  rw [← Hal.hold_info ht]
  cases r with
  | none =>
    exact info_of_pure hu
  | some g =>
    obtain ⟨-, -, hu⟩ := Run.bind_eq_ok.mp hu
    exact info_of_pure hu

theorem streamSet_info (hu : h.streamSet s cfg = .ok (u, ret)) : u.info = s.info := by
  obtain ⟨n, -, hu⟩ := Run.bind_eq_ok.mp hu
  obtain ⟨t, ht, hu⟩ := Run.bind_eq_ok.mp hu
  obtain ⟨-, -, hu⟩ := Run.bind_eq_ok.mp hu
  exact (info_of_pure hu).trans (Hal.hold_info ht)

theorem svrSet_info (hu : h.svrSet s cfg = .ok (u, ret)) : u.info = s.info := by
  obtain ⟨n, -, hu⟩ := Run.bind_eq_ok.mp hu
  obtain ⟨t, ht, hu⟩ := Run.bind_eq_ok.mp hu
  exact (info_of_pure hu).trans (Hal.hold_info ht)

theorem algSet_info (hu : h.algSet s cfg = .ok (u, ret)) : u.info = s.info := by
  rw [Hal.algSet] at hu
  split_ifs at hu
  · obtain ⟨n, -, hu⟩ := Run.bind_eq_ok.mp hu
    obtain ⟨-, -, hu⟩ := Run.bind_eq_ok.mp hu
    exact (info_of_pure hu :)
  · obtain ⟨n, -, hu⟩ := Run.bind_eq_ok.mp hu
    exact (info_of_pure hu :)
  · exact info_of_pure hu

theorem cover_info (hu : h.cover s cfg = .ok (u, ret)) : u.info = s.info := by
  obtain ⟨-, -, hu⟩ := Run.bind_eq_ok.mp hu
  obtain ⟨r, -, hu⟩ := Run.bind_eq_ok.mp hu
  cases r with
  | none =>
    exact info_of_pure hu
  | some g =>
    obtain ⟨-, -, hu⟩ := Run.bind_eq_ok.mp hu
    obtain ⟨-, -, hu⟩ := Run.bind_eq_ok.mp hu
    exact info_of_pure hu

theorem overlay_info {max : Nat} (hu : h.overlay max s cfg = .ok (u, ret)) : u.info = s.info := by
  obtain ⟨-, -, hu⟩ := Run.bind_eq_ok.mp hu
  obtain ⟨r, -, hu⟩ := Run.bind_eq_ok.mp hu
  cases r with
  | none =>
    exact info_of_pure hu
  | some g =>
    obtain ⟨-, -, hu⟩ := Run.bind_eq_ok.mp hu
    obtain ⟨-, -, hu⟩ := Run.bind_eq_ok.mp hu
    obtain ⟨-, -, hu⟩ := Run.bind_eq_ok.mp hu
    exact info_of_pure hu

theorem osdCtrl_info (hu : h.osdCtrl s cfg = .ok (u, ret)) : u.info = s.info := by
  rw [Hal.osdCtrl] at hu
  split_ifs at hu
  · exact cover_info hu
  · exact overlay_info hu
  · exact overlay_info hu
  · exact info_of_pure hu

end Set

section Respects

theorem Slots.same_refl (t : Ty) (s : Slots) : s.Same t s where
  num := rfl
  caps := rfl
  held := rfl
  cfgs _ := Ty.same_refl t _

theorem Slots.same_put {ty : Ty} {u u' : Slots} {n : Int} {rec rec' : List UInt8}
    (hu : u.Same ty u') (h : ty.Same rec rec') :
    Slots.Same ty { u with info := u.info.put n rec } { u' with info := u'.info.put n rec' } := by
  refine ⟨hu.num, hu.caps, hu.held, fun i => ?_⟩
  simp only [Info.put, Function.update_apply]
  split_ifs
  · exact h
  · exact hu.cfgs i

/-- What comes back is the manager's own, or what each caller gave. -/
def Echoed (ty : Ty) (rec rec' out out' : List UInt8) : Prop :=
  out = out' ∨ out = rec ∧ out' = rec' ∧ ty.Same rec rec'

theorem same_of_echoed {ty : Ty} {rec rec' out out' : List UInt8}
    (h : Echoed ty rec rec' out out') : ty.Same out out' := by
  rcases h with rfl | ⟨rfl, rfl, hs⟩
  · exact Ty.same_refl _ _
  · exact hs

variable {cfgRec capRec : Record} {max : Nat} {set : Slots → List UInt8 → Run (Slots × Int)}
  {tgr : Option (Slots → List UInt8 → Run (Slots × Int))} {a : Action} {s t : Slots}
  {rec rec' out : List UInt8}

theorem manager_num_eq_ok : (manager cfgRec capRec max set tgr).call .num s rec = .ok (t, out) ↔
    0 ≤ s.info.num ∧ t = s ∧ out = le 4 s.info.num.toNat := by
  simp only [Ops.call, manager, Run.bind_eq_ok, Run.pure_eq_ok, Run.assert_eq_ok, exists_const,
    Except.ok.injEq, exists_eq_left', Prod.mk.injEq]
  tauto

theorem manager_cap_eq_ok : (manager cfgRec capRec max set tgr).call .cap s rec = .ok (t, out) ↔
    ∃ n : Nat, (idOf rec = n ∧ n < max) ∧ t = s ∧ out = s.info.caps n := by
  simp only [Ops.call, manager, Slots.cap, Run.bind_eq_ok, Run.pure_eq_ok, Run.assert_eq_ok,
    Run.index_eq_ok, exists_const, Prod.exists, Prod.mk.injEq]
  constructor
  · rintro ⟨cap, ret, ⟨n, hn, rfl, rfl⟩, -, rfl, rfl⟩
    exact ⟨n, hn, rfl, rfl⟩
  · rintro ⟨n, hn, rfl, rfl⟩
    exact ⟨_, _, ⟨n, hn, rfl, rfl⟩, rfl, rfl, rfl⟩

theorem manager_get_eq_ok : (manager cfgRec capRec max set tgr).call .get s rec = .ok (t, out) ↔
    ∃ n : Nat, (idOf rec = n ∧ n < max) ∧ t = s ∧ out = s.info.cfgs n := by
  simp only [Ops.call, manager, Slots.get, Run.bind_eq_ok, Run.pure_eq_ok, Run.assert_eq_ok,
    Run.index_eq_ok, exists_const, Prod.exists, Prod.mk.injEq]
  constructor
  · rintro ⟨cfg, ret, ⟨n, hn, rfl, rfl⟩, -, rfl, rfl⟩
    exact ⟨n, hn, rfl, rfl⟩
  · rintro ⟨n, hn, rfl, rfl⟩
    exact ⟨_, _, ⟨n, hn, rfl, rfl⟩, rfl, rfl, rfl⟩

theorem manager_set_eq_ok : (manager cfgRec capRec max set tgr).call .set s rec = .ok (t, out) ↔
    ∃ (u : Slots) (n : Nat), set s rec = .ok (u, 0) ∧ (idOf rec = n ∧ n < max) ∧
      t = { u with info := u.info.put n rec } ∧ out = rec := by
  simp only [Ops.call, manager, Slots.put, Run.bind_eq_ok, Run.pure_eq_ok, Run.assert_eq_ok,
    Run.index_eq_ok, exists_const, Prod.exists, Prod.mk.injEq]
  constructor
  · rintro ⟨u, ret, hset, rfl, w, ⟨n, hn, rfl⟩, rfl, rfl⟩
    exact ⟨u, n, hset, hn, rfl, rfl⟩
  · rintro ⟨u, n, hset, hn, rfl, rfl⟩
    exact ⟨u, 0, hset, rfl, _, ⟨n, hn, rfl⟩, rfl, rfl⟩

theorem manager_tgr_eq_ok : (manager cfgRec capRec max set tgr).call .tgr s rec = .ok (t, out) ↔
    ∃ f, tgr = some f ∧ f s rec = .ok (t, 0) ∧ out = rec := by
  cases tgr with
  | none => simp [Ops.call, manager]
  | some f =>
    simp only [Ops.call, manager, Run.bind_eq_ok, Run.pure_eq_ok, Run.assert_eq_ok, exists_const,
      Prod.exists, Prod.mk.injEq, Option.some.injEq, exists_eq_left']
    constructor
    · rintro ⟨u, ret, hf, rfl, rfl, rfl⟩
      exact ⟨hf, rfl⟩
    · rintro ⟨hf, rfl⟩
      exact ⟨t, 0, hf, rfl, rfl, rfl⟩

section

variable (hid : a ≠ .num → idOf rec = idOf rec') (hset : a = .set → set s rec = set s rec')
  (htgr : ∀ f, a = .tgr → tgr = some f → f s rec = f s rec')
include hid hset htgr

theorem manager_ends {x : Slots × List UInt8}
    (hcall : (manager cfgRec capRec max set tgr).call a s rec = .ok x) :
    ∃ y, (manager cfgRec capRec max set tgr).call a s rec' = .ok y := by
  cases a with
  | num =>
    obtain ⟨hnum, -, -⟩ := manager_num_eq_ok.mp hcall
    exact ⟨_, manager_num_eq_ok.mpr ⟨hnum, rfl, rfl⟩⟩
  | cap =>
    obtain ⟨n, hn, -, -⟩ := manager_cap_eq_ok.mp hcall
    exact ⟨_, manager_cap_eq_ok.mpr ⟨n, hid nofun ▸ hn, rfl, rfl⟩⟩
  | get =>
    obtain ⟨n, hn, -, -⟩ := manager_get_eq_ok.mp hcall
    exact ⟨_, manager_get_eq_ok.mpr ⟨n, hid nofun ▸ hn, rfl, rfl⟩⟩
  | set =>
    obtain ⟨u, n, hu, hn, -, -⟩ := manager_set_eq_ok.mp hcall
    exact ⟨_, manager_set_eq_ok.mpr ⟨u, n, hset rfl ▸ hu, hid nofun ▸ hn, rfl, rfl⟩⟩
  | tgr =>
    obtain ⟨f, hf, hu, -⟩ := manager_tgr_eq_ok.mp hcall
    exact ⟨_, manager_tgr_eq_ok.mpr ⟨f, hf, htgr f rfl hf ▸ hu, rfl⟩⟩

/-- Of two records that read the same the same is made. -/
theorem manager_same {t' : Slots} {out' : List UInt8}
    (hsame : a = .set ∨ a = .tgr →
      ((manager cfgRec capRec max set tgr).record a).ty.Same rec rec')
    (hcall : (manager cfgRec capRec max set tgr).call a s rec = .ok (t, out))
    (hcall' : (manager cfgRec capRec max set tgr).call a s rec' = .ok (t', out')) :
    t.Same cfgRec.ty t' ∧
      Echoed ((manager cfgRec capRec max set tgr).record a).ty rec rec' out out' := by
  cases a with
  | num =>
    obtain ⟨-, rfl, rfl⟩ := manager_num_eq_ok.mp hcall
    obtain ⟨-, rfl, rfl⟩ := manager_num_eq_ok.mp hcall'
    exact ⟨Slots.same_refl _ _, .inl rfl⟩
  | cap =>
    have hid := hid nofun
    obtain ⟨n, hn, rfl, rfl⟩ := manager_cap_eq_ok.mp hcall
    obtain ⟨n', hn', rfl, rfl⟩ := manager_cap_eq_ok.mp hcall'
    obtain rfl : n = n' := by omega
    exact ⟨Slots.same_refl _ _, .inl rfl⟩
  | get =>
    have hid := hid nofun
    obtain ⟨n, hn, rfl, rfl⟩ := manager_get_eq_ok.mp hcall
    obtain ⟨n', hn', rfl, rfl⟩ := manager_get_eq_ok.mp hcall'
    obtain rfl : n = n' := by omega
    exact ⟨Slots.same_refl _ _, .inl rfl⟩
  | set =>
    have hid := hid nofun
    have hsame := hsame (.inl rfl)
    obtain ⟨u, n, hu, hn, rfl, rfl⟩ := manager_set_eq_ok.mp hcall
    obtain ⟨u', n', hu', hn', rfl, rfl⟩ := manager_set_eq_ok.mp hcall'
    obtain rfl : n = n' := by omega
    obtain ⟨rfl, -⟩ := Prod.mk.inj (Except.ok.inj (hu.symm.trans ((hset rfl).trans hu')))
    exact ⟨Slots.same_put (Slots.same_refl _ _) hsame, .inr ⟨rfl, rfl, hsame⟩⟩
  | tgr =>
    obtain ⟨f, hf, hu, rfl⟩ := manager_tgr_eq_ok.mp hcall
    obtain ⟨f', hf', hu', rfl⟩ := manager_tgr_eq_ok.mp hcall'
    obtain rfl := Option.some.inj (hf.symm.trans hf')
    obtain ⟨rfl, -⟩ := Prod.mk.inj (Except.ok.inj (hu.symm.trans ((htgr f rfl hf).trans hu')))
    exact ⟨Slots.same_refl _ _, .inr ⟨rfl, rfl, hsame (.inr rfl)⟩⟩

theorem manager_corres
    (hsame : a = .set ∨ a = .tgr →
      ((manager cfgRec capRec max set tgr).record a).ty.Same rec rec') :
    Run.Corres (fun x y => Slots.Same cfgRec.ty x.1 y.1 ∧
        Echoed ((manager cfgRec capRec max set tgr).record a).ty rec rec' x.2 y.2)
      ((manager cfgRec capRec max set tgr).call a s rec)
      ((manager cfgRec capRec max set tgr).call a s rec') := by
  rw [Run.corres_iff]
  refine ⟨⟨?_, ?_⟩, ?_⟩
  · rintro ⟨x, hx⟩
    exact manager_ends hid hset htgr hx
  · rintro ⟨x, hx⟩
    exact manager_ends (fun ha => (hid ha).symm) (fun ha => (hset ha).symm)
      (fun f ha hf => (htgr f ha hf).symm) hx
  · intro x y hx hy
    exact manager_same hid hset htgr hsame hx hy

end

/-- What comes back is a record of the manager's or the caller's. -/
theorem manager_out (hs : s.Sound (manager cfgRec capRec max set tgr))
    (hl : rec.length = ((manager cfgRec capRec max set tgr).record a).ty.size)
    (hcall : (manager cfgRec capRec max set tgr).call a s rec = .ok (t, out)) :
    out.length = ((manager cfgRec capRec max set tgr).record a).ty.size ∧
      (((manager cfgRec capRec max set tgr).record a).ty.Terminated rec →
        ((manager cfgRec capRec max set tgr).record a).ty.Terminated out) := by
  cases a with
  | num =>
    obtain ⟨-, -, rfl⟩ := manager_num_eq_ok.mp hcall
    exact ⟨length_le _ _, fun _ => ⟨trivial, trivial⟩⟩
  | cap =>
    obtain ⟨n, -, -, rfl⟩ := manager_cap_eq_ok.mp hcall
    exact ⟨(hs.caps n).1, fun _ => (hs.caps n).2⟩
  | get =>
    obtain ⟨n, -, -, rfl⟩ := manager_get_eq_ok.mp hcall
    exact ⟨(hs.cfgs n).1, fun _ => (hs.cfgs n).2⟩
  | set =>
    obtain ⟨u, n, -, -, -, rfl⟩ := manager_set_eq_ok.mp hcall
    exact ⟨hl, id⟩
  | tgr =>
    obtain ⟨f, -, -, rfl⟩ := manager_tgr_eq_ok.mp hcall
    exact ⟨hl, id⟩

variable {h : Hal} {k : Key} {chn : UInt8}

/-- The managers but the dummies' read of a record what the formats carry, and have a trigger that
does as `set`. -/
theorem ops_eq_manager (hshow : h.ShowsRecord) (hk : k ≠ .dummy) :
    ∃ cfgRec capRec max set tgr, h.ops k chn = manager cfgRec capRec max set tgr ∧
      (∀ f, tgr = some f → f = set) ∧
      (∀ s cfg cfg', cfg.length = cfgRec.ty.size → cfg'.length = cfgRec.ty.size →
        cfgRec.ty.Same cfg cfg' → set s cfg = set s cfg') ∧
      ∀ s cfg u ret, set s cfg = .ok (u, ret) → u.info = s.info := by
  cases k with
  | dummy => exact absurd rfl hk
  | frame =>
    exact ⟨_, _, _, _, _, rfl, nofun, fun s cfg cfg' _ _ hs => frameSet_congr hs,
      fun s cfg u ret hu => frameSet_info hu⟩
  | stream =>
    exact ⟨_, _, _, _, _, rfl, nofun, fun s cfg cfg' _ _ hs => streamSet_congr hs,
      fun s cfg u ret hu => streamSet_info hu⟩
  | osd =>
    exact ⟨_, _, _, _, _, rfl, fun f hf => (Option.some.inj hf).symm,
      fun s cfg cfg' hl hl' hs => osdCtrl_congr hshow hl hl' hs,
      fun s cfg u ret hu => osdCtrl_info hu⟩
  | rtspSvr | webSvr =>
    exact ⟨_, _, _, _, _, rfl, nofun, fun s cfg cfg' _ _ hs => svrSet_congr hs,
      fun s cfg u ret hu => svrSet_info hu⟩
  | alg =>
    exact ⟨_, _, _, _, _, rfl, nofun, fun s cfg cfg' _ _ hs => algSet_congr hs,
      fun s cfg u ret hu => algSet_info hu⟩

theorem ops_respects (hshow : h.ShowsRecord) (hk : k ≠ .dummy) (hs : s.Sound (h.ops k chn)) :
    (h.ops k chn).Respects (Slots.Same (h.ops k chn).cfgRec.ty) a s := by
  obtain ⟨cfgRec, capRec, max, set, tgr, heq, hf, hcongr, -⟩ := @ops_eq_manager h k chn hshow hk
  rw [heq] at hs ⊢
  constructor
  · intro rec rec' hl hl' hsame
    have hid := idOf_congr hsame
    have hset : a = .set → set s rec = set s rec' := by
      rintro rfl
      exact hcongr s rec rec' hl hl' hsame
    have htgr : ∀ f, a = .tgr → tgr = some f → f s rec = f s rec' := by
      rintro f rfl htgr
      rw [hf f htgr]
      exact hcongr s rec rec' hl hl' hsame
    refine Run.corres_mono (manager_corres (fun _ => hid) hset htgr fun _ => hsame) ?_
    rintro x y ⟨ht, hout⟩
    exact ⟨ht, same_of_echoed hout⟩
  · intro rec t out hl hcall
    exact (manager_out hs hl hcall).1
  · intro rec t out hl hterm hcall
    exact (manager_out hs hl hcall).2 hterm

/-- A call with a record whose strings end keeps the stored records so. -/
theorem sound_call (hshow : h.ShowsRecord) (hk : k ≠ .dummy) (hs : s.Sound (h.ops k chn))
    (hl : rec.length = ((h.ops k chn).record a).ty.size)
    (hterm : ((h.ops k chn).record a).ty.Terminated rec)
    (hcall : (h.ops k chn).call a s rec = .ok (t, out)) : t.Sound (h.ops k chn) := by
  obtain ⟨cfgRec, capRec, max, set, tgr, heq, hf, -, hinfo⟩ := @ops_eq_manager h k chn hshow hk
  rw [heq] at hs hl hterm hcall ⊢
  cases a with
  | num =>
    obtain ⟨-, rfl, -⟩ := manager_num_eq_ok.mp hcall
    exact hs
  | cap =>
    obtain ⟨-, -, rfl, -⟩ := manager_cap_eq_ok.mp hcall
    exact hs
  | get =>
    obtain ⟨-, -, rfl, -⟩ := manager_get_eq_ok.mp hcall
    exact hs
  | set =>
    obtain ⟨u, n, hu, -, rfl, -⟩ := manager_set_eq_ok.mp hcall
    have hui := hinfo s rec u 0 hu
    refine ⟨?_, ?_⟩
    · intro i
      simp only [Info.put, Int.toNat_natCast, Function.update_apply, hui]
      split_ifs
      · exact ⟨hl, hterm⟩
      · exact hs.cfgs i
    · intro i
      simp only [Info.put, hui]
      exact hs.caps i
  | tgr =>
    obtain ⟨f, hsome, hu, -⟩ := manager_tgr_eq_ok.mp hcall
    have hui := hinfo s rec t 0 (hf f hsome ▸ hu)
    exact ⟨fun i => hui ▸ hs.cfgs i, fun i => hui ▸ hs.caps i⟩

/-- The other managers are left alone. -/
theorem corres_among {s : State} {P : List UInt8 → List UInt8 → Prop}
    (hcorres : Run.Corres (fun x y => Slots.Same (h.ops k chn).cfgRec.ty x.1 y.1 ∧ P x.2 y.2)
      ((h.ops k chn).call a (s k) rec) ((h.ops k chn).call a (s k) rec')) :
    Run.Corres (fun x y => h.StateSame x.1 y.1 ∧ P x.2 y.2)
      ((among k (h.ops k chn)).call a s rec) ((among k (h.ops k chn)).call a s rec') := by
  have hcfg : (h.ops k chn).cfgRec = (h.ops k 0).cfgRec := by
    cases k <;> rfl
  rw [call_among, call_among]
  refine Run.corres_map hcorres ?_
  rintro ⟨t, out⟩ ⟨t', out'⟩ ⟨ht, hout⟩
  refine ⟨?_, hout⟩
  intro i
  by_cases hi : i = k
  · subst hi
    simpa [hcfg] using ht
  · simp [hi, Slots.same_refl]

/-- The same among the other managers, which are left alone. -/
theorem among_respects {s : State} (hshow : h.ShowsRecord) (hk : k ≠ .dummy)
    (hs : (s k).Sound (h.ops k chn)) :
    (among k (h.ops k chn)).Respects h.StateSame a s := by
  have hr := ops_respects (a := a) hshow hk hs
  constructor
  · intro rec rec' hl hl' hsame
    rw [record_among] at hl hl' hsame ⊢
    exact corres_among (hr.same rec rec' hl hl' hsame)
  · intro rec t out hl hcall
    rw [record_among] at hl ⊢
    rw [call_among, Run.map_eq_ok] at hcall
    obtain ⟨⟨u, out⟩, hcall, heq⟩ := hcall
    obtain ⟨-, rfl⟩ := Prod.mk.inj heq
    exact hr.length rec u out hl hcall
  · intro rec t out hl hterm hcall
    rw [record_among] at hl hterm ⊢
    rw [call_among, Run.map_eq_ok] at hcall
    obtain ⟨⟨u, out⟩, hcall, heq⟩ := hcall
    obtain ⟨-, rfl⟩ := Prod.mk.inj heq
    exact hr.terminated rec u out hl hterm hcall

end Respects

section

variable {h : Hal} {n : Node} {v : Server State} {k : Key} {a : Action} {s : State}
  {rec : List UInt8}

/-- A registered key's handler finds the key's manager. -/
theorem handler_registered (hk : k ∈ registered n) :
    h.handler n k.value.toNat = some fun chn => among k (h.ops k chn) := by
  have hfind : (registered n).find? (fun i => i.value.toNat == k.value.toNat) = some k := by
    revert hk
    cases n <;> cases k <;> decide
  rw [Hal.handler, hfind]
  rfl

/-- A call of any manager but the dummies' comes to the same in both formats exactly when the texts
of its record and of the one that comes back are short, or nothing is served in either. -/
theorem formats_agree_iff (hv : v.handler = h.handler n) (hk : k ∈ registered n) (hd : k ≠ .dummy)
    (htgr : a = .tgr → k = .osd) (hnum : ∀ n, 0 ∉ v.numText n) (hlaw : v.cs.Lawful)
    (hread : ∀ img, img.length = ((h.ops k 0).record a).ty.size →
      ((h.ops k 0).record a).ty.Terminated img →
        v.Reads (((h.ops k 0).record a).ty.s2j v.cs img))
    (hshow : h.ShowsRecord) (hs : (s k).Sound (h.ops k 0))
    (hrec : rec.length = ((h.ops k 0).record a).ty.size)
    (hterm : ((h.ops k 0).record a).ty.Terminated rec) :
    v.Agree h.StateSame k a ((h.ops k 0).record a).ty s rec ↔
      v.TextsShort (among k (h.ops k 0)) a s rec ∨
        v.NeitherServed (among k (h.ops k 0)) a s rec := by
  have hchn : h.ops k (a.chn rec) = h.ops k 0 := by
    cases k with
    | dummy => exact absurd rfl hd
    | _ => rfl
  have htrigger : a = .tgr → (among k (h.ops k 0)).tgr.isSome := by
    intro ha
    obtain rfl := htgr ha
    rfl
  rw [← record_among (k := k)] at hread hrec hterm ⊢
  exact Server.agree_iff hnum hlaw hread (among_respects hshow hd hs) hrec hterm
    (by rw [hv, handler_registered hk]) (by rw [hchn]) htrigger

end

open Proto (sampleHal sampleOsd)

/-- The vsf module with a parser. -/
def readingServer (parse : List UInt8 → Option Json) : Server State :=
  ⟨decimal, plain, parse, sampleHal.handler .vsf⟩

/-- Three records for each manager, all zero. -/
def sampleState : State := fun k =>
  ⟨⟨3, fun _ => List.replicate (sampleHal.ops k 0).capRec.ty.size 0,
    fun _ => List.replicate (sampleHal.ops k 0).cfgRec.ty.size 0⟩, fun _ => false⟩

/-- An overlay of one text. -/
def sampleOverlay : List UInt8 :=
  le 4 1 ++ le 4 1 ++ (ascii "texts" ++ List.replicate 27 0) ++ le 4 1 ++
    (le 4 16 ++ le 4 32 ++ le 4 0 ++ le 4 255 ++ (ascii "cam \"1\"" ++ List.replicate 25 0)) ++
      List.replicate 336 0

theorem sample_osd_sound : (sampleState .osd).Sound (sampleHal.ops .osd 0) := by
  have hzeros : Record.osdCfg.ty.Terminated (List.replicate Record.osdCfg.ty.size 0) ∧
      Record.osdCap.ty.Terminated (List.replicate Record.osdCap.ty.size 0) := by
    decide
  exact ⟨fun _ => ⟨List.length_replicate, hzeros.1⟩, fun _ => ⟨List.length_replicate, hzeros.2⟩⟩

/-- What the printer writes of a record is read. -/
theorem reads_record (n : Node) (r : Record) (img : List UInt8) :
    (⟨decimal, plain, parseObject, sampleHal.handler n⟩ : Server State).Reads
      (r.ty.s2j plain img) := by
  have hwhole := Ty.upToNul_s2j r.ty r.wf img
  obtain ⟨ms, hms⟩ := r.s2j_obj plain img
  rw [hms] at hwhole ⊢
  have hself := parseObject_text hwhole []
  rw [List.append_nil] at hself
  exact ⟨hself, fun p s hs hp => parseObject_prefix hs hp⟩

/-- Its overlay, its text and its quotes are carried by both formats. -/
theorem formats_agree_text : (readingServer parseObject).Agree sampleHal.StateSame .osd .set
    ((sampleHal.ops .osd 0).record .set).ty sampleState sampleOverlay := by
  have hlen : sampleOverlay.length = Record.osdCfg.ty.size := by decide +kernel
  have hterm : Record.osdCfg.ty.Terminated sampleOverlay := by decide
  have hshort : (readingServer parseObject).Short Record.osdCfg.ty sampleOverlay := by
    have htext : (text decimal (Record.osdCfg.ty.s2j plain sampleOverlay)).length ≤ 2007 := by
      decide +kernel
    exact htext
  have hiff := @formats_agree_iff sampleHal .vsf (readingServer parseObject) .osd .set sampleState
    sampleOverlay rfl (by decide) (by decide) (fun _ => rfl) zero_notMem_decimal plain_lawful
    (fun img _ _ => reads_record .vsf .osdCfg img) (fun _ _ _ _ _ => rfl) sample_osd_sound hlen
    hterm
  have htexts : (readingServer parseObject).TextsShort (among .osd (sampleHal.ops .osd 0)) .set
      sampleState sampleOverlay := by
    refine ⟨hshort, ?_⟩
    intro t out hcall
    rw [call_among, Run.map_eq_ok] at hcall
    obtain ⟨⟨u, out⟩, hcall, heq⟩ := hcall
    obtain ⟨-, rfl⟩ := Prod.mk.inj heq
    obtain ⟨-, -, -, -, -, rfl⟩ := manager_set_eq_ok.mp hcall
    exact hshort
  rw [hiff]
  left
  exact htexts

/-- An OSD record of eight texts, each to its NUL, is stored when it is set as it is, and is written
over the end of the package as a text, whatever the parser. -/
theorem osd_texts_part : Record.osdCfg.ty.Terminated sampleOsd ∧
    (sampleState .osd).Sound (sampleHal.ops .osd 0) ∧
      ¬ ∃ parse, (readingServer parse).Agree sampleHal.StateSame .osd .set Record.osdCfg.ty
        sampleState sampleOsd := by
  have hid : idOf sampleOsd = (2 : Nat) := by decide
  have hset : sampleHal.osdCtrl (sampleState .osd) sampleOsd = .ok (sampleState .osd, 0) := by
    have hencoder : (sampleState .osd).encoderOf sampleOsd = 0 := by decide
    have hnum : uword sampleOsd 40 = 8 := by decide
    rw [Hal.osdCtrl, if_neg (by decide), if_pos (by decide), Hal.overlay, hid,
      hencoder, hnum]
    rfl
  have hcall : ∃ t out, (among .osd (sampleHal.ops .osd 0)).call .set sampleState sampleOsd =
      .ok (t, out) := by
    have hput := @manager_set_eq_ok .osdCfg .osdCap 16 sampleHal.osdCtrl (some sampleHal.osdCtrl)
      (sampleState .osd) _ sampleOsd sampleOsd |>.mpr ⟨_, 2, hset, ⟨hid, by decide⟩, rfl, rfl⟩
    rw [call_among]
    exact ⟨_, _, Run.map_eq_ok.mpr ⟨_, hput, rfl⟩⟩
  obtain ⟨t, out, hcall⟩ := hcall
  have hr := @among_respects .set sampleHal .osd 0 sampleState (fun _ _ _ _ _ => rfl) (by decide)
    sample_osd_sound
  have hunfit : ¬ (Proto.dataOut decimal plain true Record.osdCfg.ty sampleOsd
      (List.replicate 2010 0)).Fits := by
    intro hfits
    have hroom := ((Proto.fits_json_iff zero_notMem_decimal
      (by rw [List.length_replicate]; decide)).mp hfits).1
    rw [Proto.sampleOsd_text] at hroom
    exact absurd hroom (by decide)
  have hops : ∀ parse, (readingServer parse).handler Key.osd.value.toNat =
      some fun chn => among .osd (sampleHal.ops .osd chn) :=
    fun _ => @handler_registered sampleHal .vsf .osd (by decide)
  refine ⟨by decide, sample_osd_sound, ?_⟩
  rintro ⟨parse, hagree⟩
  have hnot := @Server.not_agree_of_unfit State (readingServer parse) sampleHal.StateSame .osd .set
    sampleState _ (among .osd (sampleHal.ops .osd 0)) sampleOsd hr Proto.length_sampleOsd
    (hops parse) rfl (fun _ => rfl) t out hcall hunfit
  have hrecord : (among .osd (sampleHal.ops .osd 0)).record .set = .osdCfg := rfl
  rw [hrecord] at hnot
  contradiction

end Freak.Manager
