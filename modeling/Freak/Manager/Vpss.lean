import Freak.Manager.Index

/-! A SET of a frame record down to the driver: `__vpss_ctrl` of `vpss.c`, and what becomes of its
result in `frame_mgr.c` and `msgbox_frame.c`. -/
namespace Freak.Manager

open Bytes Schema

/-- The size and the frame rate in a `VPSS_CHN_ATTR_S`; the rest of it stays as it is. -/
structure VpssAttr where
  u32Width : Nat
  u32Height : Nat
  s32SrcFrameRate : Int
  s32DstFrameRate : Int
deriving DecidableEq

/-- A channel of a VPSS group. -/
structure VpssChn where
  enabled : Bool
  attr : VpssAttr
deriving DecidableEq

/-- The channels by group and number. -/
abbrev VpssChns := Int → Int → VpssChn

/-- Which of the driver's calls succeed. -/
structure VpssCalls where
  getChnAttr : Bool
  disableChn : Bool
  setChnAttr : Bool
  enableChn : Bool

/-- The group behind each object, and the frame rate of the sensor behind each group. -/
structure VpssBoard where
  vpssGrp : Nat → Int
  sensorRate : Int → Int

def VpssChns.update (w : VpssChns) (grp id : Int) (c : VpssChn) : VpssChns :=
  Function.update w grp (Function.update (w grp) id c)

/-- What `__vpss_ctrl` asks the driver for, from the attributes that it got. -/
def VpssBoard.attr (b : VpssBoard) (grp : Int) (cfg : List UInt8) : VpssAttr where
  u32Width := uword cfg 12
  u32Height := uword cfg 16
  s32SrcFrameRate := b.sensorRate grp
  s32DstFrameRate := word cfg 20

/-- `__vpss_ctrl`. -/
def VpssBoard.ctrl (b : VpssBoard) (c : VpssCalls) (w : VpssChns) (n : Nat) (id : Int)
    (cfg : List UInt8) : VpssChns × Int :=
  let grp := b.vpssGrp n
  if c.getChnAttr = false then (w, -1)
  else
    let attr := b.attr grp cfg
    if c.disableChn = false then (w, -1)
    else
      let w := w.update grp id { w grp id with enabled := false }
      if c.setChnAttr = false then (w, -1)
      else
        let w := w.update grp id { w grp id with attr := attr }
        if c.enableChn = false then (w, -1)
        else (w.update grp id { w grp id with enabled := true }, 0)

/-- The frame manager with the driver behind it. -/
structure Frames where
  slots : Slots
  vpss : VpssChns

section

variable (h : Hal) (b : VpssBoard) (c : VpssCalls)

/-- `__vsf_frame_set`. -/
def vsfFrameSet (s : Frames) (cfg : List UInt8) : Run (Frames × Int) := do
  let n ← Run.index 8 (idOf cfg)
  let slots ← h.hold s.slots n (word cfg 4)
  match ← create h.vpssNum (chnOf (slots.capOf cfg)) with
  | none => return (⟨slots, s.vpss⟩, 0)
  | some g => do
    -- what `ctrl` returns is dropped
    let vpss := (b.ctrl c s.vpss g (subchnOf (slots.capOf cfg)) cfg).1
    let _ ← Run.index h.chnMax (subchnOf (slots.capOf cfg))
    return (⟨slots, vpss⟩, 0)

/-- `msgbox_frame_set` between the macros. -/
def msgboxFrameSet (s : Frames) (cfg : List UInt8) : Run (Frames × Int) := do
  let (s, ret) ← vsfFrameSet h b c s cfg
  Run.assert (ret = 0)
  let slots ← s.slots.put 8 cfg
  return (⟨slots, s.vpss⟩, ret)

/-- The channel that a record's capabilities name. -/
def VpssBoard.chn (b : VpssBoard) (s : Frames) (cfg : List UInt8) : VpssChn :=
  s.vpss (b.vpssGrp (chnOf (s.slots.capOf cfg)).toNat) (subchnOf (s.slots.capOf cfg))

/-- The channel runs as the record wants it. -/
def VpssChn.Runs (x : VpssChn) (cfg : List UInt8) : Prop :=
  x.enabled = true ∧ x.attr.u32Width = uword cfg 12 ∧ x.attr.u32Height = uword cfg 16 ∧
    x.attr.s32DstFrameRate = word cfg 20

/-- There is an answer; one that reports success says that the channel runs as the record wants it
and the record is stored, another one that nothing has changed and the channel runs as it did. -/
def AllOrNothing (s : Frames) (cfg : List UInt8) : Prop :=
  ∃ t ret, msgboxFrameSet h b c s cfg = .ok (t, ret) ∧
    if UInt8.ofInt ret = 0 then (b.chn t cfg).Runs cfg ∧ t.slots.info.get (idOf cfg) = cfg
    else t.slots.info = s.slots.info ∧ (b.chn t cfg).enabled = true ∧
      (b.chn t cfg).attr = (b.chn s cfg).attr

/-- All four calls succeed; or none of them touches a channel that runs as it should. -/
def Settles (s : Frames) (cfg : List UInt8) : Prop :=
  let chn := chnOf (s.slots.capOf cfg)
  (chn < h.vpssNum ∧ c.getChnAttr ∧ c.disableChn ∧ c.setChnAttr ∧ c.enableChn) ∨
  ((h.vpssNum ≤ chn ∨ c.getChnAttr = false ∨ c.disableChn = false) ∧ (b.chn s cfg).Runs cfg)

end

variable {h : Hal} {b : VpssBoard} {c : VpssCalls} {s t : Frames} {cfg : List UInt8} {ret : Int}
  {w : VpssChns} {grp id : Int} {n : Nat}

@[simp] theorem VpssChns.update_self {x : VpssChn} : w.update grp id x grp id = x := by
  simp [VpssChns.update]

/-- Behind `__vpss_ctrl` the channel runs as it should when all went well, or when it did before
and was not touched. -/
theorem ctrl_runs : ((b.ctrl c w n id cfg).1 (b.vpssGrp n) id).Runs cfg ↔
    (c.getChnAttr ∧ c.disableChn ∧ c.setChnAttr ∧ c.enableChn) ∨
      ((c.getChnAttr = false ∨ c.disableChn = false) ∧ (w (b.vpssGrp n) id).Runs cfg) := by
  obtain ⟨get, disable, set, enable⟩ := c
  cases get <;> cases disable <;> cases set <;> cases enable <;>
    simp [VpssBoard.ctrl, VpssChn.Runs, VpssBoard.attr]

/-- Refused attributes leave the channel off. -/
theorem ctrl_refused (hget : c.getChnAttr = true) (hdisable : c.disableChn = true)
    (hset : c.setChnAttr = false) :
    ((b.ctrl c w n id cfg).1 (b.vpssGrp n) id).enabled = false := by
  simp [VpssBoard.ctrl, hget, hdisable, hset]

/-- The driver behind it does not change what the manager makes of its own data. -/
theorem slots_vsfFrameSet :
    (fun r => (r.1.slots, r.2)) <$> vsfFrameSet h b c s cfg = h.frameSet s.slots cfg := by
  simp only [vsfFrameSet, Hal.frameSet, map_bind]
  refine bind_congr fun n => bind_congr fun slots => bind_congr fun g => ?_
  cases g <;> simp

theorem vsfFrameSet_eq_ok : vsfFrameSet h b c s cfg = .ok (t, ret) ↔
    ∃ n slots, (idOf cfg = (n : Nat) ∧ n < 8) ∧ h.hold s.slots n (word cfg 4) = .ok slots ∧
      ret = 0 ∧ ((h.vpssNum ≤ chnOf (s.slots.capOf cfg) ∧ t = ⟨slots, s.vpss⟩) ∨
        ∃ g : Nat, chnOf (s.slots.capOf cfg) = g ∧ g < h.vpssNum ∧
          (0 ≤ subchnOf (s.slots.capOf cfg) ∧ subchnOf (s.slots.capOf cfg) < h.chnMax) ∧
          t = ⟨slots, (b.ctrl c s.vpss g (subchnOf (s.slots.capOf cfg)) cfg).1⟩) := by
  simp only [vsfFrameSet, Run.bind_eq_ok, Run.index_eq_ok]
  refine exists_congr fun n => ?_
  constructor
  · rintro ⟨hn, slots, hs, g, hg, ht⟩
    have hcap : slots.capOf cfg = s.slots.capOf cfg := by
      rw [Slots.capOf, Hal.hold_info hs, Slots.capOf]
    rw [hcap] at hg ht
    rcases Hal.create_eq_ok.mp hg with ⟨hle, rfl⟩ | ⟨g, hchn, hlt, rfl⟩
    · obtain ⟨rfl, rfl⟩ := Prod.mk.inj (Run.pure_eq_ok.mp ht)
      exact ⟨slots, hn, hs, rfl, .inl ⟨hle, rfl⟩⟩
    · obtain ⟨k, hk, ht⟩ := Run.bind_eq_ok.mp ht
      obtain ⟨rfl, rfl⟩ := Prod.mk.inj (Run.pure_eq_ok.mp ht)
      have hk := Run.index_eq_ok.mp hk
      exact ⟨slots, hn, hs, rfl, .inr ⟨g, hchn, hlt, by omega, rfl⟩⟩
  · rintro ⟨slots, hn, hs, rfl, ht⟩
    have hcap : slots.capOf cfg = s.slots.capOf cfg := by
      rw [Slots.capOf, Hal.hold_info hs, Slots.capOf]
    rcases ht with ⟨hle, rfl⟩ | ⟨g, hchn, hlt, hsub, rfl⟩
    · refine ⟨hn, slots, hs, none, ?_, rfl⟩
      rw [hcap]
      exact Hal.create_eq_ok.mpr (.inl ⟨hle, rfl⟩)
    · refine ⟨hn, slots, hs, some g, ?_, ?_⟩
      · rw [hcap]
        exact Hal.create_eq_ok.mpr (.inr ⟨g, hchn, hlt, rfl⟩)
      · rw [hcap]
        refine Run.bind_eq_ok.mpr ⟨_, Run.index_eq_ok.mpr ⟨(Int.toNat_of_nonneg hsub.1).symm, ?_⟩,
          rfl⟩
        omega

/-- Whatever the driver did, the answer to a SET that comes back reports success. -/
theorem msgboxFrameSet_eq_ok : msgboxFrameSet h b c s cfg = .ok (t, ret) ↔
    ∃ u : Frames, vsfFrameSet h b c s cfg = .ok (u, 0) ∧ ret = 0 ∧ HasSlot 8 cfg ∧
      t = ⟨{ u.slots with info := u.slots.info.put (idOf cfg) cfg }, u.vpss⟩ := by
  simp only [msgboxFrameSet, Slots.put, Run.bind_eq_ok, Run.assert_eq_ok, Run.pure_eq_ok,
    Run.index_eq_ok, exists_const, Prod.exists, Prod.mk.injEq, HasSlot]
  constructor
  · rintro ⟨u, ret, hu, rfl, slots, ⟨n, ⟨hn, hlt⟩, rfl⟩, rfl, rfl⟩
    exact ⟨u, hu, rfl, by omega, by rw [hn]⟩
  · rintro ⟨u, hu, rfl, ⟨hge, hlt⟩, rfl⟩
    refine ⟨u, 0, hu, rfl, _, ⟨(idOf cfg).toNat, ⟨by omega, by omega⟩, rfl⟩, ?_, rfl⟩
    rw [Int.toNat_of_nonneg hge]

theorem vsfFrameSet_ends : (∃ u, vsfFrameSet h b c s cfg = .ok (u, 0)) ↔
    HasSlot 8 cfg ∧ h.Opens s.slots (idOf cfg).toNat (word cfg 4) ∧
      h.FrameInRange s.slots cfg := by
  rw [Hal.FrameInRange, ← Hal.hold_opens]
  constructor
  · rintro ⟨u, hu⟩
    obtain ⟨n, slots, ⟨hn, hlt⟩, hs, -, hcase⟩ := vsfFrameSet_eq_ok.mp hu
    obtain rfl : (idOf cfg).toNat = n := by omega
    refine ⟨⟨by omega, by omega⟩, ⟨slots, hs⟩, fun _ => ?_⟩
    rcases hcase with ⟨hle, -⟩ | ⟨g, hchn, hg, hsub, -⟩ <;> omega
  · rintro ⟨⟨hge, hlt⟩, ⟨slots, hs⟩, hrange⟩
    obtain ⟨hchn, hsub⟩ := hrange ⟨slots, hs⟩
    have hn : idOf cfg = ((idOf cfg).toNat : Nat) ∧ (idOf cfg).toNat < 8 := by omega
    by_cases hle : h.vpssNum ≤ chnOf (s.slots.capOf cfg)
    · exact ⟨_, vsfFrameSet_eq_ok.mpr ⟨_, slots, hn, hs, rfl, .inl ⟨hle, rfl⟩⟩⟩
    · refine ⟨_, vsfFrameSet_eq_ok.mpr ⟨_, slots, hn, hs, rfl, .inr
        ⟨(chnOf (s.slots.capOf cfg)).toNat, by omega, by omega, hsub (by omega), rfl⟩⟩⟩

/-- The channel afterwards runs as the record wants it exactly when that was settled. -/
theorem runs_iff_settles (hu : vsfFrameSet h b c s cfg = .ok (t, ret)) :
    t.slots.info = s.slots.info ∧ ((b.chn t cfg).Runs cfg ↔ Settles h b c s cfg) := by
  obtain ⟨n, slots, -, hs, -, hcase⟩ := vsfFrameSet_eq_ok.mp hu
  have hinfo : slots.info = s.slots.info := Hal.hold_info hs
  have hcap : slots.capOf cfg = s.slots.capOf cfg := by
    rw [Slots.capOf, hinfo, Slots.capOf]
  rcases hcase with ⟨hle, rfl⟩ | ⟨g, hchn, hlt, -, rfl⟩
  · refine ⟨hinfo, ?_⟩
    simp only [Settles, VpssBoard.chn, hcap, hle, true_or, true_and, not_lt.mpr hle, false_and,
      false_or]
  · refine ⟨hinfo, ?_⟩
    have hlt' : chnOf (s.slots.capOf cfg) < h.vpssNum := by omega
    simp only [Settles, VpssBoard.chn, hcap, hlt', true_and, not_le.mpr hlt', false_or]
    rw [hchn, Int.toNat_natCast]
    exact ctrl_runs

/-- A SET whose attributes are refused is answered all the same, and the channel is off. -/
theorem off_of_refused (hchn : chnOf (s.slots.capOf cfg) < h.vpssNum) (hget : c.getChnAttr = true)
    (hdisable : c.disableChn = true) (hset : c.setChnAttr = false)
    (ht : msgboxFrameSet h b c s cfg = .ok (t, ret)) : (b.chn t cfg).enabled = false := by
  obtain ⟨u, hu, -, -, rfl⟩ := msgboxFrameSet_eq_ok.mp ht
  obtain ⟨n, slots, -, hs, -, ⟨hle, -⟩ | ⟨g, hg, -, -, rfl⟩⟩ := vsfFrameSet_eq_ok.mp hu
  · omega
  · have hcap : slots.capOf cfg = s.slots.capOf cfg := by
      rw [Slots.capOf, Hal.hold_info hs, Slots.capOf]
    change ((b.ctrl c s.vpss g _ cfg).1 (b.vpssGrp (chnOf (slots.capOf cfg)).toNat)
      (subchnOf (slots.capOf cfg))).enabled = false
    rw [hcap, hg, Int.toNat_natCast]
    exact ctrl_refused hget hdisable hset

/-- A SET of a frame record is all or nothing exactly when it reaches its slot and its channel and
the driver does all of it, or is not let near a channel that is as it should be. -/
theorem frame_set_iff (h : Hal) (b : VpssBoard) (c : VpssCalls) (s : Frames) (cfg : List UInt8) :
    AllOrNothing h b c s cfg ↔ (HasSlot 8 cfg ∧ h.Opens s.slots (idOf cfg).toNat (word cfg 4) ∧
      h.FrameInRange s.slots cfg) ∧ Settles h b c s cfg := by
  have hput : ∀ u : Frames, b.chn ⟨{ u.slots with info := u.slots.info.put (idOf cfg) cfg }, u.vpss⟩
      cfg = b.chn u cfg := fun u => rfl
  rw [← vsfFrameSet_ends]
  constructor
  · rintro ⟨t, ret, ht, hall⟩
    obtain ⟨u, hu, rfl, -, rfl⟩ := msgboxFrameSet_eq_ok.mp ht
    have hruns := hall.1
    rw [hput] at hruns
    exact ⟨⟨u, hu⟩, (runs_iff_settles hu).2.mp hruns⟩
  · rintro ⟨⟨u, hu⟩, hsettles⟩
    have hslot := (vsfFrameSet_ends.mp ⟨u, hu⟩).1
    refine ⟨_, 0, msgboxFrameSet_eq_ok.mpr ⟨u, hu, rfl, hslot, rfl⟩, ?_, Mgr.get_put _⟩
    rw [hput]
    exact (runs_iff_settles hu).2.mpr hsettles

/-- The first channel of a group, at 1920 by 1080. -/
def sampleFrames : Frames where
  slots := ⟨⟨3, fun _ => List.replicate 12 0, fun _ => List.replicate 24 0⟩, fun _ => false⟩
  vpss _ _ := ⟨true, ⟨1920, 1080, -1, -1⟩⟩

/-- A group and its sensor. -/
def sampleVpss : VpssBoard := ⟨fun _ => 0, fun _ => 30⟩

/-- 640 by 480 at 15 frames a second. -/
def smaller : List UInt8 := le 4 0 ++ le 4 1 ++ le 4 0 ++ le 4 640 ++ le 4 480 ++ le 4 15

/-- The channel is disabled, its attributes are refused, and the answer reports success. -/
theorem frame_set_half : ∃ t,
    msgboxFrameSet Freak.Proto.sampleHal sampleVpss ⟨true, true, false, true⟩ sampleFrames smaller =
      .ok (t, 0) ∧ (sampleVpss.chn t smaller).enabled = false ∧
    ¬ AllOrNothing Freak.Proto.sampleHal sampleVpss ⟨true, true, false, true⟩ sampleFrames
      smaller := by
  have hslot : HasSlot 8 smaller := ⟨by decide, by decide⟩
  have hopens : Freak.Proto.sampleHal.Opens sampleFrames.slots (idOf smaller).toNat
      (word smaller 4) := fun _ => .inr rfl
  have hrange : Freak.Proto.sampleHal.FrameInRange sampleFrames.slots smaller :=
    fun _ => ⟨by decide, fun _ => ⟨by decide, by decide⟩⟩
  obtain ⟨u, hu⟩ := (vsfFrameSet_ends (b := sampleVpss)
    (c := ⟨true, true, false, true⟩)).mpr ⟨hslot, hopens, hrange⟩
  have hset := msgboxFrameSet_eq_ok.mpr ⟨u, hu, rfl, hslot, rfl⟩
  have hoff := off_of_refused (by decide) rfl rfl rfl hset
  refine ⟨_, hset, hoff, ?_⟩
  rintro ⟨t, ret, ht, hall⟩
  obtain ⟨rfl, rfl⟩ := Prod.mk.inj (Except.ok.inj (hset.symm.trans ht))
  exact absurd (hall.1.1.symm.trans hoff) (by decide)

end Freak.Manager
