import Freak.Lib.Lts
import Freak.Manager.Image

/-! A region of the overlays: `rgn.c`, `__vsf_osd_ctrl` of `osd_mgr.c`, and the SDK's region that
their calls act on. -/
namespace Freak.Vsf

open Schema
open Freak.Manager (word uword chnOf subchnOf conditionOf)

/-- `RGN_TYPE_E`. -/
inductive RgnType
  | cover
  | overlay
deriving DecidableEq

structure Size where
  width : Nat
  height : Nat

/-- `RGN_ATTR_S`. -/
inductive RgnAttr
  | cover
  | overlay (size : Size)

/-- `MPP_CHN_S`: a channel of a VPSS group, or an encoder. -/
inductive MppChn
  | vpss (devId chnId : Int)
  | venc (devId chnId : Int)
deriving DecidableEq

/-- The union of `RGN_CHN_ATTR_S`. -/
inductive UnChnAttr
  | cover (points : List (Nat × Nat)) (color : Nat)
  | overlay

/-- `RGN_CHN_ATTR_S`. -/
structure RgnChnAttr where
  bShow : Int
  layer : Int
  unChnAttr : UnChnAttr

def RgnAttr.enType : RgnAttr → RgnType
  | .cover => .cover
  | .overlay _ => .overlay

def RgnChnAttr.enType (x : RgnChnAttr) : RgnType :=
  match x.unChnAttr with
  | .cover .. => .cover
  | .overlay => .overlay

/-- The SDK's region behind an id. -/
inductive Region
  | absent
  | created (attr : RgnAttr)
  | attached (attr : RgnAttr) (chn : MppChn) (shown : RgnChnAttr)

/-- `HI_MPI_RGN_*`. -/
inductive RgnOp
  | create
  | setAttr
  | attachToChn
  | setDisplayAttr
  | getCanvasInfo
  | updateCanvas
deriving DecidableEq

inductive RgnCall
  | create (attr : RgnAttr)
  | setAttr (attr : RgnAttr)
  | attachToChn (chn : MppChn) (attr : RgnChnAttr)
  | setDisplayAttr (chn : MppChn) (attr : RgnChnAttr)
  | getCanvasInfo
  | updateCanvas

def RgnCall.op : RgnCall → RgnOp
  | .create _ => .create
  | .setAttr _ => .setAttr
  | .attachToChn .. => .attachToChn
  | .setDisplayAttr .. => .setDisplayAttr
  | .getCanvasInfo => .getCanvasInfo
  | .updateCanvas => .updateCanvas

/-- What a call makes of the region; `none` when the region is not one for it. -/
def Region.exec : Region → RgnCall → Option Region
  | .absent, .create attr => some (.created attr)
  | .created attr, .setAttr attr' =>
    if attr.enType = attr'.enType then some (.created attr') else none
  | .attached attr chn x, .setAttr attr' =>
    if attr.enType = attr'.enType then some (.attached attr' chn x) else none
  | .created attr, .attachToChn chn x =>
    if attr.enType = x.enType then some (.attached attr chn x) else none
  | .attached attr chn _, .setDisplayAttr chn' x =>
    if attr.enType = x.enType ∧ chn = chn' then some (.attached attr chn x) else none
  | .attached (.overlay size) chn x, .getCanvasInfo => some (.attached (.overlay size) chn x)
  | .attached (.overlay size) chn x, .updateCanvas => some (.attached (.overlay size) chn x)
  | _, _ => none

/-- `vsf_rgn_status_e`. -/
inductive RgnStatus
  | none
  | create
  | attach
deriving DecidableEq

/-- The enumeration's order. -/
def RgnStatus.toNat : RgnStatus → Nat
  | .none => 0
  | .create => 1
  | .attach => 2

/-- The types of `vsf_rgn_cfg_t` with what its union has for each of them. -/
inductive RgnKind
  | cover (color : Nat) (points : List (Int × Int))
  | bitmap

/-- `vsf_rgn_cfg_t`. -/
structure RgnCfg where
  enable : Int
  layer : Int
  kind : RgnKind
  chn : Int

/-- How the SDK's calls end; `0` is `HI_SUCCESS`. -/
abbrev RgnCodes := RgnOp → BitVec 32

/-- What the SDK answers to a call that the region is not one for. -/
def illegal : BitVec 32 := 0xa0038003

/-- `__rgn_ctrl` at work: the status, the region, `s32Ret`, and the calls so far with their
success. -/
structure RgnWork where
  status : RgnStatus
  region : Region
  ret : BitVec 32
  log : List (RgnOp × Bool)

namespace RgnWork

variable (c : RgnCodes)

/-- `s32Ret |= HI_MPI_RGN_*(..)`. -/
def call (w : RgnWork) (k : RgnCall) : RgnWork :=
  match w.region.exec k with
  | none => { w with ret := w.ret ||| illegal, log := w.log ++ [(k.op, false)] }
  | some region =>
    if c k.op = 0 then { w with region := region, log := w.log ++ [(k.op, true)] }
    else { w with ret := w.ret ||| c k.op, log := w.log ++ [(k.op, false)] }

def calls (w : RgnWork) (ks : List RgnCall) : RgnWork := ks.foldl (call c) w

/-- The calls of a status that is not reached yet, and the status, whatever they answered. -/
def raise (w : RgnWork) (status : RgnStatus) (ks : List RgnCall) : RgnWork :=
  if w.status.toNat < status.toNat then { w.calls c ks with status := status } else w

end RgnWork

/-- The channels of the VPSS groups and encoders, and the sizes of their pictures. -/
structure RgnBoard where
  vpss : Int → MppChn
  venc : Int → MppChn
  vpssSize : Int → Size
  vencSize : Int → Size

def range (v lo hi : Int) : Int :=
  let v := if v > hi then hi else v
  if v < lo then lo else v

def alignUp (n a : Nat) : Nat := (n + (a - 1)) / a * a

def argb8888To888 (color : Nat) : Nat := color % 2 ^ 24

/-- `cfg->cover.points[i]` on a picture. -/
def Size.scale (size : Size) (p : Int × Int) : Nat × Nat :=
  (alignUp ((range p.1 0 8191).toNat * size.width % 2 ^ 32 / 8192) 2,
    alignUp ((range p.2 0 8191).toNat * size.height % 2 ^ 32 / 8192) 2)

section

variable (b : RgnBoard) (c : RgnCodes)

/-- `priv->stChn`. -/
def RgnBoard.stChn (cfg : RgnCfg) : MppChn :=
  match cfg.kind with
  | .cover .. => b.vpss cfg.chn
  | .bitmap => b.venc cfg.chn

/-- `__rgn_ctrl_cover`. -/
def rgnCtrlCover (w : RgnWork) (cfg : RgnCfg) (color : Nat) (points : List (Int × Int)) :
    RgnWork :=
  let stChn := b.vpss cfg.chn
  let stChnAttr : RgnChnAttr := ⟨cfg.enable, cfg.layer,
    .cover (points.map (b.vpssSize cfg.chn).scale) (argb8888To888 color)⟩
  let w := w.raise c .create [.create .cover]
  let w := w.raise c .attach [.attachToChn stChn stChnAttr]
  w.calls c [.setDisplayAttr stChn stChnAttr]

/-- `__rgn_ctrl_bitmap`, without what is drawn. -/
def rgnCtrlBitmap (w : RgnWork) (cfg : RgnCfg) : RgnWork :=
  let stChn := b.venc cfg.chn
  let stRegion := .overlay (b.vencSize cfg.chn)
  -- `bShow` is `HI_TRUE` whatever `cfg->enable` says
  let stChnAttr : RgnChnAttr := ⟨1, cfg.layer, .overlay⟩
  let w := w.raise c .create [.create stRegion, .setAttr stRegion]
  let w := w.raise c .attach [.attachToChn stChn stChnAttr]
  w.calls c [.getCanvasInfo, .updateCanvas]

/-- `__rgn_ctrl`. -/
def rgnCtrl (status : RgnStatus) (region : Region) (cfg : RgnCfg) : RgnWork :=
  match cfg.kind with
  | .cover color points => rgnCtrlCover b c ⟨status, region, 0, []⟩ cfg color points
  | .bitmap => rgnCtrlBitmap b c ⟨status, region, 0, []⟩ cfg

end

/-- What `__vsf_osd_ctrl` makes of a record and the capabilities that its id names. -/
def osdConfig (cap cfg : List UInt8) : Option RgnCfg :=
  let encoder := chnOf cap * 4 + subchnOf cap
  if condIs "mask" (conditionOf cfg) then
    let points := (List.range 4).map fun i => (word cfg (40 + 8 * i), word cfg (44 + 8 * i))
    some ⟨word cfg 4, 4, .cover (uword cfg 72) points, chnOf cap⟩
  else if condIs "texts" (conditionOf cfg) then some ⟨word cfg 4, 1, .bitmap, encoder⟩
  else if condIs "objs" (conditionOf cfg) then some ⟨word cfg 4, 0, .bitmap, encoder⟩
  else none

/-- A region's object, the SDK's region, and the last `ctrl` with what it was asked for. -/
structure Rgn where
  status : RgnStatus
  region : Region
  last : Option (RgnCfg × RgnWork)

def Rgn.initial : Rgn := ⟨.none, .absent, none⟩

/-- A record for the region, its capabilities, and how the calls that are made for it end. -/
structure OsdRequest where
  cap : List UInt8
  cfg : List UInt8
  codes : RgnCodes

section

variable (b : RgnBoard)

def Rgn.ctrl (c : RgnCodes) (s : Rgn) (cfg : RgnCfg) : Rgn :=
  let w := rgnCtrl b c s.status s.region cfg
  ⟨w.status, w.region, some (cfg, w)⟩

def OsdStep (s : Rgn) (a : OsdRequest) (t : Rgn) : Prop :=
  ∃ cfg, osdConfig a.cap a.cfg = some cfg ∧ t = s.ctrl b a.codes cfg

/-- The type that a configuration asks for. -/
def RgnKind.enType : RgnKind → RgnType
  | .cover .. => .cover
  | .bitmap => .overlay

/-- The calls that a configuration's region needs. -/
def RgnKind.ops : RgnKind → List RgnOp
  | .cover .. => [.create, .attachToChn, .setDisplayAttr]
  | .bitmap => [.create, .setAttr, .attachToChn, .getCanvasInfo, .updateCanvas]

/-- The region has the type and the channel that a configuration asks for and is visible or not
as it says. -/
def Region.Shows (r : Region) (cfg : RgnCfg) : Prop :=
  ∃ attr x, r = .attached attr (b.stChn cfg) x ∧ attr.enType = cfg.kind.enType ∧
    (x.bShow ≠ 0 ↔ cfg.enable ≠ 0)

/-- The region is as its status says, calls that failed are made again, and success means that it
is what the last configuration asked for. -/
structure Follows (s : Rgn) : Prop where
  created : s.status ≠ .none → s.region ≠ .absent
  attached : s.status = .attach → ∃ attr chn x, s.region = .attached attr chn x
  retried : ∀ cfg w, s.last = some (cfg, w) → ∀ op, (op, false) ∈ w.log →
    ∀ c (next : RgnCfg), op ∈ next.kind.ops →
      op ∈ (rgnCtrl b c s.status s.region next).log.map Prod.fst
  shown : ∀ cfg w, s.last = some (cfg, w) → w.ret = 0 → s.region.Shows b cfg

/-- Texts or objects are to be shown, and where the region is. -/
def Region.Fits (r : Region) (cfg : RgnCfg) : Prop :=
  cfg.enable ≠ 0 ∧ ∀ attr chn x, r = .attached attr chn x → chn = b.stChn cfg

/-- A region that is not there is made without a failure, and texts or objects that get their
canvas are to be shown where the region is. -/
def CtrlOk (c : RgnCodes) (s : Rgn) (cfg : RgnCfg) : Prop :=
  (s.status = .none → c .create = 0 ∧ c .attachToChn = 0 ∧
    (cfg.kind = .bitmap → c .setAttr = 0)) ∧
  (cfg.kind = .bitmap → c .getCanvasInfo = 0 → c .updateCanvas = 0 →
    (∀ chn x, s.region ≠ .attached .cover chn x) → s.region.Fits b cfg)

def OsdOk (s : Rgn) (a : OsdRequest) : Prop :=
  ∀ cfg, osdConfig a.cap a.cfg = some cfg → CtrlOk b a.codes s cfg

end

variable {b : RgnBoard} {c : RgnCodes} {w : RgnWork} {k : RgnCall} {s t : Rgn}
  {a : OsdRequest} {xs : List OsdRequest} {cfg : RgnCfg} {region : Region}

namespace RgnWork

@[simp] theorem call_status : (w.call c k).status = w.status := by
  rw [call]
  cases w.region.exec k with
  | none => rfl
  | some region =>
    dsimp only
    split_ifs <;> rfl

theorem call_log : ∃ done, (w.call c k).log = w.log ++ [(k.op, done)] := by
  rw [call]
  cases w.region.exec k with
  | none => exact ⟨false, rfl⟩
  | some region =>
    dsimp only
    split_ifs
    · exact ⟨true, rfl⟩
    · exact ⟨false, rfl⟩

theorem call_refused (hk : w.region.exec k = none) :
    w.call c k = ⟨w.status, w.region, w.ret ||| illegal, w.log ++ [(k.op, false)]⟩ := by
  rw [call, hk]

theorem call_failed {r : Region} (hk : w.region.exec k = some r) (hc : c k.op ≠ 0) :
    w.call c k = ⟨w.status, w.region, w.ret ||| c k.op, w.log ++ [(k.op, false)]⟩ := by
  rw [call, hk]
  exact if_neg hc

theorem call_done {r : Region} (hk : w.region.exec k = some r) (hc : c k.op = 0) :
    w.call c k = ⟨w.status, r, w.ret, w.log ++ [(k.op, true)]⟩ := by
  rw [call, hk]
  exact if_pos hc

/-- Success afterwards is success before and of the call. -/
theorem call_ret : (w.call c k).ret = 0 ↔
    w.ret = 0 ∧ c k.op = 0 ∧ (w.region.exec k).isSome := by
  cases hk : w.region.exec k with
  | none =>
    rw [call_refused hk]
    simp [illegal]
  | some r =>
    by_cases hc : c k.op = 0
    · rw [call_done hk hc]
      simp [hc]
    · rw [call_failed hk hc]
      simp [show c k.op ≠ 0#32 from hc]

/-- A call that the SDK fails leaves the region alone. -/
theorem call_region (hc : c k.op ≠ 0) : (w.call c k).region = w.region := by
  cases hk : w.region.exec k with
  | none => rw [call_refused hk]
  | some r => rw [call_failed hk hc]

theorem calls_induct {I : RgnWork → Prop} {q : List RgnCall} (hw : I w)
    (hk : ∀ k ∈ q, ∀ v, I v → I (v.call c k)) : I (w.calls c q) := by
  induction q generalizing w with
  | nil => exact hw
  | cons k q ih =>
    exact ih (hk k List.mem_cons_self w hw) fun j hj => hk j (List.mem_cons_of_mem k hj)

@[simp] theorem calls_status {q : List RgnCall} : (w.calls c q).status = w.status := by
  refine calls_induct (I := fun v => v.status = w.status) rfl fun k _ v hv => ?_
  rw [call_status, hv]

/-- The log grows by the calls. -/
theorem calls_log {q : List RgnCall} : ∃ l, (w.calls c q).log = w.log ++ l ∧
    l.map Prod.fst = q.map RgnCall.op := by
  induction q generalizing w with
  | nil => exact ⟨[], (List.append_nil _).symm, rfl⟩
  | cons k q ih =>
    obtain ⟨done, hk⟩ := w.call_log (c := c) (k := k)
    obtain ⟨l, hl, hops⟩ := ih (w := w.call c k)
    refine ⟨(k.op, done) :: l, ?_, by simp [hops]⟩
    rw [show w.calls c (k :: q) = (w.call c k).calls c q from rfl, hl, hk,
      List.append_assoc, List.singleton_append]

/-- Only `HI_MPI_RGN_Create` makes a region. -/
theorem calls_absent {q : List RgnCall} (hw : w.region = .absent)
    (hks : ∀ k ∈ q, k.op ≠ .create) : (w.calls c q).region = .absent := by
  refine calls_induct (I := fun v => v.region = .absent) hw fun k hk v hv => ?_
  have hexec : v.region.exec k = none := by
    rw [hv]
    cases k <;> first | rfl | exact absurd rfl (hks _ hk)
  rw [call_refused hexec]
  exact hv

/-- Only `HI_MPI_RGN_AttachToChn` attaches one. -/
theorem calls_created {q : List RgnCall} (hw : ∃ attr, w.region = .created attr)
    (hks : ∀ k ∈ q, k.op ≠ .attachToChn) : ∃ attr, (w.calls c q).region = .created attr := by
  refine calls_induct (I := fun v => ∃ attr, v.region = .created attr) hw fun k hk v hv => ?_
  obtain ⟨attr, hv⟩ := hv
  cases hexec : v.region.exec k with
  | none =>
    rw [call_refused hexec]
    exact ⟨attr, hv⟩
  | some r =>
    by_cases hc : c k.op = 0
    · rw [call_done hexec hc]
      rw [hv] at hexec
      cases k with
      | setAttr attr' =>
        obtain ⟨-, hr⟩ := Option.ite_none_right_eq_some.mp hexec
        exact ⟨attr', (Option.some.inj hr).symm⟩
      | attachToChn => exact absurd rfl (hks _ hk)
      | create | setDisplayAttr | getCanvasInfo | updateCanvas => cases hexec
    · rw [call_failed hexec hc]
      exact ⟨attr, hv⟩

end RgnWork

section

variable (b : RgnBoard) (cfg : RgnCfg)

/-- `priv->stRegion`. -/
def RgnBoard.stRegion : RgnAttr :=
  match cfg.kind with
  | .cover .. => .cover
  | .bitmap => .overlay (b.vencSize cfg.chn)

/-- `priv->stChnAttr`. -/
def RgnBoard.stChnAttr : RgnChnAttr :=
  match cfg.kind with
  | .cover color points => ⟨cfg.enable, cfg.layer,
      .cover (points.map (b.vpssSize cfg.chn).scale) (argb8888To888 color)⟩
  | .bitmap => ⟨1, cfg.layer, .overlay⟩

/-- The calls that follow `HI_MPI_RGN_Create`. -/
def RgnBoard.sets : List RgnCall :=
  match cfg.kind with
  | .cover .. => []
  | .bitmap => [.setAttr (b.stRegion cfg)]

/-- The calls that every `ctrl` makes. -/
def RgnBoard.displays : List RgnCall :=
  match cfg.kind with
  | .cover .. => [.setDisplayAttr (b.stChn cfg) (b.stChnAttr cfg)]
  | .bitmap => [.getCanvasInfo, .updateCanvas]

end

/-- Both branches of `__rgn_ctrl` have the same shape. -/
theorem rgnCtrl_eq {status : RgnStatus} : rgnCtrl b c status region cfg =
    (((⟨status, region, 0, []⟩ : RgnWork).raise c .create
      (.create (b.stRegion cfg) :: b.sets cfg)).raise c .attach
        [.attachToChn (b.stChn cfg) (b.stChnAttr cfg)]).calls c (b.displays cfg) := by
  cases cfg with
  | mk enable layer kind chn => cases kind <;> rfl

theorem rgnCtrl_attached : rgnCtrl b c .attach region cfg =
    (⟨.attach, region, 0, []⟩ : RgnWork).calls c (b.displays cfg) := by
  rw [rgnCtrl_eq]
  rfl

/-- The first `ctrl` after `HI_MPI_RGN_Create`. -/
theorem rgnCtrl_none : rgnCtrl b c .none .absent cfg =
    ({ ({ ((⟨.none, .absent, 0, []⟩ : RgnWork).call c (.create (b.stRegion cfg))).calls c
          (b.sets cfg) with status := .create } : RgnWork).call c
      (.attachToChn (b.stChn cfg) (b.stChnAttr cfg)) with status := .attach } : RgnWork).calls c
      (b.displays cfg) := by
  rw [rgnCtrl_eq]
  rfl

/-- Whatever happened, the status says that the region is attached. -/
theorem rgnCtrl_status {status : RgnStatus} :
    (rgnCtrl b c status region cfg).status = .attach := by
  rw [rgnCtrl_eq, RgnWork.calls_status]
  cases status <;> rfl

theorem op_of_displays (hk : k ∈ b.displays cfg) :
    k.op ≠ .create ∧ k.op ≠ .setAttr ∧ k.op ≠ .attachToChn := by
  obtain ⟨enable, layer, kind, chn⟩ := cfg
  cases kind <;> simp only [RgnBoard.displays, List.mem_cons, List.not_mem_nil, or_false] at hk
  · simp [hk, RgnCall.op]
  · rcases hk with rfl | rfl <;> simp [RgnCall.op]

theorem op_of_sets (hk : k ∈ b.sets cfg) : k.op = .setAttr ∧ cfg.kind = .bitmap := by
  obtain ⟨enable, layer, kind, chn⟩ := cfg
  cases kind <;> simp only [RgnBoard.sets, List.mem_cons, List.not_mem_nil, or_false] at hk
  exact ⟨by rw [hk]; rfl, rfl⟩

theorem stChnAttr_bShow (h : (b.stRegion cfg).enType = .overlay) :
    (b.stChnAttr cfg).bShow = 1 := by
  obtain ⟨enable, layer, kind, chn⟩ := cfg
  cases kind with
  | cover color points => cases h
  | bitmap => rfl

/-- A region that could not be created is not there afterwards. -/
theorem absent_of_create (hc : c .create ≠ 0) :
    (rgnCtrl b c .none .absent cfg).region = .absent := by
  have hfirst := RgnWork.call_failed (c := c) (w := ⟨.none, .absent, 0, []⟩)
    (k := .create (b.stRegion cfg)) rfl hc
  have hsets : (((⟨.none, .absent, 0, []⟩ : RgnWork).call c (.create (b.stRegion cfg))).calls
      c (b.sets cfg)).region = .absent := by
    refine RgnWork.calls_absent (by rw [hfirst]) fun k hk => ?_
    rw [(op_of_sets hk).1]
    decide
  rw [rgnCtrl_none]
  refine RgnWork.calls_absent ?_ fun k hk => (op_of_displays hk).1
  exact RgnWork.calls_absent (q := [.attachToChn _ _]) hsets (by simp [RgnCall.op])

/-- One that could not be attached is not attached afterwards. -/
theorem created_of_attach (hc : c .create = 0) (ha : c .attachToChn ≠ 0) :
    ∃ attr, (rgnCtrl b c .none .absent cfg).region = .created attr := by
  have hfirst := RgnWork.call_done (c := c) (w := ⟨.none, .absent, 0, []⟩)
    (k := .create (b.stRegion cfg)) rfl hc
  have hsets : ∃ attr, (((⟨.none, .absent, 0, []⟩ : RgnWork).call c
      (.create (b.stRegion cfg))).calls c (b.sets cfg)).region = .created attr := by
    refine RgnWork.calls_created ⟨b.stRegion cfg, by rw [hfirst]⟩ fun k hk => ?_
    rw [(op_of_sets hk).1]
    decide
  rw [rgnCtrl_none]
  refine RgnWork.calls_created ?_ fun k hk => (op_of_displays hk).2.2
  obtain ⟨attr, hattr⟩ := hsets
  exact ⟨attr, (RgnWork.call_region ha).trans hattr⟩

/-- What a region attached by the first `ctrl` is. -/
theorem attached_of_ok (hc : c .create = 0) (ha : c .attachToChn = 0)
    (hs : cfg.kind = .bitmap → c .setAttr = 0) : ∃ l, (∀ op, (op, false) ∉ l) ∧
      rgnCtrl b c .none .absent cfg = (⟨.attach,
        .attached (b.stRegion cfg) (b.stChn cfg) (b.stChnAttr cfg), 0, l⟩ : RgnWork).calls c
          (b.displays cfg) := by
  have hfirst := RgnWork.call_done (c := c) (w := ⟨.none, .absent, 0, []⟩)
    (k := .create (b.stRegion cfg)) rfl hc
  have htype : (b.stRegion cfg).enType = (b.stChnAttr cfg).enType := by
    simp only [RgnBoard.stRegion, RgnBoard.stChnAttr]
    cases cfg.kind <;> rfl
  have hsets : ∃ l, (∀ op, (op, false) ∉ l) ∧ ((⟨.none, .absent, 0, []⟩ : RgnWork).call c
      (.create (b.stRegion cfg))).calls c (b.sets cfg) =
        ⟨.none, .created (b.stRegion cfg), 0, l⟩ := by
    rw [hfirst]
    cases hkind : cfg.kind with
    | cover color points =>
      have hnil : b.sets cfg = [] := by simp only [RgnBoard.sets, hkind]
      rw [hnil]
      exact ⟨_, by simp, rfl⟩
    | bitmap =>
      have hone : b.sets cfg = [.setAttr (b.stRegion cfg)] := by simp only [RgnBoard.sets, hkind]
      rw [hone]
      exact ⟨_, by simp, RgnWork.call_done (if_pos rfl) (hs hkind)⟩
  obtain ⟨l, hl, hsets⟩ := hsets
  refine ⟨l ++ [(.attachToChn, true)], by simpa using hl, ?_⟩
  have hattach := RgnWork.call_done (c := c) (w := ⟨.create, .created (b.stRegion cfg), 0, l⟩)
    (k := .attachToChn (b.stChn cfg) (b.stChnAttr cfg)) (if_pos htype) ha
  rw [rgnCtrl_none, hsets]
  dsimp only
  rw [hattach]
  rfl

/-- The canvas is there for an overlay, and asking for it changes nothing. -/
theorem call_canvas {attr : RgnAttr} {chn : MppChn} {x : RgnChnAttr}
    (hw : w.region = .attached attr chn x) (hk : k = .getCanvasInfo ∨ k = .updateCanvas) :
    (w.call c k).region = .attached attr chn x ∧
      ((w.call c k).ret = 0 ↔ w.ret = 0 ∧ c k.op = 0 ∧ attr.enType = .overlay) := by
  cases attr with
  | cover =>
    have hexec : w.region.exec k = none := by
      rw [hw]
      rcases hk with rfl | rfl <;> rfl
    rw [RgnWork.call_ret, RgnWork.call_refused hexec, hexec]
    exact ⟨hw, by simp [RgnAttr.enType]⟩
  | overlay size =>
    have hexec : w.region.exec k = some (.attached (.overlay size) chn x) := by
      rw [hw]
      rcases hk with rfl | rfl <;> rfl
    rw [RgnWork.call_ret, hexec]
    refine ⟨?_, by simp [RgnAttr.enType]⟩
    by_cases hc : c k.op = 0
    · rw [RgnWork.call_done hexec hc]
    · rw [RgnWork.call_failed hexec hc]
      exact hw

/-- A mask changes no other region, and is shown as it asks when the call succeeds. -/
theorem displays_cover {attr : RgnAttr} {chn : MppChn} {x : RgnChnAttr} {color : Nat}
    {points : List (Int × Int)} (hw : w.region = .attached attr chn x)
    (hkind : cfg.kind = .cover color points) :
    (∃ x', (w.calls c (b.displays cfg)).region = .attached attr chn x' ∧
      (attr.enType = .overlay → x' = x)) ∧
    ((w.calls c (b.displays cfg)).ret = 0 →
      (w.calls c (b.displays cfg)).region.Shows b cfg) := by
  have hdisplays : w.calls c (b.displays cfg) =
      w.call c (.setDisplayAttr (b.stChn cfg) (b.stChnAttr cfg)) := by
    simp only [RgnBoard.displays, hkind]
    rfl
  have htype : (b.stChnAttr cfg).enType = .cover := by
    simp [RgnBoard.stChnAttr, hkind, RgnChnAttr.enType]
  have hshow : (b.stChnAttr cfg).bShow = cfg.enable := by simp [RgnBoard.stChnAttr, hkind]
  rw [hdisplays, RgnWork.call_ret]
  by_cases hfit : attr.enType = (b.stChnAttr cfg).enType ∧ chn = b.stChn cfg
  · have hexec : w.region.exec (.setDisplayAttr (b.stChn cfg) (b.stChnAttr cfg)) =
        some (.attached attr chn (b.stChnAttr cfg)) := by
      rw [hw]
      exact if_pos hfit
    have hover : attr.enType ≠ .overlay := by
      rw [hfit.1, htype]
      decide
    by_cases hc : c (RgnCall.setDisplayAttr (b.stChn cfg) (b.stChnAttr cfg)).op = 0
    · rw [RgnWork.call_done hexec hc]
      refine ⟨⟨_, rfl, fun h => absurd h hover⟩, fun _ => ⟨attr, b.stChnAttr cfg, ?_, ?_, ?_⟩⟩
      · rw [hfit.2]
      · rw [hfit.1, htype, hkind]
        rfl
      · rw [hshow]
    · rw [RgnWork.call_failed hexec hc]
      exact ⟨⟨x, hw, fun _ => rfl⟩, fun h => absurd h.2.1 hc⟩
  · have hexec : w.region.exec (.setDisplayAttr (b.stChn cfg) (b.stChnAttr cfg)) = none := by
      rw [hw]
      exact if_neg hfit
    rw [RgnWork.call_refused hexec, hexec]
    exact ⟨⟨x, hw, fun _ => rfl⟩, fun h => absurd h.2.2 (by decide)⟩

/-- Texts and objects change no region; with their canvas they succeed wherever it is. -/
theorem displays_bitmap {attr : RgnAttr} {chn : MppChn} {x : RgnChnAttr}
    (hw : w.region = .attached attr chn x) (hret : w.ret = 0) (hkind : cfg.kind = .bitmap) :
    (w.calls c (b.displays cfg)).region = .attached attr chn x ∧
      ((w.calls c (b.displays cfg)).ret = 0 ↔
        c .getCanvasInfo = 0 ∧ c .updateCanvas = 0 ∧ attr.enType = .overlay) := by
  have hdisplays : w.calls c (b.displays cfg) =
      (w.call c .getCanvasInfo).call c .updateCanvas := by
    simp only [RgnBoard.displays, hkind]
    rfl
  obtain ⟨hget, hgetRet⟩ := call_canvas (c := c) hw (.inl rfl)
  obtain ⟨hup, hupRet⟩ := call_canvas (c := c) hget (.inr rfl)
  rw [hdisplays, hupRet, hgetRet]
  refine ⟨hup, ?_⟩
  simp only [hret, RgnCall.op, true_and]
  tauto

/-- The calls that every `ctrl` makes leave a region attached where it is. When they succeed it is
the one that was asked for, unless it is a bitmap's and was asked for elsewhere or hidden. -/
theorem displays_attached {attr : RgnAttr} {chn : MppChn} {x : RgnChnAttr}
    (hw : w.region = .attached attr chn x) (hx : attr.enType = .overlay → x.bShow = 1)
    (hret : w.ret = 0) :
    (∃ x', (w.calls c (b.displays cfg)).region = .attached attr chn x' ∧
      (attr.enType = .overlay → x'.bShow = 1)) ∧
    (((w.calls c (b.displays cfg)).ret = 0 →
        (w.calls c (b.displays cfg)).region.Shows b cfg) ↔
      (cfg.kind = .bitmap → c .getCanvasInfo = 0 → c .updateCanvas = 0 →
        attr.enType = .overlay → cfg.enable ≠ 0 ∧ chn = b.stChn cfg)) := by
  cases hkind : cfg.kind with
  | cover color points =>
    obtain ⟨⟨x', hr, hkeep⟩, hshows⟩ := displays_cover (b := b) (c := c) hw hkind
    refine ⟨⟨x', hr, fun h => ?_⟩, iff_of_true hshows nofun⟩
    rw [hkeep h, hx h]
  | bitmap =>
    obtain ⟨hr, hiff⟩ := displays_bitmap (b := b) (c := c) hw hret hkind
    refine ⟨⟨x, hr, hx⟩, ?_⟩
    rw [hr, hiff]
    constructor
    · intro h _ hget hup hover
      obtain ⟨attr', x', heq, -, hshow⟩ := h ⟨hget, hup, hover⟩
      obtain ⟨rfl, rfl, rfl⟩ := Region.attached.inj heq
      rw [hx hover] at hshow
      exact ⟨hshow.mp (by decide), rfl⟩
    · rintro h ⟨hget, hup, hover⟩
      obtain ⟨henable, hchn⟩ := h rfl hget hup hover
      refine ⟨attr, x, by rw [hchn], by rw [hover, hkind]; rfl, ?_⟩
      rw [hx hover]
      exact iff_of_true (by decide) henable

/-- Between two calls of `ctrl`, when the region could be made: it is there or it is not, and a
bitmap's shows. -/
def Rgn.Mirrors (s : Rgn) : Prop :=
  (s.status = .none ∧ s.region = .absent) ∨
    (s.status = .attach ∧ ∃ attr chn x, s.region = .attached attr chn x ∧
      (attr.enType = .overlay → x.bShow = 1))

theorem ops_attached : (rgnCtrl b c .attach region cfg).log.map Prod.fst =
    (b.displays cfg).map RgnCall.op := by
  obtain ⟨l, hl, hops⟩ := (⟨.attach, region, 0, []⟩ : RgnWork).calls_log (c := c)
    (q := b.displays cfg)
  rw [rgnCtrl_attached, hl, List.nil_append, hops]

theorem mem_displays {op : RgnOp} (hop : op ∈ cfg.kind.ops) (hc : op ≠ .create)
    (hs : op ≠ .setAttr) (ha : op ≠ .attachToChn) : op ∈ (b.displays cfg).map RgnCall.op := by
  obtain ⟨enable, layer, kind, chn⟩ := cfg
  cases kind <;> cases op <;> simp_all [RgnKind.ops, RgnBoard.displays, RgnCall.op]

/-- Attributes that were refused are not set again. -/
theorem setAttr_failed (hc : c .create = 0) (hs : c .setAttr ≠ 0)
    (hkind : cfg.kind = .bitmap) :
    (RgnOp.setAttr, false) ∈ (rgnCtrl b c .none .absent cfg).log := by
  have hfirst := RgnWork.call_done (c := c) (w := ⟨.none, .absent, 0, []⟩)
    (k := .create (b.stRegion cfg)) rfl hc
  have hone : b.sets cfg = [.setAttr (b.stRegion cfg)] := by simp only [RgnBoard.sets, hkind]
  have hsecond := RgnWork.call_failed (c := c)
    (w := ⟨.none, .created (b.stRegion cfg), 0, [(.create, true)]⟩)
    (k := .setAttr (b.stRegion cfg)) (if_pos rfl) hs
  have hsets : (RgnOp.setAttr, false) ∈ (((⟨.none, .absent, 0, []⟩ : RgnWork).call c
      (.create (b.stRegion cfg))).calls c (b.sets cfg)).log := by
    rw [hfirst, hone]
    exact (congrArg RgnWork.log hsecond).symm ▸ by simp [RgnCall.op]
  rw [rgnCtrl_none]
  obtain ⟨l, hl, -⟩ := RgnWork.calls_log (c := c) (q := b.displays cfg)
  obtain ⟨done, hk⟩ := RgnWork.call_log (c := c)
  rw [hl]
  refine List.mem_append_left _ ?_
  dsimp only
  rw [hk]
  exact List.mem_append_left _ hsets

/-- What the last calls of a `ctrl` make of a region that is attached. -/
theorem follows_displays {attr : RgnAttr} {chn : MppChn} {x : RgnChnAttr} {l : List (RgnOp × Bool)}
    (hl : ∀ op, (op, false) ∉ l) (hx : attr.enType = .overlay → x.bShow = 1)
    (hw : w = (⟨.attach, .attached attr chn x, 0, l⟩ : RgnWork).calls c (b.displays cfg)) :
    Rgn.Mirrors ⟨w.status, w.region, some (cfg, w)⟩ ∧
      (Follows b ⟨w.status, w.region, some (cfg, w)⟩ ↔
        (cfg.kind = .bitmap → c .getCanvasInfo = 0 → c .updateCanvas = 0 →
          attr.enType = .overlay → cfg.enable ≠ 0 ∧ chn = b.stChn cfg)) := by
  obtain ⟨⟨x', hr, hx'⟩, hiff⟩ := @displays_attached b c
    ⟨.attach, .attached attr chn x, 0, l⟩ cfg attr chn x rfl hx rfl
  have hstatus : w.status = .attach := by rw [hw, RgnWork.calls_status]
  rw [← hw] at hr hiff
  refine ⟨.inr ⟨hstatus, attr, chn, x', hr, hx'⟩, ?_⟩
  rw [← hiff]
  constructor
  · intro h hret
    exact h.shown cfg w rfl hret
  · intro h
    refine ⟨fun _ => by rw [hr]; nofun, fun _ => ⟨attr, chn, x', hr⟩, ?_, ?_⟩
    · rintro _ _ ⟨rfl⟩ op hop c' next hnext
      obtain ⟨l', hlog, hops⟩ := (⟨.attach, .attached attr chn x, 0, l⟩ : RgnWork).calls_log
        (c := c) (q := b.displays cfg)
      rw [hw, hlog, List.mem_append] at hop
      have hmem := List.mem_map_of_mem (f := Prod.fst) (hop.resolve_left (hl op))
      rw [hops, List.mem_map] at hmem
      obtain ⟨k, hk, rfl⟩ := hmem
      obtain ⟨hc, hs, ha⟩ := op_of_displays hk
      dsimp only
      rw [hstatus, ops_attached]
      exact mem_displays hnext hc hs ha
    · rintro _ _ ⟨rfl⟩ hret
      exact h hret

/-- A first `ctrl` whose calls do not all succeed is not made good by the next one. -/
theorem not_follows_first {last : Option (RgnCfg × RgnWork)}
    (h : ¬ (c .create = 0 ∧ c .attachToChn = 0 ∧
      (cfg.kind = .bitmap → c .setAttr = 0))) :
    ¬ Follows b (Rgn.ctrl b c ⟨.none, .absent, last⟩ cfg) := by
  intro hf
  have hstatus : (rgnCtrl b c .none .absent cfg).status = .attach := rgnCtrl_status
  have hcreate : c .create = 0 := by
    by_contra hc
    exact hf.created (by rw [Rgn.ctrl, hstatus]; nofun) (absent_of_create hc)
  have hattach : c .attachToChn = 0 := by
    by_contra ha
    obtain ⟨attr, hr⟩ : ∃ attr, (rgnCtrl b c .none .absent cfg).region = .created attr :=
      created_of_attach hcreate ha
    obtain ⟨_, _, _, hr'⟩ := hf.attached hstatus
    cases hr.symm.trans hr'
  refine h ⟨hcreate, hattach, fun hkind => ?_⟩
  by_contra hset
  have hagain := hf.retried cfg _ rfl _ (setAttr_failed hcreate hset hkind) c cfg
    (by rw [hkind]; decide)
  rw [Rgn.ctrl, hstatus, ops_attached, List.mem_map] at hagain
  obtain ⟨k, hk, hop⟩ := hagain
  exact (op_of_displays hk).2.1 hop

/-- From a region that mirrors its object, a `ctrl` does what was asked exactly when no call that
makes the region fails and a bitmap that gets its canvas is to be shown where the region is. -/
theorem follows_ctrl (hs : s.Mirrors) : Follows b (s.ctrl b c cfg) ↔ CtrlOk b c s cfg := by
  obtain ⟨status, region, last⟩ := s
  rcases hs with ⟨rfl, rfl⟩ | ⟨rfl, attr, chn, x, rfl, hx⟩
  · by_cases hall : c .create = 0 ∧ c .attachToChn = 0 ∧
      (cfg.kind = .bitmap → c .setAttr = 0)
    · obtain ⟨l, hl, hw⟩ := attached_of_ok (b := b) hall.1 hall.2.1 hall.2.2
      refine (follows_displays hl stChnAttr_bShow hw).2.trans ?_
      constructor
      · refine fun h => ⟨fun _ => hall, fun hkind hget hup _ => ⟨?_, nofun⟩⟩
        refine (h hkind hget hup ?_).1
        simp [RgnBoard.stRegion, hkind, RgnAttr.enType]
      · intro h hkind hget hup _
        exact ⟨(h.2 hkind hget hup nofun).1, rfl⟩
    · exact iff_of_false (not_follows_first hall) fun h => hall (h.1 rfl)
  · refine (follows_displays (l := []) (fun _ => List.not_mem_nil) hx rgnCtrl_attached).2.trans ?_
    constructor
    · refine fun h => ⟨nofun, fun hkind hget hup hcover => ?_⟩
      have hover : attr.enType = .overlay := by
        cases attr with
        | cover => exact absurd rfl (hcover chn x)
        | overlay size => rfl
      obtain ⟨henable, hchn⟩ := h hkind hget hup hover
      refine ⟨henable, fun attr' chn' x' heq => ?_⟩
      obtain ⟨-, rfl, -⟩ := Region.attached.inj heq
      exact hchn
    · intro h hkind hget hup hover
      obtain ⟨henable, hchn⟩ := h.2 hkind hget hup (by rintro _ _ ⟨⟩; cases hover)
      exact ⟨henable, hchn attr chn x rfl⟩

theorem mirrors_ctrl (hs : s.Mirrors) (hok : CtrlOk b c s cfg) :
    (s.ctrl b c cfg).Mirrors := by
  obtain ⟨status, region, last⟩ := s
  rcases hs with ⟨rfl, rfl⟩ | ⟨rfl, attr, chn, x, rfl, hx⟩
  · obtain ⟨hc, ha, hset⟩ := hok.1 rfl
    obtain ⟨l, hl, hw⟩ := attached_of_ok (b := b) hc ha hset
    exact (follows_displays hl stChnAttr_bShow hw).1
  · exact (follows_displays (l := []) (fun _ => List.not_mem_nil) hx rgnCtrl_attached).1

theorem mirrors_follows (h : Lts.MTr (Lts.Restrict (OsdStep b) (OsdOk b)) s xs t)
    (hs : s.Mirrors ∧ Follows b s) : t.Mirrors ∧ Follows b t := by
  refine Lts.mtrInv_of_trInv (I := fun s => s.Mirrors ∧ Follows b s) ?_ h hs
  rintro s a t ⟨⟨cfg, hcfg, rfl⟩, hok⟩ ⟨hs, -⟩
  have hctrl := hok cfg hcfg
  exact ⟨mirrors_ctrl hs hctrl, (follows_ctrl hs).mpr hctrl⟩

/-- In every run whose requests are in order the region follows its last configuration. -/
theorem osd_follows (h : Lts.MTr (Lts.Restrict (OsdStep b) (OsdOk b)) .initial xs s) :
    Follows b s := by
  have hinit : Follows b .initial := by
    refine ⟨fun h => absurd rfl h, nofun, ?_, ?_⟩ <;> rintro _ _ ⟨⟩
  exact (mirrors_follows h ⟨.inl ⟨rfl, rfl⟩, hinit⟩).2

/-- No texts, hidden or shown. -/
def textsRecord (enable : Nat) : List UInt8 :=
  Bytes.le 4 0 ++ Bytes.le 4 enable ++ Bytes.ascii "texts" ++ List.replicate 31 0

def sampleRgnBoard : RgnBoard :=
  ⟨fun _ => .vpss 0 0, .venc 0, fun _ => ⟨1920, 1080⟩, fun _ => ⟨1920, 1080⟩⟩

theorem osdConfig_texts {enable : Nat} (h : enable = 0 ∨ enable = 1) :
    osdConfig (List.replicate 12 0) (textsRecord enable) = some ⟨enable, 1, .bitmap, 0⟩ := by
  have hmask : condIs "mask" (conditionOf (textsRecord enable)) = false := by
    rcases h with rfl | rfl <;> decide
  have htexts : condIs "texts" (conditionOf (textsRecord enable)) = true := by
    rcases h with rfl | rfl <;> decide
  have henable : word (textsRecord enable) 4 = enable := by
    rcases h with rfl | rfl <;> decide
  have hchn : chnOf (List.replicate 12 0) * 4 + subchnOf (List.replicate 12 0) = 0 := by decide
  simp only [osdConfig, hmask, htexts, henable, hchn]
  rfl

theorem osd_follows_texts : ∃ s, s.region.Shows sampleRgnBoard ⟨1, 1, .bitmap, 0⟩ ∧
    Follows sampleRgnBoard s := by
  have hstep : Lts.Restrict (OsdStep sampleRgnBoard) (OsdOk sampleRgnBoard) .initial
      ⟨List.replicate 12 0, textsRecord 1, fun _ => 0⟩
      (Rgn.ctrl sampleRgnBoard (fun _ => 0) .initial ⟨1, 1, .bitmap, 0⟩) := by
    refine ⟨⟨_, osdConfig_texts (.inr rfl), rfl⟩, ?_⟩
    intro cfg hcfg
    obtain rfl := Option.some.inj ((osdConfig_texts (.inr rfl)).symm.trans hcfg)
    exact ⟨fun _ => ⟨rfl, rfl, fun _ => rfl⟩, fun _ _ _ _ => ⟨by decide, nofun⟩⟩
  exact ⟨_, ⟨_, _, rfl, rfl, by decide⟩, osd_follows (.stepL hstep .refl)⟩

/-- Texts that are to be hidden are shown, and the answer is success. -/
theorem osd_shown : ∃ xs s, Lts.MTr (OsdStep sampleRgnBoard) .initial xs s ∧
    ¬ Follows sampleRgnBoard s := by
  refine ⟨[⟨List.replicate 12 0, textsRecord 0, fun _ => 0⟩],
    Rgn.ctrl sampleRgnBoard (fun _ => 0) .initial ⟨0, 1, .bitmap, 0⟩,
    .stepL ⟨_, osdConfig_texts (.inl rfl), rfl⟩ .refl, ?_⟩
  rw [follows_ctrl (.inl ⟨rfl, rfl⟩)]
  intro h
  exact (h.2 rfl rfl rfl nofun).1 rfl

end Freak.Vsf
