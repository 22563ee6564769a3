import Freak.Manager.Store
import Freak.Proto.Forward
import Freak.Proto.Ops

/-! The managers on records as they lie in memory, with the arrays that they index by what a record
says: `*_mgr.c`, `dummy.c`, and the tables of `rgn.c`, `venc.c` and `vpss.c` behind them. -/
namespace Freak.Manager

open Bytes Schema
open Freak.Proto (Ops Record Action Key Node registered)

/-- An `int` of a record. -/
def word (img : List UInt8) (a : Nat) : Int := (ofLe (slice img a 4) : Int).bmod (2 ^ 32)

/-- A `uint32_t` of a record. -/
def uword (img : List UInt8) (a : Nat) : Nat := ofLe (slice img a 4)

/-- The id that every record begins with. -/
def idOf (img : List UInt8) : Int := word img 0

/-- `cap->chn`. -/
def chnOf (cap : List UInt8) : Int := word cap 4

/-- `cap->subchn`. -/
def subchnOf (cap : List UInt8) : Int := word cap 8

/-- `cfg->info.condition`. -/
def conditionOf (cfg : List UInt8) : List UInt8 := slice cfg 8 32

/-- The board: its VPSS groups, encoders and regions, the lengths of the arrays for groups,
encoders and a group's channels, and how the calls that are made for a record or a slot end. -/
structure Hal where
  vpssNum : Nat
  vencNum : Nat
  rgnNum : Nat
  vpssMax : Nat
  vencMax : Nat
  chnMax : Nat
  venc_le : vencNum ≤ vencMax
  creates : Nat → Bool
  vpssAttr : Int → Bool
  vencAttr : Int → Bool
  display : List UInt8 → Int

/-- The records of a manager, and which slots' `fifo` or `server` is not `NULL`. -/
structure Slots where
  info : Info (List UInt8) (List UInt8)
  held : Nat → Bool

namespace Slots

/-- The capabilities that a record's id names. -/
def capOf (s : Slots) (cfg : List UInt8) : List UInt8 := s.info.cap (idOf cfg)

/-- The encoder that a text or object overlay goes to. -/
def encoderOf (s : Slots) (cfg : List UInt8) : Int :=
  chnOf (s.capOf cfg) * 4 + subchnOf (s.capOf cfg)

end Slots

/-- `VSF_createVpss`, `VSF_createVenc` and `VSF_createRgn`: the object, if there is one. -/
def create (num : Nat) (id : Int) : Run (Option Nat) :=
  if num ≤ id then .ok none
  else do
    let n ← Run.index num id
    return some n

namespace Hal

variable (h : Hal)

/-- A slot is given its `fifo` or `server` unless it has one, or loses it. -/
def hold (s : Slots) (n : Nat) (enable : Int) : Run Slots :=
  if enable ≠ 0 then
    if s.held n then .ok s
    else do
      Run.assert (h.creates n)
      return { s with held := Function.update s.held n true }
  else .ok { s with held := Function.update s.held n false }

/-- `__vsf_frame_set`. -/
def frameSet (s : Slots) (cfg : List UInt8) : Run (Slots × Int) := do
  let n ← Run.index 8 (idOf cfg)
  let s ← h.hold s n (word cfg 4)
  match ← create h.vpssNum (chnOf (s.capOf cfg)) with
  | none => return (s, 0)
  | some _ => do
    -- the callback of the group's channel
    let _ ← Run.index h.chnMax (subchnOf (s.capOf cfg))
    return (s, 0)

/-- `__vsf_stream_set`. -/
def streamSet (s : Slots) (cfg : List UInt8) : Run (Slots × Int) := do
  let n ← Run.index 6 (idOf cfg)
  let s ← h.hold s n (word cfg 4)
  let _ ← create h.vencNum (idOf cfg)
  return (s, 0)

/-- A mask: `__vsf_osd_ctrl` and `__rgn_ctrl_cover`. -/
def cover (s : Slots) (cfg : List UInt8) : Run (Slots × Int) := do
  let _ ← Run.index 16 (idOf cfg)
  match ← create h.rgnNum (idOf cfg) with
  | none => return (s, 0)
  | some _ => do
    let _ ← Run.index h.vpssMax (chnOf (s.capOf cfg))
    Run.assert (h.vpssAttr (chnOf (s.capOf cfg)))
    return (s, h.display cfg)

/-- The drawing loop from an entry of an array of `max` on. -/
def drawFrom (max : Nat) : Nat → Nat → Run Unit
  | _, 0 => .ok ()
  | i, num + 1 => do
    let _ ← Run.index max i
    drawFrom max (i + 1) num

/-- Texts or objects: `__vsf_osd_ctrl`, `__rgn_ctrl_bitmap` and `__vsf_osd_ctrl_texts` or
`__vsf_osd_ctrl_objs`. -/
def overlay (max : Nat) (s : Slots) (cfg : List UInt8) : Run (Slots × Int) := do
  let _ ← Run.index 16 (idOf cfg)
  match ← create h.rgnNum (idOf cfg) with
  | none => return (s, 0)
  | some _ => do
    let _ ← Run.index h.vencMax (s.encoderOf cfg)
    Run.assert (h.vencAttr (s.encoderOf cfg))
    drawFrom max 0 (uword cfg 40)
    return (s, h.display cfg)

/-- `__vsf_osd_ctrl`. -/
def osdCtrl (s : Slots) (cfg : List UInt8) : Run (Slots × Int) :=
  if condIs "mask" (conditionOf cfg) then h.cover s cfg
  else if condIs "texts" (conditionOf cfg) then h.overlay 8 s cfg
  else if condIs "objs" (conditionOf cfg) then h.overlay 16 s cfg
  else .ok (s, 0)

/-- `__rtsp_svr_set` and `__web_svr_set`. -/
def svrSet (s : Slots) (cfg : List UInt8) : Run (Slots × Int) := do
  let n ← Run.index 1 (idOf cfg)
  let s ← h.hold s n (word cfg 4)
  return (s, 0)

/-- `__app_alg_set`, which attaches to the frames again whether it is or not. -/
def algSet (s : Slots) (cfg : List UInt8) : Run (Slots × Int) :=
  if word cfg 4 = 0 then do
    let n ← Run.index 3 (idOf cfg)
    if word cfg 8 ≠ 0 then do
      Run.assert (h.creates n)
      return ({ s with held := Function.update s.held n true }, 0)
    else return ({ s with held := Function.update s.held n false }, 0)
  else .ok (s, 0)

end Hal

namespace Slots

/-- `__vsf_frame_get` and its siblings. -/
def get (max : Nat) (s : Slots) (cfg : List UInt8) : Run (List UInt8 × Int) := do
  let n ← Run.index max (idOf cfg)
  return (s.info.cfgs n, 0)

/-- `__vsf_frame_cap` and its siblings. -/
def cap (max : Nat) (s : Slots) (cap : List UInt8) : Run (List UInt8 × Int) := do
  let n ← Run.index max (idOf cap)
  return (s.info.caps n, 0)

/-- `cfgs[cfg.id] = cfg`. -/
def put (max : Nat) (s : Slots) (cfg : List UInt8) : Run Slots := do
  let n ← Run.index max (idOf cfg)
  return { s with info := s.info.put n cfg }

/-- `bsp_createDummy`: a channel behind the last has none, and the handler asserts that there is
one. -/
def dummy (chn : UInt8) (s : Slots) : Run Nat := do
  Run.assert (chn.toNat < s.info.num)
  Run.index 8 chn.toNat

end Slots

/-- The manager that has the most slots of its kind. -/
def manager (cfg cap : Record) (max : Nat) (set : Slots → List UInt8 → Run (Slots × Int))
    (tgr : Option (Slots → List UInt8 → Run (Slots × Int))) : Ops Slots where
  cfgRec := cfg
  capRec := cap
  set := set
  get := Slots.get max
  cap := Slots.cap max
  num s := .ok s.info.num
  tgr := tgr
  put := Slots.put max

/-- The dummy of a channel. -/
def dummyManager (chn : UInt8) : Ops Slots where
  cfgRec := .dummyCfg
  capRec := .dummyCap
  set s cfg := do
    let n ← s.dummy chn
    return ({ s with info := s.info.put n cfg }, 0)
  get s _ := do
    let n ← s.dummy chn
    return (s.info.cfgs n, 0)
  cap s _ := do
    let n ← s.dummy chn
    return (s.info.caps n, 0)
  num s := .ok s.info.num
  tgr := none
  put s cfg := do
    let n ← Run.index 8 chn.toNat
    return { s with info := s.info.put n cfg }

/-- How many slots the arrays of a key's manager have. -/
def slots : Key → Nat
  | .dummy => 8
  | .frame => 8
  | .stream => 6
  | .osd => 16
  | .rtspSvr => 1
  | .webSvr => 1
  | .alg => 3

/-- The manager behind a key's handler. -/
def Hal.ops (h : Hal) : Key → UInt8 → Ops Slots
  | .dummy, chn => dummyManager chn
  | .frame, _ => manager .frameCfg .frameCap (slots .frame) h.frameSet none
  | .stream, _ => manager .streamCfg .streamCap (slots .stream) h.streamSet none
  | .osd, _ => manager .osdCfg .osdCap (slots .osd) h.osdCtrl (some h.osdCtrl)
  | .rtspSvr, _ => manager .rtspCfg .rtspCap (slots .rtspSvr) h.svrSet none
  | .webSvr, _ => manager .webCfg .webCap (slots .webSvr) h.svrSet none
  | .alg, _ => manager .algCfg .algCap (slots .alg) h.algSet none

/-- The managers of a module. -/
abbrev State := Key → Slots

/-- A manager among a module's managers. -/
def among (k : Key) (m : Ops Slots) : Ops State where
  cfgRec := m.cfgRec
  capRec := m.capRec
  set s cfg := do
    let (t, ret) ← m.set (s k) cfg
    return (Function.update s k t, ret)
  get s cfg := m.get (s k) cfg
  cap s cap := m.cap (s k) cap
  num s := m.num (s k)
  tgr := m.tgr.map fun tgr s cfg => do
    let (t, ret) ← tgr (s k) cfg
    return (Function.update s k t, ret)
  put s cfg := do
    let t ← m.put (s k) cfg
    return Function.update s k t

/-- The handlers that a module registers. -/
def Hal.handler (h : Hal) (n : Node) (key : Nat) : Option (UInt8 → Ops State) :=
  ((registered n).find? fun k => k.value.toNat == key).map fun k chn => among k (h.ops k chn)

variable {k : Key} {m : Ops Slots} {a : Action} {s : State} {rec : List UInt8}

theorem record_among : (among k m).record a = m.record a := by
  cases a <;> rfl

/-- A call reaches the one manager and leaves the others as they are. -/
theorem call_among : (among k m).call a s rec =
    (fun r => (Function.update s k r.1, r.2)) <$> m.call a (s k) rec := by
  cases a with
  | num => simp [Ops.call, among]
  | cap => simp [Ops.call, among]
  | get => simp [Ops.call, among]
  | set => simp [Ops.call, among]
  | tgr => cases ht : m.tgr <;> simp [Ops.call, among, ht]

end Freak.Manager
