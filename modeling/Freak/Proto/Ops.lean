import Freak.Lib.Run
import Freak.Proto.Records

/-! What a message handler asks of its manager. -/
namespace Freak.Proto

open Bytes

/-- The functions of a manager, on records as they lie in memory, and `cfgs[cfg.id] = cfg`. -/
structure Ops (σ : Type) where
  cfgRec : Record
  capRec : Record
  set : σ → List UInt8 → Run (σ × Int)
  get : σ → List UInt8 → Run (List UInt8 × Int)
  cap : σ → List UInt8 → Run (List UInt8 × Int)
  num : σ → Run Int
  tgr : Option (σ → List UInt8 → Run (σ × Int))
  put : σ → List UInt8 → Run σ

/-- `proto_action_e`. -/
inductive Action
  | num
  | cap
  | get
  | set
  | tgr
deriving DecidableEq

def Action.value : Action → Nat
  | .num => 0
  | .cap => 1
  | .get => 2
  | .set => 3
  | .tgr => 4

namespace Ops

variable {σ : Type} (m : Ops σ)

/-- The branch of a handler that takes an action; without one its `assert(0)` fails. -/
def action (code : UInt8) : Option Action :=
  if code = 0 then some .num
  else if code = 1 then some .cap
  else if code = 2 then some .get
  else if code = 3 then some .set
  else if code = 4 ∧ m.tgr.isSome then some .tgr
  else none

/-- The type of an action's record. -/
def record : Action → Record
  | .num => .num
  | .cap => m.capRec
  | .get | .set | .tgr => m.cfgRec

/-- What is between the macros in `msgbox_*_num` and its siblings: the record that comes back. -/
def call (a : Action) (s : σ) (rec : List UInt8) : Run (σ × List UInt8) :=
  match a with
  | .num => do
    let num ← m.num s
    Run.assert (0 ≤ num)
    return (s, le 4 num.toNat)
  | .cap => do
    let (cap, ret) ← m.cap s rec
    Run.assert (ret = 0)
    return (s, cap)
  | .get => do
    let (cfg, ret) ← m.get s rec
    Run.assert (ret = 0)
    return (s, cfg)
  | .set => do
    let (s, ret) ← m.set s rec
    Run.assert (ret = 0)
    let s ← m.put s rec
    return (s, rec)
  | .tgr =>
    match m.tgr with
    | none => .error .assertion
    | some tgr => do
      let (s, ret) ← tgr s rec
      Run.assert (ret = 0)
      return (s, rec)

variable {m} {a : Action} {code : UInt8}

/-- An action's own code is taken as the action. -/
theorem action_of_value {act : UInt32} (h : act.toNat = a.value)
    (hk : a = .tgr → m.tgr.isSome) : m.action act.toUInt8 = some a := by
  have hact : act = UInt32.ofNat a.value := by
    apply UInt32.toNat_inj.mp
    rw [h]
    cases a <;> rfl
  subst hact
  cases a with
  | num => rfl
  | cap => rfl
  | get => rfl
  | set => rfl
  | tgr => simp [action, Action.value, hk rfl]

end Ops

end Freak.Proto
