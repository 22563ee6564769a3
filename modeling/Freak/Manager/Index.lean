import Freak.Manager.Image
import Freak.Proto.Msgbox

/-! Which records lead a manager to an index outside its array. -/
namespace Freak.Manager

open Bytes Schema
open Freak.Proto (Ops Record Key Action)

/-- The record's id names one of so many slots. -/
def HasSlot (max : Nat) (img : List UInt8) : Prop := 0 ≤ idOf img ∧ idOf img < max

namespace Hal

variable (h : Hal)

/-- A slot has its `fifo`, or is given one, or needs none. -/
def Opens (s : Slots) (n : Nat) (enable : Int) : Prop :=
  enable ≠ 0 → s.held n = true ∨ h.creates n = true

/-- `caps[id]` names a group whose channel the callback can be registered for, or one behind the
last. -/
def FrameInRange (s : Slots) (cfg : List UInt8) : Prop :=
  h.Opens s (idOf cfg).toNat (word cfg 4) →
    0 ≤ chnOf (s.capOf cfg) ∧ (chnOf (s.capOf cfg) < h.vpssNum →
      0 ≤ subchnOf (s.capOf cfg) ∧ subchnOf (s.capOf cfg) < h.chnMax)

def CoverInRange (s : Slots) (cfg : List UInt8) : Prop :=
  idOf cfg < h.rgnNum → 0 ≤ chnOf (s.capOf cfg) ∧ chnOf (s.capOf cfg) < h.vpssMax

/-- `caps[id]` names an encoder, and the record has no more entries than its array. -/
def OverlayInRange (max : Nat) (s : Slots) (cfg : List UInt8) : Prop :=
  idOf cfg < h.rgnNum → (0 ≤ s.encoderOf cfg ∧ s.encoderOf cfg < h.vencNum) ∧
    (h.vencAttr (s.encoderOf cfg) = true → uword cfg 40 ≤ max)

/-- What an OSD record must be for the overlay that its condition names. -/
def OsdInRange (s : Slots) (cfg : List UInt8) : Prop :=
  (condIs "mask" (conditionOf cfg) = true → HasSlot 16 cfg ∧ h.CoverInRange s cfg) ∧
  (condIs "texts" (conditionOf cfg) = true → HasSlot 16 cfg ∧ h.OverlayInRange 8 s cfg) ∧
  (condIs "objs" (conditionOf cfg) = true → HasSlot 16 cfg ∧ h.OverlayInRange 16 s cfg)

/-- The slot that a record's id names, or a dummy's channel, is there. -/
def SlotInRange (s : Slots) (k : Key) (chn : UInt8) (rec : List UInt8) : Prop :=
  match k with
  | .dummy => chn.toNat < s.info.num → chn.toNat < 8
  | k => HasSlot (slots k) rec

/-- The records and channels that keep every index in its array. -/
def InRange (s : Slots) (k : Key) (chn : UInt8) (a : Action) (rec : List UInt8) : Prop :=
  match a with
  | .num => True
  | .cap | .get => SlotInRange s k chn rec
  | .set => SlotInRange s k chn rec ∧ (k = .frame → h.FrameInRange s rec) ∧
      (k = .osd → h.OsdInRange s rec)
  | .tgr => k = .osd → h.OsdInRange s rec

/-- The encoder that an overlay goes to is one of the board's. -/
def EncoderValid (s : Slots) (k : Key) (a : Action) (rec : List UInt8) : Prop :=
  k = .osd → a = .set ∨ a = .tgr →
    condIs "texts" (conditionOf rec) = true ∨ condIs "objs" (conditionOf rec) = true →
      HasSlot 16 rec → idOf rec < h.rgnNum →
        0 ≤ s.encoderOf rec ∧ s.encoderOf rec < h.vencNum

variable {h} {s t : Slots} {cfg : List UInt8} {n num max i : Nat} {id enable : Int}

theorem inBounds_create : Run.InBounds (create num id) ↔ 0 ≤ id := by
  rw [create]
  split_ifs with hle
  · exact iff_of_true nofun (by omega)
  · simp only [Run.inBounds_bind, Run.inBounds_index, Run.inBounds_pure, implies_true, and_true]
    omega

theorem create_eq_ok {r : Option Nat} : create num id = .ok r ↔
    (num ≤ id ∧ r = none) ∨ ∃ n : Nat, id = n ∧ n < num ∧ r = some n := by
  rw [create]
  split_ifs with hle
  · rw [Except.ok.injEq]
    constructor
    · rintro rfl
      exact .inl ⟨hle, rfl⟩
    · rintro (⟨-, rfl⟩ | ⟨n, rfl, hlt, -⟩)
      · rfl
      · omega
  · simp only [Run.bind_eq_ok, Run.index_eq_ok, Run.pure_eq_ok]
    constructor
    · rintro ⟨n, ⟨rfl, hlt⟩, rfl⟩
      exact .inr ⟨n, rfl, hlt, rfl⟩
    · rintro (⟨hge, -⟩ | ⟨n, rfl, hlt, rfl⟩)
      · exact absurd hge hle
      · exact ⟨n, ⟨rfl, hlt⟩, rfl⟩

theorem inBounds_hold : Run.InBounds (h.hold s n enable) ↔ True := by
  rw [hold]
  split_ifs <;> simp [Run.InBounds, Run.assert, bind, Except.bind]
  split_ifs <;> simp [pure, Except.pure]

theorem hold_info (ht : h.hold s n enable = .ok t) : t.info = s.info := by
  rw [hold] at ht
  split_ifs at ht
  · obtain rfl := Except.ok.inj ht
    rfl
  · obtain ⟨-, -, ht⟩ := Run.bind_eq_ok.mp ht
    obtain rfl := Run.pure_eq_ok.mp ht
    rfl
  · obtain rfl := Except.ok.inj ht
    rfl

theorem hold_opens : (∃ t, h.hold s n enable = .ok t) ↔ h.Opens s n enable := by
  rw [hold, Opens]
  split_ifs with he hheld
  · simp [hheld]
  · simp [he, hheld]
  · simp [he]

theorem inBounds_drawFrom : Run.InBounds (drawFrom max i num) ↔ num = 0 ∨ i + num ≤ max := by
  induction num generalizing i with
  | zero => simp [drawFrom, Run.InBounds]
  | succ num ih =>
    simp only [drawFrom, Run.inBounds_bind, Run.inBounds_index, Run.index_eq_ok, ih]
    constructor
    · rintro ⟨⟨-, hlt⟩, hrest⟩
      have := hrest i ⟨rfl, by omega⟩
      omega
    · intro hle
      refine ⟨by omega, ?_⟩
      intro n hn
      omega

theorem inBounds_create_bind {α : Type} {f : Option Nat → Run α} (hf : Run.InBounds (f none)) :
    Run.InBounds (create num id >>= f) ↔
      0 ≤ id ∧ (id < num → Run.InBounds (f (some id.toNat))) := by
  rw [Run.inBounds_bind, inBounds_create]
  refine and_congr_right fun hid => ?_
  constructor
  · intro hall hlt
    exact hall _ (create_eq_ok.mpr (.inr ⟨id.toNat, by omega, by omega, rfl⟩))
  · intro hsome r hr
    rcases create_eq_ok.mp hr with ⟨-, rfl⟩ | ⟨n, rfl, hlt, rfl⟩
    · exact hf
    · exact hsome (by omega)

theorem inBounds_frameSet :
    Run.InBounds (h.frameSet s cfg) ↔ HasSlot 8 cfg ∧ h.FrameInRange s cfg := by
  rw [frameSet, Run.inBounds_index_bind]
  refine and_congr_right fun hslot => ?_
  rw [Run.inBounds_bind, inBounds_hold, true_and, FrameInRange, ← hold_opens, forall_exists_index]
  refine forall_congr' fun t => imp_congr_right fun ht => ?_
  have hcap : t.capOf cfg = s.capOf cfg := by
    rw [Slots.capOf, hold_info ht, Slots.capOf]
  rw [inBounds_create_bind (by simp), hcap]
  simp

theorem inBounds_streamSet : Run.InBounds (h.streamSet s cfg) ↔ HasSlot 6 cfg := by
  simp only [streamSet, Run.inBounds_bind, Run.inBounds_index, Run.index_eq_ok, inBounds_hold,
    inBounds_create, Run.inBounds_pure, true_and, implies_true, and_true]
  constructor
  · intro hall
    exact hall.1
  · intro hslot
    exact ⟨hslot, fun _ _ _ _ => hslot.1⟩

theorem inBounds_svrSet : Run.InBounds (h.svrSet s cfg) ↔ HasSlot 1 cfg := by
  simp only [svrSet, Run.inBounds_bind, Run.inBounds_index, inBounds_hold, Run.inBounds_pure,
    implies_true, and_true]
  rfl

theorem inBounds_algSet : Run.InBounds (h.algSet s cfg) ↔ (word cfg 4 = 0 → HasSlot 3 cfg) := by
  rw [algSet]
  by_cases htype : word cfg 4 = 0
  · rw [if_pos htype]
    simp only [Run.inBounds_bind, Run.inBounds_index, htype, true_imp_iff]
    refine and_iff_left ?_
    intro n hn
    by_cases hon : word cfg 8 = 0 <;> simp [hon]
  · rw [if_neg htype]
    simp only [Run.inBounds_ok, htype, false_imp_iff]

theorem inBounds_cover :
    Run.InBounds (h.cover s cfg) ↔ HasSlot 16 cfg ∧ h.CoverInRange s cfg := by
  rw [cover, Run.inBounds_index_bind]
  refine and_congr_right fun hslot => ?_
  rw [inBounds_create_bind (by simp), and_iff_right hslot.1, CoverInRange]
  simp

theorem inBounds_overlay : Run.InBounds (h.overlay max s cfg) ↔ HasSlot 16 cfg ∧
    (idOf cfg < h.rgnNum → (0 ≤ s.encoderOf cfg ∧ s.encoderOf cfg < h.vencMax) ∧
      (h.vencAttr (s.encoderOf cfg) = true → uword cfg 40 ≤ max)) := by
  have hdraw : ∀ num, Run.InBounds (drawFrom max 0 num) ↔ num ≤ max := by
    intro num
    rw [inBounds_drawFrom]
    omega
  rw [overlay, Run.inBounds_index_bind]
  refine and_congr_right fun hslot => ?_
  rw [inBounds_create_bind (by simp), and_iff_right hslot.1]
  refine imp_congr_right fun hlt => ?_
  rw [Run.inBounds_index_bind]
  simp [hdraw]

/-- A record has one condition at most. -/
theorem condition_of_mask {c : List UInt8} (hc : condIs "mask" c = true) :
    condIs "texts" c = false ∧ condIs "objs" c = false := by
  have hno := @condIs_unique _ ["texts", "objs"] _ (by decide) (by decide) hc
  exact ⟨hno _ (by simp), hno _ (by simp)⟩

theorem condition_of_texts {c : List UInt8} (hc : condIs "texts" c = true) :
    condIs "objs" c = false := by
  have hno := @condIs_unique _ ["objs"] _ (by decide) (by decide) hc
  exact hno _ (by simp)

/-- An overlay keeps its indexes and goes to an encoder of the board. -/
theorem overlay_valid_iff : Run.InBounds (h.overlay max s cfg) ∧
    (HasSlot 16 cfg → idOf cfg < h.rgnNum →
      0 ≤ s.encoderOf cfg ∧ s.encoderOf cfg < h.vencNum) ↔
    HasSlot 16 cfg ∧ h.OverlayInRange max s cfg := by
  have hle := h.venc_le
  rw [inBounds_overlay, OverlayInRange]
  constructor
  · rintro ⟨⟨hslot, hbounds⟩, hvalid⟩
    exact ⟨hslot, fun hlt => ⟨hvalid hslot hlt, (hbounds hlt).2⟩⟩
  · rintro ⟨hslot, hover⟩
    refine ⟨⟨hslot, ?_⟩, fun _ hlt => (hover hlt).1⟩
    intro hlt
    obtain ⟨hvalid, hnum⟩ := hover hlt
    exact ⟨⟨hvalid.1, by omega⟩, hnum⟩

theorem osd_valid_iff : Run.InBounds (h.osdCtrl s cfg) ∧
    (condIs "texts" (conditionOf cfg) = true ∨ condIs "objs" (conditionOf cfg) = true →
      HasSlot 16 cfg → idOf cfg < h.rgnNum →
        0 ≤ s.encoderOf cfg ∧ s.encoderOf cfg < h.vencNum) ↔ h.OsdInRange s cfg := by
  rw [osdCtrl, OsdInRange]
  by_cases hmask : condIs "mask" (conditionOf cfg) = true
  · obtain ⟨htexts, hobjs⟩ := condition_of_mask hmask
    simp [hmask, htexts, hobjs, inBounds_cover]
  by_cases htexts : condIs "texts" (conditionOf cfg) = true
  · have hobjs := condition_of_texts htexts
    simp [hmask, htexts, hobjs, overlay_valid_iff]
  by_cases hobjs : condIs "objs" (conditionOf cfg) = true
  · simp [hmask, htexts, hobjs, overlay_valid_iff]
  · simp [hmask, htexts, hobjs]

/-- Without an overlay nothing is done. -/
theorem osdCtrl_unused (hmask : ¬ condIs "mask" (conditionOf cfg) = true)
    (htexts : ¬ condIs "texts" (conditionOf cfg) = true)
    (hobjs : ¬ condIs "objs" (conditionOf cfg) = true) : h.osdCtrl s cfg = .ok (s, 0) := by
  simp [osdCtrl, hmask, htexts, hobjs]

section Manager

variable {cfgRec capRec : Record} {set : Slots → List UInt8 → Run (Slots × Int)}
  {tgr : Option (Slots → List UInt8 → Run (Slots × Int))} {rec : List UInt8} {k : Key}
  {a : Action} {chn : UInt8}

theorem inBounds_manager_get :
    Run.InBounds ((manager cfgRec capRec max set tgr).call .get s rec) ↔ HasSlot max rec := by
  simp only [Ops.call, manager, Slots.get, Run.inBounds_bind, Run.inBounds_index,
    Run.inBounds_pure, Run.inBounds_assert, implies_true, and_true]
  rfl

theorem inBounds_manager_cap :
    Run.InBounds ((manager cfgRec capRec max set tgr).call .cap s rec) ↔ HasSlot max rec := by
  simp only [Ops.call, manager, Slots.cap, Run.inBounds_bind, Run.inBounds_index,
    Run.inBounds_pure, Run.inBounds_assert, implies_true, and_true]
  rfl

/-- A record that the manager takes is put into its slot. -/
theorem inBounds_manager_set :
    Run.InBounds ((manager cfgRec capRec max set tgr).call .set s rec) ↔
      Run.InBounds (set s rec) ∧ ∀ t, set s rec = .ok (t, 0) → HasSlot max rec := by
  simp only [Ops.call, manager, Slots.put, Run.inBounds_bind, Run.inBounds_index,
    Run.inBounds_pure, Run.inBounds_assert, Run.assert_eq_ok, implies_true, and_true, true_and]
  refine and_congr_right fun _ => ?_
  constructor
  · intro hput t ht
    exact hput (t, 0) ht () rfl
  · rintro hput ⟨t, ret⟩ ht - rfl
    exact hput t ht

theorem inBounds_manager_tgr {f : Slots → List UInt8 → Run (Slots × Int)} :
    Run.InBounds ((manager cfgRec capRec max set (some f)).call .tgr s rec) ↔
      Run.InBounds (f s rec) := by
  simp only [Ops.call, manager, Run.inBounds_bind, Run.inBounds_pure, Run.inBounds_assert,
    implies_true, and_true]

theorem inBounds_dummy : Run.InBounds (s.dummy chn) ↔
    ((chn.toNat : Int) < s.info.num → chn.toNat < 8) := by
  simp only [Slots.dummy, Run.inBounds_bind, Run.inBounds_assert, Run.assert_eq_ok,
    Run.inBounds_index, true_and]
  constructor
  · intro hall hlt
    exact Int.ofNat_lt.mp (hall () hlt).2
  · intro hall _ hlt
    exact ⟨by omega, Int.ofNat_lt.mpr (hall hlt)⟩

theorem inBounds_dummy_call (ha : a = .cap ∨ a = .get ∨ a = .set) :
    Run.InBounds ((dummyManager chn).call a s rec) ↔
      ((chn.toNat : Int) < s.info.num → chn.toNat < 8) := by
  rw [← inBounds_dummy]
  rcases ha with rfl | rfl | rfl
  · simp only [Ops.call, dummyManager, Run.inBounds_bind, Run.inBounds_pure, Run.inBounds_assert,
      implies_true, and_true]
  · simp only [Ops.call, dummyManager, Run.inBounds_bind, Run.inBounds_pure, Run.inBounds_assert,
      implies_true, and_true]
  · simp only [Ops.call, dummyManager, Run.inBounds_bind, Run.inBounds_pure, Run.inBounds_assert,
      Run.inBounds_index, implies_true, and_true]
    refine and_iff_left ?_
    intro r hr
    refine ⟨trivial, fun _ _ => ?_⟩
    obtain ⟨n, hn, -⟩ := Run.bind_eq_ok.mp hr
    simp only [Slots.dummy, Run.bind_eq_ok, Run.index_eq_ok] at hn
    obtain ⟨-, -, hid, hlt⟩ := hn
    omega

theorem osd_set_valid_iff : (Run.InBounds (h.osdCtrl s rec) ∧
      ∀ t, h.osdCtrl s rec = .ok (t, 0) → HasSlot 16 rec) ∧
    (condIs "texts" (conditionOf rec) = true ∨ condIs "objs" (conditionOf rec) = true →
      HasSlot 16 rec → idOf rec < h.rgnNum →
        0 ≤ s.encoderOf rec ∧ s.encoderOf rec < h.vencNum) ↔
    HasSlot 16 rec ∧ h.OsdInRange s rec := by
  rw [and_right_comm, osd_valid_iff, and_comm]
  refine and_congr_left fun hosd => ?_
  constructor
  · intro hput
    by_cases hmask : condIs "mask" (conditionOf rec) = true
    · exact (hosd.1 hmask).1
    by_cases htexts : condIs "texts" (conditionOf rec) = true
    · exact (hosd.2.1 htexts).1
    by_cases hobjs : condIs "objs" (conditionOf rec) = true
    · exact (hosd.2.2 hobjs).1
    · exact hput s (osdCtrl_unused hmask htexts hobjs)
  · intro hslot _ _
    exact hslot

/-- Only an OSD's record says which encoder it goes to. -/
theorem encoderValid_of_ne (hk : k ≠ .osd) : h.EncoderValid s k a rec := fun he => absurd he hk

/-- The calls that keep to the arrays and the encoders, by what the record says. -/
theorem call_valid_iff (hk : a = .tgr → k = .osd) :
    Run.InBounds ((h.ops k chn).call a s rec) ∧ h.EncoderValid s k a rec ↔
      h.InRange s k chn a rec := by
  cases a with
  | num =>
    refine iff_of_true ⟨?_, ?_⟩ trivial
    · cases k <;> simp [ops, manager, dummyManager, Ops.call]
    · intro _ ha
      simp at ha
  | cap =>
    rw [and_iff_left (by intro _ ha; simp at ha)]
    cases k with
    | dummy => exact inBounds_dummy_call (.inl rfl)
    | _ => exact inBounds_manager_cap
  | get =>
    rw [and_iff_left (by intro _ ha; simp at ha)]
    cases k with
    | dummy => exact inBounds_dummy_call (.inr (.inl rfl))
    | _ => exact inBounds_manager_get
  | set =>
    cases k with
    | dummy =>
      rw [and_iff_left (encoderValid_of_ne (by decide)), ops,
        inBounds_dummy_call (.inr (.inr rfl))]
      simp only [InRange, SlotInRange, reduceCtorEq, false_imp_iff, and_true]
    | frame =>
      rw [and_iff_left (encoderValid_of_ne (by decide)), ops, inBounds_manager_set,
        inBounds_frameSet]
      simp only [InRange, SlotInRange, slots, true_imp_iff, reduceCtorEq, false_imp_iff, and_true]
      exact and_iff_left_of_imp fun hall _ _ => hall.1
    | stream =>
      rw [and_iff_left (encoderValid_of_ne (by decide)), ops, inBounds_manager_set,
        inBounds_streamSet]
      simp only [InRange, SlotInRange, slots, reduceCtorEq, false_imp_iff, and_true]
      exact and_iff_left_of_imp fun hslot _ _ => hslot
    | osd =>
      rw [ops, inBounds_manager_set]
      simp only [EncoderValid, InRange, SlotInRange, slots, true_imp_iff, true_or, reduceCtorEq,
        false_imp_iff, true_and]
      exact osd_set_valid_iff
    | rtspSvr | webSvr =>
      rw [and_iff_left (encoderValid_of_ne (by decide)), ops, inBounds_manager_set,
        inBounds_svrSet]
      simp only [InRange, SlotInRange, slots, reduceCtorEq, false_imp_iff, and_true]
      exact and_iff_left_of_imp fun hslot _ _ => hslot
    | alg =>
      rw [and_iff_left (encoderValid_of_ne (by decide)), ops, inBounds_manager_set,
        inBounds_algSet]
      simp only [InRange, SlotInRange, slots, reduceCtorEq, false_imp_iff, and_true]
      constructor
      · rintro ⟨htype, hput⟩
        by_cases hfr : word rec 4 = 0
        · exact htype hfr
        · exact hput s (by rw [algSet, if_neg hfr])
      · intro hslot
        exact ⟨fun _ => hslot, fun _ _ => hslot⟩
  | tgr =>
    obtain rfl := hk rfl
    rw [ops, inBounds_manager_tgr]
    simp only [EncoderValid, InRange, true_imp_iff, or_true]
    exact osd_valid_iff

end Manager

end Hal

section

open Proto (Server Header dataOffset packageMaxsize sampleHal sampleServer sampleSlots
  sampleRequest)

/-- The id that a record is looked up or stored by is one of the manager's, and its arrays hold as
many; a trigger looks one up for an overlay. -/
def SlotValid (s : Slots) (k : Key) (a : Action) (rec : List UInt8) : Prop :=
  let slot := 0 ≤ idOf rec ∧ idOf rec < s.info.num ∧ s.info.num ≤ slots k
  match a with
  | .num => True
  | .cap | .get | .set => k ≠ .dummy → slot
  | .tgr => (∃ name ∈ ["mask", "texts", "objs"], condIs name (conditionOf rec) = true) → slot

/-- Whatever the stack held, a request for a key's manager keeps to the arrays, to the manager's
slots and to the board's encoders, or it is refused. -/
def FieldSafe (h : Hal) (v : Server State) (s : State) (inp : List UInt8) (k : Key) (a : Action) :
    Prop :=
  let m := among k (h.ops k (Header.read inp).chn)
  ∀ stack obuf now, stack.length = 428 → obuf.length = packageMaxsize →
    (Run.InBounds (m.call a s (v.decoded inp (m.record a).ty stack)) ∧
      SlotValid (s k) k a (v.decoded inp (m.record a).ty stack) ∧
      h.EncoderValid (s k) k a (v.decoded inp (m.record a).ty stack)) ∨
    ∃ t r, v.msgboxDoHandler s inp stack obuf now = .ok (t, r) ∧ r.header.errcode ≠ 0 ∧ t = s

variable {h : Hal} {v : Server State} {s : State} {inp : List UInt8} {k : Key} {a : Action}

theorem inBounds_among {m : Ops Slots} {rec : List UInt8} :
    Run.InBounds ((among k m).call a s rec) ↔ Run.InBounds (m.call a (s k) rec) := by
  rw [call_among, Run.inBounds_map]

/-- Only the overlays have a trigger. -/
theorem osd_of_tgr {chn : UInt8} (hm : (among k (h.ops k chn)).tgr.isSome) : k = .osd := by
  cases k with
  | osd => rfl
  | _ => simp [among, Hal.ops, manager, dummyManager] at hm

/-- Nothing is refused: a request is safe exactly when its record says nothing else. -/
theorem field_safe_iff
    (w : v.WellFormed inp (among k (h.ops k (Header.read inp).chn)) a) :
    FieldSafe h v s inp k a ↔ ∀ stack, stack.length = 428 →
      let cfg := v.decoded inp ((h.ops k (Header.read inp).chn).record a).ty stack
      SlotValid (s k) k a cfg ∧ h.InRange (s k) k (Header.read inp).chn a cfg := by
  have hvalid : ∀ rec, (Run.InBounds ((among k (h.ops k (Header.read inp).chn)).call a s rec) ∧
      SlotValid (s k) k a rec ∧ h.EncoderValid (s k) k a rec) ↔
      SlotValid (s k) k a rec ∧ h.InRange (s k) k (Header.read inp).chn a rec := by
    intro rec
    rw [inBounds_among, and_left_comm, Hal.call_valid_iff fun ha => osd_of_tgr (w.known ha)]
  have hrec : ((among k (h.ops k (Header.read inp).chn)).record a).ty =
      ((h.ops k (Header.read inp).chn).record a).ty := by
    cases a <;> rfl
  constructor
  · intro hsafe stack hstack
    rcases hsafe stack (List.replicate packageMaxsize 0) 0 hstack List.length_replicate with
      hok | ⟨t, r, hok, herr, -⟩
    · rw [← hrec]
      exact (hvalid _).mp hok
    · exact absurd (Server.errcode_eq_zero hok) herr
  · intro hall stack obuf now hstack _
    left
    rw [hrec]
    exact (hvalid _).mpr (hall stack hstack)

/-- A request for the configuration of the stream that four bytes name. -/
def getStream (b : UInt8) : List UInt8 :=
  sampleRequest 2 (List.replicate 4 b ++ List.replicate 20 0)

theorem getStream_wellFormed {b : UInt8} : sampleServer.WellFormed (getStream b)
    (among .stream (sampleHal.ops .stream (Header.read (getStream b)).chn)) .get := by
  have hlen : (getStream b).length = 64 := rfl
  have hkey : (Header.read (getStream b)).key = 2 := rfl
  have hdata : (List.replicate 4 b ++ List.replicate 20 0).length = 24 := rfl
  have hsize : (Header.read (getStream b)).size = 24 := by
    rw [getStream, sampleRequest, hdata]
    rfl
  refine ⟨?_, ?_, ⟨_, rfl, rfl⟩, rfl, nofun, .inl ⟨rfl, ?_, ?_⟩⟩
  · rw [hlen]
    decide
  · rw [hkey]
    decide
  · rw [hsize]
    exact show 24 = Record.streamCfg.ty.size by decide
  · rw [List.length_drop, hlen]
    exact show Record.streamCfg.ty.size ≤ 64 - dataOffset by decide

theorem getStream_decoded {b : UInt8} {t : Ty} {stack : List UInt8} :
    sampleServer.decoded (getStream b) t stack =
      (List.replicate 4 b ++ List.replicate 22 0).take t.size := rfl

/-- The configuration of the first stream. -/
theorem field_safe_get :
    FieldSafe sampleHal sampleServer (fun _ => sampleSlots) (getStream 0) .stream .get := by
  refine (field_safe_iff getStream_wellFormed).mpr ?_
  have hfirst : ∀ cfg chn, idOf cfg = 0 → SlotValid sampleSlots .stream .get cfg ∧
      sampleHal.InRange sampleSlots .stream chn .get cfg := by
    intro cfg chn hid
    simp only [SlotValid, Hal.InRange, Hal.SlotInRange, HasSlot, hid]
    decide
  intro stack _
  rw [getStream_decoded]
  exact hfirst _ _ (by decide)

/-- The configuration of the stream before the first. -/
theorem get_before_first : ¬ ∀ (h : Hal) (v : Server State) (s : State) (inp : List UInt8) (k : Key)
    (a : Action), v.WellFormed inp (among k (h.ops k (Header.read inp).chn)) a →
      FieldSafe h v s inp k a := by
  intro hall
  have hsafe := hall sampleHal sampleServer (fun _ => sampleSlots) (getStream 255) .stream .get
    getStream_wellFormed
  rcases hsafe (List.replicate 428 0) (List.replicate packageMaxsize 0) 0 List.length_replicate
    List.length_replicate with ⟨-, hslot, -⟩ | ⟨t, r, hok, herr, -⟩
  · rw [getStream_decoded] at hslot
    exact absurd (hslot (by decide)).1 (by decide)
  · exact absurd (Server.errcode_eq_zero hok) herr

end

end Freak.Manager
