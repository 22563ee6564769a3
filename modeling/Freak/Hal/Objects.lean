import Freak.Lib.Registry
import Freak.Vsf.Rgn

/-! The objects of the hardware layers, one for an id: `dummy.c` of `bsp`, and `venc.c`, `vpss.c`
and `rgn.c` of `vsf-hi3516d`. -/
namespace Freak.Hal

open Lts

/-- `BSP_ITEM_MAX`. -/
def bspItemMax : Nat := 8

/-- What the constructors read of the two configurations, and the regions that the SDK has. -/
structure Cfg where
  dummyNum : Nat
  s32VencNum : Nat
  as32VencId : List Int
  s32VpssNum : Nat
  as32VpssId : List Int
  rgnHandleMax : Nat

/-- `priv` of an object. A pointer into the configuration is the index of its entry. -/
inductive Priv
  | dummy (id cap cfg : Nat)
  | venc (virtid : Nat) (phyid : Int) (info : Nat)
  | vpss (virtid : Nat) (phyid : Int) (info : Nat)
  | rgn (id : Nat) (status : Vsf.RgnStatus)

/-- `id`, or `virtid`. -/
def Priv.key : Priv → Nat
  | .dummy id _ _ => id
  | .venc virtid _ _ => virtid
  | .vpss virtid _ _ => virtid
  | .rgn id _ => id

def newDummy (id : Nat) : Priv := .dummy id id id

def newVenc (c : Cfg) (id : Nat) : Priv := .venc id (c.as32VencId.getD id 0) id

def newVpss (c : Cfg) (id : Nat) : Priv := .vpss id (c.as32VpssId.getD id 0) id

def newRgn (id : Nat) : Priv := .rgn id .none

/-- A constructor: `none` inside for `NULL`, and no result where an id that is in range is past
the end of the arrays. -/
def createAt (num size : Nat) (new : Nat → Priv) (id : Nat) (r : Registry Priv) :
    Option (Option Nat × Registry Priv) :=
  if num ≤ id then some (none, r)
  else if size ≤ id then none
  else some (some (r.create new id).1, (r.create new id).2)

def bspCreateDummy (c : Cfg) := createAt c.dummyNum bspItemMax newDummy

def vsfCreateVenc (c : Cfg) := createAt c.s32VencNum c.as32VencId.length (newVenc c)

def vsfCreateVpss (c : Cfg) := createAt c.s32VpssNum c.as32VpssId.length (newVpss c)

/-- `mod->objs` has the entries that it is asked for. -/
def vsfCreateRgn (c : Cfg) := createAt c.rgnHandleMax c.rgnHandleMax newRgn

/-- It frees the object, and leaves `s_dummy_obj` as it is. -/
def bspDummyDestroy (o : Nat) (_ : Priv) (r : Registry Priv) : Registry Priv := r.free o

def vencDestroy : Nat → Priv → Registry Priv → Registry Priv := Registry.drop Priv.key

def vpssDestroy : Nat → Priv → Registry Priv → Registry Priv := Registry.drop Priv.key

def rgnDestroy : Nat → Priv → Registry Priv → Registry Priv := Registry.drop Priv.key

inductive Kind
  | dummy
  | venc
  | vpss
  | rgn
deriving DecidableEq

namespace Kind

variable (c : Cfg)

def num : Kind → Nat
  | dummy => c.dummyNum
  | venc => c.s32VencNum
  | vpss => c.s32VpssNum
  | rgn => c.rgnHandleMax

/-- The entries of the shortest array that the constructor indexes. -/
def size : Kind → Nat
  | dummy => bspItemMax
  | venc => c.as32VencId.length
  | vpss => c.as32VpssId.length
  | rgn => c.rgnHandleMax

def new : Kind → Nat → Priv
  | dummy => newDummy
  | venc => newVenc c
  | vpss => newVpss c
  | rgn => newRgn

def create : Kind → Nat → Registry Priv → Option (Option Nat × Registry Priv)
  | dummy => bspCreateDummy c
  | venc => vsfCreateVenc c
  | vpss => vsfCreateVpss c
  | rgn => vsfCreateRgn c

def destroy : Kind → Nat → Priv → Registry Priv → Registry Priv
  | dummy => bspDummyDestroy
  | venc => vencDestroy
  | vpss => vpssDestroy
  | rgn => rgnDestroy

/-- The calls of one registry: a create that returns an object, and a destroy of one that is
alive. -/
inductive Step (k : Kind) : Registry Priv → Registry.Action → Registry Priv → Prop
  | create {r t : Registry Priv} {id o : Nat} (h : k.create c id r = some (some o, t)) :
      Step k r (.create id o) t
  | destroy {r : Registry Priv} {o : Nat} {p : Priv} (ho : r.heap o = some p) :
      Step k r (.destroy o) (k.destroy o p r)

end Kind

/-- A slot is `NULL` or has an object that is alive and was made for the id; a create for an id in
range returns an object that is alive and was made for it, and the same again until that object is
destroyed. -/
structure Sound (c : Cfg) (k : Kind) (r : Registry Priv) : Prop where
  slots : ∀ id o, r.slots id = some o → r.heap o = some (k.new c id)
  alive : ∀ id < k.num c, ∃ o t, k.create c id r = some (some o, t) ∧
    t.heap o = some (k.new c id)
  same : ∀ id < k.num c, ∀ {o t acts t'}, k.create c id r = some (some o, t) →
    MTr (k.Step c) t acts t' → .destroy o ∉ acts → ∃ t'', k.create c id t' = some (some o, t'')

/-- Before the first call. -/
def start : Kind → Registry Priv := fun _ => .empty

variable {c : Cfg} {k : Kind} {id o : Nat} {r t : Registry Priv} {a : Registry.Action}
  {acts : List Registry.Action}

theorem key_new (k : Kind) (id : Nat) : (k.new c id).key = id := by cases k <;> rfl

theorem create_eq : k.create c id r = createAt (k.num c) (k.size c) (k.new c) id r := by
  cases k <;> rfl

theorem create_eq_some : k.create c id r = some (some o, t) ↔
    id < min (k.num c) (k.size c) ∧ r.create (k.new c) id = (o, t) := by
  rw [create_eq, createAt, lt_min_iff]
  split_ifs with hnum hsize
  · simp [hnum]
  · simp [hsize]
  · simp [not_le.mp hnum, not_le.mp hsize, Prod.ext_iff]

/-- The calls are those of a table of objects. -/
theorem step_iff : k.Step c r a t ↔
    Registry.Step (min (k.num c) (k.size c)) (k.new c) k.destroy r a t := by
  constructor
  · intro h
    cases h with
    | create h =>
      obtain ⟨hid, h⟩ := create_eq_some.mp h
      obtain ⟨rfl, rfl⟩ := Prod.mk.inj h
      exact .create hid
    | destroy ho => exact .destroy ho
  · intro h
    cases h with
    | create hid => exact .create (create_eq_some.mpr ⟨hid, rfl⟩)
    | destroy ho => exact .destroy ho

theorem mtr_iff : MTr (k.Step c) r acts t ↔
    MTr (Registry.Step (min (k.num c) (k.size c)) (k.new c) k.destroy) r acts t := by
  have h : k.Step c = Registry.Step (min (k.num c) (k.size c)) (k.new c) k.destroy := by
    funext r a t
    exact propext step_iff
  rw [h]

theorem keeps_destroy (n : Nat) (k : Kind) : Registry.Keeps n (k.new c) k.destroy := by
  cases k with
  | dummy => exact Registry.keeps_strand
  | venc => exact Registry.keeps_drop (key_new .venc)
  | vpss => exact Registry.keeps_drop (key_new .vpss)
  | rgn => exact Registry.keeps_drop (key_new .rgn)

/-- Three of the destructors leave nothing dead in a slot; the fourth does whenever it runs. -/
theorem live_iff (h : MTr (k.Step c) .empty acts r) :
    Registry.Live (k.new c) r ↔ (k = .dummy → ∀ o, .destroy o ∉ acts) := by
  rw [mtr_iff] at h
  cases k with
  | dummy =>
    rw [Registry.live_run_strand h Registry.inv_empty Registry.live_empty]
    exact ⟨fun h _ => h, fun h => h rfl⟩
  | venc => exact iff_of_true (Registry.live_run_drop (key_new .venc) h) nofun
  | vpss => exact iff_of_true (Registry.live_run_drop (key_new .vpss) h) nofun
  | rgn => exact iff_of_true (Registry.live_run_drop (key_new .rgn) h) nofun

theorem sound_of_live (hsize : k.num c ≤ k.size c)
    (hr : Registry.Inv (k.num c) (k.new c) r) (hl : Registry.Live (k.new c) r) :
    Sound c k r := by
  have hmin {id : Nat} (hid : id < k.num c) : id < min (k.num c) (k.size c) :=
    lt_min hid (hid.trans_le hsize)
  refine ⟨hl, fun id hid => ?_, fun id hid {o t acts t'} ht h hno => ?_⟩
  · refine ⟨_, _, create_eq_some.mpr ⟨hmin hid, rfl⟩, ?_⟩
    exact Registry.live_create hr hl id _ Registry.slots_create
  · obtain ⟨-, ht⟩ := create_eq_some.mp ht
    obtain ⟨rfl, rfl⟩ := Prod.mk.inj ht
    rw [mtr_iff, min_eq_left hsize] at h
    have hslot := Registry.slots_run (keeps_destroy _ k) h (Registry.inv_create hr hid)
      Registry.slots_create hno
    exact ⟨t', create_eq_some.mpr ⟨hmin hid, Registry.create_of_some hslot⟩⟩

theorem sound_iff (h : MTr (k.Step c) .empty acts r) : Sound c k r ↔
    k.num c ≤ k.size c ∧ (k = .dummy → ∀ o, .destroy o ∉ acts) := by
  rw [← live_iff h]
  constructor
  · refine fun hs => ⟨not_lt.mp fun hlt => ?_, hs.slots⟩
    obtain ⟨o, t, ht, -⟩ := hs.alive _ hlt
    exact absurd (create_eq_some.mp ht).1 (by omega)
  · rintro ⟨hsize, hl⟩
    rw [mtr_iff] at h
    refine sound_of_live hsize ?_ hl
    have hr := Registry.inv_run (keeps_destroy _ k) h
    rwa [min_eq_left hsize] at hr

/-- However the calls on the four registries are interleaved, all of them are sound exactly when
the counts are within the arrays and no dummy has been destroyed. -/
theorem registries_sound_iff {acts : List (Kind × Registry.Action)} {s : Kind → Registry Priv}
    (h : MTr (Side (Kind.Step c)) start acts s) : (∀ k, Sound c k (s k)) ↔
      (∀ k : Kind, k.num c ≤ k.size c) ∧ ∀ o, (.dummy, .destroy o) ∉ acts := by
  have hsound (k : Kind) := sound_iff (mtr_own h k)
  simp only [hsound, forall_and, mem_own, forall_eq]

/-- Two dummies, three encoders, one VPSS group, and a few regions. -/
def smallCfg : Cfg := ⟨2, 3, [0, 1, 2], 1, [0], 8⟩

/-- An encoder is made anew after it is destroyed, beside a dummy that stays. -/
theorem registries_sound_renewed : ∃ acts s, MTr (Side (Kind.Step smallCfg)) start acts s ∧
    (.venc, .destroy 0) ∈ acts ∧ ∀ k, Sound smallCfg k (s k) := by
  have h : MTr (Side (Kind.Step smallCfg)) start [(.venc, .create 0 0), (.venc, .destroy 0),
      (.venc, .create 0 1), (.dummy, .create 1 0)] _ :=
    .stepL (.mk (.create rfl)) (.stepL (.mk (.destroy (p := newVenc smallCfg 0) rfl))
      (.stepL (.mk (.create rfl)) (.stepL (.mk (.create rfl)) .refl)))
  refine ⟨_, _, h, by simp, (registries_sound_iff h).mpr ⟨fun k => ?_, by simp⟩⟩
  cases k <;> decide

/-- A dummy is asked for, destroyed, and asked for again: the one that is gone is returned. -/
theorem registries_sound_not : ∃ acts s, MTr (Side (Kind.Step smallCfg)) start acts s ∧
    Kind.dummy.create smallCfg 0 (s .dummy) = some (some 0, s .dummy) ∧
    (s .dummy).heap 0 = none ∧ ¬ Sound smallCfg .dummy (s .dummy) := by
  refine ⟨[(.dummy, .create 0 0), (.dummy, .destroy 0)], _,
    .stepL (.mk (.create rfl)) (.stepL (.mk (.destroy (p := newDummy 0) rfl)) .refl), rfl, rfl, ?_⟩
  intro hs
  cases hs.slots 0 0 rfl

end Freak.Hal
