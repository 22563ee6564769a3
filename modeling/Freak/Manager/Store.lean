import Freak.Lib.Lts

/-! A module's stored records and the message handlers over them: `msgbox_*.c`, `*_mgr.c`. -/
namespace Freak.Manager

open Lts

/-- `proto_*_t`. -/
structure Info (ρ κ : Type) where
  num : Int
  caps : Nat → κ
  cfgs : Nat → ρ

/-- A manager: its records' ids, and what it does to its device with one; `none` is a failed
assertion. -/
structure Mgr (σ ρ κ : Type) where
  id : ρ → Int
  capId : κ → Int
  blank : Int → ρ
  id_blank : ∀ i, id (blank i) = i
  set : σ → ρ → Option (σ × Int)
  tgr : Option (σ → ρ → Option (σ × Int))

structure Store (σ ρ κ : Type) where
  dev : σ
  info : Info ρ κ

inductive Request (ρ κ : Type)
  | set (cfg : ρ)
  | get (cfg : ρ)
  | cap (cap : κ)
  | num
  | tgr (cfg : ρ)

inductive Reply (ρ κ : Type)
  | cfg (cfg : ρ)
  | cap (cap : κ)
  | num (num : Int)

variable {σ ρ κ : Type}

def Info.get (f : Info ρ κ) (i : Int) : ρ := f.cfgs i.toNat

def Info.cap (f : Info ρ κ) (i : Int) : κ := f.caps i.toNat

/-- `cfgs[cfg.id] = cfg`. -/
def Info.put (f : Info ρ κ) (i : Int) (cfg : ρ) : Info ρ κ :=
  { f with cfgs := Function.update f.cfgs i.toNat cfg }

/-- `msgbox_*_num`. -/
def msgboxNum (s : Store σ ρ κ) : Option (Store σ ρ κ × Int) :=
  if 0 ≤ s.info.num then some (s, s.info.num) else none

namespace Mgr

variable (m : Mgr σ ρ κ)

/-- `msgbox_*_set`. -/
def msgboxSet (s : Store σ ρ κ) (cfg : ρ) : Option (Store σ ρ κ × ρ) :=
  match m.set s.dev cfg with
  | none => none
  | some (dev, ret) => if ret = 0 then some (⟨dev, s.info.put (m.id cfg) cfg⟩, cfg) else none

/-- `msgbox_*_get`. -/
def msgboxGet (s : Store σ ρ κ) (cfg : ρ) : Store σ ρ κ × ρ := (s, s.info.get (m.id cfg))

/-- `msgbox_*_cap`. -/
def msgboxCap (s : Store σ ρ κ) (cap : κ) : Store σ ρ κ × κ := (s, s.info.cap (m.capId cap))

/-- `msgbox_osd_tgr`; the other modules have none. -/
def msgboxTgr (s : Store σ ρ κ) (cfg : ρ) : Option (Store σ ρ κ × ρ) :=
  match m.tgr with
  | none => none
  | some tgr =>
    match tgr s.dev cfg with
    | none => none
    | some (dev, ret) => if ret = 0 then some ({ s with dev := dev }, cfg) else none

/-- `msgbox_vsf_osd` and its siblings. -/
def msgbox (s : Store σ ρ κ) : Request ρ κ → Option (Store σ ρ κ × Reply ρ κ)
  | .set cfg => (m.msgboxSet s cfg).map fun (s, cfg) => (s, .cfg cfg)
  | .get cfg => let (s, cfg) := m.msgboxGet s cfg; some (s, .cfg cfg)
  | .cap cap => let (s, cap) := m.msgboxCap s cap; some (s, .cap cap)
  | .num => (msgboxNum s).map fun (s, num) => (s, .num num)
  | .tgr cfg => (m.msgboxTgr s cfg).map fun (s, cfg) => (s, .cfg cfg)

/-- One round of the loop in `main`. -/
def restart (s : Store σ ρ κ) (i : Nat) : Option (Store σ ρ κ) :=
  match m.msgboxGet s (m.blank i) with
  | (s, cfg) => (m.msgboxSet s cfg).map Prod.fst

/-- The loop that sets again every record a module has stored. -/
def startup (s : Store σ ρ κ) : Option (Store σ ρ κ) :=
  (List.range s.info.num.toNat).foldlM m.restart s

/-- The ids a client may send. -/
def InRange (f : Info ρ κ) : Request ρ κ → Prop
  | .set cfg | .get cfg | .tgr cfg => 0 ≤ m.id cfg ∧ m.id cfg < f.num
  | .cap cap => 0 ≤ m.capId cap ∧ m.capId cap < f.num
  | .num => True

def Step (s : Store σ ρ κ) (q : Request ρ κ) (t : Store σ ρ κ) : Prop :=
  m.InRange s.info q ∧ ∃ x, m.msgbox s q = some (t, x)

/-- The requests set the record that `i` names. -/
def Sets (qs : List (Request ρ κ)) (i : Int) : Prop := ∃ cfg, .set cfg ∈ qs ∧ m.id cfg = i

/-- GET answers with the record it is asked for, SET stores the one it is given and no other, and
a restart of the module changes nothing. -/
structure Good (s : Store σ ρ κ) : Prop where
  get : ∀ i : Int, 0 ≤ i → i < s.info.num → m.id (m.msgboxGet s (m.blank i)).2 = i
  set : ∀ cfg t r, m.InRange s.info (.set cfg) → m.msgboxSet s cfg = some (t, r) →
    (m.msgboxGet t (m.blank (m.id cfg))).2 = cfg ∧ ∀ i : Int, 0 ≤ i → i ≠ m.id cfg →
      (m.msgboxGet t (m.blank i)).2 = (m.msgboxGet s (m.blank i)).2
  startup : ∀ t, m.startup s = some t → t.info = s.info

variable {m} {s t : Store σ ρ κ} {q : Request ρ κ} {qs : List (Request ρ κ)} {cfg : ρ} {i : Int}

theorem get_put (f : Info ρ κ) : (f.put i cfg).get i = cfg := by simp [Info.get, Info.put]

theorem get_put_ne (f : Info ρ κ) {j : Int} (hi : 0 ≤ i) (hj : 0 ≤ j) (h : j ≠ i) :
    (f.put i cfg).get j = f.get j := by
  have hne : j.toNat ≠ i.toNat := by omega
  simp [Info.get, Info.put, hne]

theorem put_get (f : Info ρ κ) : f.put i (f.get i) = f := by simp [Info.get, Info.put]

theorem msgboxSet_spec {r : ρ} (h : m.msgboxSet s cfg = some (t, r)) :
    m.set s.dev cfg = some (t.dev, 0) ∧ t.info = s.info.put (m.id cfg) cfg := by
  cases hd : m.set s.dev cfg with
  | none => simp [msgboxSet, hd] at h
  | some d =>
    simp only [msgboxSet, hd] at h
    split_ifs at h with hret
    obtain ⟨rfl, -⟩ := Prod.mk.inj (Option.some.inj h)
    exact ⟨by rw [← hret], rfl⟩

theorem msgboxTgr_spec {r : ρ} (h : m.msgboxTgr s cfg = some (t, r)) :
    m.tgr ≠ none ∧ t.info = s.info := by
  cases ht : m.tgr with
  | none => simp [msgboxTgr, ht] at h
  | some tgr =>
    cases hd : tgr s.dev cfg with
    | none => simp [msgboxTgr, ht, hd] at h
    | some d =>
      simp only [msgboxTgr, ht, hd] at h
      split_ifs at h
      obtain ⟨rfl, -⟩ := Prod.mk.inj (Option.some.inj h)
      exact ⟨nofun, rfl⟩

/-- A SET goes through the manager and puts its record into the store; nothing else changes that,
and only a TGR goes to the device. -/
theorem step_spec (h : m.Step s q t) :
    (∃ cfg, q = .set cfg ∧ 0 ≤ m.id cfg ∧ m.set s.dev cfg = some (t.dev, 0) ∧
      t.info = s.info.put (m.id cfg) cfg) ∨
    (∀ cfg, q ≠ .set cfg) ∧ t.info = s.info ∧ (m.tgr = none → t.dev = s.dev) := by
  obtain ⟨hr, x, hx⟩ := h
  cases q with
  | set cfg =>
    obtain ⟨⟨u, r⟩, hu, he⟩ := Option.map_eq_some_iff.mp hx
    obtain ⟨rfl, -⟩ := Prod.mk.inj he
    exact .inl ⟨cfg, rfl, hr.1, msgboxSet_spec hu⟩
  | get cfg =>
    obtain ⟨rfl, -⟩ := Prod.mk.inj (Option.some.inj hx)
    exact .inr ⟨nofun, rfl, fun _ => rfl⟩
  | cap cap =>
    obtain ⟨rfl, -⟩ := Prod.mk.inj (Option.some.inj hx)
    exact .inr ⟨nofun, rfl, fun _ => rfl⟩
  | num =>
    obtain ⟨⟨u, r⟩, hu, he⟩ := Option.map_eq_some_iff.mp hx
    obtain ⟨rfl, -⟩ := Prod.mk.inj he
    simp only [msgboxNum, Option.ite_none_right_eq_some, Option.some.injEq, Prod.mk.injEq] at hu
    obtain ⟨-, rfl, -⟩ := hu
    exact .inr ⟨nofun, rfl, fun _ => rfl⟩
  | tgr cfg =>
    obtain ⟨⟨u, r⟩, hu, he⟩ := Option.map_eq_some_iff.mp hx
    obtain ⟨rfl, -⟩ := Prod.mk.inj he
    obtain ⟨ht, hi⟩ := msgboxTgr_spec hu
    exact .inr ⟨nofun, hi, fun hn => (ht hn).elim⟩

theorem step_num (h : m.Step s q t) : t.info.num = s.info.num := by
  rcases step_spec h with ⟨cfg, -, -, -, ht⟩ | ⟨-, ht, -⟩ <;> rw [ht]
  rfl

/-- A slot has its own id once it has been set. -/
theorem step_id (h : m.Step s q t) (hi : 0 ≤ i) :
    m.id (t.info.get i) = i ↔ m.id (s.info.get i) = i ∨ m.Sets [q] i := by
  rcases step_spec h with ⟨cfg, rfl, hr, -, ht⟩ | ⟨hq, ht, -⟩
  · rw [ht]
    rcases eq_or_ne i (m.id cfg) with rfl | hne
    · simp [get_put, Sets]
    · rw [get_put_ne _ hr hi hne]
      simp [Sets, hne.symm]
  · rw [ht]
    have hno : ¬ m.Sets [q] i := by
      rintro ⟨cfg, hm, -⟩
      exact hq cfg (List.mem_singleton.mp hm).symm
    simp [hno]

theorem sets_cons : m.Sets (q :: qs) i ↔ m.Sets [q] i ∨ m.Sets qs i := by
  simp only [Sets, List.mem_cons, List.not_mem_nil, or_false, or_and_right, exists_or]

theorem run_num (h : MTr m.Step s qs t) : t.info.num = s.info.num := by
  induction h with
  | refl => rfl
  | stepL h _ ih => rw [ih, step_num h]

theorem run_id (h : MTr m.Step s qs t) (hi : 0 ≤ i) :
    m.id (t.info.get i) = i ↔ m.id (s.info.get i) = i ∨ m.Sets qs i := by
  induction h with
  | refl => simp [Sets]
  | stepL h _ ih => rw [ih, step_id h hi, or_assoc, ← sets_cons]

/-- A round of the loop puts back what it got. -/
theorem restart_info {n : Nat} (h : m.restart s n = some t) (hn : m.id (s.info.get n) = n) :
    t.info = s.info := by
  obtain ⟨⟨u, r⟩, hu, rfl⟩ := Option.map_eq_some_iff.mp h
  have hg : s.info.get (m.id (m.blank n)) = s.info.get n := by rw [m.id_blank]
  rw [hg] at hu
  rw [(msgboxSet_spec hu).2, hn, put_get]

theorem restarts_info {ns : List Nat} (h : ns.foldlM m.restart s = some t)
    (hn : ∀ n ∈ ns, m.id (s.info.get n) = n) : t.info = s.info := by
  induction ns generalizing s with
  | nil =>
    obtain rfl := Option.some.inj h
    rfl
  | cons n ns ih =>
    obtain ⟨u, hu, ht⟩ := Option.bind_eq_some_iff.mp ((List.foldlM_cons ..).symm.trans h)
    have hsu : u.info = s.info := restart_info hu (hn n List.mem_cons_self)
    rw [← hsu]
    exact ih ht fun k hk => hsu ▸ hn k (List.mem_cons_of_mem _ hk)

/-- It all rests on each slot having its own id. -/
theorem good_iff : m.Good s ↔ ∀ i : Int, 0 ≤ i → i < s.info.num → m.id (s.info.get i) = i := by
  have hget : ∀ (u : Store σ ρ κ) (i : Int),
      (m.msgboxGet u (m.blank i)).2 = u.info.get i := by
    intro u i
    rw [msgboxGet, m.id_blank]
  constructor
  · intro h i hi hn
    rw [← hget]
    exact h.get i hi hn
  · intro h
    refine ⟨?_, ?_, ?_⟩
    · intro i hi hn
      rw [hget]
      exact h i hi hn
    · intro cfg t r hr ht
      simp only [hget, (msgboxSet_spec ht).2]
      exact ⟨get_put _, fun i hi hne => get_put_ne _ hr.1 hi hne⟩
    · intro t ht
      refine restarts_info ht fun n hn => h n (by omega) ?_
      have := List.mem_range.mp hn
      omega

theorem run_good_iff (h : MTr m.Step s qs t) : m.Good t ↔
    ∀ i : Int, 0 ≤ i → i < s.info.num → m.id (s.info.get i) = i ∨ m.Sets qs i := by
  rw [good_iff, run_num h]
  exact forall_congr' fun i => forall_congr' fun hi => by rw [run_id h hi]

end Mgr

end Freak.Manager
