import Freak.Lib.Lts

/-! Enabling and disabling the face algorithm: `__app_alg_set` against the threads that
`__hs_fd_init` starts. -/
namespace Freak.Alg.Life

/-- What the manager holds for an id. -/
inductive Kind
  | fifo
  | osd
  | buf
  deriving DecidableEq

/-- A place in `fifos`, `osds` or `bufs`. -/
structure Slot where
  kind : Kind
  id : Int
  deriving DecidableEq

/-- `__app_alg_set` of an `ALG_TYPE_FR` record, and the handler that stores it. -/
inductive Msg
  | idle
  | acquire (k : Kind) (id : Int)
  | regcallback (id : Int)
  | init (id : Int)
  | spawnDetect (id : Int)
  | spawnResult (id : Int)
  | release (k : Kind) (id : Int)
  | stop (id : Int)
  | joinDetect (id : Int)
  | joinResult (id : Int)
  | store (id : Int) (enable : Bool)
  deriving DecidableEq

/-- `hs_fd_task`: before and inside a call of `FRAME_GET`, which stands at the beginning of the body
and `again` at its end. -/
inductive Detect
  | absent
  | test
  | call (again : Bool)
  | entered (again : Bool) (args : Int)
  | inside (again : Bool) (fifo buf : Option Nat)
  | work
  | done
  | joined

/-- `hs_fd_result_task`. -/
inductive Result
  | absent
  | test
  | get
  | deliver (osd : Option Nat)
  | done
  | joined

/-- The arguments of `FRAME_GET` and `RESULT_OUT`: a record of `cfgs` and an OSD handle. -/
structure Callbacks where
  frame : Int
  osd : Option Nat

/-- Resources and threads are numbered as they are made. -/
structure State where
  slots : Slot → Option Nat
  made : Nat
  owner : Nat → Slot
  released : List Nat
  cfgs : Int → Int
  cb : Option Callbacks
  stop : Bool
  queued : Nat
  detect : Nat → Detect
  detects : Nat
  detectThread : Option Nat
  result : Nat → Result
  results : Nat
  resultThread : Option Nat
  msg : Msg

def appItemMax : Int := 3

def queDepth : Nat := 32

/-- Nothing is held and nothing runs; the records carry the ids of the configuration. -/
def initial (cfgs : Int → Int) : State where
  slots _ := none
  made := 0
  owner _ := ⟨.fifo, 0⟩
  released := []
  cfgs := cfgs
  cb := none
  stop := true
  queued := 0
  detect _ := .absent
  detects := 0
  detectThread := none
  result _ := .absent
  results := 0
  resultThread := none
  msg := .idle

inductive Action
  | request (id : Int) (enable : Bool)
  | other (id : Int)
  | message (ok : Bool)
  | detect (t : Nat)
  | result (t : Nat)

/-- An id that names a slot. -/
def InRange (id : Int) : Prop := 0 ≤ id ∧ id < appItemMax

/-- What follows once a slot has its resource. -/
def Msg.acquired (id : Int) : Kind → Msg
  | .fifo => .acquire .osd id
  | .osd => .acquire .buf id
  | .buf => .regcallback id

/-- What follows once it has lost it. -/
def Msg.released (id : Int) : Kind → Msg
  | .fifo => .release .buf id
  | .buf => .release .osd id
  | .osd => .stop id

/-- What a slot holds when its resource is gone: the OSD handle stays. -/
def Slot.cleared (x : Slot) (r : Nat) : Option Nat := if x.kind = .osd then some r else none

/-- A new resource in a slot. -/
def State.hold (s : State) (x : Slot) : State :=
  { s with
    slots := Function.update s.slots x (some s.made)
    owner := Function.update s.owner s.made x
    made := s.made + 1 }

/-- Its release. -/
def State.drop (s : State) (x : Slot) (r : Nat) : State :=
  { s with slots := Function.update s.slots x (x.cleared r), released := r :: s.released }

inductive Step : State → Action → State → Prop
  | enable {s : State} {id : Int} (hm : s.msg = .idle) (hid : InRange id) :
      Step s (.request id true) { s with msg := .acquire .fifo id }
  | disable {s : State} {id : Int} (hm : s.msg = .idle) (hid : InRange id) :
      Step s (.request id false) { s with msg := .release .fifo id }
  -- an index outside the arrays: from here on anything may happen
  | wild {s t : State} {id : Int} {en : Bool} (hm : s.msg = .idle) (hid : ¬ InRange id) :
      Step s (.request id en) t
  -- a record of another type is only stored
  | other {s : State} {id : Int} (hm : s.msg = .idle) (hid : InRange id) :
      Step s (.other id) { s with cfgs := Function.update s.cfgs id id }
  | wildOther {s t : State} {id : Int} (hm : s.msg = .idle) (hid : ¬ InRange id) :
      Step s (.other id) t
  | acquire {s : State} {k : Kind} {id : Int} (hm : s.msg = .acquire k id) :
      Step s (.message true) { s.hold ⟨k, id⟩ with msg := .acquired id k }
  -- `malloc` fails, which nobody looks at
  | noMemory {s : State} {id : Int} (hm : s.msg = .acquire .buf id) :
      Step s (.message false) { s with
        slots := Function.update s.slots ⟨.buf, id⟩ none, msg := .regcallback id }
  | regcallback {s : State} {id : Int} (hm : s.msg = .regcallback id) :
      Step s (.message true) { s with cb := some ⟨id, s.slots ⟨.osd, id⟩⟩, msg := .init id }
  | init {s : State} {id : Int} (hm : s.msg = .init id) :
      Step s (.message true) { s with stop := false, queued := 0, msg := .spawnDetect id }
  | spawnDetect {s : State} {id : Int} (hm : s.msg = .spawnDetect id) :
      Step s (.message true) { s with
        detect := Function.update s.detect s.detects .test
        detectThread := some s.detects, detects := s.detects + 1, msg := .spawnResult id }
  | noDetect {s : State} {id : Int} (hm : s.msg = .spawnDetect id) :
      Step s (.message false) { s with msg := .spawnResult id }
  | spawnResult {s : State} {id : Int} (hm : s.msg = .spawnResult id) :
      Step s (.message true) { s with
        result := Function.update s.result s.results .test
        resultThread := some s.results, results := s.results + 1, msg := .store id true }
  | noResult {s : State} {id : Int} (hm : s.msg = .spawnResult id) :
      Step s (.message false) { s with msg := .store id true }
  | release {s : State} {k : Kind} {id : Int} {r : Nat} (hm : s.msg = .release k id)
      (hr : s.slots ⟨k, id⟩ = some r) :
      Step s (.message true) { s.drop ⟨k, id⟩ r with msg := .released id k }
  | skip {s : State} {k : Kind} {id : Int} (hm : s.msg = .release k id)
      (hr : s.slots ⟨k, id⟩ = none) :
      Step s (.message true) { s with msg := .released id k }
  | stop {s : State} {id : Int} (hm : s.msg = .stop id) :
      Step s (.message true) { s with stop := true, msg := .joinDetect id }
  | joinDetect {s : State} {id : Int} {t : Nat} (hm : s.msg = .joinDetect id)
      (ht : s.detectThread = some t) (hd : s.detect t = .done) :
      Step s (.message true) { s with
        detect := Function.update s.detect t .joined, msg := .joinResult id }
  | joinResult {s : State} {id : Int} {t : Nat} (hm : s.msg = .joinResult id)
      (ht : s.resultThread = some t) (hd : s.result t = .done) :
      Step s (.message true) { s with
        result := Function.update s.result t .joined, msg := .store id false }
  | store {s : State} {id : Int} {en : Bool} (hm : s.msg = .store id en) :
      Step s (.message true) { s with cfgs := Function.update s.cfgs id id, msg := .idle }
  | detectTest {s : State} {t : Nat} (ht : s.detect t = .test) (hs : s.stop = false) :
      Step s (.detect t) { s with detect := Function.update s.detect t (.call false) }
  | detectStop {s : State} {t : Nat} (ht : s.detect t = .test) (hs : s.stop = true) :
      Step s (.detect t) { s with detect := Function.update s.detect t .done }
  | detectEnter {s : State} {t : Nat} {again : Bool} {c : Callbacks}
      (ht : s.detect t = .call again) (hc : s.cb = some c) :
      Step s (.detect t) { s with detect := Function.update s.detect t (.entered again c.frame) }
  -- `__app_alg_get_frame` goes by the id in the record it is given
  | detectRead {s : State} {t : Nat} {again : Bool} {i : Int}
      (ht : s.detect t = .entered again i) :
      Step s (.detect t) { s with
        detect := Function.update s.detect t <|
          .inside again (s.slots ⟨.fifo, s.cfgs i⟩) (s.slots ⟨.buf, s.cfgs i⟩) }
  | detectGot {s : State} {t : Nat} {f b : Option Nat} (ht : s.detect t = .inside false f b) :
      Step s (.detect t) { s with detect := Function.update s.detect t .work }
  -- the call fails, or was the one at the end
  | detectBack {s : State} {t : Nat} {again : Bool} {f b : Option Nat}
      (ht : s.detect t = .inside again f b) :
      Step s (.detect t) { s with detect := Function.update s.detect t .test }
  | detectFail {s : State} {t : Nat} (ht : s.detect t = .work) :
      Step s (.detect t) { s with detect := Function.update s.detect t .done }
  | detectPut {s : State} {t : Nat} (ht : s.detect t = .work) (hq : s.queued < queDepth) :
      Step s (.detect t) { s with
        detect := Function.update s.detect t (.call true), queued := s.queued + 1 }
  | detectSkip {s : State} {t : Nat} (ht : s.detect t = .work) :
      Step s (.detect t) { s with detect := Function.update s.detect t (.call true) }
  | resultTest {s : State} {t : Nat} (ht : s.result t = .test) (hs : s.stop = false) :
      Step s (.result t) { s with result := Function.update s.result t .get }
  | resultStop {s : State} {t : Nat} (ht : s.result t = .test) (hs : s.stop = true) :
      Step s (.result t) { s with result := Function.update s.result t .done }
  | resultTake {s : State} {t : Nat} {c : Callbacks} (ht : s.result t = .get)
      (hq : 0 < s.queued) (hc : s.cb = some c) :
      Step s (.result t) { s with
        result := Function.update s.result t (.deliver c.osd), queued := s.queued - 1 }
  | delivered {s : State} {t : Nat} {o : Option Nat} (ht : s.result t = .deliver o) :
      Step s (.result t) { s with result := Function.update s.result t .test }

/-- Started and not yet joined. -/
def Detect.Exists : Detect → Prop
  | .absent | .joined => False
  | _ => True

def Result.Exists : Result → Prop
  | .absent | .joined => False
  | _ => True

namespace State

/-- Made and not yet released. -/
def Alive (s : State) (r : Nat) : Prop := r < s.made ∧ r ∉ s.released

/-- The slot names a resource that is alive. -/
def Holds (s : State) (x : Slot) : Prop := ∃ r, s.slots x = some r ∧ s.Alive r

end State

/-- At most one thread of each kind, joined only where there is one; at most one resource of each
kind and id, none released twice and none out of reach; and alive where a thread uses it. -/
structure Sound (s : State) : Prop where
  detect : ∀ t u, (s.detect t).Exists → (s.detect u).Exists → t = u
  result : ∀ t u, (s.result t).Exists → (s.result u).Exists → t = u
  joinDetect : ∀ id, s.msg = .joinDetect id →
    ∃ t, s.detectThread = some t ∧ (s.detect t).Exists
  joinResult : ∀ id, s.msg = .joinResult id →
    ∃ t, s.resultThread = some t ∧ (s.result t).Exists
  held : ∀ r q, s.Alive r → s.Alive q → s.owner r = s.owner q → r = q
  once : s.released.Nodup
  kept : ∀ r, s.Alive r → s.slots (s.owner r) = some r
  frame : ∀ t again f b, s.detect t = .inside again f b →
    (∃ r, f = some r ∧ s.Alive r) ∧ ∃ r, b = some r ∧ s.Alive r
  osd : ∀ t o, s.result t = .deliver o → ∃ r, o = some r ∧ s.Alive r

/-- The algorithm is off: no thread, no resource. -/
def Off (s : State) : Prop :=
  (∀ t, ¬ (s.detect t).Exists) ∧ (∀ t, ¬ (s.result t).Exists) ∧ ∀ x, ¬ s.Holds x

/-- A detection thread is inside `__app_alg_get_frame`. -/
def Getting (s : State) : Prop :=
  ∃ t again, (∃ i, s.detect t = .entered again i) ∨ ∃ f b, s.detect t = .inside again f b

/-- A result thread is inside `__app_alg_result`. -/
def Delivering (s : State) : Prop := ∃ t o, s.result t = .deliver o

/-- The kinds that an id which is on holds while a request is served. -/
def Msg.holds : Msg → Kind → Prop
  | .acquire .fifo _, _ => False
  | .acquire .osd _, k => k = .fifo
  | .acquire .buf _, k => k = .fifo ∨ k = .osd
  | .release .buf _, k => k = .osd ∨ k = .buf
  | .release .osd _, k => k = .osd
  | .stop _, _ | .joinDetect _, _ | .joinResult _, _ | .store _ false, _ => False
  | _, _ => True

/-- The condition on a step, read off the state before it: an id is enabled while the algorithm is
off and disabled while it is the one that is on, memory and threads are to be had, and neither a
release meets a callback nor a callback what is released. -/
def Ok (s : State) : Action → Prop
  | .request id true => InRange id ∧ Off s ∧ s.cfgs id = id
  | .request id false => InRange id ∧ s.Holds ⟨.fifo, id⟩
  | .other id => InRange id
  | .message ok => ok = true ∧ (∀ id, s.msg = .release .fifo id → ¬ Getting s) ∧
      ∀ id, s.msg = .release .osd id → ¬ Delivering s
  | .detect t => ∀ again, s.detect t = .call again → s.msg.holds .fifo ∧ s.msg.holds .buf
  | .result t => s.result t = .get → s.msg.holds .osd

/-- The requests during which the detection thread is there. -/
def Msg.detects : Msg → Prop
  | .acquire _ _ | .regcallback _ | .init _ | .spawnDetect _ | .joinResult _ | .store _ false =>
    False
  | _ => True

def Msg.results : Msg → Prop
  | .acquire _ _ | .regcallback _ | .init _ | .spawnDetect _ | .spawnResult _ | .store _ false =>
    False
  | _ => True

/-- The callbacks are those of the id. -/
def Msg.registered : Msg → Prop
  | .acquire _ _ | .regcallback _ => False
  | _ => True

/-- The id of the request that is served. -/
def Msg.id : Msg → Option Int
  | .idle => none
  | .acquire _ id | .regcallback id | .init id | .spawnDetect id | .spawnResult id
  | .release _ id | .stop id | .joinDetect id | .joinResult id | .store id _ => some id

/-- Slots and numbers agree. -/
structure Ledger (s : State) : Prop where
  slot : ∀ x r, s.slots x = some r → r < s.made ∧ s.owner r = x ∧ (x.kind ≠ .osd → s.Alive r)
  kept : ∀ r, s.Alive r → s.slots (s.owner r) = some r
  once : s.released.Nodup
  made : ∀ r ∈ s.released, r < s.made

/-- What holds in every state of a run whose steps meet the condition, for the id that is on. -/
structure Inv (s : State) (on : Option Int) : Prop where
  ledger : Ledger s
  request : ∀ id, s.msg.id = some id → on = some id
  holds : ∀ x, s.Holds x ↔ on = some x.id ∧ s.msg.holds x.kind
  detect : ∀ t, (s.detect t).Exists ↔ (on ≠ none ∧ s.msg.detects) ∧ s.detectThread = some t
  detectNew : ∀ t, s.detects ≤ t → s.detect t = .absent
  detectMade : ∀ t, s.detectThread = some t → t < s.detects
  result : ∀ t, (s.result t).Exists ↔ (on ≠ none ∧ s.msg.results) ∧ s.resultThread = some t
  resultNew : ∀ t, s.results ≤ t → s.result t = .absent
  resultMade : ∀ t, s.resultThread = some t → t < s.results
  detectThere : on ≠ none → s.msg.detects → ∃ t, s.detectThread = some t
  resultThere : on ≠ none → s.msg.results → ∃ t, s.resultThread = some t
  cb : ∀ i, on = some i → s.msg.registered → s.cb = some ⟨i, s.slots ⟨.osd, i⟩⟩
  own : ∀ i, on = some i → s.cfgs i = i
  entered : ∀ t again i, s.detect t = .entered again i →
    on = some i ∧ s.msg.holds .fifo ∧ s.msg.holds .buf
  inside : ∀ t again f b, s.detect t = .inside again f b → ∃ i, on = some i ∧
    (s.msg.holds .fifo ∧ s.msg.holds .buf) ∧ f = s.slots ⟨.fifo, i⟩ ∧ b = s.slots ⟨.buf, i⟩
  deliver : ∀ t o, s.result t = .deliver o → ∃ i, on = some i ∧ s.msg.holds .osd ∧
    o = s.slots ⟨.osd, i⟩

variable {s t : State} {a : Action} {on : Option Int} {m : Msg} {id : Int} {k : Kind}

theorem on_of_request (h : Inv s on) (hm : s.msg.id ≠ none) : on ≠ none := by
  obtain ⟨id, hid⟩ := Option.ne_none_iff_exists'.mp hm
  rw [h.request id hid]
  nofun

theorem detect_exists (h : Inv s on) (hm : s.msg.id ≠ none) (hd : s.msg.detects) :
    ∃ t, s.detectThread = some t ∧ (s.detect t).Exists := by
  have hon := on_of_request h hm
  obtain ⟨t, ht⟩ := h.detectThere hon hd
  exact ⟨t, ht, (h.detect t).mpr ⟨⟨hon, hd⟩, ht⟩⟩

theorem result_exists (h : Inv s on) (hm : s.msg.id ≠ none) (hr : s.msg.results) :
    ∃ t, s.resultThread = some t ∧ (s.result t).Exists := by
  have hon := on_of_request h hm
  obtain ⟨t, ht⟩ := h.resultThere hon hr
  exact ⟨t, ht, (h.result t).mpr ⟨⟨hon, hr⟩, ht⟩⟩

theorem ledger_msg (h : Ledger s) : Ledger { s with msg := m } := ⟨h.slot, h.kept, h.once, h.made⟩

theorem sound_of_inv (h : Inv s on) : Sound s where
  detect t u ht hu := by
    have ht' := ((h.detect t).mp ht).2
    have hu' := ((h.detect u).mp hu).2
    exact Option.some.inj (ht'.symm.trans hu')
  result t u ht hu := by
    have ht' := ((h.result t).mp ht).2
    have hu' := ((h.result u).mp hu).2
    exact Option.some.inj (ht'.symm.trans hu')
  joinDetect id hm := detect_exists h (by rw [hm]; nofun) (by rw [hm]; trivial)
  joinResult id hm := result_exists h (by rw [hm]; nofun) (by rw [hm]; trivial)
  held r q hr hq hown := by
    have hr' := h.ledger.kept r hr
    rw [hown, h.ledger.kept q hq] at hr'
    exact (Option.some.inj hr').symm
  once := h.ledger.once
  kept := h.ledger.kept
  frame t again f b hin := by
    obtain ⟨i, hi, ⟨hf, hb⟩, rfl, rfl⟩ := h.inside t again f b hin
    exact ⟨(h.holds ⟨.fifo, i⟩).mpr ⟨hi, hf⟩, (h.holds ⟨.buf, i⟩).mpr ⟨hi, hb⟩⟩
  osd t o hd := by
    obtain ⟨i, hi, ho, rfl⟩ := h.deliver t o hd
    exact (h.holds ⟨.osd, i⟩).mpr ⟨hi, ho⟩

theorem inv_initial (cfgs : Int → Int) : Inv (initial cfgs) none where
  ledger := ⟨nofun, fun r h => absurd h.1 (Nat.not_lt_zero r), List.nodup_nil, nofun⟩
  request _ h := by cases h
  holds x := iff_of_false (by rintro ⟨r, h, -⟩; cases h) (by rintro ⟨h, -⟩; cases h)
  detect t := iff_of_false id fun h => h.1.1 rfl
  detectNew _ _ := rfl
  detectMade _ h := by cases h
  result t := iff_of_false id fun h => h.1.1 rfl
  resultNew _ _ := rfl
  resultMade _ h := by cases h
  detectThere h := absurd rfl h
  resultThere h := absurd rfl h
  cb _ h := by cases h
  own _ h := by cases h
  entered _ _ _ h := by cases h
  inside _ _ _ _ h := by cases h
  deliver _ _ h := by cases h

/-- A step of the manager that only moves on. -/
theorem inv_msg {b : Bool} {q : Nat} (h : Inv s on) (hid : ∀ id, m.id = some id → on = some id)
    (hh : ∀ k, m.holds k ↔ s.msg.holds k) (hd : m.detects ↔ s.msg.detects)
    (hr : m.results ↔ s.msg.results) (hreg : m.registered → s.msg.registered) :
    Inv { s with stop := b, queued := q, msg := m } on where
  ledger := ⟨h.ledger.slot, h.ledger.kept, h.ledger.once, h.ledger.made⟩
  request := hid
  holds x := (h.holds x).trans (and_congr_right' (hh x.kind).symm)
  detect t := by
    dsimp only
    rw [hd]
    exact h.detect t
  detectNew := h.detectNew
  detectMade := h.detectMade
  result t := by
    dsimp only
    rw [hr]
    exact h.result t
  resultNew := h.resultNew
  resultMade := h.resultMade
  detectThere hon hm := h.detectThere hon (hd.mp hm)
  resultThere hon hm := h.resultThere hon (hr.mp hm)
  cb i hi hm := h.cb i hi (hreg hm)
  own := h.own
  entered t again i he := by
    simpa only [hh] using h.entered t again i he
  inside t again f b hin := by
    simpa only [hh] using h.inside t again f b hin
  deliver t o ho := by
    simpa only [hh] using h.deliver t o ho

section Threads

/-! Both kinds of thread: where each stands, by number; at `Ex` it exists. -/
variable {α : Type} {Ex : α → Prop} {pcs : Nat → α} {pc absent : α} {n i j : Nat}
  {thread : Option Nat} {P : Prop}

/-- Only the thread that moves can have come to where it now stands. -/
theorem eq_of_moved {q : α} (h : Function.update pcs i pc j = q) (hq : pc ≠ q) : pcs j = q := by
  have hji : j ≠ i := by
    rintro rfl
    exact hq ((Function.update_self ..).symm.trans h)
  exact (Function.update_of_ne hji ..).symm.trans h

theorem exists_moved (h : ∀ j, Ex (pcs j) ↔ P ∧ thread = some j) (hi : Ex (pcs i)) (hpc : Ex pc) :
    Ex (Function.update pcs i pc j) ↔ P ∧ thread = some j := by
  by_cases hji : j = i
  · subst hji
    simpa only [Function.update_self, iff_true_left hpc] using (h j).mp hi
  · simpa only [Function.update_of_ne hji] using h j

theorem absent_moved (h : ∀ j, n ≤ j → pcs j = absent) (hi : i < n) (hj : n ≤ j) :
    Function.update pcs i pc j = absent :=
  (Function.update_of_ne (by omega) ..).trans (h j hj)

theorem lt_of_exists (h : ∀ j, n ≤ j → pcs j = absent) (habs : ¬ Ex absent) (hi : Ex (pcs i)) :
    i < n := by
  by_contra hn
  rw [h i (Nat.le_of_not_lt hn)] at hi
  exact habs hi

/-- The first thread is started. -/
theorem exists_started (h : ∀ j, ¬ Ex (pcs j)) (hpc : Ex pc) (hP : P) :
    Ex (Function.update pcs n pc j) ↔ P ∧ some n = some j := by
  by_cases hj : j = n
  · rw [hj, Function.update_self]
    exact iff_of_true hpc ⟨hP, rfl⟩
  · rw [Function.update_of_ne hj]
    exact iff_of_false (h j) fun hn => hj (Option.some.inj hn.2).symm

theorem absent_started (h : ∀ j, n ≤ j → pcs j = absent) (hj : n + 1 ≤ j) :
    Function.update pcs n pc j = absent :=
  (Function.update_of_ne (by omega) ..).trans (h j (Nat.le_of_succ_le hj))

/-- The only thread is joined. -/
theorem not_exists_joined (h : ∀ j, Ex (pcs j) ↔ P ∧ thread = some j) (hi : thread = some i)
    (hpc : ¬ Ex pc) : ¬ Ex (Function.update pcs i pc j) := by
  by_cases hji : j = i
  · rw [hji, Function.update_self]
    exact hpc
  · rw [Function.update_of_ne hji, h]
    rintro ⟨-, hj⟩
    exact hji (Option.some.inj (hj.symm.trans hi))

end Threads

/-- A step of the detection thread. -/
theorem inv_detect {t q : Nat} {pc : Detect} (h : Inv s on) (ht : (s.detect t).Exists)
    (hpc : pc.Exists)
    (he : ∀ again i, pc = .entered again i → on = some i ∧ s.msg.holds .fifo ∧ s.msg.holds .buf)
    (hin : ∀ again f b, pc = .inside again f b → ∃ i, on = some i ∧
      (s.msg.holds .fifo ∧ s.msg.holds .buf) ∧ f = s.slots ⟨.fifo, i⟩ ∧
        b = s.slots ⟨.buf, i⟩) :
    Inv { s with detect := Function.update s.detect t pc, queued := q } on where
  ledger := ⟨h.ledger.slot, h.ledger.kept, h.ledger.once, h.ledger.made⟩
  request := h.request
  holds := h.holds
  detect _ := exists_moved h.detect ht hpc
  detectNew _ := absent_moved h.detectNew (lt_of_exists h.detectNew not_false ht)
  detectMade := h.detectMade
  result := h.result
  resultNew := h.resultNew
  resultMade := h.resultMade
  detectThere := h.detectThere
  resultThere := h.resultThere
  cb := h.cb
  own := h.own
  entered u again i hu := by
    by_cases hpc' : pc = .entered again i
    · exact he again i hpc'
    · exact h.entered u again i (eq_of_moved hu hpc')
  inside u again f b hu := by
    by_cases hpc' : pc = .inside again f b
    · exact hin again f b hpc'
    · exact h.inside u again f b (eq_of_moved hu hpc')
  deliver := h.deliver

/-- A step of the result thread. -/
theorem inv_result {t q : Nat} {pc : Result} (h : Inv s on) (ht : (s.result t).Exists)
    (hpc : pc.Exists) (ho : ∀ o, pc = .deliver o → ∃ i, on = some i ∧ s.msg.holds .osd ∧
      o = s.slots ⟨.osd, i⟩) :
    Inv { s with result := Function.update s.result t pc, queued := q } on where
  ledger := ⟨h.ledger.slot, h.ledger.kept, h.ledger.once, h.ledger.made⟩
  request := h.request
  holds := h.holds
  detect := h.detect
  detectNew := h.detectNew
  detectMade := h.detectMade
  result _ := exists_moved h.result ht hpc
  resultNew _ := absent_moved h.resultNew (lt_of_exists h.resultNew not_false ht)
  resultMade := h.resultMade
  detectThere := h.detectThere
  resultThere := h.resultThere
  cb := h.cb
  own := h.own
  entered := h.entered
  inside := h.inside
  deliver u o hu := by
    by_cases hpc' : pc = .deliver o
    · exact ho o hpc'
    · exact h.deliver u o (eq_of_moved hu hpc')

/-- No thread is inside a callback where there is no thread. -/
theorem no_callback (hd : ∀ t, ¬ (s.detect t).Exists) :
    (∀ t again i, s.detect t ≠ .entered again i) ∧
      ∀ t again f b, s.detect t ≠ .inside again f b := by
  constructor
  · intro t again i h
    exact hd t (by rw [h]; trivial)
  · intro t again f b h
    exact hd t (by rw [h]; trivial)

theorem no_deliver (hr : ∀ t, ¬ (s.result t).Exists) : ∀ t o, s.result t ≠ .deliver o := by
  intro t o h
  exact hr t (by rw [h]; trivial)

/-- A step of the manager while there are no threads. -/
theorem inv_quiet {slots : Slot → Option Nat} {made : Nat} {owner : Nat → Slot}
    {cb : Option Callbacks} {on' : Option Int} (h : Inv s on)
    (hd : ∀ t, ¬ (s.detect t).Exists) (hr : ∀ t, ¬ (s.result t).Exists) (hmd : ¬ m.detects)
    (hmr : ¬ m.results)
    (hl : Ledger { s with slots := slots, made := made, owner := owner, cb := cb, msg := m })
    (hid : ∀ id, m.id = some id → on' = some id)
    (hh : ∀ x, State.Holds
        { s with slots := slots, made := made, owner := owner, cb := cb, msg := m } x ↔
      on' = some x.id ∧ m.holds x.kind)
    (hcb : ∀ i, on' = some i → m.registered → cb = some ⟨i, slots ⟨.osd, i⟩⟩)
    (hown : ∀ i, on' = some i → s.cfgs i = i) :
    Inv { s with slots := slots, made := made, owner := owner, cb := cb, msg := m } on' where
  ledger := hl
  request := hid
  holds := hh
  detect t := iff_of_false (hd t) fun ht => hmd ht.1.2
  detectNew := h.detectNew
  detectMade := h.detectMade
  result t := iff_of_false (hr t) fun ht => hmr ht.1.2
  resultNew := h.resultNew
  resultMade := h.resultMade
  detectThere _ hm := absurd hm hmd
  resultThere _ hm := absurd hm hmr
  cb := hcb
  own := hown
  entered t again i he := absurd he ((no_callback hd).1 t again i)
  inside t again f b hin := absurd hin ((no_callback hd).2 t again f b)
  deliver t o ho := absurd ho (no_deliver hr t o)

theorem inv_enable (h : Inv s on) (hoff : Off s) (hown : s.cfgs id = id) :
    Inv { s with msg := .acquire .fifo id } (some id) := by
  refine inv_quiet h hoff.1 hoff.2.1 not_false not_false (ledger_msg h.ledger) (fun i hi => hi)
    (fun x => iff_of_false (hoff.2.2 x) fun hx => hx.2) (fun _ _ hreg => hreg.elim) ?_
  intro i hi
  obtain rfl := Option.some.inj hi
  exact hown

/-- What is alive once a slot has been given its resource. -/
theorem alive_hold {x : Slot} {r : Nat} (h : Ledger s) :
    (s.hold x).Alive r ↔ s.Alive r ∨ r = s.made := by
  have hmade : s.made ∉ s.released := fun hr => absurd (h.made _ hr) (lt_irrefl _)
  constructor
  · rintro ⟨hlt, hr⟩
    rcases Nat.lt_succ_iff_lt_or_eq.mp hlt with hlt | rfl
    · exact .inl ⟨hlt, hr⟩
    · exact .inr rfl
  · rintro (⟨hlt, hr⟩ | rfl)
    · exact ⟨Nat.lt_succ_of_lt hlt, hr⟩
    · exact ⟨Nat.lt_succ_self _, hmade⟩

theorem ledger_hold {x : Slot} (h : Ledger s) (hx : ¬ s.Holds x) : Ledger (s.hold x) where
  slot y r hy := by
    by_cases hyx : y = x
    · subst hyx
      have hr : some s.made = some r := by simpa only [State.hold, Function.update_self] using hy
      obtain rfl := Option.some.inj hr
      exact ⟨Nat.lt_succ_self _, Function.update_self .., fun _ => (alive_hold h).mpr (.inr rfl)⟩
    · have hy' : s.slots y = some r := by
        simpa only [State.hold, Function.update_of_ne hyx] using hy
      obtain ⟨hlt, hown, halive⟩ := h.slot y r hy'
      refine ⟨Nat.lt_succ_of_lt hlt, (Function.update_of_ne hlt.ne ..).trans hown, ?_⟩
      exact fun hk => (alive_hold h).mpr (.inl (halive hk))
  kept r hr := by
    rcases (alive_hold h).mp hr with hr' | rfl
    · have hslot := h.kept r hr'
      have hne : s.owner r ≠ x := by
        intro heq
        exact hx ⟨r, heq ▸ hslot, hr'⟩
      simp only [State.hold, Function.update_of_ne hr'.1.ne, Function.update_of_ne hne, hslot]
    · simp only [State.hold, Function.update_self]
  once := h.once
  made r hr := Nat.lt_succ_of_lt (h.made r hr)

theorem holds_hold {x y : Slot} (h : Ledger s) (hx : ¬ s.Holds x) :
    (s.hold x).Holds y ↔ y = x ∨ s.Holds y := by
  constructor
  · rintro ⟨r, hr, halive⟩
    by_cases hyx : y = x
    · exact .inl hyx
    · have hr' : s.slots y = some r := by
        simpa only [State.hold, Function.update_of_ne hyx] using hr
      refine .inr ⟨r, hr', ((alive_hold h).mp halive).resolve_right ?_⟩
      exact (h.slot y r hr').1.ne
  · rintro (rfl | ⟨r, hr, halive⟩)
    · exact ⟨s.made, Function.update_self .., (alive_hold h).mpr (.inr rfl)⟩
    · have hyx : y ≠ x := by
        rintro rfl
        exact hx ⟨r, hr, halive⟩
      exact ⟨r, (Function.update_of_ne hyx ..).trans hr, (alive_hold h).mpr (.inl halive)⟩

theorem acquired_id : (Msg.acquired id k).id = some id := by cases k <;> rfl

theorem acquired_holds {j : Kind} :
    (Msg.acquired id k).holds j ↔ j = k ∨ (Msg.acquire k id).holds j := by
  cases k <;> cases j <;> simp [Msg.acquired, Msg.holds]

theorem acquire_not_holds : ¬ (Msg.acquire k id).holds k := by cases k <;> simp [Msg.holds]

theorem acquired_detects : ¬ (Msg.acquired id k).detects ∧ ¬ (Msg.acquired id k).results ∧
    ¬ (Msg.acquired id k).registered := by
  cases k <;> simp [Msg.acquired, Msg.detects, Msg.results, Msg.registered]

/-- While a request has not yet started the threads there are none. -/
theorem no_thread (h : Inv s on) (hd : ¬ s.msg.detects) (hr : ¬ s.msg.results) :
    (∀ t, ¬ (s.detect t).Exists) ∧ ∀ t, ¬ (s.result t).Exists :=
  ⟨fun t ht => hd ((h.detect t).mp ht).1.2, fun t ht => hr ((h.result t).mp ht).1.2⟩

theorem inv_acquire (h : Inv s on) (hm : s.msg = .acquire k id) :
    Inv { s.hold ⟨k, id⟩ with msg := .acquired id k } on := by
  have hon : on = some id := h.request id (by rw [hm]; rfl)
  have hfree : ¬ s.Holds ⟨k, id⟩ := by
    rw [h.holds, hm]
    exact fun hk => acquire_not_holds hk.2
  obtain ⟨hnone, hnone'⟩ := no_thread h (by rw [hm]; exact not_false) (by rw [hm]; exact not_false)
  obtain ⟨hdet, hres, hreg⟩ := @acquired_detects id k
  refine inv_quiet (s := s) h hnone hnone' hdet hres (ledger_msg (ledger_hold h.ledger hfree)) ?_ ?_
    (fun _ _ hm => absurd hm hreg) h.own
  · intro i hi
    rw [hon, ← hi, acquired_id]
  · rintro ⟨j, i⟩
    refine (holds_hold h.ledger hfree).trans ?_
    rw [h.holds, hm, acquired_holds, hon, Slot.mk.injEq, Option.some.injEq]
    dsimp only
    tauto

theorem inv_regcallback (h : Inv s on) (hm : s.msg = .regcallback id) :
    Inv { s with cb := some ⟨id, s.slots ⟨.osd, id⟩⟩, msg := .init id } on := by
  have hon : on = some id := h.request id (by rw [hm]; rfl)
  obtain ⟨hnone, hnone'⟩ := no_thread h (by rw [hm]; exact not_false) (by rw [hm]; exact not_false)
  refine inv_quiet h hnone hnone' not_false not_false
    ⟨h.ledger.slot, h.ledger.kept, h.ledger.once, h.ledger.made⟩ ?_ ?_ ?_ h.own
  · intro i hi
    rw [hon, ← hi]
    rfl
  · intro x
    exact (h.holds x).trans (by rw [hm]; rfl)
  · intro i hi _
    obtain rfl := Option.some.inj (hon.symm.trans hi)
    rfl

theorem inv_spawnDetect (h : Inv s on) (hm : s.msg = .spawnDetect id) :
    Inv { s with
      detect := Function.update s.detect s.detects .test
      detectThread := some s.detects, detects := s.detects + 1, msg := .spawnResult id } on := by
  have hon : on = some id := h.request id (by rw [hm]; rfl)
  obtain ⟨hnone, hnone'⟩ := no_thread h (by rw [hm]; exact not_false) (by rw [hm]; exact not_false)
  exact {
    ledger := ⟨h.ledger.slot, h.ledger.kept, h.ledger.once, h.ledger.made⟩
    request := fun i hi => by rw [hon, ← hi]; rfl
    holds := fun x => (h.holds x).trans (by rw [hm]; rfl)
    detect := fun _ => exists_started hnone trivial ⟨by rw [hon]; nofun, trivial⟩
    detectNew := fun _ => absent_started h.detectNew
    detectMade := fun t ht => by
      obtain rfl := Option.some.inj ht
      exact Nat.lt_succ_self _
    result := fun t => iff_of_false (hnone' t) fun ht => ht.1.2
    resultNew := h.resultNew
    resultMade := h.resultMade
    detectThere := fun _ _ => ⟨_, rfl⟩
    resultThere := fun _ hm => hm.elim
    cb := fun i hi _ => h.cb i hi (by rw [hm]; trivial)
    own := h.own
    entered := fun t again i he =>
      absurd (eq_of_moved he nofun) ((no_callback hnone).1 t again i)
    inside := fun t again f b hin =>
      absurd (eq_of_moved hin nofun) ((no_callback hnone).2 t again f b)
    deliver := fun t o ho => absurd ho (no_deliver hnone' t o) }

theorem inv_spawnResult (h : Inv s on) (hm : s.msg = .spawnResult id) :
    Inv { s with
      result := Function.update s.result s.results .test
      resultThread := some s.results, results := s.results + 1, msg := .store id true } on := by
  have hon : on = some id := h.request id (by rw [hm]; rfl)
  have hnone : ∀ t, ¬ (s.result t).Exists := by
    intro t
    rw [h.result, hm]
    exact fun ht => ht.1.2
  exact {
    ledger := ⟨h.ledger.slot, h.ledger.kept, h.ledger.once, h.ledger.made⟩
    request := fun i hi => by rw [hon, ← hi]; rfl
    holds := fun x => (h.holds x).trans (by rw [hm]; rfl)
    detect := fun t => (h.detect t).trans (by rw [hm]; rfl)
    detectNew := h.detectNew
    detectMade := h.detectMade
    result := fun _ => exists_started hnone trivial ⟨by rw [hon]; nofun, trivial⟩
    resultNew := fun _ => absent_started h.resultNew
    resultMade := fun t ht => by
      obtain rfl := Option.some.inj ht
      exact Nat.lt_succ_self _
    detectThere := fun ho _ => h.detectThere ho (by rw [hm]; trivial)
    resultThere := fun _ _ => ⟨_, rfl⟩
    cb := fun i hi _ => h.cb i hi (by rw [hm]; trivial)
    own := h.own
    entered := fun t again i he => ⟨(h.entered t again i he).1, trivial, trivial⟩
    inside := fun t again f b hin => by
      obtain ⟨i, hi, -, heq⟩ := h.inside t again f b hin
      exact ⟨i, hi, ⟨trivial, trivial⟩, heq⟩
    deliver := fun t o ho => absurd (eq_of_moved ho nofun) (no_deliver hnone t o) }

/-- What is alive once a slot's resource has been released. -/
theorem alive_drop {x : Slot} {r q : Nat} : (s.drop x r).Alive q ↔ s.Alive q ∧ q ≠ r := by
  simp only [State.Alive, State.drop, List.mem_cons, not_or]
  tauto

theorem ledger_drop {x : Slot} {r : Nat} (h : Ledger s) (hx : s.slots x = some r)
    (hr : s.Alive r) : Ledger (s.drop x r) where
  slot y q hy := by
    by_cases hyx : y = x
    · subst hyx
      have hq : y.cleared r = some q := by simpa only [State.drop, Function.update_self] using hy
      obtain ⟨hosd, hrq⟩ := Option.ite_none_right_eq_some.mp hq
      obtain rfl := Option.some.inj hrq
      exact ⟨(h.slot y r hx).1, (h.slot y r hx).2.1, fun hk => absurd hosd hk⟩
    · have hy' : s.slots y = some q := by
        simpa only [State.drop, Function.update_of_ne hyx] using hy
      obtain ⟨hlt, hown, halive⟩ := h.slot y q hy'
      refine ⟨hlt, hown, fun hk => alive_drop.mpr ⟨halive hk, ?_⟩⟩
      rintro rfl
      exact hyx (hown.symm.trans (h.slot x q hx).2.1)
  kept q hq := by
    obtain ⟨hq', hne⟩ := alive_drop.mp hq
    have hslot := h.kept q hq'
    have hown : s.owner q ≠ x := by
      intro heq
      rw [heq, hx] at hslot
      exact hne (Option.some.inj hslot).symm
    exact (Function.update_of_ne hown ..).trans hslot
  once := List.nodup_cons.mpr ⟨hr.2, h.once⟩
  made q hq := by
    rcases List.mem_cons.mp hq with rfl | hq
    · exact hr.1
    · exact h.made q hq

theorem holds_drop {x y : Slot} {r : Nat} (h : Ledger s) (hx : s.slots x = some r) :
    (s.drop x r).Holds y ↔ y ≠ x ∧ s.Holds y := by
  constructor
  · rintro ⟨q, hq, halive⟩
    obtain ⟨halive, hne⟩ := alive_drop.mp halive
    by_cases hyx : y = x
    · subst hyx
      have hq' : y.cleared r = some q := by simpa only [State.drop, Function.update_self] using hq
      exact absurd (Option.some.inj (Option.ite_none_right_eq_some.mp hq').2).symm hne
    · exact ⟨hyx, q, (Function.update_of_ne hyx ..).symm.trans hq, halive⟩
  · rintro ⟨hyx, q, hq, halive⟩
    refine ⟨q, (Function.update_of_ne hyx ..).trans hq, alive_drop.mpr ⟨halive, ?_⟩⟩
    rintro rfl
    exact hyx ((h.slot y q hq).2.1.symm.trans (h.slot x q hx).2.1)

theorem released_id : (Msg.released id k).id = some id := by cases k <;> rfl

theorem released_holds {j : Kind} :
    (Msg.released id k).holds j ↔ j ≠ k ∧ (Msg.release k id).holds j := by
  cases k <;> cases j <;> simp [Msg.released, Msg.holds]

theorem released_detects : (Msg.released id k).detects ∧ (Msg.released id k).results := by
  cases k <;> simp [Msg.released, Msg.detects, Msg.results]

theorem release_holds : (Msg.release k id).holds k := by cases k <;> simp [Msg.holds]

/-- A release keeps the OSD handle in its place. -/
theorem drop_osd {i : Int} {r : Nat} (hr : s.slots ⟨k, id⟩ = some r) :
    (s.drop ⟨k, id⟩ r).slots ⟨.osd, i⟩ = s.slots ⟨.osd, i⟩ := by
  by_cases hx : (⟨.osd, i⟩ : Slot) = ⟨k, id⟩
  · obtain ⟨rfl, rfl⟩ := Slot.mk.inj hx
    simp only [State.drop, Function.update_self, Slot.cleared, if_true, hr]
  · simp only [State.drop, Function.update_of_ne hx]

theorem inv_release {r : Nat} (h : Inv s on) (hm : s.msg = .release k id)
    (hr : s.slots ⟨k, id⟩ = some r) (hget : k = .fifo → ¬ Getting s)
    (hdel : k = .osd → ¬ Delivering s) :
    Inv { s.drop ⟨k, id⟩ r with msg := .released id k } on := by
  have hon : on = some id := h.request id (by rw [hm]; rfl)
  have halive : s.Alive r := by
    obtain ⟨q, hq, hq'⟩ := (h.holds ⟨k, id⟩).mpr ⟨hon, by rw [hm]; exact release_holds⟩
    obtain rfl := Option.some.inj (hr.symm.trans hq)
    exact hq'
  obtain ⟨hdet, hres⟩ := @released_detects id k
  -- behind the FIFO's release nobody enters
  have hfifo : s.msg.holds .fifo → k = .fifo := by
    rw [hm]
    cases k <;> simp [Msg.holds]
  exact {
    ledger := ledger_msg (ledger_drop h.ledger hr halive)
    request := fun i hi => by rw [hon, ← hi, released_id]
    holds := by
      rintro ⟨j, i⟩
      refine (holds_drop h.ledger hr).trans ?_
      rw [h.holds, hm, released_holds, hon, Ne, Slot.mk.injEq, Option.some.injEq]
      dsimp only
      constructor
      · rintro ⟨hne, rfl, hj⟩
        exact ⟨rfl, fun hjk => hne ⟨hjk, rfl⟩, hj⟩
      · rintro ⟨rfl, hne, hj⟩
        exact ⟨fun hjk => hne hjk.1, rfl, hj⟩
    detect := fun t => (h.detect t).trans
      (and_congr_left' (and_congr_right' (iff_of_true (by rw [hm]; trivial) hdet)))
    detectNew := h.detectNew
    detectMade := h.detectMade
    result := fun t => (h.result t).trans
      (and_congr_left' (and_congr_right' (iff_of_true (by rw [hm]; trivial) hres)))
    resultNew := h.resultNew
    resultMade := h.resultMade
    detectThere := fun ho _ => h.detectThere ho (by rw [hm]; trivial)
    resultThere := fun ho _ => h.resultThere ho (by rw [hm]; trivial)
    cb := fun i hi _ => by
      rw [drop_osd hr]
      exact h.cb i hi (by rw [hm]; trivial)
    own := h.own
    entered := fun t again i he => by
      have hk := hfifo (h.entered t again i he).2.1
      exact absurd ⟨t, again, .inl ⟨i, he⟩⟩ (hget hk)
    inside := fun t again f b hin => by
      obtain ⟨i, -, ⟨hf, -⟩, -⟩ := h.inside t again f b hin
      exact absurd ⟨t, again, .inr ⟨f, b, hin⟩⟩ (hget (hfifo hf))
    deliver := fun t o ho => by
      obtain ⟨i, hi, hosd, heq⟩ := h.deliver t o ho
      rw [hm] at hosd
      have hne : Kind.osd ≠ k := by
        rintro rfl
        exact hdel rfl ⟨t, o, ho⟩
      refine ⟨i, hi, released_holds.mpr ⟨hne, hosd⟩, ?_⟩
      rw [drop_osd hr]
      exact heq }

theorem inv_joinDetect {t : Nat} (h : Inv s on) (hm : s.msg = .joinDetect id)
    (ht : s.detectThread = some t) :
    Inv { s with detect := Function.update s.detect t .joined, msg := .joinResult id } on := by
  have hon : on = some id := h.request id (by rw [hm]; rfl)
  exact {
    ledger := ⟨h.ledger.slot, h.ledger.kept, h.ledger.once, h.ledger.made⟩
    request := fun i hi => by rw [hon, ← hi]; rfl
    holds := fun x => (h.holds x).trans (by rw [hm]; rfl)
    detect := fun _ => iff_of_false (not_exists_joined h.detect ht not_false) fun hu => hu.1.2
    detectNew := fun _ => absent_moved h.detectNew (h.detectMade t ht)
    detectMade := h.detectMade
    result := fun u => (h.result u).trans (by rw [hm]; rfl)
    resultNew := h.resultNew
    resultMade := h.resultMade
    detectThere := fun _ hd => hd.elim
    resultThere := fun ho _ => h.resultThere ho (by rw [hm]; trivial)
    cb := fun i hi _ => h.cb i hi (by rw [hm]; trivial)
    own := h.own
    entered := fun u again i he => by
      have hf := (h.entered u again i (eq_of_moved he nofun)).2.1
      rw [hm] at hf
      exact hf.elim
    inside := fun u again f b hin => by
      obtain ⟨i, -, ⟨hf, -⟩, -⟩ := h.inside u again f b (eq_of_moved hin nofun)
      rw [hm] at hf
      exact hf.elim
    deliver := fun u o ho => by
      obtain ⟨i, -, hosd, -⟩ := h.deliver u o ho
      rw [hm] at hosd
      exact hosd.elim }

theorem inv_joinResult {t : Nat} (h : Inv s on) (hm : s.msg = .joinResult id)
    (ht : s.resultThread = some t) :
    Inv { s with result := Function.update s.result t .joined, msg := .store id false } on := by
  have hon : on = some id := h.request id (by rw [hm]; rfl)
  exact {
    ledger := ⟨h.ledger.slot, h.ledger.kept, h.ledger.once, h.ledger.made⟩
    request := fun i hi => by rw [hon, ← hi]; rfl
    holds := fun x => (h.holds x).trans (by rw [hm]; rfl)
    detect := fun u => (h.detect u).trans (by rw [hm]; rfl)
    detectNew := h.detectNew
    detectMade := h.detectMade
    result := fun _ => iff_of_false (not_exists_joined h.result ht not_false) fun hu => hu.1.2
    resultNew := fun _ => absent_moved h.resultNew (h.resultMade t ht)
    resultMade := h.resultMade
    detectThere := fun _ hd => hd.elim
    resultThere := fun _ hr => hr.elim
    cb := fun i hi _ => h.cb i hi (by rw [hm]; trivial)
    own := h.own
    entered := fun u again i he => by
      have hf := (h.entered u again i he).2.1
      rw [hm] at hf
      exact hf.elim
    inside := fun u again f b hin => by
      obtain ⟨i, -, ⟨hf, -⟩, -⟩ := h.inside u again f b hin
      rw [hm] at hf
      exact hf.elim
    deliver := fun u o ho => by
      obtain ⟨i, -, hosd, -⟩ := h.deliver u o (eq_of_moved ho nofun)
      rw [hm] at hosd
      exact hosd.elim }

/-- The record is stored: the id stays on, or is off from here. -/
theorem inv_store {en : Bool} (h : Inv s on) (hm : s.msg = .store id en) :
    ∃ on', Inv { s with cfgs := Function.update s.cfgs id id, msg := .idle } on' := by
  have hon : on = some id := h.request id (by rw [hm]; rfl)
  cases en with
  | true =>
    refine ⟨on, ⟨⟨h.ledger.slot, h.ledger.kept, h.ledger.once, h.ledger.made⟩, nofun,
      fun x => (h.holds x).trans (by rw [hm]; rfl), fun t => (h.detect t).trans (by rw [hm]; rfl),
      h.detectNew, h.detectMade, fun t => (h.result t).trans (by rw [hm]; rfl), h.resultNew,
      h.resultMade, fun ho _ => h.detectThere ho (by rw [hm]; trivial),
      fun ho _ => h.resultThere ho (by rw [hm]; trivial),
      fun i hi _ => h.cb i hi (by rw [hm]; trivial), ?_, ?_, ?_, ?_⟩⟩
    · intro i hi
      obtain rfl := Option.some.inj (hon.symm.trans hi)
      exact Function.update_self ..
    · intro t again i he
      exact ⟨(h.entered t again i he).1, trivial, trivial⟩
    · intro t again f b hin
      obtain ⟨i, hi, -, heq⟩ := h.inside t again f b hin
      exact ⟨i, hi, ⟨trivial, trivial⟩, heq⟩
    · intro t o ho
      obtain ⟨i, hi, -, heq⟩ := h.deliver t o ho
      exact ⟨i, hi, trivial, heq⟩
  | false =>
    obtain ⟨hnone, hnone'⟩ :=
      no_thread h (by rw [hm]; exact not_false) (by rw [hm]; exact not_false)
    refine ⟨none, ⟨⟨h.ledger.slot, h.ledger.kept, h.ledger.once, h.ledger.made⟩, nofun, ?_,
      fun t => iff_of_false (hnone t) fun ht => ht.1.1 rfl, h.detectNew, h.detectMade,
      fun t => iff_of_false (hnone' t) fun ht => ht.1.1 rfl, h.resultNew, h.resultMade,
      fun ho => absurd rfl ho, fun ho => absurd rfl ho, nofun, nofun,
      fun t again i he => absurd he ((no_callback hnone).1 t again i),
      fun t again f b hin => absurd hin ((no_callback hnone).2 t again f b),
      fun t o ho => absurd ho (no_deliver hnone' t o)⟩⟩
    intro x
    refine iff_of_false ?_ nofun
    have hx := h.holds x
    rw [hm] at hx
    exact fun hholds => (hx.mp hholds).2

theorem inv_other (h : Inv s on) : Inv { s with cfgs := Function.update s.cfgs id id } on :=
  { h with
    ledger := ⟨h.ledger.slot, h.ledger.kept, h.ledger.once, h.ledger.made⟩
    own := by
      intro i hi
      by_cases hid : i = id
      · subst hid
        exact Function.update_self ..
      · exact (Function.update_of_ne hid ..).trans (h.own i hi) }

theorem inv_step (hs : Step s a t) (hok : Ok s a) (h : Inv s on) : ∃ on', Inv t on' := by
  cases hs with
  | enable hm hid => exact ⟨_, inv_enable h hok.2.1 hok.2.2⟩
  | @disable id hm hid =>
    have hon := ((h.holds ⟨.fifo, id⟩).mp hok.2).1
    refine ⟨on, inv_msg h ?_ ?_ ?_ ?_ ?_⟩
    · rintro i ⟨⟩
      exact hon
    all_goals simp [hm, Msg.holds, Msg.detects, Msg.results, Msg.registered]
  | @wild _ id en hm hid =>
    cases en with
    | true => exact absurd hok.1 hid
    | false => exact absurd hok.1 hid
  | other hm hid => exact ⟨on, inv_other h⟩
  | wildOther hm hid => exact absurd hok hid
  | acquire hm => exact ⟨on, inv_acquire h hm⟩
  | noMemory hm => cases hok.1
  | regcallback hm => exact ⟨on, inv_regcallback h hm⟩
  | @init id hm =>
    refine ⟨on, inv_msg h ?_ ?_ ?_ ?_ ?_⟩
    · rintro i ⟨⟩
      exact h.request id (by rw [hm]; rfl)
    all_goals simp [hm, Msg.holds, Msg.detects, Msg.results, Msg.registered]
  | spawnDetect hm => exact ⟨on, inv_spawnDetect h hm⟩
  | noDetect hm => cases hok.1
  | spawnResult hm => exact ⟨on, inv_spawnResult h hm⟩
  | noResult hm => cases hok.1
  | release hm hr =>
    refine ⟨on, inv_release h hm hr ?_ ?_⟩
    · rintro rfl
      exact hok.2.1 _ hm
    · rintro rfl
      exact hok.2.2 _ hm
  | @skip k id hm hr =>
    have hon : on = some id := h.request id (by rw [hm]; rfl)
    obtain ⟨r, hr', -⟩ := (h.holds ⟨k, id⟩).mpr ⟨hon, by rw [hm]; exact release_holds⟩
    cases hr.symm.trans hr'
  | @stop id hm =>
    refine ⟨on, inv_msg h ?_ ?_ ?_ ?_ ?_⟩
    · rintro i ⟨⟩
      exact h.request id (by rw [hm]; rfl)
    all_goals simp [hm, Msg.holds, Msg.detects, Msg.results, Msg.registered]
  | joinDetect hm ht hd => exact ⟨on, inv_joinDetect h hm ht⟩
  | joinResult hm ht hd => exact ⟨on, inv_joinResult h hm ht⟩
  | store hm => exact inv_store h hm
  | detectTest ht hs => exact ⟨on, inv_detect h (by rw [ht]; trivial) trivial nofun nofun⟩
  | detectStop ht hs => exact ⟨on, inv_detect h (by rw [ht]; trivial) trivial nofun nofun⟩
  | @detectEnter t again c ht hc =>
    have hexists : (s.detect t).Exists := by rw [ht]; trivial
    have hheld := hok again ht
    obtain ⟨⟨hon, hd⟩, -⟩ := (h.detect t).mp hexists
    obtain ⟨i, hi⟩ := Option.ne_none_iff_exists'.mp hon
    refine ⟨on, inv_detect h hexists trivial ?_ nofun⟩
    rintro again' i' ⟨rfl, rfl⟩
    have hreg : s.msg.registered := by
      cases hm : s.msg <;> simp_all [Msg.detects, Msg.registered]
    obtain rfl := Option.some.inj (hc.symm.trans (h.cb i hi hreg))
    exact ⟨hi, hheld⟩
  | @detectRead t again i ht =>
    obtain ⟨hon, hheld⟩ := h.entered t again i ht
    refine ⟨on, inv_detect h (by rw [ht]; trivial) trivial nofun ?_⟩
    rintro again' f b ⟨rfl, rfl, rfl⟩
    exact ⟨i, hon, hheld, by rw [h.own i hon], by rw [h.own i hon]⟩
  | detectGot ht => exact ⟨on, inv_detect h (by rw [ht]; trivial) trivial nofun nofun⟩
  | detectBack ht => exact ⟨on, inv_detect h (by rw [ht]; trivial) trivial nofun nofun⟩
  | detectFail ht => exact ⟨on, inv_detect h (by rw [ht]; trivial) trivial nofun nofun⟩
  | detectPut ht hq => exact ⟨on, inv_detect h (by rw [ht]; trivial) trivial nofun nofun⟩
  | detectSkip ht => exact ⟨on, inv_detect h (by rw [ht]; trivial) trivial nofun nofun⟩
  | resultTest ht hs => exact ⟨on, inv_result h (by rw [ht]; trivial) trivial nofun⟩
  | resultStop ht hs => exact ⟨on, inv_result h (by rw [ht]; trivial) trivial nofun⟩
  | @resultTake t c ht hq hc =>
    have hexists : (s.result t).Exists := by rw [ht]; trivial
    obtain ⟨⟨hon, hr⟩, -⟩ := (h.result t).mp hexists
    obtain ⟨i, hi⟩ := Option.ne_none_iff_exists'.mp hon
    refine ⟨on, inv_result h hexists trivial ?_⟩
    rintro o ⟨rfl⟩
    have hreg : s.msg.registered := by
      cases hm : s.msg <;> simp_all [Msg.results, Msg.registered]
    obtain rfl := Option.some.inj (hc.symm.trans (h.cb i hi hreg))
    exact ⟨i, hi, hok ht, rfl⟩
  | delivered ht => exact ⟨on, inv_result h (by rw [ht]; trivial) trivial nofun⟩

/-- In every run whose steps meet the condition, threads and resources are as they should be in
every state reached. -/
theorem life_sound {cfgs : Int → Int} {acts : List Action}
    (h : Lts.MTr (Lts.Restrict Step Ok) (initial cfgs) acts s) : Sound s := by
  have hinv : Lts.TrInv (Lts.Restrict Step Ok) fun s => ∃ on, Inv s on := by
    rintro s a t ⟨hs, hok⟩ ⟨on, hi⟩
    exact inv_step hs hok hi
  obtain ⟨on, hi⟩ := Lts.mtrInv_of_trInv hinv h ⟨none, inv_initial cfgs⟩
  exact sound_of_inv hi

theorem off_initial {cfgs : Int → Int} : Off (initial cfgs) := by
  refine ⟨fun _ => not_false, fun _ => not_false, ?_⟩
  rintro x ⟨r, hr, -⟩
  cases hr

/-- The algorithm is enabled, and its thread waits for a frame. -/
theorem life_sound_enabled : ∃ s, s.detect 0 = .inside false (some 0) (some 2) ∧ Sound s := by
  have h0 : InRange 0 := ⟨le_refl 0, by decide⟩
  refine ⟨_, ?_, @life_sound _ (fun _ => 0) _ <|
    .stepL ⟨.enable rfl h0, h0, off_initial, rfl⟩ <|
    .stepL ⟨.acquire rfl, rfl, nofun, nofun⟩ <|
    .stepL ⟨.acquire rfl, rfl, nofun, nofun⟩ <|
    .stepL ⟨.acquire rfl, rfl, nofun, nofun⟩ <|
    .stepL ⟨.regcallback rfl, rfl, nofun, nofun⟩ <|
    .stepL ⟨.init rfl, rfl, nofun, nofun⟩ <|
    .stepL ⟨.spawnDetect rfl, rfl, nofun, nofun⟩ <|
    .stepL ⟨.spawnResult rfl, rfl, nofun, nofun⟩ <|
    .stepL ⟨.detectTest (t := 0) rfl rfl, by rintro _ ⟨⟩⟩ <|
    .stepL ⟨.detectEnter (t := 0) rfl rfl, fun _ _ => ⟨trivial, trivial⟩⟩ <|
    .stepL ⟨.detectRead (t := 0) rfl, by rintro _ ⟨⟩⟩ .refl⟩
  rfl

/-- Disabled before it was ever enabled, the algorithm joins a thread that was never started. -/
theorem joins_nothing : ∃ acts s, Lts.MTr Step (initial fun _ => 0) acts s ∧
    s.msg = .joinDetect 0 ∧ s.detectThread = none ∧ ¬ Sound s := by
  have h0 : InRange 0 := ⟨le_refl 0, by decide⟩
  refine ⟨_, _,
    .stepL (.disable rfl h0) <|
    .stepL (.skip rfl rfl) <|
    .stepL (.skip rfl rfl) <|
    .stepL (.skip rfl rfl) <|
    .stepL (.stop rfl) .refl, rfl, rfl, ?_⟩
  intro h
  obtain ⟨t, ht, -⟩ := h.joinDetect 0 rfl
  cases ht

end Freak.Alg.Life
