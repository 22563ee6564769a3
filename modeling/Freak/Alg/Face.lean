import Freak.Utils.Que

/-! Stopping the face algorithm: `__hs_fd_destroy` against its two threads. -/
namespace Freak.Alg

open Freak.Utils

/-- `hs_fd_task`: at the test of the stop flag, in the loop's body, returned. -/
inductive Detect
  | test
  | work
  | done
deriving DecidableEq

/-- `hs_fd_result_task`: at the test, on the way into `que_get`, asleep in it, delivering. -/
inductive Result
  | test
  | get
  | asleep
  | deliver
  | done
deriving DecidableEq

/-- `__hs_fd_destroy`. -/
inductive Destroy
  | idle
  | joinDetect
  | joinResult
  | released
deriving DecidableEq

structure Face (α : Type) where
  resultQue : Que α
  stop : Bool
  detect : Detect
  result : Result
  destroy : Destroy

inductive Action (α : Type)
  | stop
  | joinDetect
  | joinResult
  | detectWork
  | detectStop
  | detectFail
  | detectSkip
  | detectPut (v : α)
  | resultGet
  | resultStop
  | resultTake
  | spurious
  | delivered

namespace Face

variable {α : Type}

/-- After `__hs_fd_init`, with any queue. -/
def start (q : Que α) : Face α := ⟨q, false, .test, .test, .idle⟩

def woken (o : Outcome α) (r : Result) : Result :=
  if o.signal = some .condRd ∧ r = .asleep then .get else r

def taken : Outcome α → Result
  | .returned _ _ _ => .deliver
  | .waits _ => .asleep

end Face

variable {α : Type} {s t : Face α} {a : Action α} {acts : List (Action α)}

inductive Step : Face α → Action α → Face α → Prop
  | stop {s : Face α} (hd : s.destroy = .idle) :
      Step s .stop { s with stop := true, destroy := .joinDetect }
  | joinDetect {s : Face α} (hd : s.destroy = .joinDetect) (ht : s.detect = .done) :
      Step s .joinDetect { s with destroy := .joinResult }
  | joinResult {s : Face α} (hd : s.destroy = .joinResult) (hr : s.result = .done) :
      Step s .joinResult { s with destroy := .released }
  | detectWork {s : Face α} (ht : s.detect = .test) (hs : s.stop = false) :
      Step s .detectWork { s with detect := .work }
  | detectStop {s : Face α} (ht : s.detect = .test) (hs : s.stop = true) :
      Step s .detectStop { s with detect := .done }
  -- an image operation fails: `return NULL`
  | detectFail {s : Face α} (ht : s.detect = .work) :
      Step s .detectFail { s with detect := .done }
  -- no frame, no callback or no memory for the results
  | detectSkip {s : Face α} (ht : s.detect = .work) :
      Step s .detectSkip { s with detect := .test }
  | detectPut {s : Face α} {v : α} {q : Que α} {o : Outcome α} (ht : s.detect = .work)
      (hp : s.resultQue.put v false = some (q, o)) :
      Step s (.detectPut v)
        { s with resultQue := q, detect := .test, result := Face.woken o s.result }
  | resultGet {s : Face α} (hr : s.result = .test) (hs : s.stop = false) :
      Step s .resultGet { s with result := .get }
  | resultStop {s : Face α} (hr : s.result = .test) (hs : s.stop = true) :
      Step s .resultStop { s with result := .done }
  | resultTake {s : Face α} {q : Que α} {o : Outcome α} (hr : s.result = .get)
      (hg : s.resultQue.get true = some (q, o)) :
      Step s .resultTake { s with resultQue := q, result := Face.taken o }
  | spurious {s : Face α} (hr : s.result = .asleep) :
      Step s .spurious { s with result := .get }
  | delivered {s : Face α} (hr : s.result = .deliver) :
      Step s .delivered { s with result := .test }

/-- The result thread sleeps on an empty queue and nobody is left to put into it. -/
def Stuck (s : Face α) : Prop :=
  s.stop = true ∧ s.detect = .done ∧ s.result = .asleep ∧ s.resultQue.len = 0

/-- The result thread is inside `que_get` of an empty queue. -/
def Starved (s : Face α) : Prop :=
  (s.result = .get ∨ s.result = .asleep) ∧ s.resultQue.len = 0

/-- The stop flag and the end of the detection thread do not meet a starved result thread. -/
def Ok (s : Face α) : Action α → Prop
  | .stop => s.detect = .done → ¬ Starved s
  | .detectStop => ¬ Starved s
  | .detectFail => s.stop = true → ¬ Starved s
  | _ => True

def Inv (s : Face α) : Prop :=
  s.resultQue.Valid ∧ (s.stop = true → s.detect = .done → ¬ Starved s)

theorem inv_step (h : Step s a t) (ha : Ok s a) (hs : Inv s) : Inv t := by
  obtain ⟨hv, hi⟩ := hs
  cases h with
  | stop hd => exact ⟨hv, fun _ hdone => ha hdone⟩
  | joinDetect | joinResult => exact ⟨hv, hi⟩
  | detectWork ht hs | detectSkip ht => exact ⟨hv, nofun⟩
  | detectStop ht hs => exact ⟨hv, fun _ _ => ha⟩
  | detectFail ht => exact ⟨hv, fun hstop _ => ha hstop⟩
  | detectPut ht hp =>
    rename_i v q o
    obtain ⟨q', o', hp', hv', -⟩ := critical_meets hv (.put v false)
    obtain ⟨rfl, rfl⟩ := Prod.mk.inj (Option.some.inj (hp.symm.trans hp'))
    exact ⟨hv', nofun⟩
  | resultGet hr hs =>
    refine ⟨hv, ?_⟩
    intro hstop
    cases hs.symm.trans hstop
  | resultStop hr hs =>
    refine ⟨hv, ?_⟩
    rintro - - ⟨h | h, -⟩ <;> cases h
  | resultTake hr hg =>
    rcases Que.get_cases hv true with ⟨-, q', x, hv', -, -, -, hget⟩ | ⟨hz, -, hget⟩ | ⟨-, h, -⟩
    · obtain ⟨rfl, rfl⟩ := Prod.mk.inj (Option.some.inj (hg.symm.trans hget))
      refine ⟨hv', ?_⟩
      rintro - - ⟨h | h, -⟩ <;> cases h
    · obtain ⟨rfl, rfl⟩ := Prod.mk.inj (Option.some.inj (hg.symm.trans hget))
      refine ⟨hv, ?_⟩
      intro hstop hdone
      exact absurd ⟨Or.inl hr, hz⟩ (hi hstop hdone)
    · cases h
  | spurious hr =>
    refine ⟨hv, ?_⟩
    rintro hstop hdone ⟨-, hz⟩
    exact hi hstop hdone ⟨Or.inr hr, hz⟩
  | delivered hr =>
    refine ⟨hv, ?_⟩
    rintro - - ⟨h | h, -⟩ <;> cases h

/-- No run whose steps meet the condition gets stuck. -/
theorem stop_safe (q : Que α) (hq : q.Valid)
    (h : Lts.MTr (Lts.Restrict Step Ok) (Face.start q) acts s) : ¬ Stuck s := by
  have hinv : Lts.TrInv (Lts.Restrict Step Ok) (Inv (α := α)) := by
    intro s a t hs hi
    exact inv_step hs.1 hs.2 hi
  obtain ⟨-, hi⟩ := Lts.mtrInv_of_trInv hinv h ⟨hq, nofun⟩
  rintro ⟨hstop, hdone, hr, hz⟩
  exact hi hstop hdone ⟨Or.inr hr, hz⟩

/-- The flag is set before the result thread looks at it. -/
theorem stop_safe_early : ∃ s : Face Nat, s.destroy = .joinResult ∧ s.result = .done ∧
    ¬ Stuck s := by
  refine ⟨_, ?_, ?_, stop_safe (Que.create 32 fun _ => 0) (Que.valid_create 32 _) <|
    .stepL ⟨.stop rfl, nofun⟩ <|
    .stepL ⟨.detectStop rfl rfl, by rintro ⟨h | h, -⟩ <;> cases h⟩ <|
    .stepL ⟨.joinDetect rfl rfl, trivial⟩ <|
    .stepL ⟨.resultStop rfl rfl, trivial⟩ .refl⟩ <;> rfl

/-- The result thread falls asleep, the flag is set and the detection thread returns. -/
theorem stop_stuck : ∃ acts s, Lts.MTr Step (Face.start (Que.create 32 fun _ => (0 : Nat))) acts s ∧
    s.destroy = .joinResult ∧ Stuck s := by
  refine ⟨_, _,
    .stepL (.resultGet rfl rfl) <|
    .stepL (.resultTake rfl rfl) <|
    .stepL (.stop rfl) <|
    .stepL (.detectStop rfl rfl) <|
    .stepL (.joinDetect rfl rfl) .refl, rfl, rfl, rfl, rfl, rfl⟩

/-- The condition leaves out no run that matters: a step that breaks it is one step from being
stuck. -/
theorem stuck_of_not_ok (h : Step s a t) (ha : ¬ Ok s a) :
    Stuck t ∨ ∃ u, Step t .resultTake u ∧ Stuck u := by
  have hgo : t.stop = true → t.detect = .done → Starved t →
      Stuck t ∨ ∃ u, Step t .resultTake u ∧ Stuck u := by
    rintro hstop hdone ⟨hr | hr, hz⟩
    · refine Or.inr ⟨_, .resultTake (q := t.resultQue) (o := .waits .condRd) hr ?_, hstop, hdone,
        rfl, hz⟩
      simp [Que.get, hz]
    · exact Or.inl ⟨hstop, hdone, hr, hz⟩
  cases h with
  | stop hd =>
    obtain ⟨hdone, hst⟩ := not_forall.mp ha
    exact hgo rfl hdone (not_not.mp hst)
  | detectStop ht hs => exact hgo hs rfl (not_not.mp ha)
  | detectFail ht =>
    obtain ⟨hstop, hst⟩ := not_forall.mp ha
    exact hgo hstop rfl (not_not.mp hst)
  | _ => exact absurd trivial ha

end Freak.Alg
