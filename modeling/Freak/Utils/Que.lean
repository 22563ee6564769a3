import Freak.Lib.Lts
import Freak.Lib.Ring

/-! The bounded queue of `que.c`: its critical sections and the threads that run them. -/
namespace Freak.Utils

/-- `que_priv_t` without its lock and conditions. -/
structure Que (α : Type) where
  depth : Nat
  len : Nat
  curRd : Nat
  curWr : Nat
  elements : Nat → α

inductive Cond
  | condRd
  | condWr
deriving DecidableEq

/-- How a critical section ends: with a return value, the value delivered through `val` and the
condition signalled, or in `pthread_cond_wait`. -/
inductive Outcome (α : Type)
  | returned (ret : Int) (val : Option α) (signal : Option Cond)
  | waits (c : Cond)

namespace Outcome

variable {α : Type}

def ret : Outcome α → Option Int
  | returned r _ _ => some r
  | waits _ => none

def val : Outcome α → Option α
  | returned _ v _ => v
  | waits _ => none

def signal : Outcome α → Option Cond
  | returned _ _ c => c
  | waits _ => none

end Outcome

def eagain : Int := 11

namespace Que

variable {α : Type}

/-- `que_create`; the elements are what `malloc` returns. -/
def create (depth : Nat) (elements : Nat → α) : Que α := ⟨depth, 0, 0, 0, elements⟩

/-- The array has `depth` slots; an index past them is a fault. -/
def slot (q : Que α) (i : Nat) : Option Nat := if i < q.depth then some i else none

/-- `(i + 1) % depth`, a fault when `depth` is 0. -/
def advance (q : Que α) (i : Nat) : Option Nat :=
  if q.depth = 0 then none else some ((i + 1) % q.depth)

/-- One round of the loop in `que_put`. -/
def put (q : Que α) (v : α) (block : Bool) : Option (Que α × Outcome α) :=
  if q.len < q.depth then do
    let i ← q.slot q.curWr
    let w ← q.advance q.curWr
    some ({ q with elements := Function.update q.elements i v, curWr := w, len := q.len + 1 },
      .returned 0 none (some .condRd))
  else if block then some (q, .waits .condWr)
  else some (q, .returned (-eagain) none none)

/-- One round of the loop in `que_get`. -/
def get (q : Que α) (block : Bool) : Option (Que α × Outcome α) :=
  if 0 < q.len then do
    let i ← q.slot q.curRd
    let r ← q.advance q.curRd
    some ({ q with curRd := r, len := q.len - 1 },
      .returned 0 (some (q.elements i)) (some .condWr))
  else if block then some (q, .waits .condRd)
  else some (q, .returned (-eagain) none none)

def peek (q : Que α) : Option (Que α × Outcome α) :=
  if 0 < q.len then do
    let i ← q.slot q.curRd
    some (q, .returned 0 (some (q.elements i)) none)
  else some (q, .returned 0 none none)

def lenOf (q : Que α) : Option (Que α × Outcome α) := some (q, .returned q.len none none)

def isempty (q : Que α) : Option (Que α × Outcome α) :=
  some (q, .returned (if q.len = 0 then 1 else 0) none none)

def isfull (q : Que α) : Option (Que α × Outcome α) :=
  some (q, .returned (if q.len = q.depth then 1 else 0) none none)

/-- The FIFO list the queue stands for. -/
def contents (q : Que α) : List α := Ring.items q.depth q.curRd q.len q.elements

structure Valid (q : Que α) : Prop where
  len_le : q.len ≤ q.depth
  curRd_lt : 0 < q.depth → q.curRd < q.depth
  curWr_lt : 0 < q.depth → q.curWr < q.depth
  curWr_eq : q.curWr = (q.curRd + q.len) % q.depth

theorem valid_create (depth : Nat) (elements : Nat → α) : (create depth elements).Valid := by
  refine ⟨Nat.zero_le depth, id, id, ?_⟩
  simp [create]

@[simp] theorem length_contents (q : Que α) : q.contents.length = q.len := Ring.length_items

end Que

/-- The calls a thread may make. -/
inductive Call (α : Type)
  | put (v : α) (block : Bool)
  | get (block : Bool)
  | peek
  | len
  | isempty
  | isfull

namespace Call

variable {α : Type}

def critical (q : Que α) : Call α → Option (Que α × Outcome α)
  | put v block => q.put v block
  | get block => q.get block
  | peek => q.peek
  | len => q.lenOf
  | isempty => q.isempty
  | isfull => q.isfull

/-- The condition a call may sleep on. -/
def cond : Call α → Option Cond
  | put _ _ => some .condWr
  | get _ => some .condRd
  | peek | len | isempty | isfull => none

/-- The calls that only look. -/
def observes : Call α → Bool
  | put _ _ | get _ => false
  | peek | len | isempty | isfull => true

/-- What a call that ends with an outcome does to a bounded FIFO list. -/
def Meets (depth : Nat) (xs ys : List α) : Call α → Outcome α → Prop
  | put v block, o =>
    (o.ret = some 0 ↔ ys = xs ++ [v]) ∧ (o.ret ≠ some 0 → ys = xs) ∧
      (o.ret = some 0 ↔ xs.length < depth) ∧
      (¬ xs.length < depth → block = false → ∃ e < 0, o.ret = some e)
  | get block, o =>
    (o.ret = some 0 ↔ ∃ x, xs = x :: ys ∧ o.val = some x) ∧ (o.ret ≠ some 0 → ys = xs) ∧
      (o.ret = some 0 ↔ xs ≠ []) ∧ (xs = [] → block = false → ∃ e < 0, o.ret = some e)
  | peek, o => ys = xs ∧ o.val = xs.head?
  | len, o => ys = xs ∧ o.ret = some (xs.length : Int)
  | isempty, o => ys = xs ∧ o.ret = some (if xs = [] then 1 else 0)
  | isfull, o => ys = xs ∧ o.ret = some (if xs.length = depth then 1 else 0)

end Call

namespace Que

variable {α : Type} {q q' : Que α} {o : Outcome α}

/-- What a critical section of a valid queue can do. -/
theorem put_cases (hq : q.Valid) (v : α) (block : Bool) :
    (q.len < q.depth ∧ ∃ q' : Que α, q'.Valid ∧ q'.depth = q.depth ∧ q'.len = q.len + 1 ∧
      q'.contents = q.contents ++ [v] ∧
      q.put v block = some (q', .returned 0 none (some .condRd))) ∨
    (q.len = q.depth ∧ block = true ∧ q.put v block = some (q, .waits .condWr)) ∨
    (q.len = q.depth ∧ block = false ∧
      q.put v block = some (q, .returned (-eagain) none none)) := by
  obtain ⟨hle, hrd, hwr, heq⟩ := hq
  by_cases hlt : q.len < q.depth
  · left
    have hpos : 0 < q.depth := by omega
    refine ⟨hlt, ⟨q.depth, q.len + 1, q.curRd, (q.curWr + 1) % q.depth,
      Function.update q.elements q.curWr v⟩, ⟨hlt, hrd, fun _ => Nat.mod_lt _ hpos, ?_⟩, rfl, rfl,
      ?_, ?_⟩
    · rw [heq, Nat.mod_add_mod, Nat.add_assoc]
    · simp only [contents]
      rw [heq]
      exact Ring.items_push hlt v
    · simp [put, slot, advance, hlt, hwr hpos, hpos.ne']
  · right
    cases block
    · exact Or.inr ⟨by omega, rfl, by simp [put, hlt]⟩
    · exact Or.inl ⟨by omega, rfl, by simp [put, hlt]⟩

theorem get_cases (hq : q.Valid) (block : Bool) :
    (0 < q.len ∧ ∃ (q' : Que α) (x : α), q'.Valid ∧ q'.depth = q.depth ∧ q.len = q'.len + 1 ∧
      q.contents = x :: q'.contents ∧
      q.get block = some (q', .returned 0 (some x) (some .condWr))) ∨
    (q.len = 0 ∧ block = true ∧ q.get block = some (q, .waits .condRd)) ∨
    (q.len = 0 ∧ block = false ∧ q.get block = some (q, .returned (-eagain) none none)) := by
  obtain ⟨hle, hrd, hwr, heq⟩ := hq
  by_cases hlt : 0 < q.len
  · left
    have hpos : 0 < q.depth := by omega
    have hsucc : q.len - 1 + 1 = q.len := by omega
    refine ⟨hlt, ⟨q.depth, q.len - 1, (q.curRd + 1) % q.depth, q.curWr, q.elements⟩,
      q.elements q.curRd, ⟨?_, fun _ => Nat.mod_lt _ hpos, hwr, ?_⟩, rfl, hsucc.symm, ?_, ?_⟩
    · simp only
      omega
    · simp only
      rw [Nat.mod_add_mod, heq]
      congr 1
      omega
    · have hpop := @Ring.items_pop _ q.depth q.curRd (q.len - 1) q.elements (hrd hpos)
      rw [hsucc] at hpop
      exact hpop
    · simp [get, slot, advance, hlt, hrd hpos, hpos.ne']
  · right
    cases block
    · exact Or.inr ⟨by omega, rfl, by simp [get, hlt]⟩
    · exact Or.inl ⟨by omega, rfl, by simp [get, hlt]⟩

end Que

/-- Where a thread is: outside, about to take the lock (after being signalled or not), or in
`pthread_cond_wait`. -/
inductive Pc (α : Type)
  | idle
  | ready (c : Call α) (signalled : Bool)
  | asleep (c : Call α)

structure Sys (T α : Type) where
  que : Que α
  pc : T → Pc α

inductive Action (T α : Type)
  | call (t : T) (c : Call α)
  | run (t : T) (c : Call α) (o : Outcome α)
  | spurious (t : T)

namespace Sys

variable {T α : Type}

def Sleeps (s : Sys T α) (d : Cond) (t : T) : Prop := ∃ c, s.pc t = .asleep c ∧ c.cond = some d

def Signalled (s : Sys T α) (d : Cond) (t : T) : Prop :=
  ∃ c, s.pc t = .ready c true ∧ c.cond = some d

end Sys

namespace Outcome

variable {T α : Type}

/-- `pthread_cond_signal` wakes at least one of the threads asleep on its condition, if there is
one, and no other. -/
def Wakes (o : Outcome α) (s : Sys T α) (woken : T → Bool) : Prop :=
  (∀ t, woken t = true → ∃ d, o.signal = some d ∧ s.Sleeps d t) ∧
    ∀ d, o.signal = some d → (∃ t, s.Sleeps d t) → ∃ t, woken t = true

def next (c : Call α) : Outcome α → Pc α
  | returned _ _ _ => .idle
  | waits _ => .asleep c

end Outcome

namespace Pc

variable {α : Type}

def wake : Pc α → Pc α
  | asleep c => ready c true
  | pc => pc

end Pc

section History

variable {T α : Type}

/-- The values put by calls that returned 0, in the order they did. -/
def puts : List (Action T α) → List α
  | [] => []
  | .run _ (.put v _) o :: acts => (if o.ret = some 0 then [v] else []) ++ puts acts
  | _ :: acts => puts acts

/-- The values delivered by the calls to `que_get` that returned 0. -/
def gets : List (Action T α) → List α
  | [] => []
  | .run _ (.get _) o :: acts => (if o.ret = some 0 then o.val.toList else []) ++ gets acts
  | _ :: acts => gets acts

/-- Every call of a valid queue ends its critical section as the FIFO list does. -/
theorem critical_meets {q : Que α} (hq : q.Valid) (c : Call α) :
    ∃ q' o, c.critical q = some (q', o) ∧ q'.Valid ∧ q'.depth = q.depth ∧
      c.Meets q.depth q.contents q'.contents o ∧
      (c.observes = true ∨ o.ret ≠ some 0 → q' = q) := by
  cases c with
  | put v block =>
    rcases Que.put_cases hq v block with ⟨hlt, q', hv, hd, -, hcat, hput⟩ | ⟨hfull, rfl, hput⟩ |
      ⟨hfull, rfl, hput⟩
    · refine ⟨q', _, hput, hv, hd, ?_⟩
      simp [Call.Meets, Call.observes, Outcome.ret, hcat, hlt]
    · refine ⟨q, _, hput, hq, rfl, ?_⟩
      simp [Call.Meets, Outcome.ret, hfull]
    · refine ⟨q, _, hput, hq, rfl, ?_⟩
      simp [Call.Meets, Outcome.ret, hfull, eagain]
  | get block =>
    rcases Que.get_cases hq block with ⟨-, q', x, hv, hd, -, hcat, hget⟩ | ⟨hz, rfl, hget⟩ |
      ⟨hz, rfl, hget⟩
    · refine ⟨q', _, hget, hv, hd, ?_⟩
      simp [Call.Meets, Call.observes, Outcome.ret, Outcome.val, hcat]
    · have hnil : q.contents = [] := Ring.items_eq_nil.mpr hz
      exact ⟨q, _, hget, hq, rfl, by simp [Call.Meets, Outcome.ret, hnil]⟩
    · have hnil : q.contents = [] := Ring.items_eq_nil.mpr hz
      exact ⟨q, _, hget, hq, rfl, by simp [Call.Meets, Outcome.ret, hnil, eagain]⟩
  | peek =>
    by_cases hlt : 0 < q.len
    · have hpos : 0 < q.depth := hlt.trans_le hq.len_le
      obtain ⟨n, hn⟩ : ∃ n, q.len = n + 1 := ⟨q.len - 1, by omega⟩
      have hhead : q.contents.head? = some (q.elements q.curRd) := by
        rw [Que.contents, hn, Ring.items_pop (hq.curRd_lt hpos)]
        rfl
      refine ⟨q, .returned 0 (some (q.elements q.curRd)) none, ?_, hq, rfl, ?_⟩
      · simp [Call.critical, Que.peek, Que.slot, hlt, hq.curRd_lt hpos]
      · exact ⟨⟨rfl, hhead.symm⟩, fun _ => rfl⟩
    · have hnil : q.contents = [] := Ring.items_eq_nil.mpr (by omega)
      refine ⟨q, .returned 0 none none, ?_, hq, rfl, ?_⟩
      · simp [Call.critical, Que.peek, hlt]
      · simp [Call.Meets, Outcome.val, hnil]
  | len => exact ⟨q, _, rfl, hq, rfl, by simp [Call.Meets, Outcome.ret]⟩
  | isempty =>
    refine ⟨q, _, rfl, hq, rfl, ⟨rfl, ?_⟩, fun _ => rfl⟩
    simp [Outcome.ret, ← List.length_eq_zero_iff]
  | isfull => exact ⟨q, _, rfl, hq, rfl, by simp [Call.Meets, Outcome.ret]⟩

theorem puts_cons (a : Action T α) (acts : List (Action T α)) :
    puts (a :: acts) = puts [a] ++ puts acts := by
  cases a with
  | call | spurious => rfl
  | run t c o => cases c <;> simp [puts]

theorem gets_cons (a : Action T α) (acts : List (Action T α)) :
    gets (a :: acts) = gets [a] ++ gets acts := by
  cases a with
  | call | spurious => rfl
  | run t c o => cases c <;> simp [gets]

/-- What is put goes in at the end, what is delivered comes off the front. -/
theorem conserved_run {depth : Nat} {xs ys : List α} {c : Call α} {o : Outcome α}
    (h : c.Meets depth xs ys o) (t : T) : xs ++ puts [.run t c o] = gets [.run t c o] ++ ys := by
  cases c with
  | put v block =>
    obtain ⟨hput, hno, -⟩ := h
    by_cases hr : o.ret = some 0
    · simp [puts, gets, hr, hput.mp hr]
    · simp [puts, gets, hr, hno hr]
  | get block =>
    obtain ⟨hget, hno, -⟩ := h
    by_cases hr : o.ret = some 0
    · obtain ⟨x, hx, hv⟩ := hget.mp hr
      simp [puts, gets, hr, hx, hv]
    · simp [puts, gets, hr, hno hr]
  | peek | len | isempty | isfull => simp [puts, gets, h.1]

end History

section System

variable {T α : Type} [DecidableEq T]

/-- Threads interleave at critical sections; a sleeper may wake for no reason. -/
inductive Step : Sys T α → Action T α → Sys T α → Prop
  | call {s : Sys T α} {t : T} {c : Call α} (hp : s.pc t = .idle) :
      Step s (.call t c) { s with pc := Function.update s.pc t (.ready c false) }
  | run {s : Sys T α} {t : T} {c : Call α} {b : Bool} {q : Que α} {o : Outcome α}
      {woken : T → Bool} (hp : s.pc t = .ready c b) (hc : c.critical s.que = some (q, o))
      (hw : o.Wakes s woken) :
      Step s (.run t c o)
        ⟨q, fun u => if u = t then o.next c else if woken u then (s.pc u).wake else s.pc u⟩
  | spurious {s : Sys T α} {t : T} {c : Call α} (hp : s.pc t = .asleep c) :
      Step s (.spurious t) { s with pc := Function.update s.pc t (.ready c false) }

def Sys.initial (T : Type) (depth : Nat) (elements : Nat → α) : Sys T α :=
  ⟨Que.create depth elements, fun _ => .idle⟩

variable {s t : Sys T α} {a : Action T α} {acts : List (Action T α)}

theorem conserved_step (h : Step s a t) (hs : s.que.Valid) :
    t.que.Valid ∧ t.que.depth = s.que.depth ∧
      s.que.contents ++ puts [a] = gets [a] ++ t.que.contents := by
  cases h with
  | call | spurious => exact ⟨hs, rfl, by simp [puts, gets]⟩
  | run hp hc hw =>
    rename_i u c b q o woken
    obtain ⟨q', o', hc', hv, hd, hm, -⟩ := critical_meets hs c
    obtain ⟨rfl, rfl⟩ := Prod.mk.inj (Option.some.inj (hc.symm.trans hc'))
    exact ⟨hv, hd, conserved_run hm u⟩

theorem conserved_mtr (h : Lts.MTr Step s acts t) (hs : s.que.Valid) :
    t.que.Valid ∧ t.que.depth = s.que.depth ∧
      s.que.contents ++ puts acts = gets acts ++ t.que.contents := by
  induction h with
  | refl => exact ⟨hs, rfl, by simp [puts, gets]⟩
  | stepL h _ ih =>
    obtain ⟨hv, hd, hcat⟩ := conserved_step h hs
    obtain ⟨hv', hd', hcat'⟩ := ih hv
    refine ⟨hv', hd'.trans hd, ?_⟩
    rw [puts_cons, gets_cons, ← List.append_assoc, hcat, List.append_assoc, hcat',
      List.append_assoc]

/-- The queue is a bounded FIFO for any threads in any interleaving. -/
theorem que_refines (depth : Nat) (elements : Nat → α)
    (h : Lts.MTr Step (Sys.initial T depth elements) acts s) :
    s.que.Valid ∧ s.que.depth = depth ∧ puts acts = gets acts ++ s.que.contents ∧
      ∀ c : Call α, ∃ q o, c.critical s.que = some (q, o) ∧
        c.Meets depth s.que.contents q.contents o ∧
        (c.observes = true ∨ o.ret ≠ some 0 → q = s.que) := by
  obtain ⟨hv, hd, hcat⟩ := conserved_mtr h (Que.valid_create depth elements)
  refine ⟨hv, hd, hcat, ?_⟩
  intro c
  obtain ⟨q, o, hc, -, -, hm, hsame⟩ := critical_meets hv c
  rw [hd] at hm
  exact ⟨q, o, hc, hm, hsame⟩

/-- One thread puts a value into a queue of one slot, another gets it. -/
theorem que_refines_one : ∃ s : Sys Bool Nat, s.que.Valid ∧ s.que.contents = [] ∧
    ∀ c : Call Nat, (c.critical s.que).isSome = true := by
  have h := que_refines 1 (fun _ => 0) <|
    .stepL (@Step.call Bool Nat _ _ false (.put 7 true) rfl) <|
    .stepL (@Step.run Bool Nat _ _ false (.put 7 true) false _ _ (fun _ => false) rfl rfl
      ⟨nofun, fun _ _ ⟨t, c, hc, _⟩ => by cases t <;> cases hc⟩) <|
    .stepL (@Step.call Bool Nat _ _ true (.get true) rfl) <|
    .stepL (@Step.run Bool Nat _ _ true (.get true) false _ _ (fun _ => false) rfl rfl
      ⟨nofun, fun _ _ ⟨t, c, hc, _⟩ => by cases t <;> cases hc⟩) .refl
  refine ⟨_, h.1, rfl, ?_⟩
  intro c
  obtain ⟨q, o, hc, -⟩ := h.2.2.2 c
  rw [hc]
  rfl

end System

end Freak.Utils
