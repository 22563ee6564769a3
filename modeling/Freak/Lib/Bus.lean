import Freak.Lib.Lts

/-! FIFOs that are found by their names: whoever has opened one puts into it, or reads from it. What
is promised of them is said of any such FIFOs, and shown of those that keep all that was put. -/
namespace Bus

open Lts

/-- The FIFO behind each handle and the place it has read up to; the name of each FIFO and all that
was ever put into it. -/
structure State (H F N M : Type) where
  fifo : H → Option F
  pos : H → Nat
  name : F → Option N
  hist : F → List M

inductive Action (H M : Type)
  | attach (h : H)
  | put (h : H) (m : M)
  | get (h : H) (m : M)

variable {H F N M : Type}

def start : State H F N M := ⟨fun _ => none, fun _ => 0, fun _ => none, fun _ => []⟩

/-- Handles are opened once, each by its name. A reader may pass over messages, and several may read
on from one place. -/
inductive Step [DecidableEq H] [DecidableEq F] (nameOf : H → Option N) :
    State H F N M → Action H M → State H F N M → Prop
  | attach {s : State H F N M} {h : H} {f : F} {n : N} {k : Nat} (hh : s.fifo h = none)
      (hn : nameOf h = some n) (hf : s.name f = none ∨ s.name f = some n) :
      Step nameOf s (.attach h)
        { s with
          fifo := Function.update s.fifo h (some f)
          pos := Function.update s.pos h k
          name := Function.update s.name f (some n) }
  | put {s : State H F N M} {h : H} {f : F} {m : M} (hf : s.fifo h = some f) :
      Step nameOf s (.put h m) { s with hist := Function.update s.hist f (s.hist f ++ [m]) }
  | get {s : State H F N M} {h : H} {f : F} {m : M} {k : Nat} (hf : s.fifo h = some f)
      (hk : s.pos h ≤ k) (hm : (s.hist f)[k]? = some m) :
      Step nameOf s (.get h m) { s with pos := Function.update s.pos h (k + 1) }

/-- What was put under a name. -/
def puts [DecidableEq N] (nameOf : H → Option N) (n : N) (as : List (Action H M)) : List M :=
  as.filterMap fun
    | .put h m => if nameOf h = some n then some m else none
    | _ => none

/-- What was got through a handle. -/
def gets [DecidableEq H] (h : H) (as : List (Action H M)) : List M :=
  as.filterMap fun
    | .get g m => if g = h then some m else none
    | _ => none

/-- What is promised of the FIFOs, however they are made: through a handle is got what was put under
its name, in this order and none of it twice. -/
def InOrder {σ : Type} [DecidableEq H] [DecidableEq N] (nameOf : H → Option N)
    (step : σ → Action H M → σ → Prop) (s₀ : σ) : Prop :=
  ∀ as t, MTr step s₀ as t → ∀ h,
    gets h as = [] ∨ ∃ n, nameOf h = some n ∧ (gets h as).Sublist (puts nameOf n as)

/-- After some actions, each FIFO has what was put under its name, as far as through its own
handles, and each handle has got of its FIFO what lies before its place. -/
structure Inv [DecidableEq H] [DecidableEq N] (nameOf : H → Option N) (as : List (Action H M))
    (s : State H F N M) : Prop where
  named (h : H) (f : F) (hf : s.fifo h = some f) : ∃ n, nameOf h = some n ∧ s.name f = some n
  hist (f : F) : s.hist f = [] ∨ ∃ n, s.name f = some n ∧ (s.hist f).Sublist (puts nameOf n as)
  read (h : H) : gets h as = [] ∨
    ∃ f, s.fifo h = some f ∧ (gets h as).Sublist ((s.hist f).take (s.pos h))

section

variable [DecidableEq H] [DecidableEq N] {nameOf : H → Option N} {s t : State H F N M}
  {a : Action H M} {as bs : List (Action H M)} {h : H} {n : N} {m : M}

theorem inv_start : Inv nameOf [] (start : State H F N M) where
  named _ _ hf := by cases hf
  hist _ := .inl rfl
  read _ := .inl rfl

omit [DecidableEq H] in
theorem puts_snoc : puts nameOf n (as ++ [a]) = puts nameOf n as ++ puts nameOf n [a] :=
  List.filterMap_append

omit [DecidableEq N] in
theorem gets_snoc : gets h (as ++ [a]) = gets h as ++ gets h [a] := List.filterMap_append

omit [DecidableEq H] in
theorem puts_sublist_snoc : (puts nameOf n as).Sublist (puts nameOf n (as ++ [a])) := by
  rw [puts_snoc]
  exact List.sublist_append_left _ _

theorem inv_get {f : F} {k : Nat} (hi : Inv nameOf as s) (hf : s.fifo h = some f)
    (hk : s.pos h ≤ k) (hm : (s.hist f)[k]? = some m) :
    Inv nameOf (as ++ [.get h m]) { s with pos := Function.update s.pos h (k + 1) } := by
  constructor <;> dsimp only
  · exact hi.named
  · exact fun g => (hi.hist g).imp_right fun ⟨n, hn, hsub⟩ => ⟨n, hn, hsub.trans puts_sublist_snoc⟩
  · intro g
    by_cases hg : g = h
    · subst hg
      refine .inr ⟨f, hf, ?_⟩
      have hget : gets g [.get g m] = [m] := by simp [gets]
      rw [gets_snoc, hget, Function.update_self, List.take_add_one, hm]
      refine List.Sublist.append ?_ (.refl _)
      rcases hi.read g with hnil | ⟨x, hx, hsub⟩
      · rw [hnil]
        exact List.nil_sublist _
      · obtain rfl := Option.some.inj (hf.symm.trans hx)
        exact hsub.trans (List.take_sublist_take_left hk)
    · have hget : gets g [.get h m] = [] := by simp [gets, Ne.symm hg]
      rw [gets_snoc, hget, List.append_nil, Function.update_of_ne hg]
      exact hi.read g

variable [DecidableEq F]

theorem inv_attach {f : F} {k : Nat} (hi : Inv nameOf as s) (hh : s.fifo h = none)
    (hn : nameOf h = some n) (hf : s.name f = none ∨ s.name f = some n) :
    Inv nameOf (as ++ [.attach h])
      { s with
        fifo := Function.update s.fifo h (some f)
        pos := Function.update s.pos h k
        name := Function.update s.name f (some n) } := by
  have hname (g : F) (i : N) (hg : s.name g = some i) :
      Function.update s.name f (some n) g = some i := by
    by_cases hgf : g = f
    · subst hgf
      rcases hf with hf | hf
      · exact absurd (hg.symm.trans hf) (by simp)
      · rw [Function.update_self, ← hf, hg]
    · rwa [Function.update_of_ne hgf]
  constructor <;> dsimp only
  · intro g x hx
    by_cases hg : g = h
    · subst hg
      rw [Function.update_self] at hx
      obtain rfl := Option.some.inj hx
      exact ⟨n, hn, Function.update_self ..⟩
    · rw [Function.update_of_ne hg] at hx
      obtain ⟨i, hgi, hxi⟩ := hi.named g x hx
      exact ⟨i, hgi, hname x i hxi⟩
  · intro g
    rcases hi.hist g with hg | ⟨i, hgi, hsub⟩
    · exact .inl hg
    · exact .inr ⟨i, hname g i hgi, hsub.trans puts_sublist_snoc⟩
  · intro g
    have hgets : gets g (as ++ [.attach h]) = gets g as := by
      rw [gets_snoc]
      exact List.append_nil _
    rw [hgets]
    rcases hi.read g with hg | ⟨x, hx, hsub⟩
    · exact .inl hg
    · have hgh : g ≠ h := by
        rintro rfl
        exact absurd (hx.symm.trans hh) (by simp)
      exact .inr ⟨x, by simp [hgh, hx], by simpa [hgh] using hsub⟩

theorem inv_put {f : F} (hi : Inv nameOf as s) (hf : s.fifo h = some f) :
    Inv nameOf (as ++ [.put h m])
      { s with hist := Function.update s.hist f (s.hist f ++ [m]) } := by
  constructor <;> dsimp only
  · exact hi.named
  · intro g
    by_cases hg : g = f
    · subst hg
      obtain ⟨n, hn, hgn⟩ := hi.named h g hf
      refine .inr ⟨n, hgn, ?_⟩
      have hput : puts nameOf n [.put h m] = [m] := by simp [puts, hn]
      rw [Function.update_self, puts_snoc, hput]
      refine List.Sublist.append ?_ (.refl _)
      rcases hi.hist g with hnil | ⟨i, hgi, hsub⟩
      · rw [hnil]
        exact List.nil_sublist _
      · obtain rfl := Option.some.inj (hgn.symm.trans hgi)
        exact hsub
    · rw [Function.update_of_ne hg]
      exact (hi.hist g).imp_right fun ⟨n, hn, hsub⟩ => ⟨n, hn, hsub.trans puts_sublist_snoc⟩
  · intro g
    have hgets : gets g (as ++ [.put h m]) = gets g as := by
      rw [gets_snoc]
      exact List.append_nil _
    rw [hgets]
    refine (hi.read g).imp_right fun ⟨x, hx, hsub⟩ => ⟨x, hx, ?_⟩
    by_cases hxf : x = f
    · subst hxf
      rw [Function.update_self]
      exact hsub.trans ((List.prefix_append _ _).take _).sublist
    · rwa [Function.update_of_ne hxf]

theorem inv_step (h : Step nameOf s a t) (hi : Inv nameOf as s) : Inv nameOf (as ++ [a]) t := by
  cases h with
  | attach hh hn hf => exact inv_attach hi hh hn hf
  | put hf => exact inv_put hi hf
  | get hf hk hm => exact inv_get hi hf hk hm

theorem inv_run (h : MTr (Step nameOf) s bs t) (hi : Inv nameOf as s) :
    Inv nameOf (as ++ bs) t := by
  induction h generalizing as with
  | refl => rwa [List.append_nil]
  | stepL h _ ih =>
    rw [List.append_cons]
    exact ih (inv_step h hi)

theorem inOrder : InOrder nameOf (Step nameOf) (start : State H F N M) := by
  intro as t h g
  have hi := inv_run h inv_start
  rw [List.nil_append] at hi
  rcases hi.read g with hnil | ⟨f, hf, hsub⟩
  · exact .inl hnil
  · obtain ⟨n, hn, hfn⟩ := hi.named g f hf
    rcases hi.hist f with hnil | ⟨i, hfi, hhist⟩
    · rw [hnil, List.take_nil, List.sublist_nil] at hsub
      exact .inl hsub
    · obtain rfl := Option.some.inj (hfn.symm.trans hfi)
      exact .inr ⟨n, hn, hsub.trans ((List.take_sublist _ _).trans hhist)⟩

end

end Bus
