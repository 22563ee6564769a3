import Freak.Lib.Run

/-! Counted loops that may stop, and cells stored row after row. -/
namespace Run

variable {σ : Type} {n : Nat} {s : σ} {body : Nat → σ → Run σ}

/-- `for (k = 0; k < n; k++)` around a body. -/
def loop (body : Nat → σ → Run σ) : Nat → σ → Run σ
  | 0, s => .ok s
  | n + 1, s => loop body n s >>= body n

/-- What the body carries from `k` to `k + 1` the loop carries from `0` to `n`. -/
theorem loop_inv {I : Nat → σ → Prop}
    (hbody : ∀ k < n, ∀ s, I k s → ∃ t, body k s = .ok t ∧ I (k + 1) t) (hs : I 0 s) :
    ∃ t, loop body n s = .ok t ∧ I n t := by
  induction n with
  | zero => exact ⟨s, rfl, hs⟩
  | succ n ih =>
    obtain ⟨t, ht, hi⟩ := ih fun k hk => hbody k (by omega)
    obtain ⟨u, hu, hi'⟩ := hbody n (by omega) t hi
    exact ⟨u, bind_eq_ok.mpr ⟨t, ht, hu⟩, hi'⟩

/-- A loop that returns has run its body for each of its numbers. -/
theorem body_of_loop {t : σ} (h : loop body n s = .ok t) :
    ∀ k < n, ∃ s' t', body k s' = .ok t' := by
  induction n generalizing t with
  | zero => intro k hk; omega
  | succ n ih =>
    obtain ⟨u, hu, ht⟩ := bind_eq_ok.mp h
    intro k hk
    by_cases hkn : k = n
    · subst hkn
      exact ⟨u, t, ht⟩
    · exact ih hu k (by omega)

/-- A loop that fills an array returns if each of its entries can be filled. -/
theorem loop_fill {α : Type} {p : Nat → Prop} {f s t : Nat → α}
    {body : Nat → (Nat → α) → Run (Nat → α)}
    (hbody : ∀ k s t, body k s = .ok t ↔ p k ∧ t = Function.update s k (f k)) :
    loop body n s = .ok t ↔ (∀ k < n, p k) ∧ t = fun i => if i < n then f i else s i := by
  induction n generalizing t with
  | zero => simp [loop, eq_comm]
  | succ n ih =>
    have hstep : Function.update (fun i => if i < n then f i else s i) n (f n) =
        fun i => if i < n + 1 then f i else s i := by
      funext i
      by_cases hi : i = n
      · simp [hi]
      · have hlt : i < n + 1 ↔ i < n := by omega
        simp [Function.update_of_ne hi, hlt]
    simp only [loop, bind_eq_ok, ih, hbody, Nat.forall_lt_succ_right]
    constructor
    · rintro ⟨_, ⟨hp, rfl⟩, hn, rfl⟩
      exact ⟨⟨hp, hn⟩, hstep⟩
    · rintro ⟨⟨hp, hn⟩, rfl⟩
      exact ⟨_, ⟨hp, rfl⟩, hn, hstep.symm⟩

end Run

namespace Grid

variable {α : Type} {s r c r' c' h : Nat} {v : α} {mem : Nat → α} {ks : List Nat}
  {C D : Nat → Prop}

/-- A cell belongs to one row and one column. -/
theorem cell_inj (hc : c < s) (hc' : c' < s) :
    r * s + c = r' * s + c' ↔ r = r' ∧ c = c' := by
  refine ⟨fun heq => ?_, fun ⟨hr, hcc⟩ => by rw [hr, hcc]⟩
  have hcol : c = c' := by
    rw [← Nat.mul_add_mod_of_lt (a := r) hc, heq, Nat.mul_add_mod_of_lt hc']
  subst hcol
  exact ⟨Nat.eq_of_mul_eq_mul_right (by omega) (Nat.add_right_cancel heq), rfl⟩

theorem cell_lt (hr : r < h) (hc : c < s) : r * s + c < h * s := by
  calc r * s + c < r * s + s := by omega
    _ = (r + 1) * s := by ring
    _ ≤ h * s := Nat.mul_le_mul_right s hr

/-- A memory that holds `v` at the cells of a set and elsewhere what it held before. -/
def Paints (v : α) (C : Nat → Prop) (mem mem' : Nat → α) : Prop :=
  ∀ k, (C k → mem' k = v) ∧ (¬ C k → mem' k = mem k)

theorem paints_refl : Paints v (fun _ => False) mem mem := fun _ => ⟨False.elim, fun _ => rfl⟩

theorem paints_update (k : Nat) : Paints v (· = k) mem (Function.update mem k v) := by
  refine fun i => ⟨?_, fun hi => Function.update_of_ne hi v mem⟩
  rintro rfl
  exact Function.update_self i v mem

theorem Paints.congr {mem' : Nat → α} (h : Paints v C mem mem') (hcd : ∀ k, C k ↔ D k) :
    Paints v D mem mem' := by
  intro k
  rw [← hcd k]
  exact h k

theorem Paints.trans {mem' mem'' : Nat → α} (h : Paints v C mem mem')
    (h' : Paints v D mem' mem'') : Paints v (fun k => C k ∨ D k) mem mem'' := by
  intro k
  constructor
  · intro hk
    by_cases hd : D k
    · exact (h' k).1 hd
    · rw [(h' k).2 hd, (h k).1 (hk.resolve_right hd)]
  · intro hk
    obtain ⟨hc, hd⟩ := not_or.mp hk
    rw [(h' k).2 hd, (h k).2 hc]

/-- A loop whose body paints one set a time paints them all. -/
theorem loop_paints {n : Nat} {body : Nat → (Nat → α) → Run (Nat → α)} {C : Nat → Nat → Prop}
    (hbody : ∀ k < n, ∀ m, ∃ m', body k m = .ok m' ∧ Paints v (C k) m m') :
    ∃ mem', Run.loop body n mem = .ok mem' ∧ Paints v (fun i => ∃ k < n, C k i) mem mem' := by
  refine Run.loop_inv (I := fun n m => Paints v (fun i => ∃ k < n, C k i) mem m) ?_ ?_
  · intro k hk m hm
    obtain ⟨m', hb, hp⟩ := hbody k hk m
    refine ⟨m', hb, (hm.trans hp).congr fun i => ?_⟩
    simp only [Nat.lt_succ_iff_lt_or_eq, or_and_right, exists_or, exists_eq_left]
  · exact paints_refl.congr fun i => by simp

/-- One value stored at one index after the other. -/
def paint (v : α) (ks : List Nat) (mem : Nat → α) : Nat → α :=
  ks.foldl (fun m k => Function.update m k v) mem

theorem paints_paint : Paints v (· ∈ ks) mem (paint v ks mem) := by
  induction ks generalizing mem with
  | nil => exact paints_refl.congr fun k => by simp
  | cons j ks ih => exact ((paints_update j).trans ih).congr fun k => by simp

/-- The value of the last of several sets that has the cell. -/
noncomputable def top (ls : List (α × Set Nat)) (k : Nat) : Option α :=
  (ls.reverse.find? fun l => @decide (k ∈ l.2) (Classical.propDecidable _)).map Prod.fst

/-- A memory that holds at each cell what the last set with it says, and elsewhere what it held
before. -/
def Shows (ls : List (α × Set Nat)) (mem mem' : Nat → α) : Prop :=
  ∀ k, mem' k = (top ls k).getD (mem k)

variable {ls ls' : List (α × Set Nat)}

theorem top_append {k : Nat} : top (ls ++ ls') k = (top ls' k).or (top ls k) := by
  simp only [top, List.reverse_append, List.find?_append, Option.map_or]

theorem top_eq_none {k : Nat} (h : ∀ l ∈ ls, k ∉ l.2) : top ls k = none := by
  rw [top, List.find?_eq_none.mpr]
  · rfl
  · intro l hl
    simpa using h l (List.mem_reverse.mp hl)

theorem shows_nil : Shows [] mem mem := fun _ => rfl

theorem Paints.shows {mem' : Nat → α} (h : Paints v C mem mem') :
    Shows [(v, {k | C k})] mem mem' := by
  intro k
  by_cases hk : C k
  · simp [top, hk, (h k).1 hk]
  · simp [top, hk, (h k).2 hk]

theorem Shows.trans {mem' mem'' : Nat → α} (h : Shows ls mem mem') (h' : Shows ls' mem' mem'') :
    Shows (ls ++ ls') mem mem'' := by
  intro k
  rw [h' k, h k, top_append]
  cases top ls' k <;> rfl

/-- A loop shows what its rounds show. -/
theorem loop_shows {n : Nat} {body : Nat → (Nat → α) → Run (Nat → α)}
    {L : Nat → List (α × Set Nat)}
    (hbody : ∀ k < n, ∀ m, ∃ m', body k m = .ok m' ∧ Shows (L k) m m') :
    ∃ mem', Run.loop body n mem = .ok mem' ∧ Shows ((List.range n).flatMap L) mem mem' := by
  refine Run.loop_inv (I := fun n m => Shows ((List.range n).flatMap L) mem m) ?_ shows_nil
  intro k hk m hm
  obtain ⟨m', hb, hs⟩ := hbody k hk m
  refine ⟨m', hb, ?_⟩
  rw [List.range_succ, List.flatMap_append, List.flatMap_singleton]
  exact hm.trans hs

end Grid
