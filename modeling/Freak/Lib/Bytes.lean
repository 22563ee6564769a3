import Mathlib.Tactic

/-! Fixed-width little-endian numbers, byte slices and NUL-terminated strings. -/
namespace Bytes

/-- The `w` least significant bytes of `n`, low byte first. -/
def le : Nat → Nat → List UInt8
  | 0, _ => []
  | w + 1, n => UInt8.ofNat n :: le w (n / 256)

/-- The number whose little-endian bytes are given. -/
def ofLe : List UInt8 → Nat
  | [] => 0
  | b :: bs => b.toNat + 256 * ofLe bs

/-- `n` bytes from position `a`, as a read of `n` bytes sees them. -/
def slice (bs : List UInt8) (a n : Nat) : List UInt8 := (bs.drop a).take n

/-- `n` bytes of a byte-addressed memory. -/
def load (mem : Nat → UInt8) (a n : Nat) : List UInt8 :=
  (List.range n).map fun i => mem (a + i)

/-- Copying `src` over a buffer from position `a`. -/
def store (buf : List UInt8) (a : Nat) (src : List UInt8) : List UInt8 :=
  buf.take a ++ src ++ buf.drop (a + src.length)

/-- The bytes of a string literal. -/
def ascii (s : String) : List UInt8 := s.toList.map fun c => UInt8.ofNat c.toNat

/-- The C string a buffer starts with. -/
def cstr (bs : List UInt8) : List UInt8 := bs.takeWhile (· ≠ 0)

def strlen (bs : List UInt8) : Nat := (cstr bs).length

@[simp] theorem length_le (w n : Nat) : (le w n).length = w := by
  induction w generalizing n with
  | zero => rfl
  | succ w ih => simp [le, ih]

theorem ofLe_le (w n : Nat) : ofLe (le w n) = n % 256 ^ w := by
  induction w generalizing n with
  | zero => simp [le, ofLe, Nat.mod_one]
  | succ w ih =>
    rw [le, ofLe, ih, pow_succ', Nat.mod_mul]
    simp

theorem ofLe_lt (bs : List UInt8) : ofLe bs < 256 ^ bs.length := by
  induction bs with
  | nil => simp [ofLe]
  | cons b bs ih =>
    have hb : b.toNat < 256 := b.toNat_lt
    rw [ofLe, List.length_cons, pow_succ]
    omega

/-- A number that is read can be written back. -/
theorem le_ofLe (bs : List UInt8) : le bs.length (ofLe bs) = bs := by
  induction bs with
  | nil => rfl
  | cons b bs ih =>
    have hlt : b.toNat < 256 := b.toNat_lt
    have hdiv : (b.toNat + 256 * ofLe bs) / 256 = ofLe bs := by omega
    rw [List.length_cons, ofLe, le, hdiv, ih]
    congr 1
    apply UInt8.toNat_inj.mp
    simp

@[simp] theorem length_load (mem : Nat → UInt8) (a n : Nat) : (load mem a n).length = n := by
  simp [load]

theorem length_take_add {bs : List UInt8} {n m : Nat} (h : bs.length = n + m) :
    (bs.take n).length = n := List.length_take_of_le (h ▸ Nat.le_add_right n m)

theorem length_drop_add {bs : List UInt8} {n m : Nat} (h : bs.length = n + m) :
    (bs.drop n).length = m := by
  rw [List.length_drop, h, Nat.add_sub_cancel_left]

theorem length_slice {bs : List UInt8} {a n : Nat} (h : a + n ≤ bs.length) :
    (slice bs a n).length = n := by
  simp only [slice, List.length_take, List.length_drop]
  omega

/-- What is read of `n` bytes fits into them. -/
theorem ofLe_slice_lt (bs : List UInt8) (a n : Nat) : ofLe (slice bs a n) < 256 ^ n :=
  (ofLe_lt _).trans_le (Nat.pow_le_pow_right (by decide) (List.length_take_le _ _))

theorem slice_drop {bs : List UInt8} {k a n : Nat} :
    slice (bs.drop k) a n = slice bs (k + a) n := by
  rw [slice, slice, List.drop_drop]

/-- A part of a part. -/
theorem slice_drop_take {bs : List UInt8} {k m a n : Nat} (h : a + n ≤ m) :
    slice ((bs.drop k).take m) a n = slice bs (k + a) n := by
  rw [slice, slice, List.drop_take, List.take_take, List.drop_drop, Nat.min_eq_left (by omega)]

/-- A slice that begins where a known prefix ends. -/
theorem slice_append (p bs r : List UInt8) : slice (p ++ (bs ++ r)) p.length bs.length = bs := by
  simp [slice]

theorem slice_append_of_eq {p bs r : List UInt8} {a n : Nat} (ha : p.length = a)
    (hn : bs.length = n) : slice (p ++ (bs ++ r)) a n = bs := by
  subst ha hn
  exact slice_append p bs r

theorem store_zero (buf src : List UInt8) : store buf 0 src = src ++ buf.drop src.length := by
  simp [store]

theorem length_store {buf src : List UInt8} {a : Nat} (h : a + src.length ≤ buf.length) :
    (store buf a src).length = buf.length := by
  simp only [store, List.length_append, List.length_take, List.length_drop]
  omega

/-- What lies before the bytes stored is kept. -/
theorem slice_store_before {buf src : List UInt8} {a b n : Nat} (h : b + n ≤ a)
    (ha : a ≤ buf.length) : slice (store buf a src) b n = slice buf b n := by
  have hb : b ≤ (buf.take a).length := by rw [List.length_take]; omega
  rw [store, List.append_assoc, slice, slice, List.drop_append_of_le_length hb,
    List.take_append_of_le_length (by rw [List.length_drop, List.length_take]; omega),
    List.drop_take, List.take_take]
  congr 1
  omega

/-- What was stored first in a buffer is read from its beginning. -/
theorem slice_store_zero {buf src : List UInt8} {b n : Nat} (h : b + n ≤ src.length) :
    slice (store buf 0 src) b n = slice src b n := by
  rw [store_zero, slice, slice, List.drop_append_of_le_length (by omega),
    List.take_append_of_le_length (by rw [List.length_drop]; omega)]

/-- Two stores that meet leave the concatenation. -/
theorem store_after {buf p src : List UInt8} {a : Nat} (ha : p.length = a) :
    store (p ++ buf) a src = p ++ src ++ buf.drop src.length := by
  subst ha
  simp [store, List.drop_append]

/-- Storing what is there changes nothing. -/
theorem store_slice_self (bs : List UInt8) (a n : Nat) : store bs a (slice bs a n) = bs := by
  rw [store, slice, List.append_assoc, List.length_take, ← List.drop_drop]
  have h : (bs.drop a).take n ++ (bs.drop a).drop (min n (bs.drop a).length) = bs.drop a := by
    rcases Nat.le_total n (bs.drop a).length with h | h
    · rw [Nat.min_eq_left h, List.take_append_drop]
    · rw [Nat.min_eq_right h, List.drop_length, List.append_nil, List.take_of_length_le h]
  rw [h, List.take_append_drop]

/-- Two places of memory agree on `n` bytes whatever it holds only if they are one place. -/
theorem load_eq_load_iff {a k n : Nat} :
    (∀ mem, load mem a n = load mem (a + k) n) ↔ k = 0 ∨ n = 0 := by
  constructor
  · intro h
    by_contra hne
    obtain ⟨hk, hn⟩ := not_or.mp hne
    have hload := h fun i => if i = a then 1 else 0
    obtain ⟨m, rfl⟩ := Nat.exists_eq_succ_of_ne_zero hn
    simp [load, List.range_succ_eq_map, hk] at hload
  · rintro (rfl | rfl) mem
    · rfl
    · rfl

/-- A NUL is looked for behind bytes that are none. -/
theorem cstr_append_notMem {t r : List UInt8} (ht : (0 : UInt8) ∉ t) :
    cstr (t ++ r) = t ++ cstr r := by
  have hp : ∀ b ∈ t, decide (b ≠ 0) = true := by
    intro b hb
    have hne : b ≠ 0 := by rintro rfl; exact ht hb
    simpa using hne
  rw [cstr, List.takeWhile_append_of_pos hp, cstr]

theorem cstr_of_notMem {t : List UInt8} (ht : (0 : UInt8) ∉ t) : cstr t = t := by
  have happ := cstr_append_notMem (r := []) ht
  rwa [List.append_nil, show cstr [] = [] from rfl, List.append_nil] at happ

theorem cstr_append {t r : List UInt8} (ht : (0 : UInt8) ∉ t) : cstr (t ++ 0 :: r) = t := by
  rw [cstr_append_notMem ht]
  simp [cstr]

theorem strlen_append {t r : List UInt8} (ht : (0 : UInt8) ∉ t) :
    strlen (t ++ 0 :: r) = t.length := by
  rw [strlen, cstr_append ht]

theorem strlen_append_notMem {t r : List UInt8} (ht : (0 : UInt8) ∉ t) :
    strlen (t ++ r) = t.length + strlen r := by
  rw [strlen, cstr_append_notMem ht, List.length_append, strlen]

/-- A C string is found among as many bytes as it has. -/
theorem cstr_take {bs : List UInt8} {n : Nat} (h : strlen bs ≤ n) : cstr (bs.take n) = cstr bs := by
  rw [cstr, ← List.take_takeWhile]
  exact List.take_of_length_le h

theorem zero_mem_iff {bs : List UInt8} : 0 ∈ bs ↔ strlen bs < bs.length := by
  induction bs with
  | nil => simp [strlen, cstr]
  | cons b bs ih =>
    simp only [strlen, cstr] at ih
    by_cases hb : b = 0
    · simp [strlen, cstr, hb]
    · have hne : (0 : UInt8) ≠ b := fun h => hb h.symm
      simp [strlen, cstr, hb, hne, ih]

/-- A NUL among the first bytes. -/
theorem zero_mem_take_iff {bs : List UInt8} {m : Nat} (hm : m ≤ bs.length) :
    0 ∈ bs.take m ↔ strlen bs < m := by
  induction bs generalizing m with
  | nil => simp_all
  | cons b bs ih =>
    cases m with
    | zero => simp
    | succ m =>
      have hrec := ih (Nat.le_of_succ_le_succ hm)
      simp only [strlen, cstr] at hrec
      by_cases hb : b = 0
      · simp [strlen, cstr, hb]
      · have hne : (0 : UInt8) ≠ b := fun h => hb h.symm
        simp [strlen, cstr, hb, hne, hrec]

theorem cstr_split {bs : List UInt8} (h : 0 ∈ bs) : ∃ r, bs = cstr bs ++ 0 :: r := by
  induction bs with
  | nil => simp at h
  | cons b bs ih =>
    by_cases hb : b = 0
    · exact ⟨bs, by simp [cstr, hb]⟩
    · have hmem : 0 ∈ bs := by
        rcases List.mem_cons.mp h with h | h
        · exact absurd h.symm hb
        · exact h
      obtain ⟨r, hr⟩ := ih hmem
      refine ⟨r, ?_⟩
      rw [cstr] at hr ⊢
      rw [List.takeWhile_cons_of_pos (by simpa using hb), List.cons_append, ← hr]

theorem zero_notMem_cstr (bs : List UInt8) : (0 : UInt8) ∉ cstr bs := by
  have h := List.all_takeWhile (p := fun b : UInt8 => decide (b ≠ 0)) (l := bs)
  rw [List.all_eq_true] at h
  intro h0
  simpa using h 0 h0

end Bytes
