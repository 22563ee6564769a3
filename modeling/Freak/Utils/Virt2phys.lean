import Freak.Media.Record

/-! The physical address of a virtual one: `virt2phys` against the page map of the kernel. -/
namespace Freak.Utils.Virt2phys

open Bytes
open Freak.Media (Abi)

/-- `/proc/self/pagemap`: its entries by index, in the byte order of the host, and how the calls on
it answer. -/
structure Pagemap where
  openOk : Bool
  readOk : Nat → Bool
  entry : Nat → Nat
  entry_lt : ∀ i, entry i < 2 ^ 64

/-- `pagemap_entry_t`, as far as it is filled in. -/
structure Entry where
  pfn : Nat
  swapped : Nat
  present : Nat

def getBit (x y : Nat) : Nat := (x &&& (1 <<< y)) >>> y

def getPfn (x : Nat) : Nat := x &&& ((1 <<< 55) - 1)

def Entry.ofInfo (info : Nat) : Entry := ⟨getPfn info, getBit info 62, getBit info 63⟩

/-- `info`, byte after byte. -/
def assemble (data : List UInt8) : Nat :=
  data.foldl (fun info b => ((info <<< 8) + b.toNat) % 2 ^ 64) 0

section

variable (abi : Abi) (k : Pagemap) (pagesize virtaddr : Nat)

/-- Eight bytes at an offset; a negative one is refused. -/
def pread (offset : Nat) : Option (List UInt8) :=
  if offset < abi.sizeMod / 2 ∧ k.readOk offset then some (le 8 (k.entry (offset / 8))) else none

/-- `vaddr`, which is signed. -/
def vaddr : Int := (virtaddr : Int).bmod abi.sizeMod

/-- `offset`, for which `vaddr` is unsigned again. -/
def offset : Nat := (vaddr abi virtaddr % abi.sizeMod).toNat / pagesize * 8 % abi.sizeMod

def virt2phys : Int :=
  if k.openOk then
    match pread abi k (offset abi pagesize virtaddr) with
    | none => -1
    | some data =>
      let entry := Entry.ofInfo (assemble data)
      if entry.present ≠ 0 then
        if entry.swapped ≠ 0 then -1
        -- an `off_t` again, and its remainder has its sign
        else ((entry.pfn * pagesize : Nat) + (vaddr abi virtaddr).tmod pagesize).bmod abi.sizeMod
      else -1
  else -1

/-- An entry of a page that is present and not swapped. -/
def Mapped (w : Nat) : Prop := w.testBit 63 ∧ ¬ w.testBit 62

instance (w : Nat) : Decidable (Mapped w) := inferInstanceAs (Decidable (_ ∧ _))

/-- The address in the page frame of an entry. -/
def physical (w : Nat) : Nat := w % 2 ^ 55 * pagesize + virtaddr % pagesize

/-- A page frame whose address is an `off_t`. -/
def HasAddress (w : Nat) : Prop :=
  Mapped w ∧ physical pagesize virtaddr w < abi.sizeMod / 2

instance (w : Nat) : Decidable (HasAddress abi pagesize virtaddr w) :=
  inferInstanceAs (Decidable (_ ∧ _))

/-- What the kernel says of an address, if it can be asked. -/
def mapping : Int :=
  if k.openOk ∧ (pread abi k (offset abi pagesize virtaddr)).isSome ∧
      HasAddress abi pagesize virtaddr (k.entry (virtaddr / pagesize)) then
    physical pagesize virtaddr (k.entry (virtaddr / pagesize))
  else -1

end

/-- An entry with its bytes in the other order. -/
def reversed (w : Nat) : Nat := ofLe (le 8 w).reverse

variable {abi : Abi} {k : Pagemap} {pagesize virtaddr w : Nat}

theorem getBit_eq_zero_iff {x y : Nat} : getBit x y = 0 ↔ x.testBit y = false := by
  constructor
  · intro h
    have hbit := congrArg (fun n => n.testBit 0) h
    simpa [getBit] using hbit
  · intro h
    apply Nat.eq_of_testBit_eq
    intro i
    by_cases hi : i = 0
    · simp [getBit, hi, h]
    · have hne : y ≠ y + i := by omega
      simp [getBit, Nat.one_shiftLeft, Nat.testBit_two_pow_of_ne hne]

theorem getPfn_eq (x : Nat) : getPfn x = x % 2 ^ 55 := by
  rw [getPfn, Nat.one_shiftLeft, Nat.and_two_pow_sub_one_eq_mod]

/-- The loop takes the first byte for the highest. -/
theorem assemble_eq {data : List UInt8} (h : data.length ≤ 8) :
    assemble data = ofLe data.reverse := by
  induction data using List.reverseRecOn with
  | nil => rfl
  | append_singleton data b ih =>
    rw [List.length_append, List.length_singleton] at h
    have hlt : ofLe data.reverse < 256 ^ 7 := by
      refine (ofLe_lt _).trans_le (Nat.pow_le_pow_right (by decide) ?_)
      rw [List.length_reverse]
      omega
    have hb := b.toNat_lt
    rw [assemble, List.foldl_append, List.reverse_append]
    change (assemble data <<< 8 + b.toNat) % 2 ^ 64 = ofLe (b :: data.reverse)
    rw [ih (by omega), ofLe, Nat.shiftLeft_eq]
    omega

theorem assemble_le (w : Nat) : assemble (le 8 w) = reversed w := assemble_eq (by simp)

/-- 1 for an address of the upper half that does not begin its page. -/
def borrow (abi : Abi) (pagesize virtaddr : Nat) : Int :=
  if abi.sizeMod / 2 ≤ virtaddr ∧ virtaddr % pagesize ≠ 0 then 1 else 0

/-- The signed remainder of an address is its place in the page, less a page in the upper half. -/
theorem tmod_vaddr (hdvd : pagesize ∣ abi.sizeMod)
    (hv : virtaddr < abi.sizeMod) : (vaddr abi virtaddr).tmod pagesize =
      (virtaddr % pagesize : Nat) - borrow abi pagesize virtaddr * pagesize := by
  have hrem : vaddr abi virtaddr % pagesize = (virtaddr % pagesize : Nat) := by
    rw [vaddr, ← Int.emod_emod_of_dvd _ (Int.natCast_dvd_natCast.mpr hdvd), Int.bmod_emod,
      Int.emod_emod_of_dvd _ (Int.natCast_dvd_natCast.mpr hdvd), Int.natCast_emod]
  have hsign : 0 ≤ vaddr abi virtaddr ↔ virtaddr < abi.sizeMod / 2 := by
    have hmod : ((virtaddr : Int) % abi.sizeMod) = virtaddr :=
      Int.emod_eq_of_lt (by omega) (by omega)
    rw [vaddr, Int.bmod_def, hmod]
    cases abi <;> simp only [Abi.sizeMod] at hv ⊢ <;> omega
  have hdvd' : (pagesize : Int) ∣ vaddr abi virtaddr ↔ virtaddr % pagesize = 0 := by
    rw [Int.dvd_iff_emod_eq_zero, hrem, Int.natCast_eq_zero]
  rw [Int.tmod_eq_emod, hrem, borrow, Int.natAbs_natCast]
  by_cases h : virtaddr < abi.sizeMod / 2 ∨ virtaddr % pagesize = 0
  · rw [if_pos (h.imp hsign.mpr hdvd'.mpr), if_neg (by omega), zero_mul, Nat.cast_zero]
  · have hno : ¬ (0 ≤ vaddr abi virtaddr ∨ (pagesize : Int) ∣ vaddr abi virtaddr) := by
      rwa [hsign, hdvd']
    rw [if_neg hno, if_pos (by omega), one_mul]

/-- The entry read is the one of the page, as far as the entries can be told apart. -/
theorem offset_div (hv : virtaddr < abi.sizeMod) :
    offset abi pagesize virtaddr / 8 = virtaddr / pagesize % (abi.sizeMod / 8) := by
  have hvaddr : (vaddr abi virtaddr % abi.sizeMod).toNat = virtaddr := by
    rw [vaddr, Int.bmod_emod, Int.emod_eq_of_lt (by omega) (by omega), Int.toNat_natCast]
  rw [offset, hvaddr]
  cases abi <;> simp only [Abi.sizeMod] <;> omega

/-- The entry the code takes for the one of the page: it has the bytes in the other order. -/
def taken (abi : Abi) (k : Pagemap) (pagesize virtaddr : Nat) : Nat :=
  reversed (k.entry (virtaddr / pagesize % (abi.sizeMod / 8)))

/-- What the code returns for the entry it takes. -/
def address (abi : Abi) (pagesize virtaddr r : Nat) : Int :=
  if Mapped r then
    ((((r % 2 ^ 55 : Nat) - borrow abi pagesize virtaddr) * pagesize +
      (virtaddr % pagesize : Nat) : Int)).bmod abi.sizeMod
  else -1

theorem ofInfo_mapped (r : Nat) : Mapped r ↔
    (Entry.ofInfo r).present ≠ 0 ∧ (Entry.ofInfo r).swapped = 0 := by
  simp only [Mapped, Entry.ofInfo, ne_eq, getBit_eq_zero_iff, Bool.not_eq_false, Bool.not_eq_true]

theorem virt2phys_eq (hdvd : pagesize ∣ abi.sizeMod) (hv : virtaddr < abi.sizeMod) :
    virt2phys abi k pagesize virtaddr =
      if k.openOk ∧ (pread abi k (offset abi pagesize virtaddr)).isSome then
        address abi pagesize virtaddr (taken abi k pagesize virtaddr)
      else -1 := by
  rw [virt2phys, pread]
  by_cases hopen : k.openOk = true
  · by_cases hread : offset abi pagesize virtaddr < abi.sizeMod / 2 ∧
      k.readOk (offset abi pagesize virtaddr)
    · have hpfn : (Entry.ofInfo (taken abi k pagesize virtaddr)).pfn =
          taken abi k pagesize virtaddr % 2 ^ 55 := getPfn_eq _
      have hmapped := ofInfo_mapped (taken abi k pagesize virtaddr)
      simp only [hopen, hread, and_self, if_true, Option.isSome_some, assemble_le,
        offset_div hv, ← taken.eq_def, hpfn, tmod_vaddr hdvd hv, address, hmapped]
      have hsum (f ps d b : Int) : f * ps + (d - b * ps) = (f - b) * ps + d := by ring
      by_cases hp : (Entry.ofInfo (taken abi k pagesize virtaddr)).present = 0
      · rw [if_neg (not_not.mpr hp), if_neg fun h => h.1 hp]
      · by_cases hs : (Entry.ofInfo (taken abi k pagesize virtaddr)).swapped = 0
        · rw [if_pos hp, if_neg (not_not.mpr hs), if_pos ⟨hp, hs⟩, Nat.cast_mul, hsum]
        · rw [if_pos hp, if_pos hs, if_neg fun h => hs h.2]
    · simp [hopen, hread]
  · simp [hopen]

/-- When the entry taken gives the address that the entry `w` of the page has: the page frame
numbers differ by the borrow alone, up to what an `off_t` drops; or there is no address, and the
entry taken has none either or gives -1 in its place. -/
def Agrees (abi : Abi) (pagesize virtaddr w r : Nat) : Prop :=
  if HasAddress abi pagesize virtaddr w then
    Mapped r ∧ ((abi.sizeMod / pagesize : Nat) : Int) ∣
      (w % 2 ^ 55 : Nat) - ((r % 2 ^ 55 : Nat) - borrow abi pagesize virtaddr)
  else
    ¬ Mapped r ∨ (virtaddr % pagesize + 1 = pagesize ∧
      ((abi.sizeMod / pagesize : Nat) : Int) ∣
        (r % 2 ^ 55 : Nat) - borrow abi pagesize virtaddr + 1)

instance (w r : Nat) : Decidable (Agrees abi pagesize virtaddr w r) := by
  unfold Agrees
  infer_instance

/-- A value that fits an `off_t` is returned iff it is congruent to what is computed. -/
theorem bmod_eq_iff {a c : Int} (hlo : -1 ≤ c) (hhi : c < (abi.sizeMod / 2 : Nat)) :
    a.bmod abi.sizeMod = c ↔ (abi.sizeMod : Int) ∣ c - a := by
  have hpos : 0 < abi.sizeMod := by cases abi <;> decide
  rw [Int.bmod_eq_iff hpos]
  constructor
  · exact fun h => h.2.2
  · refine fun h => ⟨?_, ?_, h⟩ <;> cases abi <;> simp only [Abi.sizeMod] at * <;> omega

/-- The addresses of two frames are congruent iff the frames are, up to what an `off_t` drops. -/
theorem dvd_frames (hdvd : pagesize ∣ abi.sizeMod) {d w f : Int} :
    (abi.sizeMod : Int) ∣ (w * pagesize + d) - (f * pagesize + d) ↔
      ((abi.sizeMod / pagesize : Nat) : Int) ∣ w - f := by
  have hpos : 0 < abi.sizeMod := by cases abi <;> decide
  have hps : (pagesize : Int) ≠ 0 := by
    have := Nat.pos_of_dvd_of_pos hdvd hpos
    omega
  have hdiff : w * pagesize + d - (f * pagesize + d) = (w - f) * pagesize := by ring
  have hmod : (abi.sizeMod : Int) = ((abi.sizeMod / pagesize : Nat) : Int) * pagesize := by
    rw [← Int.natCast_mul, Nat.div_mul_cancel hdvd]
  rw [hdiff, hmod, Int.mul_dvd_mul_iff_right hps]

/-- -1 is congruent to an address iff the address is the last of its page, and the page the one
below the first. -/
theorem dvd_last (hdvd : pagesize ∣ abi.sizeMod) {d : Nat} (hd : d < pagesize) {f : Int} :
    (abi.sizeMod : Int) ∣ -1 - (f * pagesize + d) ↔
      d + 1 = pagesize ∧ ((abi.sizeMod / pagesize : Nat) : Int) ∣ f + 1 := by
  have hlast (hd' : d + 1 = pagesize) : (abi.sizeMod : Int) ∣ -1 - (f * pagesize + d) ↔
      ((abi.sizeMod / pagesize : Nat) : Int) ∣ f + 1 := by
    have hd'' : (-1 : Int) = (-1) * pagesize + d := by omega
    rw [hd'', dvd_frames hdvd, ← Int.dvd_neg]
    congr! 1
    ring
  constructor
  · intro h
    have hpage : (pagesize : Int) ∣ d + 1 := by
      have h' := (Int.natCast_dvd_natCast.mpr hdvd).trans h
      have hsum : (d : Int) + 1 = -(-1 - (f * pagesize + d)) - f * pagesize := by ring
      rw [hsum]
      exact Int.dvd_sub ((Int.dvd_neg).mpr h') (Int.dvd_mul_left _ _)
    have hle : pagesize ≤ d + 1 := Nat.le_of_dvd (by omega) (by exact_mod_cast hpage)
    exact ⟨by omega, (hlast (by omega)).mp h⟩
  · exact fun h => (hlast h.1).mpr h.2

theorem address_eq_iff (hdvd : pagesize ∣ abi.sizeMod) {r : Nat} :
    address abi pagesize virtaddr r = (if HasAddress abi pagesize virtaddr w then
        (physical pagesize virtaddr w : Int) else -1) ↔
      Agrees abi pagesize virtaddr w r := by
  have hpos : 0 < pagesize := Nat.pos_of_dvd_of_pos hdvd (by cases abi <;> decide)
  have hd := Nat.mod_lt virtaddr hpos
  rw [address, Agrees]
  by_cases hw : HasAddress abi pagesize virtaddr w
  · have hphys : ((physical pagesize virtaddr w : Nat) : Int) =
        (w % 2 ^ 55 : Nat) * pagesize + (virtaddr % pagesize : Nat) := by
      rw [physical]; push_cast; rfl
    rw [if_pos hw, if_pos hw]
    by_cases hr : Mapped r
    · rw [if_pos hr, bmod_eq_iff (by omega) (by exact_mod_cast hw.2), hphys, dvd_frames hdvd,
        and_iff_right hr]
    · simp only [hr, if_false, false_and, iff_false]
      omega
  · rw [if_neg hw, if_neg hw]
    by_cases hr : Mapped r
    · rw [if_pos hr, bmod_eq_iff (by omega) (by cases abi <;> decide), dvd_last hdvd hd,
        or_iff_right (not_not.mpr hr)]
    · rw [if_neg hr]
      exact iff_of_true rfl (Or.inl hr)

/-- What the code returns is what the kernel says exactly when the kernel says nothing, or the
entry with its bytes in the other order agrees with the entry of the page. -/
theorem virt2phys_eq_mapping_iff (hdvd : pagesize ∣ abi.sizeMod) (hv : virtaddr < abi.sizeMod) :
    virt2phys abi k pagesize virtaddr = mapping abi k pagesize virtaddr ↔
      k.openOk = false ∨ pread abi k (offset abi pagesize virtaddr) = none ∨
        Agrees abi pagesize virtaddr (k.entry (virtaddr / pagesize))
          (taken abi k pagesize virtaddr) := by
  rw [virt2phys_eq hdvd hv, mapping, ← address_eq_iff hdvd]
  by_cases hopen : k.openOk = true
  · cases hread : pread abi k (offset abi pagesize virtaddr) with
    | none => simp
    | some data => simp [hopen]
  · simp [hopen]

/-- The same for the page size of a machine, which is a power of two and a `long`. -/
theorem virt2phys_computes_iff {n : Nat} (hn : 2 ^ n < abi.sizeMod / 2)
    (hv : virtaddr < abi.sizeMod) :
    virt2phys abi k (2 ^ n) virtaddr = mapping abi k (2 ^ n) virtaddr ↔
      k.openOk = false ∨ pread abi k (offset abi (2 ^ n) virtaddr) = none ∨
        Agrees abi (2 ^ n) virtaddr (k.entry (virtaddr / 2 ^ n))
          (taken abi k (2 ^ n) virtaddr) := by
  apply virt2phys_eq_mapping_iff _ hv
  have hle {m : Nat} (h : 2 ^ n < 2 ^ m) : n ≤ m :=
    ((Nat.pow_lt_pow_iff_right (by decide)).mp h).le
  cases abi
  · exact pow_dvd_pow 2 (hle (m := 32) (by simp only [Abi.sizeMod] at hn; omega))
  · exact pow_dvd_pow 2 (hle (m := 64) (by simp only [Abi.sizeMod] at hn; omega))

/-- A page map that can be read, with one entry for every page. -/
def allPages (w : Nat) (h : w < 2 ^ 64) : Pagemap := ⟨true, fun _ => true, fun _ => w, fun _ => h⟩

/-- An entry that reads the same from either end. -/
theorem virt2phys_computes_symmetric :
    virt2phys .lp64 (allPages 0x8100000000000081 (by decide)) (2 ^ 12) 0x7f0000001234 =
      mapping .lp64 (allPages 0x8100000000000081 (by decide)) (2 ^ 12) 0x7f0000001234 :=
  (virt2phys_computes_iff (n := 12) (by decide) (by decide)).mpr (by decide)

/-- A page that is present, in the frame 0x12345, and is not found. -/
theorem virt2phys_computes_not :
    virt2phys .lp64 (allPages 0x8180000000012345 (by decide)) (2 ^ 12) 0x7f0000001234 = -1 ∧
      mapping .lp64 (allPages 0x8180000000012345 (by decide)) (2 ^ 12) 0x7f0000001234 =
        0x12345234 := by
  decide

end Freak.Utils.Virt2phys
