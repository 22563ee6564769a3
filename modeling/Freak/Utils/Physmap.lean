import Freak.Media.Record

/-! Physical memory, mapped and unmapped: `physmap.c`. -/
namespace Freak.Utils.Physmap

open Freak.Media (Abi)

section

variable (abi : Abi) (pagesize addr size : Nat)

/-- `(off_t)addr`. -/
def offset : Int := (addr : Int).bmod abi.sizeMod

/-- A number as a `size_t` or a pointer. -/
def word (n : Int) : Nat := (n % abi.sizeMod).toNat

/-- `(offset / pagesize) * pagesize`, in which `offset` is unsigned and the page is an `off_t`
again. -/
def pageBase : Int :=
  offset abi (word abi (offset abi addr) / pagesize * pagesize % abi.sizeMod)

def pageOffset : Int := offset abi addr - pageBase abi pagesize addr

/-- `page_offset + length`. -/
def mapLength : Nat := word abi (pageOffset abi pagesize addr + size)

/-- `MAP_FAILED`. -/
def mapFailed : Nat := word abi (-1)

/-- The address and the length that `munmap` is called with. -/
def physunmap : Nat × Nat :=
  (word abi (pageBase abi pagesize addr), mapLength abi pagesize addr size)

/-- `open` of `/dev/mem`, and `mmap` of a length at an offset of it. -/
structure Kernel where
  openOk : Bool
  mmap : Nat → Int → Option Nat
  aligned : ∀ len off a, mmap len off = some a → pagesize ∣ a
  fits : ∀ len off a, mmap len off = some a → a + len ≤ abi.sizeMod

end

/-- Pages of physical memory from `base` in the address space. -/
structure Mapping where
  addr : Nat
  len : Nat
  base : Nat

/-- The byte at an address of a mapping. -/
def Mapping.read (m : Mapping) (phys : Nat → UInt8) (a : Nat) : Option UInt8 :=
  if m.addr ≤ a ∧ a < m.addr + m.len then some (phys (m.base + (a - m.addr))) else none

section

variable {abi : Abi} {pagesize : Nat} (k : Kernel abi pagesize) (addr size : Nat)

def physmap : Nat :=
  if k.openOk then
    let mem := (k.mmap (mapLength abi pagesize addr size) (pageBase abi pagesize addr)).getD
      (mapFailed abi)
    if mem = mapFailed abi then mem
    else word abi (mem + pageOffset abi pagesize addr)
  else 0

/-- What a call of `physmap` has mapped, if it has. -/
def mapped : Option Mapping :=
  if k.openOk then
    (k.mmap (mapLength abi pagesize addr size) (pageBase abi pagesize addr)).map fun a =>
      ⟨a, mapLength abi pagesize addr size, word abi (pageBase abi pagesize addr)⟩
  else none

/-- `NULL` says that nothing is mapped; else the pointer has the bytes at the physical address, and
to unmap it unmaps what is mapped. -/
def Exact : Prop :=
  (physmap k addr size = 0 ↔ mapped k addr size = none) ∧
    ∀ m, mapped k addr size = some m →
      (∀ phys, ∀ i < size, m.read phys (physmap k addr size + i) = some (phys (addr + i))) ∧
      physunmap abi pagesize (physmap k addr size) size = (m.addr, m.len)

end

variable {abi : Abi} {pagesize addr size n : Nat}

theorem word_offset (ha : addr < abi.sizeMod) : word abi (offset abi addr) = addr := by
  rw [word, offset, Int.bmod_emod, Int.emod_eq_of_lt (by omega) (by omega), Int.toNat_natCast]

theorem word_natCast (ha : addr < abi.sizeMod) : word abi addr = addr := by
  rw [word, Int.emod_eq_of_lt (by omega) (by omega), Int.toNat_natCast]

theorem offset_eq (ha : addr < abi.sizeMod) : offset abi addr =
    if addr < abi.sizeMod / 2 then (addr : Int) else addr - abi.sizeMod := by
  have hmod : ((addr : Int) % abi.sizeMod) = addr := Int.emod_eq_of_lt (by omega) (by omega)
  rw [offset, Int.bmod_def, hmod]
  cases abi <;> simp only [Abi.sizeMod] at ha ⊢ <;> split_ifs <;> omega

/-- The page of an address, which is in the same half of the address space. -/
theorem pageBase_eq (ha : addr < abi.sizeMod) :
    pageBase abi pagesize addr = offset abi (addr / pagesize * pagesize) := by
  have hle : addr / pagesize * pagesize ≤ addr := Nat.div_mul_le_self addr pagesize
  rw [pageBase, word_offset ha, Nat.mod_eq_of_lt (by omega)]

theorem word_pageBase (ha : addr < abi.sizeMod) :
    word abi (pageBase abi pagesize addr) = addr / pagesize * pagesize := by
  rw [pageBase_eq ha, word_offset ((Nat.div_mul_le_self addr pagesize).trans_lt ha)]

theorem pageOffset_eq (hdvd : pagesize ∣ abi.sizeMod / 2) (ha : addr < abi.sizeMod) :
    pageOffset abi pagesize addr = (addr % pagesize : Nat) := by
  have hle : addr / pagesize * pagesize ≤ addr := Nat.div_mul_le_self addr pagesize
  have hsum := Nat.div_add_mod' addr pagesize
  have hpos : 0 < pagesize := Nat.pos_of_dvd_of_pos hdvd (by cases abi <;> decide)
  have hhalf : addr / pagesize * pagesize < abi.sizeMod / 2 ↔ addr < abi.sizeMod / 2 := by
    obtain ⟨c, hc⟩ := hdvd
    rw [hc, mul_comm pagesize c, Nat.mul_lt_mul_right hpos, Nat.div_lt_iff_lt_mul hpos]
  rw [pageOffset, pageBase_eq ha, offset_eq ha, offset_eq (hle.trans_lt ha), if_congr hhalf rfl rfl]
  split_ifs <;> omega

theorem mapLength_eq (hdvd : pagesize ∣ abi.sizeMod / 2) (ha : addr < abi.sizeMod)
    (hfit : addr % pagesize + size < abi.sizeMod) :
    mapLength abi pagesize addr size = addr % pagesize + size := by
  rw [mapLength, pageOffset_eq hdvd ha, ← Nat.cast_add, word_natCast hfit]

/-- From a pointer into a page `physunmap` finds the page and the length again. -/
theorem physunmap_eq (hdvd : pagesize ∣ abi.sizeMod / 2) {a r : Nat} (ha : pagesize ∣ a)
    (hr : r < pagesize) (hlt : a + r < abi.sizeMod) (hfit : r + size < abi.sizeMod) :
    physunmap abi pagesize (a + r) size = (a, r + size) := by
  obtain ⟨b, rfl⟩ := ha
  have hmod : (pagesize * b + r) % pagesize = r := by
    rw [Nat.mul_add_mod, Nat.mod_eq_of_lt hr]
  have hdiv : (pagesize * b + r) / pagesize * pagesize = pagesize * b := by
    have := Nat.div_add_mod' (pagesize * b + r) pagesize
    omega
  rw [physunmap, word_pageBase hlt, hdiv, mapLength_eq hdvd hlt (by rwa [hmod]), hmod]

theorem dvd_half (hn : 2 ^ n < abi.sizeMod) : 2 ^ n ∣ abi.sizeMod / 2 := by
  have hle {m : Nat} (h : 2 ^ n < 2 ^ (m + 1)) : 2 ^ n ∣ 2 ^ m :=
    pow_dvd_pow 2 (Nat.lt_succ_iff.mp ((Nat.pow_lt_pow_iff_right (by decide)).mp h))
  cases abi with
  | ilp32 => exact hle (m := 31) hn
  | lp64 => exact hle (m := 63) hn

theorem mapFailed_eq (abi : Abi) : mapFailed abi = abi.sizeMod - 1 := by cases abi <;> rfl

section

variable {k : Kernel abi pagesize} {m : Mapping} (hdvd : pagesize ∣ abi.sizeMod / 2)
  (ha : addr < abi.sizeMod) (hfit : addr % pagesize + size < abi.sizeMod)
include hdvd ha hfit

/-- What is mapped: the page of the physical address, and as much as is asked for behind it. -/
theorem mapped_eq_some : mapped k addr size = some m ↔ k.openOk = true ∧
      k.mmap (mapLength abi pagesize addr size) (pageBase abi pagesize addr) = some m.addr ∧
      m.len = addr % pagesize + size ∧ m.base = addr / pagesize * pagesize := by
  rw [mapped, mapLength_eq hdvd ha hfit, word_pageBase ha]
  cases m with
  | mk a len base =>
    split_ifs with hopen
    · simp only [Option.map_eq_some_iff, Mapping.mk.injEq, hopen, true_and]
      constructor
      · rintro ⟨a, hmmap, rfl, rfl, rfl⟩
        exact ⟨hmmap, rfl, rfl⟩
      · rintro ⟨hmmap, rfl, rfl⟩
        exact ⟨a, hmmap, rfl, rfl, rfl⟩
    · exact iff_of_false nofun fun h => hopen h.1

/-- The pointer is as far behind the mapping as the physical address is behind its page. -/
theorem physmap_eq (hsize : 0 < size) (hm : mapped k addr size = some m) :
    physmap k addr size = m.addr + addr % pagesize := by
  obtain ⟨hopen, hmmap, -, -⟩ := (mapped_eq_some hdvd ha hfit).mp hm
  have hroom := k.fits _ _ _ hmmap
  rw [mapLength_eq hdvd ha hfit] at hroom
  rw [physmap, if_pos hopen, hmmap]
  change (if m.addr = mapFailed abi then m.addr
    else word abi (m.addr + pageOffset abi pagesize addr)) = _
  rw [pageOffset_eq hdvd ha, ← Nat.cast_add, word_natCast (by omega)]
  split_ifs with hfailed
  · -- with a page of one byte it may be the last one
    rw [mapFailed_eq] at hfailed
    omega
  · rfl

/-- A mapping has the bytes that are asked for, and `physunmap` finds it. -/
theorem exact_of_mapped (hsize : 0 < size) (hm : mapped k addr size = some m) :
    (∀ phys, ∀ i < size, m.read phys (physmap k addr size + i) = some (phys (addr + i))) ∧
      physunmap abi pagesize (physmap k addr size) size = (m.addr, m.len) := by
  have hpos : 0 < pagesize := Nat.pos_of_dvd_of_pos hdvd (by cases abi <;> decide)
  obtain ⟨-, hmmap, hlen, hbase⟩ := (mapped_eq_some hdvd ha hfit).mp hm
  have hroom := k.fits _ _ _ hmmap
  rw [mapLength_eq hdvd ha hfit] at hroom
  rw [physmap_eq hdvd ha hfit hsize hm, hlen]
  constructor
  · intro phys i hi
    have hsum := Nat.div_add_mod' addr pagesize
    have hplace : m.base + (m.addr + addr % pagesize + i - m.addr) = addr + i := by omega
    rw [Mapping.read, if_pos (by omega), hplace]
  · exact physunmap_eq hdvd (k.aligned _ _ _ hmmap) (Nat.mod_lt addr hpos) (by omega) hfit

end

/-- The pointer is `NULL` exactly when nothing is mapped, and else is what is mapped, exactly when
`/dev/mem` cannot be opened, or is mapped and not so that the pointer is 0. -/
theorem physmap_exact_iff {k : Kernel abi (2 ^ n)} (hn : 2 ^ n < abi.sizeMod)
    (ha : addr < abi.sizeMod) (hsize : 0 < size) (hfit : addr % 2 ^ n + size < abi.sizeMod) :
    Exact k addr size ↔ k.openOk = false ∨
      ∃ a, k.mmap (mapLength abi (2 ^ n) addr size) (pageBase abi (2 ^ n) addr) = some a ∧
        (a ≠ 0 ∨ ¬ 2 ^ n ∣ addr) := by
  have hdvd := dvd_half hn
  cases hopen : k.openOk with
  | false => simp [Exact, mapped, physmap, hopen]
  | true =>
    cases hmmap : k.mmap (mapLength abi (2 ^ n) addr size) (pageBase abi (2 ^ n) addr) with
    | none =>
      have hfailed : mapFailed abi ≠ 0 := by cases abi <;> decide
      simp [Exact, mapped, physmap, hopen, hmmap, hfailed]
    | some a =>
      have hm := (mapped_eq_some (m := ⟨a, _, _⟩) hdvd ha hfit).mpr ⟨hopen, hmmap, rfl, rfl⟩
      have hexact := exact_of_mapped hdvd ha hfit hsize hm
      have hzero : physmap k addr size = 0 ↔ a = 0 ∧ 2 ^ n ∣ addr := by
        rw [physmap_eq hdvd ha hfit hsize hm, Nat.add_eq_zero_iff, Nat.dvd_iff_mod_eq_zero]
      have hiff : Exact k addr size ↔ ¬ physmap k addr size = 0 := by
        rw [Exact, hm]
        constructor
        · exact fun h h0 => nomatch h.1.mp h0
        · intro hne
          refine ⟨iff_of_false hne nofun, fun m hm' => ?_⟩
          obtain rfl := Option.some.inj hm'
          exact hexact
      rw [hiff, hzero, not_and_or]
      simp

/-- A kernel that maps at one address, as long as there is room. -/
def mapsAt (abi : Abi) (n b : Nat) : Kernel abi (2 ^ n) where
  openOk := true
  mmap len _ := if 2 ^ n * b + len ≤ abi.sizeMod then some (2 ^ n * b) else none
  aligned len off a h := by
    obtain ⟨-, h⟩ := Option.ite_none_right_eq_some.mp h
    obtain rfl := Option.some.inj h
    exact dvd_mul_right _ _
  fits len off a h := by
    obtain ⟨hle, h⟩ := Option.ite_none_right_eq_some.mp h
    rwa [← Option.some.inj h]

/-- A physical address and a mapping in the upper half of 32 bits. -/
theorem physmap_exact_upper : Exact (mapsAt .ilp32 12 0xb6f00) 0x82000123 0x2000 :=
  (physmap_exact_iff (by decide) (by decide) (by decide) (by decide)).mpr
    (Or.inr ⟨0xb6f00000, by decide, by decide⟩)

/-- A kernel that maps nothing. -/
def mapsNothing (abi : Abi) (n : Nat) : Kernel abi (2 ^ n) := ⟨true, fun _ _ => none, nofun, nofun⟩

/-- `MAP_FAILED` is returned, where `NULL` is looked for. -/
theorem physmap_exact_not : physmap (mapsNothing .ilp32 12) 0x82000123 0x2000 = 0xffffffff ∧
    ¬ Exact (mapsNothing .ilp32 12) 0x82000123 0x2000 := by
  have hfailed : physmap (mapsNothing .ilp32 12) 0x82000123 0x2000 = 0xffffffff := rfl
  refine ⟨hfailed, fun h => ?_⟩
  have hnull := h.1.mpr rfl
  rw [hfailed] at hnull
  cases hnull

end Freak.Utils.Physmap
