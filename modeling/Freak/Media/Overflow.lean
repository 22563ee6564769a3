import Freak.Media.RoundTrip

/-! What `__vsf_stream_h264_proc` does when the FIFO is too full for a record. -/
namespace Freak.Media

open Bytes

/-- A record in a FIFO, as `recsize` and `rectag` see it. -/
structure Rec where
  size : Nat
  tag : Nat
  deriving DecidableEq

/-- The tag of a key record. -/
def keyTag : Nat := tagBase ||| 1

def sizes (rs : List Rec) : Nat := (rs.map Rec.size).sum

/-- `ufifo_t`, the oldest record first; the managers' FIFOs have 4 MiB. -/
structure Ufifo where
  size : Nat
  recs : List Rec
  size_lt : size < 2 ^ 31
  len_le : sizes recs ≤ size

theorem sizes_drop_le {rs ss : List Rec} (h : ss.Sublist rs) : sizes ss ≤ sizes rs :=
  (h.map Rec.size).sum_le_sum fun _ _ => Nat.zero_le _

namespace Ufifo

def len (f : Ufifo) : Nat := sizes f.recs

def free (f : Ufifo) : Nat := f.size - f.len

def skip (f : Ufifo) : Ufifo where
  size := f.size
  recs := f.recs.tail
  size_lt := f.size_lt
  len_le := (sizes_drop_le (List.tail_sublist _)).trans f.len_le

/-- `ufifo_oldest`. -/
def oldest (f : Ufifo) (tag : Nat) : Ufifo where
  size := f.size
  recs := f.recs.dropWhile fun r => r.tag ≠ tag
  size_lt := f.size_lt
  len_le := (sizes_drop_le (List.dropWhile_sublist _)).trans f.len_le

/-- `ufifo_put_timeout` without a timeout; `none` is one that waits for room. -/
def put (f : Ufifo) (r : Rec) : Option Ufifo :=
  if h : r.size ≤ f.free then
    some ⟨f.size, f.recs ++ [r], f.size_lt, by
      have hlen := f.len_le
      simp only [sizes, free, len, List.map_append, List.sum_append] at *
      simp
      omega⟩
  else none

end Ufifo

variable {abi : Abi}

/-- The step of `__vsf_stream_h264_proc` that drops records. -/
def makeRoom (abi : Abi) (f : Ufifo) (totalsize : Nat) : Ufifo :=
  if f.size < (f.len + totalsize) % abi.sizeMod then f.skip.oldest keyTag else f

/-- `__vsf_stream_h264_proc` of a stream that has no room. -/
def vsfStreamH264Proc (f : Ufifo) (x : VideoStream abi) : Option Ufifo :=
  (makeRoom abi f x.totalsize).put ⟨vsfStreamH264Size x, x.tag⟩

/-- The stream's record has room, and a FIFO that has lost records begins with a key record. -/
def MakesRoom (f : Ufifo) (x : VideoStream abi) : Prop :=
  x.totalsize ≤ (makeRoom abi f x.totalsize).free ∧ (vsfStreamH264Proc f x).isSome ∧
    ((makeRoom abi f x.totalsize).recs ≠ f.recs →
      ∀ r ∈ (makeRoom abi f x.totalsize).recs.head?, r.tag = keyTag)

/-- The bytes of the oldest record and of the records behind it that are no key records. -/
def Ufifo.upToKey (f : Ufifo) : Nat :=
  sizes (f.recs.take 1) + sizes (f.recs.tail.takeWhile fun r => r.tag ≠ keyTag)

theorem sizes_append (rs ss : List Rec) : sizes (rs ++ ss) = sizes rs + sizes ss := by
  simp [sizes]

namespace Ufifo

variable (f : Ufifo)

/-- The records up to the next key record make way. -/
theorem len_skip_oldest : (f.skip.oldest keyTag).len + f.upToKey = f.len := by
  have hrest := List.takeWhile_append_dropWhile (p := fun r : Rec => r.tag ≠ keyTag)
    (l := f.recs.tail)
  have hall := List.take_append_drop 1 f.recs
  rw [List.drop_one] at hall
  have htail := congrArg sizes hrest
  have hlen := congrArg sizes hall
  rw [sizes_append] at htail hlen
  simp only [len, oldest, skip, upToKey]
  omega

theorem head_oldest (tag : Nat) : ∀ r ∈ (f.oldest tag).recs.head?, r.tag = tag := by
  intro r hr
  have h := List.head?_dropWhile_not (fun r : Rec => decide (r.tag ≠ tag)) f.recs
  rw [Option.mem_def] at hr
  simp only [oldest] at hr
  rw [hr] at h
  simpa using h

theorem isSome_put {r : Rec} : (f.put r).isSome ↔ r.size ≤ f.free := by
  by_cases h : r.size ≤ f.free <;> simp [put, h]

end Ufifo

/-- Nothing wraps: neither the sum that is compared nor the size that is put. -/
theorem makeRoom_eq (f : Ufifo) {n : Nat} (hn : n ≤ f.size) :
    makeRoom abi f n = (if f.size < f.len + n then f.skip.oldest keyTag else f) ∧
      n % 2 ^ 32 = n := by
  have hlen : f.len ≤ f.size := f.len_le
  have hlt := f.size_lt
  have hmod : (f.len + n) % abi.sizeMod = f.len + n := by
    apply Nat.mod_eq_of_lt
    cases abi <;> simp only [Abi.sizeMod] <;> omega
  exact ⟨by rw [makeRoom, hmod], by omega⟩

/-- There is room for the record exactly when it needs no more than what is free, the oldest record
and those up to the next key record. -/
theorem makes_room_iff (f : Ufifo) (x : VideoStream abi) (hx : x.totalsize ≤ f.size) :
    MakesRoom f x ↔ x.totalsize ≤ f.free + f.upToKey := by
  obtain ⟨hroom, hsize⟩ := @makeRoom_eq abi f _ hx
  have hlen : f.len ≤ f.size := f.len_le
  have hput : vsfStreamH264Size x = x.totalsize := hsize
  rw [MakesRoom, vsfStreamH264Proc, Ufifo.isSome_put, hput, hroom]
  by_cases hfull : f.size < f.len + x.totalsize
  · have hdrop := f.len_skip_oldest
    have hfree : (f.skip.oldest keyTag).free = f.size - (f.skip.oldest keyTag).len := rfl
    have hiff : x.totalsize ≤ (f.skip.oldest keyTag).free ↔ x.totalsize ≤ f.free + f.upToKey := by
      rw [hfree, Ufifo.free]
      omega
    rw [if_pos hfull, hiff]
    exact ⟨fun h => h.1, fun h => ⟨h, h, fun _ => f.skip.head_oldest keyTag⟩⟩
  · have hfree : x.totalsize ≤ f.free := by
      rw [Ufifo.free]
      omega
    rw [if_neg hfull]
    exact iff_of_true ⟨hfree, hfree, fun h => absurd rfl h⟩ (hfree.trans (Nat.le_add_right _ _))

/-- A stream of one pack of 200000 bytes. -/
def bigStream : VideoStream .lp64 where
  image := le 8 0 ++ le 4 1 ++ List.replicate 12 0
  sizeof := length_onePack
  pstPack := [⟨le 8 0 ++ le 8 100 ++ le 4 200000 ++ le 4 0 ++ List.replicate 16 0, rfl⟩]
  count := by decide

/-- A FIFO of the managers' size with two records in it. -/
def twoRecords (old new : Rec) (h : old.size + new.size ≤ 4 * 1024 * 1024) : Ufifo where
  size := 4 * 1024 * 1024
  recs := [old, new]
  size_lt := by decide
  len_le := by simpa [sizes] using h

theorem bigStream_size : bigStream.totalsize = 200080 ∧ vsfStreamH264Size bigStream = 200080 := by
  have hv : bigStream.OffsetsValid := by decide
  have hs : bigStream.fullSize = 200080 := by decide
  rw [← hs]
  exact ⟨VideoStream.totalsize_eq hv (by omega), (VideoStream.sizes hv (by omega) 0).2⟩

/-- The oldest record is big enough. -/
theorem makes_room_big : MakesRoom (twoRecords ⟨4000000, keyTag⟩ ⟨1000, keyTag⟩ (by decide))
    bigStream := by
  refine (makes_room_iff _ _ ?_).mpr ?_
  · rw [bigStream_size.1]
    decide
  · rw [bigStream_size.1]
    decide

/-- A small record makes way for a big one, and the big one behind it does not. -/
theorem little_room : bigStream.totalsize ≤ 4 * 1024 * 1024 ∧
    vsfStreamH264Proc (twoRecords ⟨1000, tagBase⟩ ⟨4000000, keyTag⟩ (by decide)) bigStream = none ∧
    ¬ MakesRoom (twoRecords ⟨1000, tagBase⟩ ⟨4000000, keyTag⟩ (by decide)) bigStream := by
  have hput : vsfStreamH264Proc (twoRecords ⟨1000, tagBase⟩ ⟨4000000, keyTag⟩ (by decide))
      bigStream = none := by
    rw [vsfStreamH264Proc, bigStream_size.1, bigStream_size.2]
    decide
  refine ⟨?_, hput, ?_⟩
  · rw [bigStream_size.1]
    decide
  · rintro ⟨-, h, -⟩
    simp [hput] at h

end Freak.Media
