import Freak.Media.Delivery

/-! The time stamps of records and package headers, and what the FLV sender makes of them. -/
namespace Freak.Media

open Bytes

/-- `struct timespec` of `CLOCK_MONOTONIC`. -/
structure Timespec where
  sec : Nat
  nsec : Nat
  sec_lt : sec < 2 ^ 31
  nsec_lt : nsec < 10 ^ 9

namespace Timespec

/-- The time in milliseconds, rounded down. -/
def millis (t : Timespec) : Nat := t.sec * 1000 + t.nsec / 1000000

/-- Not later. -/
def le (t u : Timespec) : Prop := t.sec < u.sec ∨ t.sec = u.sec ∧ t.nsec ≤ u.nsec

theorem millis_le {t u : Timespec} (h : t.le u) : t.millis ≤ u.millis := by
  have ht := t.nsec_lt
  simp only [le, millis] at *
  omega

theorem millis_lt (t : Timespec) : t.millis < 2 ^ 42 := by
  have hs := t.sec_lt
  have hn := t.nsec_lt
  rw [millis]
  omega

end Timespec

/-- A `long`, which is what `tv_sec` and `tv_nsec` are. -/
def long (abi : Abi) (v : Int) : Int := v.bmod abi.sizeMod

/-- `ts.tv_sec * 1000 + ts.tv_nsec / 1000000`, stored in 64 bits: the `ts` of `video_stream_recput`,
`video_frame_recput`, `proto_package_fill` and `proto_package_fill_header`. -/
def stamp (abi : Abi) (t : Timespec) : Nat :=
  (long abi (long abi (t.sec * 1000) + long abi (t.nsec / 1000000)) % 2 ^ 64).toNat

theorem stamp_eq_iff {abi : Abi} {t : Timespec} :
    stamp abi t = t.millis ↔ abi = .lp64 ∨ t.millis < 2 ^ 31 := by
  have hlt := t.millis_lt
  have hsum : long abi (long abi (t.sec * 1000) + long abi (t.nsec / 1000000)) =
      (t.millis : Int).bmod abi.sizeMod := by
    simp only [long, Int.bmod_add_bmod, Int.add_bmod_bmod]
    rfl
  rw [stamp, hsum, Int.bmod_def]
  cases abi with
  | lp64 =>
    simp only [Abi.sizeMod, true_or, iff_true]
    omega
  | ilp32 =>
    simp only [Abi.sizeMod, reduceCtorEq, false_or]
    omega

theorem stamp_lt {abi : Abi} {t : Timespec} : stamp abi t < 2 ^ 64 := by
  rw [stamp]
  omega

theorem recTs_bytes {m : MediaRecord} {body : List UInt8} (h : m.ts < 2 ^ 64) :
    recTs (m.bytes ++ body) = m.ts := by
  have hs : slice (m.bytes ++ body) 8 8 = le 8 m.ts := by
    rw [MediaRecord.bytes, ← List.append_assoc, List.append_assoc]
    exact slice_append_of_eq (by simp) (length_le 8 _)
  rw [recTs, hs, ofLe_le, Nat.mod_eq_of_lt (by omega)]

/-- A record of a picture, with the time at which it was put into the ring. -/
structure Stamped where
  time : Timespec
  size : Nat
  tag : Nat
  body : List UInt8
  size_pos : 0 < size
  size_lt : size < 2 ^ 32

/-- The record as a sender receives it. -/
def Stamped.bytes (abi : Abi) (r : Stamped) : List UInt8 :=
  MediaRecord.bytes ⟨r.size, r.tag, stamp abi r.time⟩ ++ r.body

/-- The packs that a sender finds in it. -/
def Stamped.packs (abi : Abi) (r : Stamped) : Nat := (repoint abi (r.bytes abi)).length

/-- The rounds of `flv_send_proc` with a record: the times of what it gives to `flv_muxer_avc`. -/
def flvTimes (abi : Abi) : Nat → List Stamped → List Nat
  | _, [] => []
  | pts, r :: rs =>
    let (inputs, pts) := flvSendProc abi (r.bytes abi) pts
    inputs.map PackerInput.time ++ flvTimes abi pts rs

/-- `a - b` of two `uint64_t`. -/
@[irreducible] def sub64 (a b : Nat) : Nat := (a + 2 ^ 64 - b) % 2 ^ 64

/-- `priv->pts` behind a record of `k` packs. -/
def nextPts (pts ts k : Nat) : Nat := if k = 0 ∨ pts ≠ 0 then pts else ts

/-- The times of records of `ts` and a number of packs, from `pts` on. -/
def sendTimes : Nat → List (Nat × Nat) → List Nat
  | _, [] => []
  | pts, (ts, k) :: rs =>
    List.replicate k (sub64 ts (nextPts pts ts k)) ++ sendTimes (nextPts pts ts k) rs

/-- The `ts` of the first record that has a pack. -/
def firstTs (rs : List (Nat × Nat)) : Nat := ((rs.find? fun r => 0 < r.2).map Prod.fst).getD 0

section

variable {abi : Abi} {r : Stamped} {rs : List Stamped} {xs : List (Nat × Nat)} {pts : Nat}

theorem recSize_stamped : recSize (r.bytes abi) ≠ 0 := by
  rw [Stamped.bytes, MediaRecord.recSize_bytes r.size_lt]
  exact r.size_pos.ne'

theorem recTs_stamped : recTs (r.bytes abi) = stamp abi r.time := recTs_bytes stamp_lt

theorem flvSendProc_stamped : flvSendProc abi (r.bytes abi) pts =
    ((repoint abi (r.bytes abi)).map fun x => ⟨x.1, recvLen abi x.2,
      sub64 (stamp abi r.time) (nextPts pts (stamp abi r.time) (r.packs abi))⟩,
      nextPts pts (stamp abi r.time) (r.packs abi)) := by
  rw [flvSendProc, if_neg recSize_stamped, recTs_stamped]
  simp only [Stamped.packs, nextPts, List.length_eq_zero_iff, sub64]

/-- The sender's times depend on the stamps and the numbers of packs only. -/
theorem flvTimes_eq : flvTimes abi pts rs =
    sendTimes pts (rs.map fun r => (stamp abi r.time, r.packs abi)) := by
  induction rs generalizing pts with
  | nil => rfl
  | cons r rs ih =>
    have htimes : ∀ c : Nat, ((repoint abi (r.bytes abi)).map fun x =>
        (⟨x.1, recvLen abi x.2, c⟩ : PackerInput)).map PackerInput.time =
        List.replicate (r.packs abi) c := by
      intro c
      rw [List.map_map]
      exact List.map_const' ..
    rw [flvTimes, flvSendProc_stamped, List.map_cons, sendTimes]
    simp only [htimes, ih]

theorem sub64_eq {a b : Nat} (hb : b ≤ a) (ha : a < 2 ^ 64) : sub64 a b = a - b := by
  rw [sub64]
  omega

/-- Once the sender has its first time stamp it gives out differences to it. -/
theorem sendTimes_of_pos (hpts : pts ≠ 0) (h : ∀ x ∈ xs, pts ≤ x.1 ∧ x.1 < 2 ^ 64) :
    sendTimes pts xs = xs.flatMap fun x => List.replicate x.2 (x.1 - pts) := by
  induction xs with
  | nil => rfl
  | cons x xs ih =>
    obtain ⟨ts, k⟩ := x
    obtain ⟨hle, hlt⟩ := h (ts, k) List.mem_cons_self
    have hnext : nextPts pts ts k = pts := if_pos (Or.inr hpts)
    rw [sendTimes, hnext, sub64_eq hle hlt, ih fun y hy => h y (List.mem_cons_of_mem _ hy)]
    rfl

/-- Before, it gives out the stamps themselves as long as they are 0. -/
theorem sendTimes_zero_iff (h : ∀ x ∈ xs, x.1 < 2 ^ 64) :
    (sendTimes 0 xs = xs.flatMap fun x => List.replicate x.2 x.1) ↔
      ∀ x ∈ xs, 0 < x.2 → x.1 = 0 := by
  induction xs with
  | nil => simp [sendTimes]
  | cons x xs ih =>
    obtain ⟨ts, k⟩ := x
    have ih := ih fun y hy => h y (List.mem_cons_of_mem _ hy)
    rw [List.forall_mem_cons, sendTimes, List.flatMap_cons]
    rcases Nat.eq_zero_or_pos k with rfl | hk
    · simpa [nextPts] using ih
    · have hnext : nextPts 0 ts k = ts := if_neg (by omega)
      rw [hnext, sub64_eq le_rfl (h _ List.mem_cons_self), Nat.sub_self]
      by_cases h0 : ts = 0
      · subst h0
        rw [List.append_cancel_left_eq, ih]
        simp
      · refine iff_of_false ?_ fun hall => h0 (hall.1 hk)
        intro heq
        have hhead := (List.append_inj heq (by simp)).1
        exact h0 ((List.replicate_inj.mp hhead).2.resolve_left hk.ne').symm

/-- The times are those since the first record, unless that one has the time 0 and others do not. -/
theorem sendTimes_iff (hs : xs.Pairwise fun x y => x.1 ≤ y.1) (h : ∀ x ∈ xs, x.1 < 2 ^ 64) :
    (sendTimes 0 xs = xs.flatMap fun x => List.replicate x.2 (x.1 - firstTs xs)) ↔
      firstTs xs ≠ 0 ∨ ∀ x ∈ xs, 0 < x.2 → x.1 = 0 := by
  induction xs with
  | nil => simp [sendTimes]
  | cons x xs ih =>
    obtain ⟨ts, k⟩ := x
    obtain ⟨hle, hs'⟩ := List.pairwise_cons.mp hs
    have hlt := fun y hy => h y (List.mem_cons_of_mem (ts, k) hy)
    rcases Nat.eq_zero_or_pos k with rfl | hk
    · have hfirst : firstTs ((ts, 0) :: xs) = firstTs xs := rfl
      have ih := ih hs' hlt
      rw [hfirst, List.forall_mem_cons]
      simpa [sendTimes, nextPts] using ih
    · have hfirst : firstTs ((ts, k) :: xs) = ts := by simp [firstTs, hk]
      rw [hfirst]
      by_cases h0 : ts = 0
      · subst h0
        simpa using sendTimes_zero_iff h
      · refine iff_of_true ?_ (Or.inl h0)
        have hnext : nextPts 0 ts k = ts := if_neg (by omega)
        rw [sendTimes, hnext, sub64_eq le_rfl (h _ List.mem_cons_self), List.flatMap_cons,
          sendTimes_of_pos h0 fun y hy => ⟨hle y hy, hlt y hy⟩]

end

/-- The time of the first record that has a pack. -/
def firstMillis (abi : Abi) (rs : List Stamped) : Nat :=
  firstTs (rs.map fun r => (r.time.millis, r.packs abi))

/-- The stamps are the times at which the records were put, so that they do not decrease and the
sender gives out the time since its first record. -/
structure Timed (abi : Abi) (rs : List Stamped) : Prop where
  exact : ∀ r ∈ rs, stamp abi r.time = r.time.millis
  sorted : (rs.map fun r => stamp abi r.time).Pairwise (· ≤ ·)
  elapsed : flvTimes abi 0 rs = rs.flatMap fun r =>
    List.replicate (r.packs abi) (r.time.millis - firstMillis abi rs)

/-- Time stamps are right where a `long` holds the time, and differences to them unless the first
record has the time 0. -/
theorem timed_iff (abi : Abi) (rs : List Stamped)
    (hs : rs.Pairwise fun r q => r.time.le q.time) :
    Timed abi rs ↔ (abi = .lp64 ∨ ∀ r ∈ rs, r.time.millis < 2 ^ 31) ∧
      (firstMillis abi rs ≠ 0 ∨ ∀ r ∈ rs, 0 < r.packs abi → r.time.millis = 0) := by
  have hexact : (∀ r ∈ rs, stamp abi r.time = r.time.millis) ↔
      abi = .lp64 ∨ ∀ r ∈ rs, r.time.millis < 2 ^ 31 := by
    simp only [stamp_eq_iff]
    cases abi <;> simp
  rw [← hexact]
  have hmillis : rs.Pairwise fun r q => r.time.millis ≤ q.time.millis :=
    hs.imp Timespec.millis_le
  -- what is left is about the sender, on stamps that are right
  have hsend : ∀ h : ∀ r ∈ rs, stamp abi r.time = r.time.millis,
      (flvTimes abi 0 rs = rs.flatMap fun r =>
          List.replicate (r.packs abi) (r.time.millis - firstMillis abi rs)) ↔
        firstMillis abi rs ≠ 0 ∨ ∀ r ∈ rs, 0 < r.packs abi → r.time.millis = 0 := by
    intro h
    have hmap : (rs.map fun r => (stamp abi r.time, r.packs abi)) =
        rs.map fun r => (r.time.millis, r.packs abi) :=
      List.map_congr_left fun r hr => by rw [h r hr]
    have hpairs : (rs.map fun r => (r.time.millis, r.packs abi)).Pairwise fun x y => x.1 ≤ y.1 :=
      List.pairwise_map.mpr hmillis
    have hlt : ∀ x ∈ rs.map fun r => (r.time.millis, r.packs abi), x.1 < 2 ^ 64 :=
      List.forall_mem_map.mpr fun r _ => r.time.millis_lt.trans (by decide)
    have hiff := sendTimes_iff hpairs hlt
    rw [List.flatMap_map, List.forall_mem_map] at hiff
    rw [flvTimes_eq, hmap]
    exact hiff
  constructor
  · intro ht
    exact ⟨ht.exact, (hsend ht.exact).mp ht.elapsed⟩
  · rintro ⟨hex, hfirst⟩
    refine ⟨hex, ?_, (hsend hex).mpr hfirst⟩
    rw [List.map_congr_left hex]
    exact List.pairwise_map.mpr hmillis

/-- A record of one pack. -/
def onePack (t : Timespec) : Stamped := ⟨t, 16, 0, [0, 0, 0, 0, 1], by decide, by decide⟩

/-- Two records on the board, a day after it was started. -/
theorem timed_day : Timed .ilp32 [onePack ⟨86400, 0, by decide, by decide⟩,
    onePack ⟨86400, 40000000, by decide, by decide⟩] := by
  refine (timed_iff _ _ ?_).mpr ⟨Or.inr ?_, Or.inl ?_⟩
  · simp [Timespec.le, onePack]
  · simp [Timespec.millis, onePack]
  · decide

/-- A record on the board, after twenty-five days. -/
theorem timed_wraps : ¬ Timed .ilp32 [onePack ⟨2160000, 0, by decide, by decide⟩] := by
  intro h
  exact absurd (h.exact _ List.mem_cons_self) (by decide)

end Freak.Media
