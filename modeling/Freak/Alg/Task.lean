import Freak.Utils.Que

/-! What the detection loop acquires and gives back: `hs_fd_task` of `face.c` between its callbacks,
the image memory and the queue of results. -/
namespace Freak.Alg

open Freak.Utils

/-- What the loop does to a frame, to the destination image and to a record of results; `sourceFree`
is `HI_MPI_SYS_MmzFree` of the source image's addresses. -/
inductive Event
  | frameGet (ok : Bool)
  | frameFree
  | imageAlloc (ok : Bool)
  | imageFree
  | sourceFree
  | resultAlloc
  | put (accepted : Bool)
  | resultFree
  | returned
deriving DecidableEq

def videoFrameFormatYuv420spVu : Nat := 8

/-- What one pass through the loop meets: how `FRAME_GET` ends, the frame's format, how the calls
for the images end, the detections, whether there is memory for the results, the results and the
queue as `que_put` finds it, and how the call at the end of the loop ends. -/
structure Pass (ρ : Type) where
  frameGet : Bool
  enPixelFormat : Nat
  mmzAlloc : Bool
  mmzFlush : Bool
  csc : Bool
  fdNum : BitVec 32
  malloc : Bool
  results : ρ
  resultQue : Que ρ
  last : Bool

namespace Pass

variable {ρ : Type}

/-- `que_put(priv->resultQue, results, 0)`; its result is dropped. -/
def accepted (p : Pass ρ) : Bool :=
  match p.resultQue.put p.results false with
  | some (_, o) => o.ret == some 0
  | none => false

/-- The destination image of the first frames: its memory is asked for until something has been
detected. -/
def image (framecnt : BitVec 32) (p : Pass ρ) : List Event :=
  if framecnt = 0 then [.imageAlloc p.mmzAlloc] else []

/-- The results, when `RESULT_OUT` is registered. -/
def deliver (resultOut : Bool) (p : Pass ρ) : List Event :=
  if resultOut = true ∧ p.malloc = true then [.resultAlloc, .put p.accepted] else []

/-- One pass, with `framecnt` behind it unless the task has returned. -/
def run (resultOut : Bool) (framecnt : BitVec 32) (p : Pass ρ) :
    List Event × Option (BitVec 32) :=
  if p.frameGet = false then ([.frameGet false], some framecnt)
  else if framecnt = 0 ∧ p.mmzAlloc = false then
    (.frameGet true :: p.image framecnt ++ [.sourceFree, .returned], none)
  else if p.enPixelFormat = videoFrameFormatYuv420spVu ∧ p.mmzFlush = false then
    (.frameGet true :: p.image framecnt ++ [.imageFree, .returned], none)
  else if p.enPixelFormat = videoFrameFormatYuv420spVu ∧ p.csc = false then
    (.frameGet true :: p.image framecnt ++ [.returned], none)
  else
    let next := if 0 < p.fdNum.toNat then framecnt + 1 else framecnt
    -- `FRAME_GET` stands where `FRAME_FREE` should
    (.frameGet true :: p.image framecnt ++ p.deliver resultOut ++ [.frameGet p.last], some next)

end Pass

variable {ρ : Type}

/-- `hs_fd_task`: its passes, and whether the stop flag is seen behind the last of them. -/
def hsFdTask (resultOut stop : Bool) (framecnt : BitVec 32) : List (Pass ρ) → List Event
  | [] => if stop then [.imageFree, .returned] else []
  | p :: ps =>
    match p.run resultOut framecnt with
    | (events, none) => events
    | (events, some framecnt) => events ++ hsFdTask resultOut stop framecnt ps

/-- Behind every event that opens, one closes before the next that would open again. -/
def Bracketed (opens again closes : Event → Bool) (l : List Event) : Prop :=
  ∀ l₁ e l₂, l = l₁ ++ e :: l₂ → opens e = true →
    (l₂.takeWhile fun e => !again e).countP closes = 1

/-- Frames are freed before the next is asked for, the destination image is allocated at most once
and freed as often, and results are accepted by the queue or freed. -/
structure Disciplined (l : List Event) : Prop where
  frames : Bracketed (· = .frameGet true) (fun e => e = .frameGet true ∨ e = .frameGet false)
    (· = .frameFree) l
  once : l.count (.imageAlloc true) ≤ 1
  image : ∀ l₁ l₂, l = l₁ ++ l₂ → l₁.count .imageFree ≤ l₁.count (.imageAlloc true)
  freed : .returned ∈ l → l.count .imageFree = l.count (.imageAlloc true)
  results : Bracketed (· = .resultAlloc) (· = .resultAlloc)
    (fun e => e = .put true ∨ e = .resultFree) l

variable {resultOut stop : Bool} {framecnt : BitVec 32} {p : Pass ρ} {ps : List (Pass ρ)}

/-- `FRAME_FREE` is never called. -/
theorem frameFree_not_mem_run : .frameFree ∉ (p.run resultOut framecnt).1 := by
  simp only [Pass.run, Pass.image, Pass.deliver]
  split_ifs <;> simp

theorem hsFdTask_cons : hsFdTask resultOut stop framecnt (p :: ps) =
    (p.run resultOut framecnt).1 ++ match (p.run resultOut framecnt).2 with
      | none => []
      | some framecnt => hsFdTask resultOut stop framecnt ps := by
  rw [hsFdTask]
  obtain ⟨events, _ | framecnt⟩ := p.run resultOut framecnt
  · exact (List.append_nil events).symm
  · rfl

theorem frameFree_not_mem : .frameFree ∉ hsFdTask resultOut stop framecnt ps := by
  induction ps generalizing framecnt with
  | nil =>
    rw [hsFdTask]
    split_ifs <;> simp
  | cons p ps ih =>
    rw [hsFdTask_cons, List.mem_append]
    rintro (hp | hps)
    · exact frameFree_not_mem_run hp
    · cases hn : (p.run resultOut framecnt).2 with
      | none => simp [hn] at hps
      | some next =>
        rw [hn] at hps
        exact ih hps

/-- Without a frame a pass does nothing else. -/
theorem run_of_no_frame (hp : p.frameGet = false) :
    p.run resultOut framecnt = ([.frameGet false], some framecnt) := if_pos hp

theorem frame_mem_run (hp : p.frameGet = true) :
    .frameGet true ∈ (p.run resultOut framecnt).1 := by
  simp only [Pass.run, hp, Bool.true_eq_false, if_false]
  split_ifs <;> simp

/-- The first frame that is got shows. -/
theorem frame_mem (h : ∃ p ∈ ps, p.frameGet = true) :
    .frameGet true ∈ hsFdTask resultOut stop framecnt ps := by
  induction ps with
  | nil => simp at h
  | cons p ps ih =>
    rw [hsFdTask_cons, List.mem_append]
    cases hp : p.frameGet with
    | true => exact .inl (frame_mem_run hp)
    | false =>
      rw [run_of_no_frame hp]
      obtain ⟨q, hq, hget⟩ := h
      have hne : q ≠ p := by
        rintro rfl
        simp [hp] at hget
      exact .inr (ih ⟨q, (List.mem_cons.mp hq).resolve_left hne, hget⟩)

theorem hsFdTask_of_no_frame (h : ∀ p ∈ ps, p.frameGet = false) :
    hsFdTask resultOut stop framecnt ps =
      List.replicate ps.length (.frameGet false) ++
        if stop then [.imageFree, .returned] else [] := by
  induction ps with
  | nil => rfl
  | cons p ps ih =>
    rw [hsFdTask_cons, run_of_no_frame (h p List.mem_cons_self)]
    dsimp only
    rw [ih fun q hq => h q (List.mem_cons_of_mem p hq)]
    rfl

/-- A frame that is got is never freed. -/
theorem no_frame_of_disciplined (h : Disciplined (hsFdTask resultOut stop framecnt ps)) :
    ∀ p ∈ ps, p.frameGet = false := by
  by_contra hget
  have hmem : .frameGet true ∈ hsFdTask resultOut stop framecnt ps :=
    frame_mem (by simpa using hget)
  obtain ⟨l₁, l₂, hl⟩ := List.append_of_mem hmem
  have hone := h.frames l₁ _ l₂ hl rfl
  obtain ⟨e, he, hfree⟩ := List.countP_pos_iff.mp (Nat.lt_of_lt_of_eq Nat.one_pos hone.symm)
  obtain rfl := of_decide_eq_true hfree
  have hmem₂ : .frameFree ∈ l₂ := (List.takeWhile_subset _) he
  have hfreed : .frameFree ∈ hsFdTask resultOut stop framecnt ps := by
    rw [hl]
    simp [hmem₂]
  exact frameFree_not_mem hfreed

/-- The loop gives back what it takes exactly when it never gets a frame and is never told to
stop. -/
theorem hsFdTask_disciplined (resultOut stop : Bool) (ps : List (Pass ρ)) :
    Disciplined (hsFdTask resultOut stop 0 ps) ↔
      (∀ p ∈ ps, p.frameGet = false) ∧ stop = false := by
  constructor
  · intro h
    have hget := no_frame_of_disciplined h
    refine ⟨hget, ?_⟩
    rw [hsFdTask_of_no_frame hget] at h
    cases stop with
    | false => rfl
    | true =>
      have hfreed := h.freed (by simp)
      simp [List.count_replicate] at hfreed
  · rintro ⟨hget, rfl⟩
    have hl : ∀ e ∈ hsFdTask resultOut false 0 ps, e = .frameGet false := by
      rw [hsFdTask_of_no_frame hget]
      simp
    have hcount : ∀ e, e ≠ .frameGet false → (hsFdTask resultOut false 0 ps).count e = 0 :=
      fun e he => List.count_eq_zero.mpr fun hmem => he (hl e hmem)
    have hpart : ∀ l₁ e l₂, hsFdTask resultOut false 0 ps = l₁ ++ e :: l₂ →
        e = .frameGet false := by
      intro l₁ e l₂ hsplit
      exact hl e (by rw [hsplit]; simp)
    refine ⟨?_, ?_, ?_, ?_, ?_⟩
    · rintro l₁ e l₂ hsplit hopen
      rw [hpart l₁ e l₂ hsplit] at hopen
      cases hopen
    · rw [hcount (.imageAlloc true) nofun]
      exact Nat.zero_le 1
    · intro l₁ l₂ hsplit
      have hzero : l₁.count .imageFree = 0 := by
        refine List.count_eq_zero.mpr fun hmem => ?_
        cases hl _ (by rw [hsplit]; exact List.mem_append_left l₂ hmem)
      rw [hzero]
      exact Nat.zero_le _
    · intro hret
      cases hl _ hret
    · rintro l₁ e l₂ hsplit hopen
      rw [hpart l₁ e l₂ hsplit] at hopen
      cases hopen

/-- A frame in another format, in which nothing is detected. -/
def samplePass : Pass Unit where
  frameGet := true
  enPixelFormat := 10
  mmzAlloc := true
  mmzFlush := true
  csc := true
  fdNum := 0
  malloc := true
  results := ()
  resultQue := .create 32 fun _ => ()
  last := false

/-- The frame is not freed, and each pass asks for the image's memory again. -/
theorem frame_not_freed :
    hsFdTask true false 0 [samplePass, samplePass] =
      [.frameGet true, .imageAlloc true, .resultAlloc, .put true, .frameGet false,
        .frameGet true, .imageAlloc true, .resultAlloc, .put true, .frameGet false] ∧
    ¬ Disciplined (hsFdTask true false 0 [samplePass, samplePass]) := by
  refine ⟨by decide, fun h => ?_⟩
  exact absurd (no_frame_of_disciplined h samplePass List.mem_cons_self) (by decide)

end Freak.Alg
