import Freak.Vsf.Venc

/-! What the thread of `venc.c` takes from the encoders and gives back, call by call. -/
namespace Freak.Vsf.Fetch

open Lts
open Venc (PayloadType transforEncodeFormat)

/-- `VENC_PACK_S`, and `video_stream_pack_t` with `DataType.enH264EType` as `u32PackType`. -/
structure Pack where
  u64PhyAddr : Nat
  pu8Addr : Nat
  u32Len : Nat
  u32Offset : Nat
  u64PTS : Nat
  packType : Nat

/-- `VENC_STREAM_S`, with its packs. -/
structure VencStream where
  u32Seq : Nat
  pstPack : List Pack

/-- `video_stream_t`, with the packs that `pstPack` points to. -/
structure VideoStream where
  enType : Option StreamType
  u32Seq : Nat
  u32PackCount : Nat
  pstPack : List Pack

/-- `realloc` to `n` entries, of which new ones hold anything. -/
def realloc (fresh : Nat → Pack) (n : Nat) (packs : List Pack) : List Pack :=
  (packs ++ (List.range n).map fresh).take n

/-- `__transfor_stream_info`. -/
def transforStreamInfo (fresh : Nat → Pack) (src : VencStream) (dst : VideoStream) : VideoStream :=
  let count := src.pstPack.length
  { dst with
    u32Seq := src.u32Seq
    u32PackCount := count
    pstPack := (src.pstPack.zipIdx).foldl (fun packs p => packs.set p.2 p.1)
      (realloc fresh count dst.pstPack) }

/-- What a pass over a channel meets: whether its descriptor is ready, the packs that
`HI_MPI_VENC_QueryStatus` counts, whether there is memory for them, the picture that
`HI_MPI_VENC_GetStream` fills in, what is registered, what `realloc` finds, and whether
`HI_MPI_VENC_ReleaseStream` succeeds. -/
structure Pass (κ : Type) where
  ready : Bool
  u32CurPacks : Option Nat
  malloc : Bool
  got : Option VencStream
  cb : Option κ
  fresh : Nat → Pack
  released : Bool

inductive Event (κ : Type)
  | queryStatus (i : Nat) (packs : Option Nat)
  | malloc (packs : Nat) (ok : Bool)
  | getStream (i : Nat) (got : Option VencStream)
  | func (i : Nat) (cb : κ) (stream : VideoStream)
  | releaseStream (i : Nat) (pic : VencStream) (ok : Bool)
  | free

/-- The thread between two calls: the last `stream`, and what it has done. -/
structure Work (κ : Type) where
  stream : VideoStream
  log : List (Event κ)

variable {κ : Type}

def Work.add (w : Work κ) (es : List (Event κ)) : Work κ := { w with log := w.log ++ es }

/-- Step 2.5: `process frame`. -/
def process (ty : PayloadType) (i : Nat) (pic : VencStream) (p : Pass κ) (w : Work κ) : Work κ :=
  match p.cb with
  | none => w
  | some cb =>
    let stream := { transforStreamInfo p.fresh pic w.stream with enType := transforEncodeFormat ty }
    ⟨stream, w.log ++ [.func i cb stream]⟩

/-- Steps 2.1 to 2.7 for a channel, and whether the loop over the channels is left. -/
def pass (ty : PayloadType) (i : Nat) (p : Pass κ) (w : Work κ) : Work κ × Bool :=
  if p.ready = false then (w, false)
  else
    match p.u32CurPacks with
    | none => (w.add [.queryStatus i none], true)
    | some 0 => (w.add [.queryStatus i (some 0)], false)
    | some (n + 1) =>
      let w := w.add [.queryStatus i (some (n + 1))]
      if p.malloc = false then (w.add [.malloc (n + 1) false], true)
      else
        let w := w.add [.malloc (n + 1) true]
        match p.got with
        | none => (w.add [.getStream i none, .free], true)
        | some pic =>
          let w := process ty i pic p (w.add [.getStream i (some pic)])
          (w.add [.releaseStream i pic p.released, .free], !p.released)

/-- The loop over the channels. -/
def passes (ty : Nat → PayloadType) (ps : Nat → Pass κ) : Nat → Work κ → Work κ × Bool
  | 0, w => (w, false)
  | n + 1, w =>
    match passes ty ps n w with
    | (w, true) => (w, true)
    | (w, false) => pass (ty n) n (ps n) w

/-- How `select` ends, with what the passes behind it meet. -/
inductive Round (κ : Type)
  | failed
  | timeout
  | ready (ps : Nat → Pass κ)

/-- Step 2 of `SAMPLE_COMM_VENC_GetVencStreamProc`: the thread ends when `select` fails. -/
def streams (n : Nat) (ty : Nat → PayloadType) : List (Round κ) → Work κ → Work κ
  | [], w => w
  | .failed :: _, w => w
  | .timeout :: rs, w => streams n ty rs w
  | .ready ps :: rs, w => streams n ty rs (passes ty ps n w).1

/-- What the thread has: nothing, memory for packs, memory that is to be freed, or a picture of a
channel, which has been passed on or not. -/
inductive Holds
  | nothing
  | memory (packs : Nat)
  | spent
  | picture (i : Nat) (pic : VencStream) (passed : Bool)

/-- A picture is taken into memory that was made for it, passed on at most once and as what it is,
released where it was taken, and its memory is freed. -/
inductive Orderly (ty : Nat → PayloadType) : Holds → Event κ → Holds → Prop
  | query {i : Nat} {packs : Option Nat} : Orderly ty .nothing (.queryStatus i packs) .nothing
  | noMemory {n : Nat} : Orderly ty .nothing (.malloc n false) .nothing
  | memory {n : Nat} (hn : 0 < n) : Orderly ty .nothing (.malloc n true) (.memory n)
  | noPicture {n i : Nat} : Orderly ty (.memory n) (.getStream i none) .spent
  | take {n i : Nat} {pic : VencStream} :
      Orderly ty (.memory n) (.getStream i (some pic)) (.picture i pic false)
  | pass {i : Nat} {pic : VencStream} {cb : κ} {stream : VideoStream}
      (htype : stream.enType = transforEncodeFormat (ty i)) (hseq : stream.u32Seq = pic.u32Seq)
      (hcount : stream.u32PackCount = pic.pstPack.length) (hpacks : stream.pstPack = pic.pstPack) :
      Orderly ty (.picture i pic false) (.func i cb stream) (.picture i pic true)
  | release {i : Nat} {pic : VencStream} {passed ok : Bool} :
      Orderly ty (.picture i pic passed) (.releaseStream i pic ok) .spent
  | free : Orderly ty .spent .free .nothing

/-- The picture that a pass takes. -/
def Pass.taken (p : Pass κ) : Option VencStream :=
  if p.ready = true ∧ p.u32CurPacks.getD 0 ≠ 0 ∧ p.malloc = true then p.got else none

/-- Whether the channels behind this one are left out. -/
def Pass.stops (p : Pass κ) : Bool :=
  p.ready && (p.u32CurPacks.isNone ||
    (p.u32CurPacks != some 0 && (!p.malloc || p.got.isNone || !p.released)))

/-- Whether the thread comes to channel `j`: no channel before it stops the loop. -/
def reaches (ps : Nat → Pass κ) (j : Nat) : Prop := ∀ i < j, (ps i).stops = false

instance (ps : Nat → Pass κ) (j : Nat) : Decidable (reaches ps j) :=
  inferInstanceAs (Decidable (∀ i < j, (ps i).stops = false))

/-- The picture of channel `j` in an event that takes one. -/
def Event.taken (j : Nat) : Event κ → Option VencStream
  | .getStream i got => if i = j then got else none
  | _ => none

/-- What the callback of channel `j` is called with. -/
def Event.passed (j : Nat) : Event κ → Option (κ × Option StreamType × Nat × List Pack)
  | .func i cb stream =>
    if i = j then some (cb, stream.enType, stream.u32Seq, stream.pstPack) else none
  | _ => none

/-- The rounds before `select` fails. -/
def live : List (Round κ) → List (Nat → Pass κ)
  | [] => []
  | .failed :: _ => []
  | .timeout :: rs => live rs
  | .ready ps :: rs => ps :: live rs

/-- What the callback of a channel is to be called with. -/
def Pass.passed (t : PayloadType) (p : Pass κ) :
    Option (κ × Option StreamType × Nat × List Pack) :=
  p.taken.bind fun pic => p.cb.map fun cb => (cb, transforEncodeFormat t, pic.u32Seq, pic.pstPack)

/-- What the rounds bring for channel `j`: each that comes to it adds what its pass there has. -/
def served {β : Type} (f : Pass κ → Option β) (j : Nat) (rounds : List (Nat → Pass κ)) : List β :=
  rounds.filterMap fun ps => if reaches ps j then f (ps j) else none

/-- What a pass over channel `i` has done, seen from channel `j`. -/
structure Adds (ty : Nat → PayloadType) (i : Nat) (p : Pass κ) (w w' : Work κ)
    (es : List (Event κ)) : Prop where
  log : w'.log = w.log ++ es
  orderly : MTr (Orderly ty) .nothing es .nothing
  taken (j : Nat) : es.filterMap (Event.taken j) = if i = j then p.taken.toList else []
  passed (j : Nat) :
    es.filterMap (Event.passed j) = if i = j then (p.passed (ty i)).toList else []

section

variable {ty : Nat → PayloadType} {n i j : Nat} {p : Pass κ} {ps : Nat → Pass κ} {w : Work κ}
  {pic : VencStream} {rs : List (Round κ)} {src : VencStream} {dst : VideoStream}

theorem set_loop {packs done rest : List Pack} (h : rest.length ≤ packs.length) :
    (rest.zipIdx done.length).foldl (fun packs p => packs.set p.2 p.1) (done ++ packs) =
      done ++ rest ++ packs.drop rest.length := by
  induction rest generalizing packs done with
  | nil => simp
  | cons p rest ih =>
    cases packs with
    | nil => simp at h
    | cons q packs =>
      have hset : (done ++ q :: packs).set done.length p = (done ++ [p]) ++ packs := by simp
      have hlen : (done ++ [p]).length = done.length + 1 := by simp
      rw [List.zipIdx_cons, List.foldl_cons, hset, ← hlen, ih (Nat.le_of_succ_le_succ h)]
      simp

/-- Whatever `stream` held, it then has the packs of the picture. -/
theorem transforStreamInfo_packs (fresh : Nat → Pack) :
    (transforStreamInfo fresh src dst).pstPack = src.pstPack := by
  have hlen : (realloc fresh src.pstPack.length dst.pstPack).length = src.pstPack.length := by
    rw [realloc, List.length_take, List.length_append, List.length_map, List.length_range]
    omega
  have hloop := @set_loop (realloc fresh src.pstPack.length dst.pstPack) [] src.pstPack hlen.ge
  simp only [List.length_nil, List.nil_append] at hloop
  simp only [transforStreamInfo]
  rw [hloop, List.drop_eq_nil_of_le hlen.le, List.append_nil]

theorem transforStreamInfo_seq (fresh : Nat → Pack) :
    (transforStreamInfo fresh src dst).u32Seq = src.u32Seq := rfl

/-- A pass begins and ends with nothing in hand. -/
theorem pass_step : (pass (ty i) i p w).2 = p.stops ∧
    ∃ es, Adds ty i p w (pass (ty i) i p w).1 es := by
  rw [pass]
  split
  case isTrue hready =>
    simp only [Pass.stops, hready, Bool.false_and, true_and]
    exact ⟨[], (List.append_nil _).symm, .refl, by simp [Pass.taken, hready],
      by simp [Pass.passed, Pass.taken, hready]⟩
  case isFalse hready =>
    rw [Bool.not_eq_false] at hready
    cases hpacks : p.u32CurPacks with
    | none =>
      refine ⟨by simp [Pass.stops, hready, hpacks], _, rfl, .stepL .query .refl, ?_, ?_⟩ <;>
        simp [Pass.taken, Pass.passed, hpacks, Event.taken, Event.passed]
    | some n =>
      cases n with
      | zero =>
        refine ⟨by simp [Pass.stops, hready, hpacks], _, rfl, .stepL .query .refl, ?_, ?_⟩ <;>
          simp [Pass.taken, Pass.passed, hpacks, Event.taken, Event.passed]
      | succ n =>
        dsimp only
        split
        case isTrue hmalloc =>
          refine ⟨by simp [Pass.stops, hready, hpacks, hmalloc], _, List.append_assoc ..,
            .stepL .query (.stepL .noMemory .refl), ?_, ?_⟩ <;>
            simp [Pass.taken, Pass.passed, hmalloc, Event.taken, Event.passed]
        case isFalse hmalloc =>
          rw [Bool.not_eq_false] at hmalloc
          have hbegin {es : List (Event κ)} (h : MTr (Orderly ty) (.memory (n + 1)) es .nothing) :
              MTr (Orderly ty) .nothing
                (.queryStatus i (some (n + 1)) :: .malloc (n + 1) true :: es) .nothing :=
            .stepL .query (.stepL (.memory n.succ_pos) h)
          have hend {pic : VencStream} {passed : Bool} : MTr (Orderly (κ := κ) ty)
              (.picture i pic passed) [.releaseStream i pic p.released, .free] .nothing :=
            .stepL .release (.stepL .free .refl)
          cases hgot : p.got with
          | none =>
            refine ⟨by simp [Pass.stops, hready, hpacks, hmalloc, hgot],
              [.queryStatus i (some (n + 1)), .malloc (n + 1) true, .getStream i none, .free],
              by simp [Work.add], hbegin (.stepL .noPicture (.stepL .free .refl)), ?_, ?_⟩ <;>
              simp [Pass.taken, Pass.passed, hgot, Event.taken, Event.passed]
          | some pic =>
            have htaken : p.taken = some pic := by simp [Pass.taken, hready, hpacks, hmalloc, hgot]
            have hstops : (!p.released) = p.stops := by
              simp [Pass.stops, hready, hpacks, hmalloc, hgot]
            cases hcb : p.cb with
            | none =>
              refine ⟨by simpa [process, hcb] using hstops,
                [.queryStatus i (some (n + 1)), .malloc (n + 1) true, .getStream i (some pic),
                  .releaseStream i pic p.released, .free],
                by simp [Work.add, process, hcb], hbegin (.stepL .take hend), ?_, ?_⟩ <;>
                intro j <;> by_cases h : i = j <;>
                simp [h, htaken, Pass.passed, hcb, Event.taken, Event.passed, List.filterMap_cons]
            | some cb =>
              let stream : VideoStream :=
                { transforStreamInfo p.fresh pic w.stream with
                  enType := transforEncodeFormat (ty i) }
              have hpass : Orderly ty (.picture i pic false) (.func i cb stream)
                  (.picture i pic true) :=
                .pass rfl rfl rfl (transforStreamInfo_packs p.fresh)
              refine ⟨by simpa [process, hcb] using hstops,
                [.queryStatus i (some (n + 1)), .malloc (n + 1) true, .getStream i (some pic),
                  .func i cb stream, .releaseStream i pic p.released, .free],
                by simp [Work.add, process, hcb, stream],
                hbegin (.stepL .take (.stepL hpass hend)), ?_, ?_⟩ <;>
                intro j <;> by_cases h : i = j <;>
                simp [h, htaken, Pass.passed, hcb, Event.taken, Event.passed, List.filterMap_cons,
                  stream, transforStreamInfo_packs, transforStreamInfo_seq]

theorem seen_succ {β : Type} (f : Nat → List β) (h : reaches ps n) :
    (if j < n ∧ reaches ps j then f j else []) ++ (if n = j then f n else []) =
      if j < n + 1 ∧ reaches ps j then f j else [] := by
  rcases Nat.lt_trichotomy j n with hj | rfl | hj
  · simp [hj, hj.ne', hj.trans n.lt_succ_self]
  · simp [h]
  · simp [hj.ne, hj.not_gt, Nat.not_lt.2 hj]

/-- A pass over each of the first `n` channels, until one stops the loop. -/
theorem passes_step (n : Nat) : ((passes ty ps n w).2 = true ↔ ¬ reaches ps n) ∧
    ∃ es, (passes ty ps n w).1.log = w.log ++ es ∧ MTr (Orderly ty) .nothing es .nothing ∧
      ∀ j, es.filterMap (Event.taken j) =
          (if j < n ∧ reaches ps j then (ps j).taken.toList else []) ∧
        es.filterMap (Event.passed j) =
          if j < n ∧ reaches ps j then ((ps j).passed (ty j)).toList else [] := by
  induction n with
  | zero => exact ⟨by simp [passes, reaches], [], by simp [passes], .refl, by simp⟩
  | succ n ih =>
    obtain ⟨hstop, es, hlog, horderly, hseen⟩ := ih
    have hreach : reaches ps (n + 1) ↔ reaches ps n ∧ (ps n).stops = false := by
      simp only [reaches, Nat.lt_succ_iff_lt_or_eq, or_imp, forall_and, forall_eq]
    rw [passes]
    rcases hpasses : passes ty ps n w with ⟨w', stopped⟩
    rw [hpasses] at hstop hlog
    cases stopped with
    | true =>
      have hn := hstop.1 rfl
      have hlast (j : Nat) : j < n + 1 ∧ reaches ps j ↔ j < n ∧ reaches ps j := by
        refine ⟨fun ⟨hj, h⟩ => ⟨?_, h⟩, fun ⟨hj, h⟩ => ⟨hj.trans n.lt_succ_self, h⟩⟩
        exact Nat.lt_of_le_of_ne (Nat.le_of_lt_succ hj) fun e => hn (e ▸ h)
      refine ⟨by simp [hreach, hn], es, hlog, horderly, fun j => ?_⟩
      simpa only [hlast] using hseen j
    | false =>
      have hn : reaches ps n := not_not.1 fun h => Bool.noConfusion (hstop.2 h)
      obtain ⟨hstops, es', hadds⟩ := @pass_step _ ty n (ps n) w'
      refine ⟨by simp [hreach, hn, hstops], es ++ es', ?_,
        mtr_append.2 ⟨_, horderly, hadds.orderly⟩, fun j => ⟨?_, ?_⟩⟩
      · rw [hadds.log, hlog, List.append_assoc]
      · rw [List.filterMap_append, (hseen j).1, hadds.taken]
        exact seen_succ (fun j => (ps j).taken.toList) hn
      · rw [List.filterMap_append, (hseen j).2, hadds.passed]
        exact seen_succ (fun j => ((ps j).passed (ty j)).toList) hn

theorem served_cons {β : Type} (f : Pass κ → Option β) {rounds : List (Nat → Pass κ)} :
    served f j (ps :: rounds) =
      (if reaches ps j then (f (ps j)).toList else []) ++ served f j rounds := by
  by_cases h : reaches ps j
  · cases hf : f (ps j) <;> simp [served, h, hf]
  · simp [served, h]

/-- A channel gets the pictures of those rounds in which no channel before it stops the loop. -/
theorem streams_served (ty : Nat → PayloadType) (rs : List (Round κ)) (w : Work κ) (hj : j < n) :
    (streams n ty rs w).log.filterMap (Event.taken j) =
        w.log.filterMap (Event.taken j) ++ served Pass.taken j (live rs) ∧
      (streams n ty rs w).log.filterMap (Event.passed j) =
        w.log.filterMap (Event.passed j) ++ served (Pass.passed (ty j)) j (live rs) := by
  induction rs generalizing w with
  | nil => simp [streams, live, served]
  | cons r rs ih =>
    cases r with
    | failed => simp [streams, live, served]
    | timeout => exact ih w
    | ready ps =>
      obtain ⟨-, es, hlog, -, hseen⟩ := @passes_step _ ty ps w n
      obtain ⟨htaken, hpassed⟩ := hseen j
      simp only [hj, true_and] at htaken hpassed
      obtain ⟨ihtaken, ihpassed⟩ := ih (passes ty ps n w).1
      rw [streams, live, served_cons, served_cons, ihtaken, ihpassed, hlog, List.filterMap_append,
        List.filterMap_append, htaken, hpassed, List.append_assoc, List.append_assoc]
      exact ⟨rfl, rfl⟩

/-- Two channels; in the first round the encoder of the first one does not answer. -/
def behind : List (Round Unit) :=
  let fresh : Nat → Pack := fun _ => ⟨0, 0, 0, 0, 0, 0⟩
  let pass (packs : Option Nat) : Pass Unit :=
    ⟨true, packs, true, some ⟨7, [⟨4096, 8192, 100, 4, 40, 1⟩]⟩, some (), fresh, true⟩
  [.ready fun i => pass (if i = 0 then none else some 1), .timeout, .ready fun _ => pass (some 1)]

/-- The second channel is left out of the first round. -/
theorem streams_served_behind :
    (((streams 2 (fun _ => .h264) behind ⟨⟨none, 0, 0, []⟩, []⟩).log.filterMap
      (Event.taken 1)).map fun pic => (pic.u32Seq, pic.pstPack.map Pack.u32Len)) = [(7, [100])] ∧
    (((streams 2 (fun _ => .h264) behind ⟨⟨none, 0, 0, []⟩, []⟩).log.filterMap
      (Event.passed 1)).map fun call => (call.2.2.1, call.2.2.2.map Pack.u32Len)) =
        [(7, [100])] := by
  have hserved := @streams_served Unit 2 1 (fun _ => .h264) behind ⟨⟨none, 0, 0, []⟩, []⟩
    (by decide)
  rw [hserved.1, hserved.2]
  decide

end

end Freak.Vsf.Fetch
