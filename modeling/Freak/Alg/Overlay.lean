import Freak.Alg.Results
import Freak.Vsf.Osd

/-! What a viewer sees of the detections: the record that `__app_alg_result` triggers, on its way to
`vsf` and onto the canvas. -/
namespace Freak.Alg.Overlay

open Bytes Schema Lts
open Freak.Alg.Results (ResultInfo ResultBag OsdObjs track)
open Freak.Vsf (Bitmap Fits Depicts osdDraw objAt objOf objsPicture)
open Freak.Manager (Hal Call Serve Sound Legible word uword conditionOf)
open Freak.Proto (Record Server)

/-- An `int`. -/
def int32 (v : Int) : List UInt8 := le 4 (v % 2 ^ 32).toNat

/-- `proto_vsf_osd_obj_t` in memory. -/
def objImage (o : Results.OsdObj) : List UInt8 :=
  int32 o.id ++ (le 4 o.color ++ (int32 o.rect.x ++ (int32 o.rect.y ++
    (le 4 o.rect.w ++ le 4 o.rect.h))))

/-- `proto_vsf_osd_cfg_t` in memory; what is not initialized is zero. -/
def cfgImage (cfg : OsdObjs) : List UInt8 :=
  int32 cfg.id ++ (int32 cfg.enable ++ ((ascii cfg.condition ++
    List.replicate (32 - cfg.condition.length) 0) ++ (le 4 cfg.num ++
      ((List.range 16).map fun i => objImage (cfg.objs i)).flatten)))

section

variable (trackerId : Int → ResultBag → ResultBag → ResultBag × ResultBag)

/-- A round of `hs_fd_task`, and what `hs_fd_result_task` then has triggered for its result. -/
def triggered (framecnt : Int) (bag : ResultBag) : Run (List UInt8) := do
  let result ← Results.hsFdTask trackerId framecnt bag
  let cfg ← Results.appAlgResult result
  pure (cfgImage cfg)

end

/-- The overlay of the tracked objects. -/
def overlayOf (out : ResultBag) : OsdObjs :=
  ⟨Results.vsfOsdMax - 1, 1, "objs", out.objNum, fun i =>
    if i < out.objNum then ⟨(out.obj i).ID, 0x01ff0000, (out.obj i).published.rect⟩
    else ⟨0, 0, 0, 0, 0, 0⟩⟩

/-- A tracked object on the canvas: red, with its number. -/
def shown (o : ResultInfo) : Vsf.OsdObj := ⟨o.ID, 0x01ff0000, o.published.rect⟩

/-- The picture of the tracked objects. -/
noncomputable def facesPicture (face : Vsf.Face) (b : Bitmap) (out : ResultBag) :
    List (Nat × Set Nat) :=
  (List.range out.objNum).flatMap fun i => (shown (out.obj i)).layers face b

section

variable {o : Results.OsdObj} {cfg : OsdObjs} {i : Nat} {v : Int}

theorem length_int32 : (int32 v).length = 4 := length_le 4 _

theorem length_objImage : (objImage o).length = 24 := by
  simp [objImage, length_int32, length_le]

theorem uword_of_slice {img : List UInt8} {a n : Nat} (hn : n < 2 ^ 32)
    (h : slice img a 4 = le 4 n) : uword img a = n := by
  have hlt : n < 256 ^ 4 := hn
  rw [uword, h, ofLe_le, Nat.mod_eq_of_lt hlt]

/-- The fields of an object, each at its place. -/
theorem slices_objImage : slice (objImage o) 0 4 = int32 o.id ∧
    slice (objImage o) 4 4 = le 4 o.color ∧ slice (objImage o) 8 4 = int32 o.rect.x ∧
    slice (objImage o) 12 4 = int32 o.rect.y ∧ slice (objImage o) 16 4 = le 4 o.rect.w ∧
    slice (objImage o) 20 4 = le 4 o.rect.h := by
  refine ⟨?_, ?_, ?_, ?_, ?_, ?_⟩ <;>
    simp [slice, objImage, List.drop_append, length_int32, length_le, List.drop_eq_nil_of_le,
      List.take_of_length_le]

theorem objOf_objImage (hid : -2 ^ 31 ≤ o.id ∧ o.id < 2 ^ 31) (hc : o.color < 2 ^ 32)
    (hx : -2 ^ 31 ≤ o.rect.x ∧ o.rect.x < 2 ^ 31) (hy : -2 ^ 31 ≤ o.rect.y ∧ o.rect.y < 2 ^ 31)
    (hw : o.rect.w < 2 ^ 32) (hh : o.rect.h < 2 ^ 32) :
    objOf (objImage o) = ⟨o.id, UInt32.ofNat o.color, o.rect⟩ := by
  obtain ⟨h0, h4, h8, h12, h16, h20⟩ := @slices_objImage o
  simp only [objOf]
  rw [Manager.word_of_slice hid.1 hid.2 h0, uword_of_slice hc h4,
    Manager.word_of_slice hx.1 hx.2 h8, Manager.word_of_slice hy.1 hy.2 h12,
    uword_of_slice hw h16, uword_of_slice hh h20]

/-- The objects lie one behind the other. -/
theorem slice_objects {head : List UInt8} {f : Nat → List UInt8} (hhead : head.length = 44)
    (hf : ∀ i, (f i).length = 24) (hi : i < 16) :
    slice (head ++ ((List.range 16).map f).flatten) (44 + i * 24) 24 = f i := by
  have hall : ∀ x ∈ (List.range 16).map f, x.length = 24 := List.forall_mem_map.mpr fun i _ => hf i
  have hchunks := chunks_flatten hall
  rw [List.length_map, List.length_range] at hchunks
  have hget := @getElem?_chunks 24 16 ((List.range 16).map f).flatten i hi
  rw [hchunks, List.getElem?_map, List.getElem?_range hi, Option.map_some, Option.some.injEq]
    at hget
  rw [slice, ← hhead, ← List.drop_drop, List.drop_left, hget, slice]

/-- The record of a set of objects: its length, its condition, the number and the objects. -/
theorem slices_cfgImage (hc : cfg.condition = "objs") :
    (cfgImage cfg).length = Record.osdCfg.ty.size ∧
      condIs "objs" (conditionOf (cfgImage cfg)) = true ∧
      slice (cfgImage cfg) 40 4 = le 4 cfg.num ∧
      ∀ i < 16, slice (cfgImage cfg) (44 + i * 24) 24 = objImage (cfg.objs i) := by
  obtain ⟨cond, hcond⟩ : ∃ cond, ascii "objs" ++ List.replicate 28 0 = cond := ⟨_, rfl⟩
  have hlen : cond.length = 32 := by
    rw [← hcond]
    rfl
  have himage : cfgImage cfg = (int32 cfg.id ++ (int32 cfg.enable ++ (cond ++ le 4 cfg.num))) ++
      ((List.range 16).map fun i => objImage (cfg.objs i)).flatten := by
    simp only [cfgImage, hc, List.append_assoc, ← hcond]
    rfl
  have hhead : (int32 cfg.id ++ (int32 cfg.enable ++ (cond ++ le 4 cfg.num))).length = 44 := by
    simp [length_int32, length_le, hlen]
  refine ⟨?_, ?_, ?_, fun i hi => ?_⟩
  · rw [himage, List.length_append, hhead, Manager.length_flatten_map fun _ => length_objImage]
    rfl
  · have hslice : conditionOf (cfgImage cfg) = cond := by
      simp [himage, conditionOf, slice, List.drop_append, length_int32, hlen,
        List.drop_eq_nil_of_le, List.take_left']
    rw [hslice, ← hcond]
    decide
  · simp [himage, slice, List.drop_append, length_int32, hlen, List.drop_eq_nil_of_le, length_le]
  · rw [himage]
    exact slice_objects hhead (fun _ => length_objImage) hi

theorem u32_s32 {n : Nat} (hn : n < 2 ^ 32) : Vsf.u32 (Vsf.s32 n) = n := by
  rw [Vsf.u32, Vsf.s32, Int.bmod_def]
  omega

theorem tdiv_range (hv : -2 ^ 31 ≤ v ∧ v < 2 ^ 31) :
    -2 ^ 31 ≤ v.tdiv 640 ∧ v.tdiv 640 < 2 ^ 31 := by
  have habs : (v.tdiv 640).natAbs = v.natAbs / 640 := Int.natAbs_tdiv v 640
  omega

/-- A published rectangle has fields of its type. -/
theorem published_range {o : ResultInfo} (h : o.InRange) :
    (-2 ^ 31 ≤ o.published.rect.x ∧ o.published.rect.x < 2 ^ 31) ∧
      (-2 ^ 31 ≤ o.published.rect.y ∧ o.published.rect.y < 2 ^ 31) ∧
      o.published.rect.w < 2 ^ 32 ∧ o.published.rect.h < 2 ^ 32 := by
  simp only [ResultInfo.InRange, List.forall_mem_cons] at h
  obtain ⟨-, -, hx, hy, -⟩ := h
  simp only [ResultInfo.published]
  exact ⟨tdiv_range hx, tdiv_range hy, by omega, by omega⟩

variable {trackerId : Int → ResultBag → ResultBag → ResultBag × ResultBag} {framecnt : Int}
  {bag : ResultBag} {img : List UInt8}

/-- What is triggered when the tracker counts in both bags alike. -/
theorem triggered_eq_ok
    (hcount : (track trackerId framecnt bag).1.objNum = (track trackerId framecnt bag).2.objNum) :
    triggered trackerId framecnt bag = .ok img ↔
      ((track trackerId framecnt bag).2.objNum ≤ 16 ∧
        ∀ i < (track trackerId framecnt bag).2.objNum,
          ((track trackerId framecnt bag).2.obj i).InRange) ∧
      img = cfgImage (overlayOf (track trackerId framecnt bag).2) := by
  have hu : Vsf.u32 (Vsf.s32 (track trackerId framecnt bag).1.objNum) =
      (track trackerId framecnt bag).2.objNum := by
    rw [u32_s32 (track trackerId framecnt bag).1.objNum_lt, hcount]
  have hobjs : (fun i => if i < (track trackerId framecnt bag).2.objNum then
      (⟨(if i < (track trackerId framecnt bag).2.objNum then
          ((track trackerId framecnt bag).2.obj i).published else ⟨0, 0, 0, 0, 0⟩).id, 0x01ff0000,
        (if i < (track trackerId framecnt bag).2.objNum then
          ((track trackerId framecnt bag).2.obj i).published else ⟨0, 0, 0, 0, 0⟩).rect⟩ :
        Results.OsdObj)
      else ⟨0, 0, 0, 0, 0, 0⟩) = (overlayOf (track trackerId framecnt bag).2).objs := by
    funext i
    by_cases hi : i < (track trackerId framecnt bag).2.objNum
    · simp only [overlayOf, if_pos hi]
      rfl
    · simp only [overlayOf, if_neg hi]
  simp only [triggered, Results.hsFdTask, Run.bind_eq_ok, Results.publish_eq_ok,
    Results.appAlgResult_eq_ok, Run.pure_eq_ok, Results.vsfOsdObjsMax]
  constructor
  · rintro ⟨_, ⟨hrange, rfl⟩, _, ⟨hnum, rfl⟩, rfl⟩
    simp only [hu, hobjs] at hnum ⊢
    exact ⟨⟨hnum, fun i hi => (hrange i hi).2⟩, rfl⟩
  · rintro ⟨⟨hnum, hrange⟩, rfl⟩
    refine ⟨_, ⟨fun i hi => ⟨by omega, hrange i hi⟩, rfl⟩, _, ⟨by simpa only [hu] using hnum, rfl⟩,
      ?_⟩
    simp only [hu, hobjs]
    rfl

/-- On every canvas the triggered record shows the tracked objects. -/
theorem triggered_drawn {face : Vsf.Face} {b : Bitmap}
    (hcount : (track trackerId framecnt bag).1.objNum = (track trackerId framecnt bag).2.objNum)
    (hids : ∀ i < (track trackerId framecnt bag).2.objNum,
      -2 ^ 31 ≤ ((track trackerId framecnt bag).2.obj i).ID ∧
        ((track trackerId framecnt bag).2.obj i).ID < 2 ^ 31)
    (h : triggered trackerId framecnt bag = .ok img) (hface : face.Renders)
    (hsize : b.u32Height * b.u32Stride < 2 ^ 32) (hW : b.u32Width < 2 ^ 18)
    (hH : b.u32Height < 2 ^ 18) (hlabel : face.setPixelSizes 32 = true)
    (hfits : ∀ i < (track trackerId framecnt bag).2.objNum,
      Fits b ((track trackerId framecnt bag).2.obj i).published.rect) (mem : Vsf.Pixels) :
    ∃ mem', osdDraw face b img mem = .ok mem' ∧
      Depicts b (facesPicture face b (track trackerId framecnt bag).2) mem mem' := by
  obtain ⟨⟨hmax, hrange⟩, rfl⟩ := (triggered_eq_ok hcount).mp h
  obtain ⟨out, hout⟩ : ∃ out, (track trackerId framecnt bag).2 = out := ⟨_, rfl⟩
  rw [hout] at hids hfits hmax hrange ⊢
  obtain ⟨-, hcond, hslice, hat⟩ := @slices_cfgImage (overlayOf out) rfl
  have hn : uword (cfgImage (overlayOf out)) 40 = out.objNum :=
    uword_of_slice out.objNum_lt hslice
  have hobj : ∀ i < out.objNum, objAt (cfgImage (overlayOf out)) i = shown (out.obj i) := by
    intro i hi
    obtain ⟨hx, hy, hw, hh⟩ := published_range (hrange i hi)
    rw [objAt, hat i (by omega), overlayOf]
    simp only [if_pos hi]
    have hred : 0x01ff0000 < 2 ^ 32 := by decide
    exact objOf_objImage (hids i hi) hred hx hy hw hh
  have hpicture : objsPicture face b (cfgImage (overlayOf out)) = facesPicture face b out := by
    rw [objsPicture, facesPicture, hn]
    exact List.flatMap_congr fun i hi => by rw [hobj i (List.mem_range.mp hi)]
  rw [← hpicture]
  refine Vsf.objs_drawn hface hsize hW hH hcond (hn ▸ hmax) (fun i hi => ?_) hlabel mem
  rw [hn] at hi
  rw [hobj i hi]
  exact hfits i hi

variable {h : Hal} {v : Server Manager.State} {s t : Manager.State} {calls pre post : List Call}
  {c : Call}

/-- From the tracker to the viewer: whatever clients have called before and after, and in either
format, the record that `vsf` is triggered with shows the tracked objects on every canvas. -/
theorem detections_drawn (hv : v.handler = h.handler .vsf) (hnum : ∀ n, 0 ∉ v.numText n)
    (hlaw : v.cs.Lawful) (hshow : h.ShowsRecord) (hs : Sound h .vsf s)
    (hrun : MTr (Serve h v .vsf) s calls t) (hread : ∀ c ∈ calls, Legible h v c)
    (hcalls : calls = pre ++ c :: post) (hkey : c.key = .osd) (hact : c.action = .tgr)
    (hcount : (track trackerId framecnt bag).1.objNum = (track trackerId framecnt bag).2.objNum)
    (hids : ∀ i < (track trackerId framecnt bag).2.objNum,
      -2 ^ 31 ≤ ((track trackerId framecnt bag).2.obj i).ID ∧
        ((track trackerId framecnt bag).2.obj i).ID < 2 ^ 31)
    (hsent : triggered trackerId framecnt bag = .ok c.sent) :
    ∃ u got w out, MTr (Serve h v .vsf) s pre u ∧
      (h.ops .osd 0).call .tgr (u .osd) got = .ok (w, out) ∧ ∀ (face : Vsf.Face) (b : Bitmap),
        face.Renders → b.u32Height * b.u32Stride < 2 ^ 32 → b.u32Width < 2 ^ 18 →
        b.u32Height < 2 ^ 18 → face.setPixelSizes 32 = true →
        (∀ i < (track trackerId framecnt bag).2.objNum,
          Fits b ((track trackerId framecnt bag).2.obj i).published.rect) →
        ∀ mem, ∃ mem', osdDraw face b got mem = .ok mem' ∧
          Depicts b (facesPicture face b (track trackerId framecnt bag).2) mem mem' := by
  subst hcalls
  obtain ⟨u, hpre, hrest⟩ := mtr_append.mp hrun
  cases hrest with
  | stepL hserve _ =>
    have htracks := Manager.tracks_run hv hnum hlaw hshow hpre (Manager.tracks_start hs)
      fun c hc => hread c (List.mem_append_left _ hc)
    obtain ⟨hfair, got, w, out, hglen, -, hgot, hcall, -⟩ := Manager.serve_cases hv hnum hlaw hshow
      htracks.sound (hread c (by simp)) hserve
    have hrecord : c.record h = .osdCfg := by
      rw [Call.record, hkey, hact]
      rfl
    have hslen := hfair.length
    rw [hrecord] at hglen hgot hslen
    rw [hkey, hact] at hcall
    refine ⟨u, got, w, out, hpre, hcall, ?_⟩
    intro face b hface hsize hW hH hlabel hfits mem
    rw [Vsf.osdDraw_congr hglen hslen hgot]
    exact triggered_drawn hcount hids hsent hface hsize hW hH hlabel hfits mem

end

open Freak.Proto (sampleHal)
open Freak.Manager (sampleNetwork blankState)

/-- A face, followed by its tracker. -/
def sampleBag : ResultBag := ⟨1, fun _ => ⟨64, 64, 320, 320, 7⟩, by decide⟩

/-- Its record. -/
def sampleImage : List UInt8 := cfgImage (overlayOf sampleBag)

theorem sample_triggered :
    triggered (fun _ bag _ => (bag, bag)) 0 sampleBag = .ok sampleImage := by
  refine (triggered_eq_ok rfl).mpr ⟨⟨by decide, fun _ _ v hv => ?_⟩, rfl⟩
  exact (by decide : ∀ v ∈ [(288 : Int), 288, 2359296, 2359296], -2 ^ 31 ≤ v ∧ v < 2 ^ 31) v hv

/-- It is shown on a canvas of 1920 by 1080. -/
theorem detections_drawn_followed : ∃ got mem',
    osdDraw Vsf.sampleFace ⟨1920, 1080, 3840, by decide, by decide, by decide⟩ got (fun k => k) =
      .ok mem' ∧
    Depicts ⟨1920, 1080, 3840, by decide, by decide, by decide⟩ (facesPicture Vsf.sampleFace
      ⟨1920, 1080, 3840, by decide, by decide, by decide⟩ sampleBag) (fun k => k) mem' := by
  have hshow : sampleHal.ShowsRecord := fun _ _ _ _ _ => rfl
  have hs := Manager.blank_sound .vsf
  obtain ⟨hlen, hcond, -⟩ := @slices_cfgImage (overlayOf sampleBag) rfl
  rw [← sampleImage] at hcond
  have hkey : Proto.Key.osd ∈ Proto.registered .vsf ∧ Proto.Key.osd ≠ .dummy := by decide
  have hfair : Call.Fair sampleHal .vsf ⟨false, .osd, .tgr, sampleImage, sampleImage⟩ :=
    ⟨hkey.1, hkey.2, fun _ => rfl, hlen, by decide⟩
  have hset : ∃ w, sampleHal.osdCtrl (blankState .osd) sampleImage = .ok (w, 0) := by
    rw [Hal.osdCtrl, if_neg (by decide), if_neg (by decide), if_pos hcond]
    have hid : Manager.idOf sampleImage = 15 := by decide
    have hchn : (blankState .osd).encoderOf sampleImage = 0 := by decide
    have hone : uword sampleImage 40 = 1 := by decide
    rw [Hal.overlay, hid, hchn, hone]
    exact ⟨_, rfl⟩
  obtain ⟨w, hset⟩ := hset
  have hone : Serve sampleHal (sampleNetwork .vsf) .vsf blankState
      ⟨false, .osd, .tgr, sampleImage, sampleImage⟩ _ :=
    Manager.serve_of_call rfl hshow hs hfair rfl
      (Manager.manager_tgr_eq_ok.mpr ⟨_, rfl, hset, rfl⟩)
  have hids : ∀ i < sampleBag.objNum, -2 ^ 31 ≤ (sampleBag.obj i).ID ∧
      (sampleBag.obj i).ID < 2 ^ 31 :=
    fun _ _ => (by decide : -2 ^ 31 ≤ (7 : Int) ∧ (7 : Int) < 2 ^ 31)
  obtain ⟨-, got, -, -, -, -, hdrawn⟩ := @detections_drawn (fun _ bag _ => (bag, bag)) 0 sampleBag
    _ _ _ _ [_] [] [] _ rfl Json.zero_notMem_decimal plain_lawful hshow hs (.stepL hone .refl)
    (fun c _ => Manager.sample_legible c .vsf) rfl rfl rfl rfl hids sample_triggered
  have hrect : (⟨64, 64, 320, 320, 7⟩ : ResultInfo).published.rect = ⟨3686, 3686, 819, 819⟩ :=
    rfl
  have hfits : Fits ⟨1920, 1080, 3840, by decide, by decide, by decide⟩
      ⟨3686, 3686, 819, 819⟩ := by
    refine ⟨by decide, by decide,
      .inr ⟨Vsf.limited_eq_target (by decide) (by decide) ?_ ?_, ?_⟩⟩
    · decide
    · decide
    · decide
  rw [← hrect] at hfits
  obtain ⟨mem', hmem⟩ := hdrawn Vsf.sampleFace
    ⟨1920, 1080, 3840, by decide, by decide, by decide⟩ Vsf.sampleFace_renders (by decide)
    (by decide) (by decide) (by decide) (fun _ _ => hfits) fun k => k
  exact ⟨got, mem', hmem⟩

end Freak.Alg.Overlay
