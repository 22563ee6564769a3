import Freak.Vsf.Draw

/-! The way of the detections: from the tracker's bag to the result `hs_fd_task` publishes, and from
there to the objects that `__app_alg_result` has drawn. -/
namespace Freak.Alg.Results

open Freak.Vsf (ObjRect u32 s32)

def algObjNumMax : Nat := 32

def vsfOsdObjsMax : Nat := 16

def vsfOsdMax : Int := 16

/-- `RESULT_INFO`. -/
structure ResultInfo where
  width : Int
  heigth : Int
  centerx : Int
  centery : Int
  ID : Int

/-- `RESULT_BAG`: the first `objNum` of 24 objects. -/
structure ResultBag where
  objNum : Nat
  obj : Nat → ResultInfo
  objNum_lt : objNum < 2 ^ 32

/-- `proto_app_alg_obj_t`. -/
structure AlgObj where
  id : Int
  rect : ObjRect

/-- `proto_app_alg_result_t`. -/
structure AlgResult where
  num : Int
  objs : Nat → AlgObj

/-- `proto_vsf_osd_obj_t`. -/
structure OsdObj where
  id : Int
  color : Nat
  rect : ObjRect

/-- `proto_vsf_osd_cfg_t` of a set of objects. -/
structure OsdObjs where
  id : Int
  enable : Int
  condition : String
  num : Nat
  objs : Nat → OsdObj

def ResultBag.zero : ResultBag := ⟨0, fun _ => ⟨0, 0, 0, 0, 0⟩, by decide⟩

/-- A signed result, which has no value out of its range. -/
def int (v : Int) : Run Int := if -2 ^ 31 ≤ v ∧ v < 2 ^ 31 then .ok v else .error .bounds

/-- A tracked object in the grid of 8192 by 8192. -/
def ResultInfo.publish (o : ResultInfo) : Run AlgObj := do
  let x ← int (o.centerx - o.width.tdiv 2)
  let y ← int (o.centery - o.heigth.tdiv 2)
  let x ← int (x * 8192)
  let y ← int (y * 8192)
  return ⟨o.ID, x.tdiv 640, y.tdiv 640, u32 o.width * 8192 % 2 ^ 32 / 640,
    u32 o.heigth * 8192 % 2 ^ 32 / 640⟩

def publishObj (resultOut : ResultBag) (i : Nat) (objs : Nat → AlgObj) : Run (Nat → AlgObj) := do
  let k ← Run.index 24 i
  let j ← Run.index algObjNumMax i
  let o ← (resultOut.obj k).publish
  return Function.update objs j o

/-- The result that `hs_fd_task` puts into its queue: the number of one bag, the objects of the
other. -/
def publish (resultBag resultOut : ResultBag) : Run AlgResult := do
  let objs ← Run.loop (publishObj resultOut) resultOut.objNum fun _ => ⟨0, 0, 0, 0, 0⟩
  return ⟨s32 resultBag.objNum, objs⟩

section

variable (trackerId : Int → ResultBag → ResultBag → ResultBag × ResultBag)

/-- `tracker_id` may change both bags. -/
def track (framecnt : Int) (bag : ResultBag) : ResultBag × ResultBag :=
  trackerId (if 0 < bag.objNum then framecnt + 1 else framecnt) bag .zero

/-- A round of `hs_fd_task`, from the bag of its detections on. -/
def hsFdTask (framecnt : Int) (bag : ResultBag) : Run AlgResult :=
  publish (track trackerId framecnt bag).1 (track trackerId framecnt bag).2

end

def triggerObj (result : AlgResult) (i : Nat) (objs : Nat → OsdObj) : Run (Nat → OsdObj) := do
  let k ← Run.index algObjNumMax i
  let j ← Run.index vsfOsdObjsMax i
  return Function.update objs j ⟨(result.objs k).id, 0x01ff0000, (result.objs k).rect⟩

/-- `__app_alg_result`: what it triggers. -/
def appAlgResult (result : AlgResult) : Run OsdObjs := do
  let num := u32 result.num
  let objs ← Run.loop (triggerObj result) num fun _ => ⟨0, 0, 0, 0, 0, 0⟩
  return ⟨vsfOsdMax - 1, 1, "objs", num, objs⟩

section

variable {o : ResultInfo} {a : AlgObj} {bag out : ResultBag} {result : AlgResult} {v w : Int}
  {n : Nat}

theorem int_eq_ok : int v = .ok w ↔ (-2 ^ 31 ≤ v ∧ v < 2 ^ 31) ∧ w = v := by
  rw [int]
  split_ifs with h
  · rw [Except.ok.injEq, eq_comm, and_iff_right h]
  · exact iff_of_false nofun fun hw => h hw.1

/-- The position of an object does not leave the signed range on its way to the grid. -/
def ResultInfo.InRange (o : ResultInfo) : Prop :=
  ∀ v ∈ [o.centerx - o.width.tdiv 2, o.centery - o.heigth.tdiv 2,
    (o.centerx - o.width.tdiv 2) * 8192, (o.centery - o.heigth.tdiv 2) * 8192],
    -2 ^ 31 ≤ v ∧ v < 2 ^ 31

/-- What a tracked object is published as. -/
def ResultInfo.published (o : ResultInfo) : AlgObj :=
  ⟨o.ID, ((o.centerx - o.width.tdiv 2) * 8192).tdiv 640,
    ((o.centery - o.heigth.tdiv 2) * 8192).tdiv 640, u32 o.width * 8192 % 2 ^ 32 / 640,
    u32 o.heigth * 8192 % 2 ^ 32 / 640⟩

theorem publish_obj_eq_ok : o.publish = .ok a ↔ o.InRange ∧ a = o.published := by
  simp only [ResultInfo.publish, Run.bind_eq_ok, int_eq_ok, Run.pure_eq_ok, ResultInfo.InRange,
    ResultInfo.published, List.forall_mem_cons]
  constructor
  · rintro ⟨_, ⟨hx, rfl⟩, _, ⟨hy, rfl⟩, _, ⟨hx', rfl⟩, _, ⟨hy', rfl⟩, rfl⟩
    exact ⟨⟨hx, hy, hx', hy', List.forall_mem_nil _⟩, rfl⟩
  · rintro ⟨⟨hx, hy, hx', hy', -⟩, rfl⟩
    exact ⟨_, ⟨hx, rfl⟩, _, ⟨hy, rfl⟩, _, ⟨hx', rfl⟩, _, ⟨hy', rfl⟩, rfl⟩

theorem publishObj_eq_ok {i : Nat} {s t : Nat → AlgObj} : publishObj out i s = .ok t ↔
    (i < 24 ∧ (out.obj i).InRange) ∧ t = Function.update s i (out.obj i).published := by
  simp only [publishObj, Run.bind_eq_ok, Run.index_eq_ok, publish_obj_eq_ok, Run.pure_eq_ok,
    algObjNumMax]
  constructor
  · rintro ⟨k, ⟨hk, hk24⟩, j, ⟨hj, -⟩, _, ⟨hr, rfl⟩, rfl⟩
    obtain ⟨rfl, rfl⟩ : k = i ∧ j = i := by omega
    exact ⟨⟨hk24, hr⟩, rfl⟩
  · rintro ⟨⟨hi, hr⟩, rfl⟩
    exact ⟨i, ⟨rfl, hi⟩, i, ⟨rfl, by omega⟩, _, ⟨hr, rfl⟩, rfl⟩

theorem publishObjs_eq_ok {s t : Nat → AlgObj} : Run.loop (publishObj out) n s = .ok t ↔
    (∀ i < n, i < 24 ∧ (out.obj i).InRange) ∧
      t = fun i => if i < n then (out.obj i).published else s i :=
  Run.loop_fill fun _ _ _ => publishObj_eq_ok

/-- The published result of an output bag, whatever the other bag counts. -/
theorem publish_eq_ok : publish bag out = .ok result ↔
    (∀ i < out.objNum, i < 24 ∧ (out.obj i).InRange) ∧
      result = ⟨s32 bag.objNum, fun i =>
        if i < out.objNum then (out.obj i).published else ⟨0, 0, 0, 0, 0⟩⟩ :=
  Run.bind_pure_eq_ok fun _ => publishObjs_eq_ok

theorem triggerObj_eq_ok {i : Nat} {s t : Nat → OsdObj} : triggerObj result i s = .ok t ↔
    i < vsfOsdObjsMax ∧
      t = Function.update s i ⟨(result.objs i).id, 0x01ff0000, (result.objs i).rect⟩ := by
  simp only [triggerObj, Run.bind_eq_ok, Run.index_eq_ok, Run.pure_eq_ok, algObjNumMax,
    vsfOsdObjsMax]
  constructor
  · rintro ⟨k, ⟨hk, -⟩, j, ⟨hj, hj16⟩, rfl⟩
    obtain ⟨rfl, rfl⟩ : k = i ∧ j = i := by omega
    exact ⟨hj16, rfl⟩
  · rintro ⟨hi, rfl⟩
    exact ⟨i, ⟨rfl, by omega⟩, i, ⟨rfl, hi⟩, rfl⟩

theorem triggerObjs_eq_ok {s t : Nat → OsdObj} : Run.loop (triggerObj result) n s = .ok t ↔
    (∀ i < n, i < vsfOsdObjsMax) ∧ t = fun i =>
      if i < n then ⟨(result.objs i).id, 0x01ff0000, (result.objs i).rect⟩ else s i :=
  Run.loop_fill fun _ _ _ => triggerObj_eq_ok

theorem appAlgResult_eq_ok {cfg : OsdObjs} : appAlgResult result = .ok cfg ↔
    u32 result.num ≤ vsfOsdObjsMax ∧
      cfg = ⟨vsfOsdMax - 1, 1, "objs", u32 result.num, fun i =>
        if i < u32 result.num then ⟨(result.objs i).id, 0x01ff0000, (result.objs i).rect⟩
        else ⟨0, 0, 0, 0, 0, 0⟩⟩ := by
  have hall : (∀ i < u32 result.num, i < vsfOsdObjsMax) ↔ u32 result.num ≤ vsfOsdObjsMax := by
    constructor
    · intro h
      by_contra! hlt
      exact absurd (h _ hlt) (lt_irrefl _)
    · intro h i hi
      exact hi.trans_le h
  rw [← hall]
  exact Run.bind_pure_eq_ok fun _ => triggerObjs_eq_ok

theorem s32_eq_natCast {m : Nat} (hn : n < 2 ^ 32) (hm : m < 2 ^ 31) : s32 n = m ↔ n = m := by
  rw [s32, Int.bmod_def]
  omega

/-- The published number is that of the objects filled in when the two bags count alike. -/
theorem publish_num_iff (hout : out.objNum ≤ 24) :
    (∃ r, publish bag out = .ok r ∧ r.num = out.objNum ∧
        ∀ i < out.objNum, r.objs i = (out.obj i).published) ↔
      bag.objNum = out.objNum ∧ ∀ i < out.objNum, (out.obj i).InRange := by
  have hcount : s32 bag.objNum = out.objNum ↔ bag.objNum = out.objNum :=
    s32_eq_natCast bag.objNum_lt (by omega)
  simp only [publish_eq_ok]
  constructor
  · rintro ⟨r, ⟨hrange, rfl⟩, hnum, -⟩
    simp only at hnum
    exact ⟨hcount.mp hnum, fun i hi => (hrange i hi).2⟩
  · rintro ⟨hnum, hrange⟩
    refine ⟨_, ⟨fun i hi => ⟨hi.trans_le hout, hrange i hi⟩, rfl⟩, ?_, fun i hi => if_pos hi⟩
    simpa only using hcount.mpr hnum

/-- What is triggered are the first objects as long as all of them have room. -/
theorem appAlgResult_iff (hnum : 0 ≤ result.num) (hmax : result.num ≤ algObjNumMax) :
    (∃ cfg, appAlgResult result = .ok cfg ∧ cfg.num = min result.num.toNat vsfOsdObjsMax ∧
        ∀ i < cfg.num, (cfg.objs i).id = (result.objs i).id ∧
          (cfg.objs i).rect = (result.objs i).rect) ↔
      result.num ≤ vsfOsdObjsMax := by
  have hu : u32 result.num = result.num.toNat := by
    rw [algObjNumMax] at hmax
    rw [u32]
    omega
  simp only [appAlgResult_eq_ok, hu]
  constructor
  · rintro ⟨cfg, ⟨hle, -⟩, -⟩
    omega
  · intro hle
    refine ⟨_, ⟨by omega, rfl⟩, by simp only; omega, fun i hi => ?_⟩
    simp only [if_pos hi, and_self]

end

/-- From the tracker to the overlay: the number published is that of the objects filled in, and what
is triggered is the first of the objects published. -/
theorem detections_iff (trackerId : Int → ResultBag → ResultBag → ResultBag × ResultBag)
    (framecnt : Int) (bag : ResultBag) (hout : (track trackerId framecnt bag).2.objNum ≤ 24)
    (result : AlgResult) (hnum : 0 ≤ result.num) (hmax : result.num ≤ algObjNumMax) :
    ((∃ r, hsFdTask trackerId framecnt bag = .ok r ∧
          r.num = (track trackerId framecnt bag).2.objNum ∧
          ∀ i < (track trackerId framecnt bag).2.objNum,
            r.objs i = ((track trackerId framecnt bag).2.obj i).published) ↔
        (track trackerId framecnt bag).1.objNum = (track trackerId framecnt bag).2.objNum ∧
          ∀ i < (track trackerId framecnt bag).2.objNum,
            ((track trackerId framecnt bag).2.obj i).InRange) ∧
      ((∃ cfg, appAlgResult result = .ok cfg ∧ cfg.num = min result.num.toNat vsfOsdObjsMax ∧
          ∀ i < cfg.num, (cfg.objs i).id = (result.objs i).id ∧
            (cfg.objs i).rect = (result.objs i).rect) ↔
        result.num ≤ vsfOsdObjsMax) :=
  ⟨publish_num_iff hout, appAlgResult_iff hnum hmax⟩

/-- A tracker that follows every detection, and three objects published. -/
theorem detections_followed :
    (∃ r, hsFdTask (fun _ bag _ => (bag, bag)) 0 ⟨1, fun _ => ⟨64, 64, 320, 320, 7⟩, by decide⟩ =
        .ok r ∧ r.num = 1 ∧ r.objs 0 = ⟨7, 3686, 3686, 819, 819⟩) ∧
      ∃ cfg, appAlgResult ⟨3, fun i => ⟨i, 0, 0, 100, 100⟩⟩ = .ok cfg ∧ cfg.num = 3 ∧
        (cfg.objs 2).id = 2 := by
  obtain ⟨htask, htrigger⟩ := detections_iff (fun _ bag _ => (bag, bag)) 0
    ⟨1, fun _ => ⟨64, 64, 320, 320, 7⟩, by decide⟩ (by decide) ⟨3, fun i => ⟨i, 0, 0, 100, 100⟩⟩
    (by decide) (by decide)
  obtain ⟨r, hr, hrnum, hobjs⟩ := htask.mpr
    ⟨rfl, fun i _ v hv => (by decide : ∀ v ∈ [(288 : Int), 288, 2359296, 2359296],
      -2 ^ 31 ≤ v ∧ v < 2 ^ 31) v hv⟩
  obtain ⟨cfg, hcfg, hcnum, hcobjs⟩ := htrigger.mpr (by decide)
  have hthree : cfg.num = 3 := hcnum
  exact ⟨⟨r, hr, hrnum, hobjs 0 (by decide)⟩, cfg, hcfg, hthree, (hcobjs 2 (by omega)).1⟩

/-- A tracker that follows nothing yet leaves a number without objects, and a result of seventeen
objects does not fit the overlay. -/
theorem detections_lost :
    (¬ ∃ r, hsFdTask (fun _ bag out => (bag, out)) 0
        ⟨1, fun _ => ⟨64, 64, 320, 320, 0⟩, by decide⟩ = .ok r ∧ r.num = ResultBag.zero.objNum) ∧
      appAlgResult ⟨17, fun i => ⟨i, 0, 0, 100, 100⟩⟩ = .error .bounds := by
  refine ⟨?_, rfl⟩
  rintro ⟨r, hr, hnum⟩
  obtain ⟨-, rfl⟩ := publish_eq_ok.mp hr
  exact absurd hnum (by decide)

end Freak.Alg.Results
