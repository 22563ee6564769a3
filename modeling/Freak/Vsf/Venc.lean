import Freak.Vsf.Callback

/-! The encoders: the channels that `venc.c` creates and the thread that fetches their pictures. -/
namespace Freak.Vsf.Venc

/-- `PAYLOAD_TYPE_E`. -/
inductive PayloadType
  | h264
  | h265
  | jpeg
  | mjpeg
  | other (value : Nat)
deriving DecidableEq

/-- `__transfor_encode_format`, with `none` for the `-1` that the others give. -/
def transforEncodeFormat : PayloadType → Option StreamType
  | .h264 => some .h264
  | .h265 => some .h265
  | .jpeg => some .jpeg
  | .mjpeg => some .mjpeg
  | .other _ => none

def vencMaxChnNum : Int := 16

/-- What `sdk_cfg_t` says of the encoders: `as32VencId`, and of `astVencInfo` the channel and the
payload. -/
structure SdkCfg where
  s32VencNum : Nat
  as32VencId : Nat → Int
  VencChn : Nat → Int
  enPayLoad : Nat → PayloadType

/-- The channels of the hardware, with what they were created for. -/
abbrev Channels := Int → Option PayloadType

section

variable (cfg : SdkCfg)

/-- The constructor's loop over `__venc_init`: a channel is refused that does not exist, that was
created before or whose payload is not supported, and then an assertion fails. -/
def create : Nat → Option Channels
  | 0 => some fun _ => none
  | k + 1 => do
    let chns ← create k
    let chn := cfg.VencChn k
    if 0 ≤ chn ∧ chn < vencMaxChnNum ∧ chns chn = none ∧
        (transforEncodeFormat (cfg.enPayLoad k)).isSome then
      some (Function.update chns chn (some (cfg.enPayLoad k)))
    else none

/-- Step 1 of the thread, which returns if a call fails: `enPayLoadType`, as
`HI_MPI_VENC_GetChnAttr` and `HI_MPI_VENC_GetFd` answer. -/
def prepare (chns : Channels) (getFd : Int → Int) : Nat → Option (Nat → Option PayloadType)
  | 0 => some fun _ => none
  | i + 1 => do
    let enPayLoadType ← prepare chns getFd i
    let ty ← chns (cfg.as32VencId i)
    if getFd i < 0 then none else some (Function.update enPayLoadType i (some ty))

end

/-- `VENC_STREAM_S`: a picture, as the packs that the encoder made of it. -/
structure VencStream where
  u32Seq : Nat
  pstPack : List (List UInt8)

/-- A picture that was fetched, what it was passed on as, the callback that it was passed to, if one
is registered, and the channels it was fetched from and released on. -/
structure Delivery (κ : Type) where
  obj : Nat
  pic : VencStream
  enType : Option StreamType
  callback : Option κ
  fetched : Int
  released : Int

structure State (κ : Type) where
  queue : Int → List VencStream
  produced : Int → List VencStream
  cb : Nat → Option κ
  log : List (Delivery κ)

inductive Action (κ : Type)
  | produce (chn : Int) (pic : VencStream)
  | regcallback (k : Nat) (cb : Option κ)
  | serve (i : Nat)
  | skip (i : Nat)

variable {κ : Type}

def start : State κ := ⟨fun _ => [], fun _ => [], fun _ => none, []⟩

/-- The hardware, the managers and the thread behind its preparation. -/
inductive Step (cfg : SdkCfg) (chns : Channels) (enPayLoadType : Nat → Option PayloadType) :
    State κ → Action κ → State κ → Prop
  | produce {s : State κ} {chn : Int} {pic : VencStream} (hc : (chns chn).isSome) :
      Step cfg chns enPayLoadType s (.produce chn pic)
        { s with
          queue := Function.update s.queue chn (s.queue chn ++ [pic])
          produced := Function.update s.produced chn (s.produced chn ++ [pic]) }
  | regcallback {s : State κ} {k : Nat} {cb : Option κ} (hk : k < cfg.s32VencNum) :
      Step cfg chns enPayLoadType s (.regcallback k cb) { s with cb := Function.update s.cb k cb }
  -- the calls of an iteration all name channel `i`
  | serve {s : State κ} {i : Nat} {pic : VencStream} {rest : List VencStream}
      (hi : i < cfg.s32VencNum) (hc : (chns i).isSome) (hq : s.queue i = pic :: rest) :
      Step cfg chns enPayLoadType s (.serve i)
        { s with
          queue := Function.update s.queue i rest
          log := s.log ++ [⟨i, pic, (enPayLoadType i).bind transforEncodeFormat, s.cb i, i, i⟩] }
  -- no picture, no memory, or a call that fails
  | skip {s : State κ} {i : Nat} (hi : i < cfg.s32VencNum) :
      Step cfg chns enPayLoadType s (.skip i) s

/-- The pictures of an object's deliveries. -/
def delivered (log : List (Delivery κ)) (k : Nat) : List VencStream :=
  (log.filter fun d => d.obj = k).map Delivery.pic

/-- In every run the pictures of the channel that object `k` created go, in order, through its
callback, as what they are, and are released where they were fetched. -/
def Own (κ : Type) (cfg : SdkCfg) (chns : Channels) (getFd : Int → Int) : Prop :=
  ∃ enPayLoadType, prepare cfg chns getFd cfg.s32VencNum = some enPayLoadType ∧
    ∀ acts (s : State κ), Lts.MTr (Step cfg chns enPayLoadType) start acts s →
      ∀ k < cfg.s32VencNum,
        delivered s.log k ++ s.queue (cfg.VencChn k) = s.produced (cfg.VencChn k) ∧
        (∀ d ∈ s.log, d.obj = k → d.enType = transforEncodeFormat (cfg.enPayLoad k) ∧
          d.fetched = cfg.VencChn k ∧ d.released = cfg.VencChn k) ∧
        ∀ pic rest, s.queue (cfg.VencChn k) = pic :: rest →
          ∃ t d, Step cfg chns enPayLoadType s (.serve k) t ∧ t.log = s.log ++ [d] ∧
            d.obj = k ∧ d.pic = pic ∧ d.callback = s.cb k

section

variable {cfg : SdkCfg} {chns : Channels} {getFd : Int → Int} {ty : Nat → Option PayloadType}
  {s t : State κ} {a : Action κ} {acts : List (Action κ)} {n k : Nat}

theorem create_succ (h : create cfg (n + 1) = some chns) :
    ∃ old, create cfg n = some old ∧ old (cfg.VencChn n) = none ∧
      (transforEncodeFormat (cfg.enPayLoad n)).isSome ∧
      chns = Function.update old (cfg.VencChn n) (some (cfg.enPayLoad n)) := by
  obtain ⟨old, hold, hnew⟩ := Option.bind_eq_some_iff.mp h
  obtain ⟨⟨-, -, hnone, hty⟩, heq⟩ := Option.ite_none_right_eq_some.mp hnew
  exact ⟨old, hold, hnone, hty, (Option.some.inj heq).symm⟩

/-- The channels that exist are those of the encoders, each with its payload. -/
theorem create_eq_some (h : create cfg n = some chns) {c : Int} {p : PayloadType} :
    chns c = some p ↔ ∃ k < n, cfg.VencChn k = c ∧ cfg.enPayLoad k = p := by
  induction n generalizing chns with
  | zero =>
    obtain rfl := Option.some.inj h
    simp
  | succ n ih =>
    obtain ⟨old, hcreate, hnone, -, rfl⟩ := create_succ h
    by_cases hcn : c = cfg.VencChn n
    · subst hcn
      rw [Function.update_self, Option.some.injEq]
      constructor
      · intro hp
        exact ⟨n, Nat.lt_succ_self n, rfl, hp⟩
      · rintro ⟨k, hk, hkc, rfl⟩
        rcases Nat.lt_succ_iff_lt_or_eq.mp hk with hk | rfl
        · have hsome := (ih hcreate).mpr ⟨k, hk, hkc, rfl⟩
          rw [hnone] at hsome
          cases hsome
        · rfl
    · rw [Function.update_of_ne hcn, ih hcreate]
      constructor
      · rintro ⟨k, hk, hkp⟩
        exact ⟨k, hk.trans (Nat.lt_succ_self n), hkp⟩
      · rintro ⟨k, hk, hkc, hp⟩
        rcases Nat.lt_succ_iff_lt_or_eq.mp hk with hk | rfl
        · exact ⟨k, hk, hkc, hp⟩
        · exact absurd hkc.symm hcn

theorem supported_of_create (h : create cfg n = some chns) (hk : k < n) :
    (transforEncodeFormat (cfg.enPayLoad k)).isSome := by
  induction n generalizing chns with
  | zero => omega
  | succ n ih =>
    obtain ⟨old, hcreate, -, hty, -⟩ := create_succ h
    rcases Nat.lt_succ_iff_lt_or_eq.mp hk with hk | rfl
    · exact ih hcreate hk
    · exact hty

/-- A prepared thread has for each object what the channel `as32VencId` was created for. -/
theorem prepare_eq_some (h : prepare cfg chns getFd n = some ty) (hk : k < n) :
    ty k = chns (cfg.as32VencId k) ∧ (chns (cfg.as32VencId k)).isSome := by
  induction n generalizing ty with
  | zero => omega
  | succ n ih =>
    obtain ⟨ty', h', hnew⟩ := Option.bind_eq_some_iff.mp h
    obtain ⟨p, hp, hnew⟩ := Option.bind_eq_some_iff.mp hnew
    split_ifs at hnew with hfd
    obtain rfl := Option.some.inj hnew
    by_cases hkn : k = n
    · subst hkn
      rw [Function.update_self, hp]
      exact ⟨rfl, rfl⟩
    · rw [Function.update_of_ne hkn]
      exact ih h' (by omega)

theorem prepare_isSome (h : ∀ k < n, (chns (cfg.as32VencId k)).isSome ∧ 0 ≤ getFd k) :
    ∃ ty, prepare cfg chns getFd n = some ty := by
  induction n with
  | zero => exact ⟨_, rfl⟩
  | succ n ih =>
    obtain ⟨ty, hty⟩ := ih fun k hk => h k (by omega)
    obtain ⟨hc, hfd⟩ := h n (by omega)
    obtain ⟨p, hp⟩ := Option.isSome_iff_exists.mp hc
    refine ⟨Function.update ty n (some p), ?_⟩
    rw [prepare, hty]
    simp only [Option.bind_eq_bind, Option.bind_some, hp, if_neg (not_lt.mpr hfd)]

/-- The three numberings are one, as far as they are used: an encoder's channel has its index, and
`as32VencId` names a channel of the same payload. -/
def Aligned (cfg : SdkCfg) : Prop :=
  ∀ k < cfg.s32VencNum, cfg.VencChn k = k ∧
    ∃ j < cfg.s32VencNum, cfg.as32VencId k = j ∧ cfg.enPayLoad j = cfg.enPayLoad k

theorem enPayLoad_of_aligned (ha : Aligned cfg) (hcreate : create cfg cfg.s32VencNum = some chns)
    (hk : k < cfg.s32VencNum) : chns (cfg.as32VencId k) = some (cfg.enPayLoad k) := by
  obtain ⟨-, j, hj, hid, hp⟩ := ha k hk
  rw [hid, create_eq_some hcreate]
  exact ⟨j, hj, (ha j hj).1, hp⟩

/-- What object `k` has delivered and what waits on channel `k` is what channel `k` produced. -/
def Inv (cfg : SdkCfg) (s : State κ) : Prop :=
  ∀ k < cfg.s32VencNum, delivered s.log k ++ s.queue k = s.produced k ∧
    ∀ d ∈ s.log, d.obj = k → d.enType = transforEncodeFormat (cfg.enPayLoad k) ∧
      d.fetched = k ∧ d.released = k

theorem delivered_append (log : List (Delivery κ)) (d : Delivery κ) :
    delivered (log ++ [d]) k = delivered log k ++ if d.obj = k then [d.pic] else [] := by
  simp only [delivered, List.filter_append, List.map_append, List.filter_singleton]
  split_ifs <;> simp_all

theorem inv_step (hty : ∀ k < cfg.s32VencNum, ty k = some (cfg.enPayLoad k))
    (h : Step cfg chns ty s a t) (hi : Inv cfg s) : Inv cfg t := by
  intro k hk
  obtain ⟨hlog, hown⟩ := hi k hk
  cases h with
  | regcallback _ | skip _ => exact ⟨hlog, hown⟩
  | produce hc =>
    rename_i chn pic
    refine ⟨?_, hown⟩
    by_cases hkc : (k : Int) = chn
    · subst hkc
      simp only [Function.update_self]
      rw [← hlog, List.append_assoc]
    · simp only [Function.update_of_ne hkc]
      exact hlog
  | serve hi' hc hq =>
    rename_i i pic rest
    refine ⟨?_, ?_⟩
    · rw [delivered_append]
      by_cases hki : i = k
      · subst hki
        simp only [if_true, Function.update_self]
        rw [← hlog, hq, List.append_assoc, List.singleton_append]
      · have hne : (k : Int) ≠ i := fun h => hki (Int.ofNat.inj h).symm
        simp only [if_neg hki, List.append_nil, Function.update_of_ne hne]
        exact hlog
    · intro d hd hdk
      rcases List.mem_append.mp hd with hd | hd
      · exact hown d hd hdk
      · obtain rfl := List.mem_singleton.mp hd
        obtain rfl : i = k := hdk
        exact ⟨by rw [hty i hk]; rfl, rfl, rfl⟩

theorem inv_run (hty : ∀ k < cfg.s32VencNum, ty k = some (cfg.enPayLoad k))
    (h : Lts.MTr (Step cfg chns ty) (start : State κ) acts s) : Inv cfg s := by
  have hinv : Lts.TrInv (Step cfg chns ty) (Inv (κ := κ) cfg) := by
    intro s a t hs hi
    exact inv_step hty hs hi
  refine Lts.mtrInv_of_trInv hinv h ?_
  intro k _
  exact ⟨rfl, nofun⟩

/-- Of two supported payloads each is passed on as its own type. -/
theorem transforEncodeFormat_inj {p q : PayloadType} (hp : (transforEncodeFormat p).isSome)
    (h : transforEncodeFormat q = transforEncodeFormat p) : q = p := by
  cases p <;> cases q <;> simp_all [transforEncodeFormat]

theorem own_of_aligned (ha : Aligned cfg) (hcreate : create cfg cfg.s32VencNum = some chns)
    (hfd : ∀ c, (chns c).isSome → 0 ≤ getFd c) : Own κ cfg chns getFd := by
  have hid := fun {k} => enPayLoad_of_aligned (k := k) ha hcreate
  have hchn : ∀ k < cfg.s32VencNum, (chns k).isSome := by
    intro k hk
    rw [(create_eq_some hcreate).mpr ⟨k, hk, (ha k hk).1, rfl⟩]
    rfl
  have hready : ∀ k < cfg.s32VencNum, (chns (cfg.as32VencId k)).isSome ∧ 0 ≤ getFd k := by
    intro k hk
    rw [hid hk]
    exact ⟨rfl, hfd k (hchn k hk)⟩
  obtain ⟨ty, hprep⟩ := prepare_isSome hready
  have hty : ∀ k < cfg.s32VencNum, ty k = some (cfg.enPayLoad k) :=
    fun k hk => (prepare_eq_some hprep hk).1.trans (hid hk)
  refine ⟨ty, hprep, fun acts s hrun k hk => ?_⟩
  obtain ⟨hlog, hown⟩ := inv_run hty hrun k hk
  rw [(ha k hk).1]
  refine ⟨hlog, hown, fun pic rest hq => ?_⟩
  exact ⟨_, _, .serve hk (hchn k hk) hq, rfl, rfl, rfl, rfl⟩

/-- The first picture of a channel goes through the object that created it only if both have one
number, and as what it is only if the payload is that of the channel `as32VencId` names. -/
theorem channel_of_own (hcreate : create cfg cfg.s32VencNum = some chns)
    (h : Own κ cfg chns getFd) (hk : k < cfg.s32VencNum) : cfg.VencChn k = k ∧
      ∃ j < cfg.s32VencNum, cfg.VencChn j = cfg.as32VencId k ∧
        cfg.enPayLoad j = cfg.enPayLoad k := by
  obtain ⟨ty, hprep, hown⟩ := h
  have hchn : chns (cfg.VencChn k) = some (cfg.enPayLoad k) :=
    (create_eq_some hcreate).mpr ⟨k, hk, rfl, rfl⟩
  have hone : Step cfg chns ty (start : State κ) (.produce (cfg.VencChn k) ⟨0, []⟩) _ :=
    .produce (by rw [hchn]; rfl)
  obtain ⟨-, -, hserve⟩ := hown _ _ (.stepL hone .refl) k hk
  obtain ⟨t, d, hstep, hlog, hobj, -⟩ := hserve ⟨0, []⟩ [] (by simp [start])
  obtain ⟨-, hdel, -⟩ := hown _ _ (.stepL hone (.stepL hstep .refl)) k hk
  obtain ⟨htype, hfetched, -⟩ := hdel d (by rw [hlog]; simp) hobj
  cases hstep with
  | serve hi hc hq =>
    obtain rfl := List.singleton_inj.mp (List.append_cancel_left hlog)
    obtain ⟨hty, hsome⟩ := prepare_eq_some hprep hk
    obtain ⟨p, hp⟩ := Option.isSome_iff_exists.mp hsome
    obtain ⟨j, hj, hid, rfl⟩ := (create_eq_some hcreate).mp hp
    simp only [hty, hp, Option.bind_some] at htype
    exact ⟨hfetched.symm, j, hj, hid,
      transforEncodeFormat_inj (supported_of_create hcreate hk) htype⟩

theorem aligned_of_own (hcreate : create cfg cfg.s32VencNum = some chns)
    (h : Own κ cfg chns getFd) : Aligned cfg := by
  intro k hk
  obtain ⟨hchn, j, hj, hid, hp⟩ := channel_of_own hcreate h hk
  refine ⟨hchn, j, hj, ?_, hp⟩
  rw [← hid, (channel_of_own hcreate h hj).1]

end

/-- Once the channels are created, each encoder's pictures reach its own callback exactly when the
numberings agree. -/
theorem own_iff (κ : Type) (cfg : SdkCfg) (chns : Channels) (getFd : Int → Int)
    (hcreate : create cfg cfg.s32VencNum = some chns)
    (hfd : ∀ c, (chns c).isSome → 0 ≤ getFd c) : Own κ cfg chns getFd ↔ Aligned cfg :=
  ⟨aligned_of_own hcreate, fun ha => own_of_aligned ha hcreate hfd⟩

/-- The default configuration: two H.264 encoders and one of pictures. -/
def defaultCfg : SdkCfg where
  s32VencNum := 3
  as32VencId := fun k => k
  VencChn := fun k => k
  enPayLoad := fun k => if k = 2 then .jpeg else .h264

/-- The first two encoders with each other's channel. -/
def swappedCfg : SdkCfg where
  s32VencNum := 2
  as32VencId := fun k => 1 - k
  VencChn := fun k => 1 - k
  enPayLoad := fun _ => .h264

theorem own_default :
    ∃ chns, create defaultCfg 3 = some chns ∧ Own Unit defaultCfg chns fun c => c := by
  obtain ⟨chns, hcreate⟩ : ∃ chns, create defaultCfg 3 = some chns := ⟨_, rfl⟩
  refine ⟨chns, hcreate, (own_iff Unit defaultCfg chns (fun c => c) hcreate ?_).mpr ?_⟩
  · intro c hc
    obtain ⟨p, hp⟩ := Option.isSome_iff_exists.mp hc
    obtain ⟨k, -, hk, -⟩ := (create_eq_some hcreate).mp hp
    exact hk ▸ Int.natCast_nonneg k
  · intro k hk
    exact ⟨rfl, k, hk, rfl, rfl⟩

theorem own_swapped : ∃ chns, create swappedCfg 2 = some chns ∧
    ¬ Own Unit swappedCfg chns fun c => c := by
  refine ⟨_, rfl, fun h => ?_⟩
  exact absurd (aligned_of_own rfl h 0 (by decide)).1 (by decide)

end Freak.Vsf.Venc
