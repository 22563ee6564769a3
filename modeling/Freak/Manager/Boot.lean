import Freak.Manager.Restart

/-! `main` of the modules, which sets again every record that its managers have. -/
namespace Freak.Manager

open Bytes Json Schema Lts
open Freak.Proto (Record Action Key Node registered Server)
open Freak.Utils (JsonCfg.Codec JsonCfg.SaveCalls JsonCfg.World JsonCfg.Completes)

/-- `{.id = i}`. -/
def idRecord (k : Key) (i : Nat) : List UInt8 :=
  le 4 i ++ List.replicate ((cfgRec k).ty.size - 4) 0

/-- The loop of `main` for a manager, by the records that it sets. -/
inductive Loops (h : Hal) (v : Server State) (n : Node) (json : Bool) (k : Key) :
    Nat → State → List (List UInt8) → State → Prop
  | zero {t : State} : Loops h v n json k 0 t [] t
  | succ {m : Nat} {t u w x : State} {sets : List (List UInt8)} {cfg ack : List UInt8}
      (hloop : Loops h v n json k m t sets u)
      (hget : Serve h v n u ⟨json, k, .get, idRecord k m, cfg⟩ w)
      (hset : Serve h v n w ⟨json, k, .set, cfg, ack⟩ x) :
      Loops h v n json k (m + 1) t (sets ++ [cfg]) x

/-- `main` of a module: one manager after the other. -/
inductive Boots (h : Hal) (v : Server State) (n : Node) (json : Bool) :
    List Key → State → (Key → List (List UInt8)) → State → Prop
  | nil {t : State} {sets : Key → List (List UInt8)} : Boots h v n json [] t sets t
  | cons {k : Key} {ks : List Key} {t u w : State} {sets : Key → List (List UInt8)}
      (hloop : Loops h v n json k (t k).info.num.toNat t (sets k) u)
      (hrest : Boots h v n json ks u sets w) : Boots h v n json (k :: ks) t sets w

/-- Every record of a manager's has the id of its place, as far as the manager counts them. -/
def Placed (s : State) (served : List Call) (k : Key) : Prop :=
  ∀ i < (s k).info.num.toNat, idOf (latest s k i served) = i

/-- The records that are set are the ones of the last SETs. -/
def Resets (s : State) (served : List Call) (k : Key) (sets : List (List UInt8)) : Prop :=
  List.Forall₂ (fun cfg i => cfg.length = (cfgRec k).ty.size ∧
    (cfgRec k).ty.Same cfg (latest s k i served)) sets (List.range sets.length)

section

variable {h : Hal} {n : Node} {v : Server State} {s t u : State} {c : Call} {k : Key}
  {served : List Call} {json : Bool} {m : Nat} {sets : List (List UInt8)}

theorem idOf_idRecord {i : Nat} (hi : i < 2 ^ 31) : idOf (idRecord k i) = i := by
  have hslice : slice (idRecord k i) 0 4 = le 4 ((i : Int) % 2 ^ 32).toNat := by
    have hmod : ((i : Int) % 2 ^ 32).toNat = i := by omega
    rw [hmod, idRecord, slice, List.drop_zero]
    exact List.take_left' (length_le 4 i)
  exact word_of_slice (by omega) (by omega) hslice

/-- Only a SET changes what a module has. -/
theorem tracks_read (hv : v.handler = h.handler n) (hnum : ∀ n, 0 ∉ v.numText n)
    (hlaw : v.cs.Lawful) (hshow : h.ShowsRecord) (ht : Tracks h n s served t)
    (hread : Legible h v c) (hserve : Serve h v n t c u) (hset : c.action ≠ .set) :
    Tracks h n s served u := by
  have hnew := tracks_step hv hnum hlaw hshow ht hread hserve
  refine ⟨ht.start, hnew.sound, hnew.num, hnew.caps, ht.length, fun k hk hd j hj => ?_⟩
  have hcfg := hnew.cfgs k hk hd j hj
  rwa [latest_append, if_neg fun hc => hset hc.1] at hcfg

/-- A SET of the record that is there already changes nothing. -/
theorem tracks_reset (hv : v.handler = h.handler n) (hnum : ∀ n, 0 ∉ v.numText n)
    (hlaw : v.cs.Lawful) (hshow : h.ShowsRecord) (ht : Tracks h n s served t) {i : Nat}
    (hread : Legible h v c) (hserve : Serve h v n t c u) (hset : c.action = .set)
    (hi : idOf c.sent = i) (hsame : (c.record h).ty.Same c.sent (latest s c.key i served)) :
    Tracks h n s served u := by
  have hnew := tracks_step hv hnum hlaw hshow ht hread hserve
  have hfair : c.Fair h n := (serve_cases hv hnum hlaw hshow ht.sound hread hserve).1
  refine ⟨ht.start, hnew.sound, hnew.num, hnew.caps, ht.length, fun k hk hd j hj => ?_⟩
  have hcfg := hnew.cfgs k hk hd j hj
  rw [latest_append] at hcfg
  split_ifs at hcfg with hput
  · obtain ⟨-, rfl, hij⟩ := hput
    have hrec : c.record h = (h.ops c.key 0).cfgRec := by
      rw [Call.record, hset]
      rfl
    obtain rfl : i = j := by omega
    rw [hrec] at hsame
    exact Ty.same_trans _ (Record.wf _) _ _ _ ((hnew.sound c.key hk hd).cfgs i).1
      (hrec ▸ hfair.length) (ht.length c.key hk hd i) hcfg hsame
  · exact hcfg

/-- The loop sets each record as it was and leaves all records as they were. -/
theorem tracks_loop (hv : v.handler = h.handler n) (hnum : ∀ n, 0 ∉ v.numText n)
    (hlaw : v.cs.Lawful) (hshow : h.ShowsRecord) (ht : Tracks h n s served t)
    (hread : ∀ c, c.json = json → Legible h v c) (hloop : Loops h v n json k m t sets u)
    (hm : m ≤ slots k) (hplaced : ∀ i < m, idOf (latest s k i served) = i) :
    Tracks h n s served u ∧ sets.length = m ∧ Resets s served k sets := by
  induction hloop with
  | zero => exact ⟨ht, rfl, .nil⟩
  | @succ m t u w x sets cfg ack hloop hget hset ih =>
    obtain ⟨hu, hlen, hresets⟩ := ih ht (by omega) fun i hi => hplaced i (by omega)
    have hslots : slots k ≤ 16 := by cases k <;> decide
    -- the record that comes back is the one of the last SET
    have hans := answer_step hv hnum hlaw hshow hu (hread _ rfl) hget
    have hsame : (cfgRec k).ty.Same cfg (latest s k m served) := by
      have hid : (idOf (idRecord k m)).toNat = m := by
        rw [idOf_idRecord (by omega), Int.toNat_natCast]
      have hrec : (h.ops k 0).record .get = cfgRec k := cfgRec_ops
      simp only [Call.answer, Call.record, hid] at hans
      rwa [hrec] at hans
    have hw := tracks_read hv hnum hlaw hshow hu (hread _ rfl) hget (by rintro ⟨⟩)
    have hplace : idOf cfg = m := (idOf_congr hsame).trans (hplaced m (by omega))
    have hrec : (h.ops k 0).record .set = cfgRec k := cfgRec_ops
    have hsize : cfg.length = (cfgRec k).ty.size := by
      have hfair := (serve_cases hv hnum hlaw hshow hw.sound (hread _ rfl) hset).1.length
      rwa [Call.record, hrec] at hfair
    refine ⟨tracks_reset hv hnum hlaw hshow hw (hread _ rfl) hset rfl hplace ?_, ?_, ?_⟩
    · rw [Call.record, hrec]
      exact hsame
    · rw [List.length_append, hlen, List.length_singleton]
    · rw [Resets, List.length_append, List.length_singleton, List.range_succ, hlen]
      rw [Resets, hlen] at hresets
      exact List.rel_append hresets (.cons ⟨hsize, hsame⟩ .nil)

/-- So does `main`, for all managers. -/
theorem tracks_boot {ks : List Key} {sets : Key → List (List UInt8)} (hn : n ≠ .bsp)
    (hv : v.handler = h.handler n) (hnum : ∀ n, 0 ∉ v.numText n) (hlaw : v.cs.Lawful)
    (hshow : h.ShowsRecord) (ht : Tracks h n s served t)
    (hread : ∀ c, c.json = json → Legible h v c)
    (hboot : Boots h v n json ks t sets u) (hks : ∀ k ∈ ks, k ∈ registered n)
    (hcount : ∀ k ∈ ks, (s k).info.num.toNat ≤ slots k) (hplaced : ∀ k ∈ ks, Placed s served k) :
    Tracks h n s served u ∧
      ∀ k ∈ ks, (sets k).length = (s k).info.num.toNat ∧ Resets s served k (sets k) := by
  induction hboot with
  | nil => exact ⟨ht, by simp⟩
  | @cons k ks t u w sets hloop hrest ih =>
    have hk := hks k List.mem_cons_self
    rw [ht.num k hk (ne_dummy hn hk)] at hloop
    obtain ⟨hu, hset⟩ := tracks_loop hv hnum hlaw hshow ht hread hloop
      (hcount k List.mem_cons_self) (hplaced k List.mem_cons_self)
    obtain ⟨hw, hsets⟩ := ih hu (fun j hj => hks j (List.mem_cons_of_mem k hj))
      (fun j hj => hcount j (List.mem_cons_of_mem k hj))
      fun j hj => hplaced j (List.mem_cons_of_mem k hj)
    refine ⟨hw, fun j hj => ?_⟩
    rcases List.mem_cons.mp hj with rfl | hj
    · exact hset
    · exact hsets j hj

end

section

variable {h : Hal} {v : Node → Server State} {n : Node} {ss ts ss' ts' : Node → State}
  {acts acts' pre post : List (Node × Call)} {c : Call} {cs : Codecs}
  {print : Json → List UInt8} {parse : List UInt8 → Option Json} {calls : JsonCfg.SaveCalls}
  {rest boot : List UInt8} {w : JsonCfg.World} {json : Bool} {sets : Key → List (List UInt8)}

/-- A module is saved after some calls, loaded again, and has gone through its `main`. -/
theorem tracks_again {t : State} (hn : n ≠ .bsp) (hv : ∀ n, (v n).handler = h.handler n)
    (hnum : ∀ n i, 0 ∉ (v n).numText i) (hlaw : ∀ n, (v n).cs.Lawful) (hshow : h.ShowsRecord)
    (hs : ∀ n, Sound h n (ss n)) (hrun : MTr (Side fun n => Serve h (v n) n) ss acts ts)
    (hread : ∀ n c, (n, c) ∈ acts → Legible h (v n) c)
    (hcs : cs.Lawful) (hsave : Savable h n (ss n) rest)
    (hprint : Printer print parse ((configTy n).s2j cs (imageOf n (ts n) rest)))
    (hdone : JsonCfg.Completes (configCodec cs print parse n) calls (imageOf n (ts n) rest))
    (hboot : boot.length = (configTy n).size) (hmain : ∀ c, c.json = json → Legible h (v n) c)
    (hcount : ∀ k ∈ registered n, (ss n k).info.num.toNat ≤ slots k)
    (hplaced : ∀ k ∈ registered n, Placed (ss n) (own n acts) k)
    (hboots : Boots h (v n) n json (registered n)
      (restarted (configCodec cs print parse n) calls n (ts n) rest boot w) sets t) :
    Tracks h n (ss n) (own n acts) t ∧ ∀ k ∈ registered n,
      (sets k).length = (ss n k).info.num.toNat ∧ Resets (ss n) (own n acts) k (sets k) := by
  have htracks := tracks_run (hv n) (hnum n) (hlaw n) hshow (mtr_own hrun n) (tracks_start (hs n))
    fun c hc => hread n c (mem_own.mp hc)
  have hagain := tracks_restarted (w := w) hn hcs hsave htracks hprint hdone hboot
  exact tracks_boot hn (hv n) (hnum n) (hlaw n) hshow hagain hmain hboots (fun _ hk => hk) hcount
    hplaced

end

open Proto (sampleHal)

/-- A web server's record, all zero. -/
def blankServerCfg : List UInt8 := List.replicate 76 0

/-- One record for each manager, all zero. -/
def blankState : State := fun k =>
  ⟨⟨1, fun _ => List.replicate (sampleHal.ops k 0).capRec.ty.size 0,
    fun _ => List.replicate (sampleHal.ops k 0).cfgRec.ty.size 0⟩, fun _ => false⟩

/-- A web server can be set to any record. -/
theorem svrSet_returns {s : Slots} {cfg : List UInt8} (hid : idOf cfg = (0 : Nat)) :
    ∃ u, sampleHal.svrSet s cfg = .ok (u, 0) := by
  obtain ⟨u, hu⟩ : ∃ u, sampleHal.hold s 0 (word cfg 4) = .ok u := by
    rw [Hal.hold]
    split_ifs <;> exact ⟨_, rfl⟩
  refine ⟨u, ?_⟩
  rw [Hal.svrSet, hid]
  exact Run.bind_eq_ok.mpr ⟨0, rfl, Run.bind_eq_ok.mpr ⟨u, hu, rfl⟩⟩

theorem blank_sound (n : Node) : Sound sampleHal n blankState := fun k hk hd =>
  ⟨(sample_sound n k hk hd).cfgs, (sample_sound n k hk hd).caps⟩

/-- The module's file when nothing was set. -/
def blankCodec : JsonCfg.Codec (List UInt8) :=
  configCodec plain (formatted decimal 0)
    (readText ((configTy .web).s2j plain (imageOf .web blankState []))) .web

/-- It is opened, and takes the whole text. -/
def blankCalls : JsonCfg.SaveCalls :=
  ⟨true, true, true, (Utils.JsonCfg.printed blankCodec (imageOf .web blankState [])).length⟩

/-- A client asks for the web server. -/
def blankGet (back : List UInt8) : Call :=
  ⟨false, .webSvr, .get, idRecord .webSvr 0, back⟩

theorem blankGet_fair (back : List UInt8) : (blankGet back).Fair sampleHal .web := by
  have hlen : (idRecord .webSvr 0).length = Record.webCfg.ty.size := by decide
  have hterm : Record.webCfg.ty.Terminated (idRecord .webSvr 0) := by decide
  have hkey : Key.webSvr ∈ registered .web ∧ Key.webSvr ≠ .dummy := by decide
  refine ⟨hkey.1, hkey.2, ?_, hlen, hterm⟩
  rintro ⟨⟩

end Freak.Manager
