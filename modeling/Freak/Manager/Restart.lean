import Freak.Manager.Network
import Freak.Utils.JsonCfg

/-! A module's configuration in its file: `cfg.c` of the modules, and what a restart keeps. -/
namespace Freak.Manager

open Bytes Json Schema Lts
open Freak.Proto (Record Action Key Node registered Server numTy)
open Freak.Utils (JsonCfg.Codec JsonCfg.SaveCalls JsonCfg.World JsonCfg.Completes)

/-- The records of a key's manager. -/
def cfgRec : Key → Record
  | .dummy => .dummyCfg
  | .frame => .frameCfg
  | .stream => .streamCfg
  | .osd => .osdCfg
  | .rtspSvr => .rtspCfg
  | .webSvr => .webCfg
  | .alg => .algCfg

def capRec : Key → Record
  | .dummy => .dummyCap
  | .frame => .frameCap
  | .stream => .streamCap
  | .osd => .osdCap
  | .rtspSvr => .rtspCap
  | .webSvr => .webCap
  | .alg => .algCap

/-- `proto_vsf_frame_t` and its siblings. -/
def tableTy (k : Key) : Ty :=
  .struct (.field "num" numTy (.field "caps" (.array (slots k) (capRec k).ty)
    (.field "cfgs" (.array (slots k) (cfgRec k).ty) .nil)))

/-- `vsf_font_cfg_t`. -/
def fontTy : Ty := .struct (.field "path" (.leaf (.string 64)) .nil)

/-- A manager's member in the configuration of its module. -/
def memberName : Key → String
  | .dummy => "dummy"
  | .frame => "frame"
  | .stream => "stream"
  | .osd => "osd"
  | .rtspSvr => "server"
  | .webSvr => "server"
  | .alg => "alginfo"

/-- What a module's configuration has behind its managers'. -/
def otherFields : Node → Fields
  | .vsf => .field "font" fontTy .nil
  | .bsp | .rtsp | .web | .app => .nil

def tableFields (fs : Fields) : List Key → Fields
  | [] => fs
  | k :: ks => .field (memberName k) (tableTy k) (tableFields fs ks)

/-- `vsf_cfg_t` and its siblings. -/
def configTy (n : Node) : Ty := .struct (tableFields (otherFields n) (registered n))

/-- A manager's records as they lie in memory. -/
def Slots.image (k : Key) (s : Slots) : List UInt8 :=
  le 4 (s.info.num % 2 ^ 32).toNat ++ ((List.range (slots k)).map s.info.caps).flatten ++
    ((List.range (slots k)).map s.info.cfgs).flatten

/-- A manager with the records that lie in memory. Nothing is running yet. -/
def Slots.ofImage (k : Key) (img : List UInt8) : Slots where
  info :=
    { num := word img 0
      caps i := (chunks (capRec k).ty.size (slots k) (img.drop 4)).getD i
        (List.replicate (capRec k).ty.size 0)
      cfgs i := (chunks (cfgRec k).ty.size (slots k)
        ((img.drop 4).drop (slots k * (capRec k).ty.size))).getD i
          (List.replicate (cfgRec k).ty.size 0) }
  held _ := false

/-- A module's configuration in memory, with what lies behind its managers' records. -/
def imageOf (n : Node) (s : State) (rest : List UInt8) : List UInt8 :=
  ((registered n).map fun k => (s k).image k).flatten ++ rest

/-- The part of a configuration that is a manager's. -/
def segment (k : Key) : List Key → List UInt8 → List UInt8
  | [], _ => []
  | i :: ks, img =>
    if i = k then img.take (tableTy i).size else segment k ks (img.drop (tableTy i).size)

/-- The managers behind a configuration in memory. -/
def stateOf (n : Node) (img : List UInt8) : State :=
  fun k => .ofImage k (segment k (registered n) img)

/-- `jsonb_opt_vsf_cfg_t` and its siblings, with cJSON's printer and parser. -/
def configCodec (cs : Codecs) (print : Json → List UInt8) (parse : List UInt8 → Option Json)
    (n : Node) : JsonCfg.Codec (List UInt8) where
  print := print
  parse := parse
  s2j _ img := (configTy n).s2j cs img
  j2s json img := (configTy n).j2s cs (some json) img

variable {n : Node} {k : Key} {h : Hal} {chn : UInt8}

theorem cfgRec_ops : (h.ops k chn).cfgRec = cfgRec k := by cases k <;> rfl

theorem capRec_ops : (h.ops k chn).capRec = capRec k := by cases k <;> rfl

theorem tableTy_wf (k : Key) : (tableTy k).Wf := by
  have hnames : (["num", "caps", "cfgs"].map lowered).Nodup ∧
      ∀ n ∈ ["num", "caps", "cfgs"], 0 ∉ ascii n := by
    decide
  exact ⟨hnames.1, hnames.2, Record.wf .num, (capRec k).wf, (cfgRec k).wf, trivial⟩

theorem configTy_wf (n : Node) : (configTy n).Wf := by
  have hfont : fontTy.Wf := ⟨by decide, by decide, trivial, trivial⟩
  cases n with
  | vsf =>
    exact ⟨by decide, by decide, tableTy_wf _, tableTy_wf _, tableTy_wf _, hfont, trivial⟩
  | bsp | rtsp | web | app => exact ⟨by decide, by decide, tableTy_wf _, trivial⟩

theorem size_tableTy (k : Key) : (tableTy k).size =
    4 + (slots k * (capRec k).ty.size + slots k * (cfgRec k).ty.size) := rfl

section

variable {s : Slots} {img : List UInt8} {i : Nat}

theorem length_flatten_map {sz m : Nat} {f : Nat → List UInt8} (hf : ∀ i, (f i).length = sz) :
    (((List.range m).map f).flatten).length = m * sz := by
  have hall : ∀ x ∈ (List.range m).map f, x.length = sz := List.forall_mem_map.mpr fun i _ => hf i
  rw [length_flatten_of_forall hall]
  simp

theorem length_image (hs : s.Sound (h.ops k chn)) : (s.image k).length = (tableTy k).size := by
  have hcaps := fun i => (hs.caps i).1
  have hcfgs := fun i => (hs.cfgs i).1
  rw [capRec_ops] at hcaps
  rw [cfgRec_ops] at hcfgs
  rw [Slots.image, List.length_append, List.length_append, length_le, length_flatten_map hcaps,
    length_flatten_map hcfgs, size_tableTy, Nat.add_assoc]

/-- The parts of a table in memory. -/
theorem image_parts (hs : s.Sound (h.ops k chn)) :
    (s.image k).take 4 = le 4 (s.info.num % 2 ^ 32).toNat ∧
      chunks (capRec k).ty.size (slots k) ((s.image k).drop 4) =
        (List.range (slots k)).map s.info.caps ∧
      chunks (cfgRec k).ty.size (slots k)
        (((s.image k).drop 4).drop (slots k * (capRec k).ty.size)) =
          (List.range (slots k)).map s.info.cfgs := by
  have hcaps := fun i => (hs.caps i).1
  have hcfgs := fun i => (hs.cfgs i).1
  rw [capRec_ops] at hcaps
  rw [cfgRec_ops] at hcfgs
  have htake : (s.image k).take 4 = le 4 (s.info.num % 2 ^ 32).toNat := by
    rw [Slots.image, List.append_assoc]
    exact List.take_left' (length_le _ _)
  have hdrop : (s.image k).drop 4 = ((List.range (slots k)).map s.info.caps).flatten ++
      ((List.range (slots k)).map s.info.cfgs).flatten := by
    rw [Slots.image, List.append_assoc]
    exact List.drop_left' (length_le _ _)
  rw [hdrop, List.drop_left' (length_flatten_map hcaps)]
  refine ⟨htake, ?_, ?_⟩
  · exact chunks_append (by simp) (List.forall_mem_map.mpr fun i _ => hcaps i)
  · rw [← List.append_nil ((List.range (slots k)).map s.info.cfgs).flatten]
    exact chunks_append (by simp) (List.forall_mem_map.mpr fun i _ => hcfgs i)

/-- A number is found where it was stored. -/
theorem word_of_slice {x : Int} (hx : -2 ^ 31 ≤ x) (hx' : x < 2 ^ 31)
    (h : slice img i 4 = le 4 (x % 2 ^ 32).toNat) : word img i = x := by
  have hword : word img i = (ofLe (le 4 (x % 2 ^ 32).toNat) : Int).bmod (2 ^ 32) :=
    congrArg (fun bs : List UInt8 => (ofLe bs : Int).bmod (2 ^ 32)) h
  have hlt : (x % 2 ^ 32).toNat < 256 ^ 4 := by omega
  have hnat : ((x % 2 ^ 32).toNat : Int) = x % 2 ^ 32 := by omega
  rw [hword, ofLe_le, Nat.mod_eq_of_lt hlt, hnat, Int.bmod_def]
  omega

theorem getD_of_forall₂ {R : List UInt8 → List UInt8 → Prop} {xs ys : List (List UInt8)}
    {d e : List UInt8} (hxs : List.Forall₂ R xs ys) (hi : i < ys.length) :
    R (xs.getD i d) (ys.getD i e) := by
  have hi' : i < xs.length := hxs.length_eq ▸ hi
  rw [List.getD_eq_getElem?_getD, List.getD_eq_getElem?_getD, List.getElem?_eq_getElem hi',
    List.getElem?_eq_getElem hi]
  exact hxs.get hi' hi

/-- What is read from a table that says the same says the same. -/
theorem ofImage_same (hs : s.Sound (h.ops k chn)) (hnum : -2 ^ 31 ≤ s.info.num)
    (hnum' : s.info.num < 2 ^ 31) (hsame : (tableTy k).Same img (s.image k)) :
    (Slots.ofImage k img).info.num = s.info.num ∧ ∀ i < slots k,
      (capRec k).ty.Same ((Slots.ofImage k img).info.caps i) (s.info.caps i) ∧
      (cfgRec k).ty.Same ((Slots.ofImage k img).info.cfgs i) (s.info.cfgs i) := by
  obtain ⟨htake, hcaps, hcfgs⟩ := image_parts hs
  obtain ⟨⟨hword, -⟩, hcap, hcfg, -⟩ := hsame
  simp only [Ty.Same, Ty.size, chunks_take] at hcap hcfg
  have hfour : numTy.size = 4 := rfl
  rw [hfour, hcaps] at hcap
  rw [hfour, hcfgs] at hcfg
  have hslice : slice img 0 4 = le 4 (s.info.num % 2 ^ 32).toNat := by
    have hword' : (img.take 4).take 4 = ((s.image k).take 4).take 4 := hword
    rwa [List.take_take, List.take_take, Nat.min_self, htake] at hword'
  have hget : ∀ (f : Nat → List UInt8), ∀ i < slots k,
      ((List.range (slots k)).map f).getD i [] = f i := fun f i hi => by simp [hi]
  refine ⟨?_, fun i hi => ⟨?_, ?_⟩⟩
  · simp only [Slots.ofImage]
    exact word_of_slice hnum hnum' hslice
  · rw [← hget s.info.caps i hi]
    exact getD_of_forall₂ hcap (by simpa using hi)
  · rw [← hget s.info.cfgs i hi]
    exact getD_of_forall₂ hcfg (by simpa using hi)

/-- An entry of an array in memory, or a record of zeros behind the last. -/
theorem getD_chunks {ty : Ty} {m : Nat} {bs : List UInt8} (hlen : bs.length = m * ty.size)
    (hterm : ∀ x ∈ chunks ty.size m bs, ty.Terminated x)
    (hzero : ty.Terminated (List.replicate ty.size 0)) :
    ((chunks ty.size m bs).getD i (List.replicate ty.size 0)).length = ty.size ∧
      ty.Terminated ((chunks ty.size m bs).getD i (List.replicate ty.size 0)) := by
  rw [List.getD_eq_getElem?_getD]
  cases hi : (chunks ty.size m bs)[i]? with
  | none => exact ⟨List.length_replicate, hzero⟩
  | some x =>
    have hx := List.mem_of_getElem? hi
    exact ⟨length_of_mem_chunks hlen x hx, hterm x hx⟩

theorem image_terminated (hs : s.Sound (h.ops k chn)) : (tableTy k).Terminated (s.image k) := by
  obtain ⟨-, hcaps, hcfgs⟩ := image_parts hs
  have hfour : numTy.size = 4 := rfl
  refine ⟨⟨trivial, trivial⟩, ?_, ?_, trivial⟩
  · simp only [Ty.Terminated, Ty.size, hfour, chunks_take]
    rw [hcaps, List.forall_mem_map]
    intro i _
    have hi := (hs.caps i).2
    rwa [capRec_ops] at hi
  · simp only [Ty.Terminated, Ty.size, hfour, chunks_take]
    rw [hcfgs, List.forall_mem_map]
    intro i _
    have hi := (hs.cfgs i).2
    rwa [cfgRec_ops] at hi

theorem terminated_zeros (k : Key) :
    (capRec k).ty.Terminated (List.replicate (capRec k).ty.size 0) ∧
      (cfgRec k).ty.Terminated (List.replicate (cfgRec k).ty.size 0) := by
  cases k <;> decide

theorem ofImage_sound (hlen : img.length = (tableTy k).size) (hterm : (tableTy k).Terminated img) :
    (Slots.ofImage k img).Sound (h.ops k chn) := by
  obtain ⟨-, hcap, hcfg, -⟩ := hterm
  have hfour : numTy.size = 4 := rfl
  simp only [Ty.Terminated, Ty.size, hfour] at hcap hcfg
  rw [size_tableTy] at hlen
  obtain ⟨hzcap, hzcfg⟩ := terminated_zeros k
  constructor
  · intro i
    rw [cfgRec_ops]
    simp only [Slots.ofImage]
    rw [← chunks_take]
    refine getD_chunks ?_ hcfg hzcfg
    rw [List.length_take, List.length_drop, List.length_drop]
    omega
  · intro i
    rw [capRec_ops]
    simp only [Slots.ofImage]
    rw [← chunks_take]
    refine getD_chunks ?_ hcap hzcap
    rw [List.length_take, List.length_drop]
    omega

end

section

variable {s : State} {ks : List Key} {fs : Fields} {a b rest : List UInt8}

/-- A manager's part of a configuration is its table. -/
theorem segment_images (hs : ∀ i ∈ ks, (s i).Sound (h.ops i chn)) (hk : k ∈ ks) :
    segment k ks ((ks.map fun k => (s k).image k).flatten ++ rest) = (s k).image k := by
  induction ks with
  | nil => cases hk
  | cons i ks ih =>
    have hlen := length_image (hs i List.mem_cons_self)
    rw [segment, List.map_cons, List.flatten_cons, List.append_assoc]
    split_ifs with hik
    · rw [List.take_left' hlen, hik]
    · rw [List.drop_left' hlen]
      refine ih (fun j hj => hs j (List.mem_cons_of_mem i hj)) ?_
      exact (List.mem_cons.mp hk).resolve_left (Ne.symm hik)

/-- Configurations that say the same say the same of each manager. -/
theorem segment_same (hk : k ∈ ks) (hsame : (tableFields fs ks).SameMembers a b) :
    (tableTy k).Same (segment k ks a) (segment k ks b) := by
  induction ks generalizing a b with
  | nil => cases hk
  | cons i ks ih =>
    obtain ⟨hi, hrest⟩ := hsame
    rw [segment, segment]
    split_ifs with hik
    · rwa [hik] at hi ⊢
    · exact ih ((List.mem_cons.mp hk).resolve_left (Ne.symm hik)) hrest

theorem segment_terminated (hk : k ∈ ks) (hlen : a.length = (tableFields fs ks).size)
    (hterm : (tableFields fs ks).TerminatedMembers a) :
    (segment k ks a).length = (tableTy k).size ∧ (tableTy k).Terminated (segment k ks a) := by
  induction ks generalizing a with
  | nil => cases hk
  | cons i ks ih =>
    obtain ⟨hi, hrest⟩ := hterm
    rw [tableFields, Fields.size] at hlen
    rw [segment]
    split_ifs with hik
    · rw [hik] at hi hlen ⊢
      exact ⟨length_take_add hlen, hi⟩
    · exact ih ((List.mem_cons.mp hk).resolve_left (Ne.symm hik)) (length_drop_add hlen) hrest

theorem images_terminated (hs : ∀ i ∈ ks, (s i).Sound (h.ops i chn)) (hlen : rest.length = fs.size)
    (hterm : fs.TerminatedMembers rest) :
    ((ks.map fun k => (s k).image k).flatten ++ rest).length = (tableFields fs ks).size ∧
      (tableFields fs ks).TerminatedMembers ((ks.map fun k => (s k).image k).flatten ++ rest) := by
  induction ks with
  | nil => exact ⟨hlen, hterm⟩
  | cons i ks ih =>
    obtain ⟨hrest, hall⟩ := ih fun j hj => hs j (List.mem_cons_of_mem i hj)
    have hi := hs i List.mem_cons_self
    have hsize := length_image hi
    rw [tableFields, List.map_cons, List.flatten_cons, List.append_assoc]
    refine ⟨?_, ?_⟩
    · rw [List.length_append, hsize, hrest, Fields.size]
    · rw [Fields.TerminatedMembers, List.take_left' hsize, List.drop_left' hsize]
      exact ⟨image_terminated hi, hall⟩

end

section

variable {cs : Codecs} {print : Json → List UInt8} {parse : List UInt8 → Option Json}
  {calls : JsonCfg.SaveCalls} {s : State} {rest boot : List UInt8} {w : JsonCfg.World}

/-- A configuration with managers whose records are of their types, and what lies behind them. -/
structure Savable (h : Hal) (n : Node) (s : State) (rest : List UInt8) : Prop where
  sound : ∀ k ∈ registered n, (s k).Sound (h.ops k 0)
  num : ∀ k ∈ registered n, -2 ^ 31 ≤ (s k).info.num ∧ (s k).info.num < 2 ^ 31
  length : rest.length = (otherFields n).size
  terminated : (otherFields n).TerminatedMembers rest

/-- The printer's text is a C string, not empty, and the parser reads it back. -/
structure Printer (print : Json → List UInt8) (parse : List UInt8 → Option Json) (json : Json) :
    Prop where
  text : 0 ∉ print json
  ne_nil : print json ≠ []
  parse : parse (print json) = some json

/-- What is loaded over any configuration says what was saved. -/
theorem load_saved (hlaw : cs.Lawful) (hs : Savable h n s rest)
    (hprint : Printer print parse ((configTy n).s2j cs (imageOf n s rest)))
    (hdone : JsonCfg.Completes (configCodec cs print parse n) calls (imageOf n s rest))
    (hboot : boot.length = (configTy n).size) :
    ∃ img, Utils.JsonCfg.reading (configCodec cs print parse n) boot
        (Utils.JsonCfg.jsonCfgSave (configCodec cs print parse n) calls (imageOf n s rest) w).2 =
          (0, img) ∧
      img.length = (configTy n).size ∧ (configTy n).Terminated img ∧
      (configTy n).Same img (imageOf n s rest) := by
  obtain ⟨hlen, hterm⟩ := images_terminated hs.sound hs.length hs.terminated
  have hwf := configTy_wf n
  have hread := @Utils.JsonCfg.reading_jsonCfgSave _ (configCodec cs print parse n) calls
    (imageOf n s rest) w boot hdone hprint.text hprint.ne_nil hprint.parse
  have hnew := Ty.length_j2s hlaw (configTy n) (Ty.sized_of_wf _ hwf)
    (some ((configTy n).s2j cs (imageOf n s rest))) boot hboot
  have hsame := Ty.same_j2s hlaw (configTy n) hwf (imageOf n s rest) boot hlen hboot hterm
  exact ⟨_, hread, hnew, Ty.terminated_of_same _ hwf _ _ hnew hlen hsame hterm, hsame⟩

/-- The managers behind it have the same records. -/
theorem restore (hs : Savable h n s rest) {img : List UInt8}
    (hlen : img.length = (configTy n).size) (hterm : (configTy n).Terminated img)
    (hsame : (configTy n).Same img (imageOf n s rest)) (hk : k ∈ registered n) :
    (stateOf n img k).Sound (h.ops k chn) ∧ (stateOf n img k).info.num = (s k).info.num ∧
      ∀ i < slots k,
        (capRec k).ty.Same ((stateOf n img k).info.caps i) ((s k).info.caps i) ∧
        (cfgRec k).ty.Same ((stateOf n img k).info.cfgs i) ((s k).info.cfgs i) := by
  obtain ⟨hseglen, hsegterm⟩ := segment_terminated hk hlen hterm
  have hseg := segment_same hk hsame
  rw [imageOf, segment_images hs.sound hk] at hseg
  obtain ⟨hlo, hhi⟩ := hs.num k hk
  exact ⟨ofImage_sound hseglen hsegterm, ofImage_same (hs.sound k hk) hlo hhi hseg⟩

end

/-- `cfg_save`, and `cfg_load` of a process that starts with another configuration. -/
def restarted (codec : JsonCfg.Codec (List UInt8)) (calls : JsonCfg.SaveCalls) (n : Node)
    (s : State) (rest boot : List UInt8) (w : JsonCfg.World) : State :=
  stateOf n (Utils.JsonCfg.reading codec boot
    (Utils.JsonCfg.jsonCfgSave codec calls (imageOf n s rest) w).2).2

section

variable {cs : Codecs} {print : Json → List UInt8} {parse : List UInt8 → Option Json}
  {calls : JsonCfg.SaveCalls} {s t : State} {rest boot : List UInt8} {w : JsonCfg.World}
  {served : List Call}

theorem ne_dummy (hn : n ≠ .bsp) (hk : k ∈ registered n) : k ≠ .dummy := by
  rintro rfl
  cases n <;> simp_all [registered]

/-- After a restart a module has the records that the calls before it have left. -/
theorem tracks_restarted (hn : n ≠ .bsp) (hlaw : cs.Lawful) (hs : Savable h n s rest)
    (ht : Tracks h n s served t)
    (hprint : Printer print parse ((configTy n).s2j cs (imageOf n t rest)))
    (hdone : JsonCfg.Completes (configCodec cs print parse n) calls (imageOf n t rest))
    (hboot : boot.length = (configTy n).size) :
    Tracks h n s served (restarted (configCodec cs print parse n) calls n t rest boot w) := by
  have hsave : Savable h n t rest :=
    ⟨fun k hk => ht.sound k hk (ne_dummy hn hk),
      fun k hk => ht.num k hk (ne_dummy hn hk) ▸ hs.num k hk, hs.length, hs.terminated⟩
  obtain ⟨img, hread, hlen, hterm, hsame⟩ := load_saved (w := w) hlaw hsave hprint hdone hboot
  rw [restarted, hread]
  have hrestore := fun k hk => @restore n k h 0 t rest hsave img hlen hterm hsame hk
  refine ⟨ht.start, fun k hk _ => (hrestore k hk).1, fun k hk hd => ?_, fun k hk hd i hi => ?_,
    ht.length, fun k hk hd i hi => ?_⟩
  · rw [(hrestore k hk).2.1, ht.num k hk hd]
  · have hcap := ((hrestore k hk).2.2 i hi).1
    have hnew := ((hrestore k hk).1.caps i).1
    have hold := ((ht.sound k hk hd).caps i).1
    rw [← @capRec_ops k h 0] at hcap
    exact Ty.same_trans _ (Record.wf _) _ _ _ hnew hold ((ht.start k hk hd).caps i).1 hcap
      (ht.caps k hk hd i hi)
  · have hcfg := ((hrestore k hk).2.2 i hi).2
    have hnew := ((hrestore k hk).1.cfgs i).1
    have hold := ((ht.sound k hk hd).cfgs i).1
    rw [← @cfgRec_ops k h 0] at hcfg
    exact Ty.same_trans _ (Record.wf _) _ _ _ hnew hold (ht.length k hk hd i) hcfg
      (ht.cfgs k hk hd i hi)

end

section

variable {v : Node → Server State} {ss ts ss' ts' : Node → State}
  {acts acts' pre post : List (Node × Call)} {c : Call} {cs : Codecs}
  {print : Json → List UInt8} {parse : List UInt8 → Option Json} {calls : JsonCfg.SaveCalls}
  {rest boot : List UInt8} {w : JsonCfg.World}

/-- A module that is stopped after `cfg_save` and started again with `cfg_load` answers as if it had
never stopped: a GET is told the record of the last SET, before the restart or after it. -/
theorem restart_answers (hn : n ≠ .bsp) (hv : ∀ n, (v n).handler = h.handler n)
    (hnum : ∀ n i, 0 ∉ (v n).numText i) (hlaw : ∀ n, (v n).cs.Lawful) (hshow : h.ShowsRecord)
    (hs : ∀ n, Sound h n (ss n)) (hrun : MTr (Side fun n => Serve h (v n) n) ss acts ts)
    (hread : ∀ n c, (n, c) ∈ acts → Legible h (v n) c)
    (hcs : cs.Lawful) (hsave : Savable h n (ss n) rest)
    (hprint : Printer print parse ((configTy n).s2j cs (imageOf n (ts n) rest)))
    (hdone : JsonCfg.Completes (configCodec cs print parse n) calls (imageOf n (ts n) rest))
    (hboot : boot.length = (configTy n).size)
    (hss : ss' n = restarted (configCodec cs print parse n) calls n (ts n) rest boot w)
    (hrun' : MTr (Side fun n => Serve h (v n) n) ss' acts' ts')
    (hread' : ∀ n c, (n, c) ∈ acts' → Legible h (v n) c) (hacts : acts' = pre ++ (n, c) :: post) :
    (c.record h).ty.Same c.back (c.answer (ss n) (own n acts ++ own n pre)) := by
  have htracks := tracks_run (hv n) (hnum n) (hlaw n) hshow (mtr_own hrun n) (tracks_start (hs n))
    fun c hc => hread n c (mem_own.mp hc)
  have hagain := tracks_restarted (w := w) hn hcs hsave htracks hprint hdone hboot
  rw [← hss] at hagain
  exact answer_of_run hv hnum hlaw hshow hagain hrun' hread' hacts

end

open Proto (sampleHal)

/-- A web server's settings: not enabled, at port 8080. -/
def sampleServerCfg : List UInt8 :=
  le 4 0 ++ le 4 0 ++ ascii "0.0.0.0" ++ List.replicate 57 0 ++ le 4 8080

def sampleServerSet : Call := ⟨false, .webSvr, .set, sampleServerCfg, sampleServerCfg⟩

/-- The reader of one text. -/
def readText (json : Json) (bs : List UInt8) : Option Json :=
  if bs = formatted decimal 0 json then some json else none

theorem printer_formatted (ms : List (List UInt8 × Json)) :
    Printer (formatted decimal 0) (readText (.obj ms)) (.obj ms) := by
  refine ⟨zero_notMem_formatted zero_notMem_decimal 0 _, ?_, if_pos rfl⟩
  rw [formatted]
  exact List.cons_ne_nil _ _

theorem sample_server : sampleServerSet.Fair sampleHal .web ∧ idOf sampleServerCfg = (0 : Nat) ∧
    ∃ u, sampleHal.svrSet (sampleState .webSvr) sampleServerCfg = .ok (u, 0) := by
  have hlen : sampleServerCfg.length = Record.webCfg.ty.size := by decide
  have hterm : Record.webCfg.ty.Terminated sampleServerCfg := by decide
  have hid : idOf sampleServerCfg = (0 : Nat) := by decide
  have henable : word sampleServerCfg 4 = 0 := by decide
  refine ⟨⟨by decide, by decide, nofun, hlen, hterm⟩, hid, ?_⟩
  rw [Hal.svrSet, hid, henable]
  exact ⟨_, rfl⟩

theorem sample_server_get (back : List UInt8) :
    Call.Fair sampleHal .web ⟨false, .webSvr, .get, sampleServerCfg, back⟩ := by
  obtain ⟨⟨hk, hd, -, hlen, hterm⟩, -⟩ := sample_server
  refine ⟨hk, hd, ?_, hlen, hterm⟩
  rintro ⟨⟩

/-- The web module's file after `s`. -/
def webCodec (s : State) : JsonCfg.Codec (List UInt8) :=
  configCodec plain (formatted decimal 0)
    (readText ((configTy .web).s2j plain (imageOf .web s []))) .web

/-- It is opened, and takes the whole text. -/
def webCalls (s : State) : JsonCfg.SaveCalls :=
  ⟨true, true, true, (Utils.JsonCfg.printed (webCodec s) (imageOf .web s [])).length⟩

/-- A web server is set, its module started again, and the server asked for. -/
theorem restart_answers_web : ∃ (s t u : State) (c : Call),
    Serve sampleHal (sampleNetwork .web) .web sampleState sampleServerSet s ∧
    t = restarted (webCodec s) (webCalls s) .web s [] (List.replicate 88 0) ⟨none, fun _ => 0⟩ ∧
    Serve sampleHal (sampleNetwork .web) .web t c u ∧ c.action = .get ∧
    Record.webCfg.ty.Same c.back sampleServerCfg := by
  have hshow : sampleHal.ShowsRecord := fun _ _ _ _ _ => rfl
  obtain ⟨hfair, hid, v, hset⟩ := sample_server
  obtain ⟨s, hone⟩ : ∃ s,
      Serve sampleHal (sampleNetwork .web) .web sampleState sampleServerSet s :=
    ⟨_, serve_of_call rfl hshow (sample_sound .web) hfair rfl
      (manager_set_eq_ok.mpr ⟨v, 0, hset, ⟨hid, by decide⟩, rfl, rfl⟩)⟩
  obtain ⟨t, ht⟩ : ∃ t, t = restarted (webCodec s) (webCalls s) .web s [] (List.replicate 88 0)
    ⟨none, fun _ => 0⟩ := ⟨_, rfl⟩
  have hprint : Printer (formatted decimal 0)
      (readText ((configTy .web).s2j plain (imageOf .web s [])))
      ((configTy .web).s2j plain (imageOf .web s [])) := printer_formatted _
  have hsave : Savable sampleHal .web sampleState [] :=
    ⟨fun k hk => sample_sound .web k hk (ne_dummy (by decide) hk),
      fun _ _ => ⟨(by decide : (-2 ^ 31 : Int) ≤ 3), (by decide : (3 : Int) < 2 ^ 31)⟩, rfl,
      trivial⟩
  have hdone : JsonCfg.Completes (webCodec s) (webCalls s) (imageOf .web s []) :=
    ⟨rfl, rfl, rfl, le_rfl⟩
  have hboot : (List.replicate 88 (0 : UInt8)).length = (configTy .web).size := by decide
  have htracks := tracks_step rfl zero_notMem_decimal plain_lawful hshow
    (tracks_start (sample_sound .web)) (sample_legible _ .web) hone
  have hsound : Sound sampleHal .web t := by
    rw [ht]
    exact (tracks_restarted (by decide) plain_lawful hsave htracks hprint hdone hboot).sound
  obtain ⟨c, hc⟩ : ∃ c : Call,
    c = ⟨false, .webSvr, .get, sampleServerCfg, (t .webSvr).info.cfgs 0⟩ := ⟨_, rfl⟩
  obtain ⟨u, htwo⟩ : ∃ u, Serve sampleHal (sampleNetwork .web) .web t c u := by
    rw [hc]
    exact ⟨_, serve_of_call rfl hshow hsound (sample_server_get _) rfl
      (manager_get_eq_ok.mpr ⟨0, ⟨hid, by decide⟩, rfl, rfl⟩)⟩
  -- the runs of the network around the restart
  obtain ⟨ts, hts⟩ : ∃ ts, ts = Function.update (fun _ : Node => sampleState) .web s := ⟨_, rfl⟩
  obtain ⟨ss, hss⟩ : ∃ ss, ss = Function.update (fun _ : Node => sampleState) .web t := ⟨_, rfl⟩
  have htsw : ts .web = s := by rw [hts, Function.update_self]
  have hssw : ss .web = t := by rw [hss, Function.update_self]
  have hrun : MTr (Side fun n => Serve sampleHal (sampleNetwork n) n) (fun _ => sampleState)
      [(.web, sampleServerSet)] ts := by
    rw [hts]
    exact .stepL (.mk hone) .refl
  have hrun' : MTr (Side fun n => Serve sampleHal (sampleNetwork n) n) ss [(.web, c)]
      (Function.update ss .web u) := by
    rw [← hssw] at htwo
    exact .stepL (.mk htwo) .refl
  have hans := restart_answers (n := .web) (c := c) (by decide) (fun _ => rfl)
    (fun _ => zero_notMem_decimal) (fun _ => plain_lawful) hshow sample_sound hrun
    (fun n e _ => sample_legible e n) plain_lawful hsave (htsw ▸ hprint) (htsw ▸ hdone) hboot
    (by rw [hssw, htsw]; exact ht) hrun'
    (fun n e _ => sample_legible e n) (show [(Node.web, c)] = [] ++ (.web, c) :: [] from rfl)
  refine ⟨s, t, u, c, hone, ht, htwo, by rw [hc], ?_⟩
  have hlatest : c.answer sampleState ([] ++ [sampleServerSet]) = sampleServerCfg := by
    have hid' : idOf sampleServerCfg = ((idOf sampleServerCfg).toNat : Int) := by
      rw [hid]
      rfl
    rw [hc]
    simp only [Call.answer]
    rw [latest_append]
    exact if_pos ⟨rfl, rfl, hid'⟩
  have hrec : c.record sampleHal = .webCfg := by
    subst hc
    rfl
  rw [hrec] at hans
  rwa [show own Node.web [(Node.web, sampleServerSet)] ++ own Node.web [] =
    [] ++ [sampleServerSet] from rfl, hlatest] at hans

end Freak.Manager
