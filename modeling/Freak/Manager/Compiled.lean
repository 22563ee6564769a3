import Freak.Lib.Bytes
import Freak.Manager.Store

/-! The configurations compiled into the modules: the `s_cfg` of each `cfg.c`. -/
namespace Freak.Manager

open Bytes (ascii)
open Lts

/-- `proto_vsf_frame_cfg_t`. -/
structure FrameCfg where
  id : Int
  enable : Int
  format : Int
  width : Int
  height : Int
  fps : Int

/-- `proto_vsf_stream_cfg_t`. -/
structure StreamCfg where
  id : Int
  enable : Int
  encode : Int
  width : Int
  height : Int
  fps : Int

structure Point where
  x : Int
  y : Int

structure Rect where
  x : Int
  y : Int
  w : Nat
  h : Nat

structure OsdText where
  point : Point
  size : Nat
  color : Nat
  text : List UInt8

structure OsdObj where
  id : Int
  color : Nat
  rect : Rect

/-- The union in `proto_vsf_osd_cfg_union_t`. -/
inductive OsdUnion
  | zero
  | mask (points : List Point) (color : Nat)
  | texts (texts : List OsdText)
  | objs (objs : List OsdObj)

/-- `proto_vsf_osd_cfg_t`. -/
structure OsdCfg where
  id : Int
  enable : Int
  condition : List UInt8
  info : OsdUnion

/-- `proto_vsf_*_cap_t`. -/
structure ChnCap where
  id : Int
  chn : Int
  subchn : Int

/-- `proto_rtsp_svr_cfg_t` and `proto_web_svr_cfg_t`. -/
structure SvrCfg where
  id : Int
  enable : Int
  ip : List UInt8
  port : Int

structure SvrCap where
  id : Int
  dummy : Int

/-- `proto_app_alg_cfg_t`. -/
structure AlgCfg where
  id : Int
  type : Int
  enable : Int
  algpath : List UInt8

structure AlgCap where
  id : Int
  frame : Int

/-- An array of which only the first entries are given; the others are zero. -/
def table {α : Type} (zero : α) (xs : List α) (i : Nat) : α := xs.getD i zero

def frameInfo : Info FrameCfg ChnCap where
  num := 2
  cfgs := table ⟨0, 0, 0, 0, 0, 0⟩ [⟨0, 0, 10, 1920, 1080, 10⟩, ⟨1, 0, 10, 640, 640, 5⟩]
  caps := table ⟨0, 0, 0⟩ [⟨0, 0, 1⟩, ⟨1, 0, 2⟩]

def streamInfo : Info StreamCfg ChnCap where
  num := 3
  cfgs := table ⟨0, 0, 0, 0, 0, 0⟩
    [⟨0, 1, 0, 1920, 1080, 25⟩, ⟨1, 1, 0, 1280, 720, 25⟩, ⟨2, 0, 2, 1920, 1080, 1⟩]
  caps := table ⟨0, 0, 0⟩ [⟨0, 0, 0⟩, ⟨1, 0, 1⟩, ⟨2, 0, 2⟩]

/-- All of the 16 entries count, and three of them have a configuration. -/
def osdInfo : Info OsdCfg ChnCap where
  num := 16
  cfgs := table ⟨0, 0, [], .zero⟩
    [⟨0, 1, ascii "mask", .mask [⟨100, 100⟩, ⟨400, 400⟩, ⟨100, 400⟩, ⟨400, 100⟩] 0x0000ffff⟩,
      ⟨1, 1, ascii "mask", .mask [⟨6000, 6000⟩, ⟨6600, 6600⟩, ⟨6000, 6600⟩, ⟨6600, 6000⟩]
        0x0000ffff⟩,
      ⟨2, 1, ascii "texts", .texts [⟨⟨2048, 4096⟩, 48, 0x01ff0000, ascii "abc"⟩,
        ⟨⟨4096, 4096⟩, 64, 0x0100ff00, ascii "123abcABC"⟩]⟩]
  caps := Function.update (table ⟨0, 0, 0⟩ [⟨0, 0, -1⟩, ⟨1, 0, -1⟩, ⟨2, 0, 0⟩]) 15 ⟨15, 0, 1⟩

def rtspInfo : Info SvrCfg SvrCap where
  num := 1
  cfgs := table ⟨0, 0, [], 0⟩ [⟨0, 1, ascii "0.0.0.0", 1234⟩]
  caps := table ⟨0, 0⟩ [⟨0, 0x1234⟩]

def webInfo : Info SvrCfg SvrCap where
  num := 1
  cfgs := table ⟨0, 0, [], 0⟩ [⟨0, 1, ascii "0.0.0.0", 8080⟩]
  caps := table ⟨0, 0⟩ [⟨0, 0x8080⟩]

def algInfo : Info AlgCfg AlgCap where
  num := 1
  cfgs := table ⟨0, 0, 0, []⟩ [⟨0, 0, 1, ascii "./data/"⟩]
  caps := table ⟨0, 0⟩ [⟨0, 1⟩]

/-- The kinds of record that have an id. -/
inductive Kind
  | frame
  | stream
  | osd
  | rtsp
  | web
  | alg
deriving DecidableEq

namespace Kind

def Cfg : Kind → Type
  | .frame => FrameCfg
  | .stream => StreamCfg
  | .osd => OsdCfg
  | .rtsp | .web => SvrCfg
  | .alg => AlgCfg

def Cap : Kind → Type
  | .frame | .stream | .osd => ChnCap
  | .rtsp | .web => SvrCap
  | .alg => AlgCap

def info : (k : Kind) → Info k.Cfg k.Cap
  | .frame => frameInfo
  | .stream => streamInfo
  | .osd => osdInfo
  | .rtsp => rtspInfo
  | .web => webInfo
  | .alg => algInfo

variable {σ : Type}

/-- The manager of a kind of record, given what it does to its device. -/
def mgr : (k : Kind) → (set tgr : σ → k.Cfg → Option (σ × Int)) → Mgr σ k.Cfg k.Cap
  | .frame, set, _ => ⟨FrameCfg.id, ChnCap.id, fun i => ⟨i, 0, 0, 0, 0, 0⟩, fun _ => rfl, set, none⟩
  | .stream, set, _ =>
    ⟨StreamCfg.id, ChnCap.id, fun i => ⟨i, 0, 0, 0, 0, 0⟩, fun _ => rfl, set, none⟩
  | .osd, set, tgr =>
    ⟨OsdCfg.id, ChnCap.id, fun i => ⟨i, 0, [], .zero⟩, fun _ => rfl, set, some tgr⟩
  | .rtsp, set, _ => ⟨SvrCfg.id, SvrCap.id, fun i => ⟨i, 0, [], 0⟩, fun _ => rfl, set, none⟩
  | .web, set, _ => ⟨SvrCfg.id, SvrCap.id, fun i => ⟨i, 0, [], 0⟩, fun _ => rfl, set, none⟩
  | .alg, set, _ => ⟨AlgCfg.id, AlgCap.id, fun i => ⟨i, 0, 0, []⟩, fun _ => rfl, set, none⟩

variable {k : Kind} {set tgr : σ → k.Cfg → Option (σ × Int)} {dev : σ}
  {qs : List (Request k.Cfg k.Cap)} {s : Store σ k.Cfg k.Cap}

/-- The entries that the compiled-in configuration gives their own id. -/
def Given (k : Kind) (i : Int) : Prop := k = .osd → i < 3

theorem osd_id {n : Nat} (hn : n < 16) : (osdInfo.cfgs n).id = n ↔ n < 3 := by
  decide +revert

theorem compiled_id {i : Int} (hi : 0 ≤ i) (hn : i < k.info.num) :
    (k.mgr set tgr).id (k.info.get i) = i ↔ k.Given i := by
  obtain ⟨n, rfl⟩ := Int.eq_ofNat_of_zero_le hi
  cases k with
  | frame =>
    have hid : ∀ n < 2, (frameInfo.cfgs n).id = n := by decide
    exact iff_of_true (hid n (Int.ofNat_lt.mp hn)) nofun
  | stream =>
    have hid : ∀ n < 3, (streamInfo.cfgs n).id = n := by decide
    exact iff_of_true (hid n (Int.ofNat_lt.mp hn)) nofun
  | osd =>
    have hid : (osdInfo.cfgs n).id = n ↔ n < 3 := osd_id (Int.ofNat_lt.mp hn)
    exact hid.trans ⟨fun h _ => Int.ofNat_lt.mpr h, fun h => Int.ofNat_lt.mp (h rfl)⟩
  | rtsp =>
    have hid : ∀ n < 1, (rtspInfo.cfgs n).id = n := by decide
    exact iff_of_true (hid n (Int.ofNat_lt.mp hn)) nofun
  | web =>
    have hid : ∀ n < 1, (webInfo.cfgs n).id = n := by decide
    exact iff_of_true (hid n (Int.ofNat_lt.mp hn)) nofun
  | alg =>
    have hid : ∀ n < 1, (algInfo.cfgs n).id = n := by decide
    exact iff_of_true (hid n (Int.ofNat_lt.mp hn)) nofun

/-- In every run the store is good exactly when each entry was given its id by the compiled-in
configuration or by a SET; so it always is where that configuration is complete. -/
theorem store_good_iff (h : MTr (k.mgr set tgr).Step ⟨dev, k.info⟩ qs s) :
    ((k.mgr set tgr).Good s ↔
      ∀ i : Int, 0 ≤ i → i < k.info.num → k.Given i ∨ (k.mgr set tgr).Sets qs i) ∧
    (k ≠ .osd → (k.mgr set tgr).Good s) := by
  have hiff : (k.mgr set tgr).Good s ↔
      ∀ i : Int, 0 ≤ i → i < k.info.num → k.Given i ∨ (k.mgr set tgr).Sets qs i := by
    rw [Mgr.run_good_iff h]
    exact forall_congr' fun i => forall_congr' fun hi => forall_congr' fun hn => by
      rw [compiled_id hi hn]
  exact ⟨hiff, fun hk => hiff.mpr fun i _ _ => .inl fun he => (hk he).elim⟩

/-- A device that takes every record. -/
def takes {ρ : Type} (dev : Unit) (_ : ρ) : Option (Unit × Int) := some (dev, 0)

theorem store_good_stream :
    ∃ s, MTr (Kind.stream.mgr takes takes).Step ⟨(), streamInfo⟩ [.set ⟨1, 0, 0, 640, 480, 5⟩] s ∧
      (Kind.stream.mgr takes takes).Good s := by
  have h : MTr (Kind.stream.mgr takes takes).Step ⟨(), streamInfo⟩ [.set ⟨1, 0, 0, 640, 480, 5⟩]
      ⟨(), streamInfo.put 1 ⟨1, 0, 0, 640, 480, 5⟩⟩ :=
    .stepL ⟨⟨by decide, by decide⟩, _, rfl⟩ .refl
  exact ⟨_, h, (@store_good_iff _ .stream _ _ _ _ _ h).2 nofun⟩

/-- Nothing has been set, and GET of OSD 3 answers with a record whose id is 0. -/
theorem osd_unset : ¬ ∀ qs s, MTr (Kind.osd.mgr takes takes).Step ⟨(), osdInfo⟩ qs s →
    (Kind.osd.mgr takes takes).Good s := by
  intro h
  have hget := (h [] _ .refl).get 3 (by decide) (by decide)
  exact absurd hget (by decide)

end Kind

end Freak.Manager
