import Mathlib.Tactic

/-! Routing a package to the module that handles its key: `msgbox.c` and the modules' mains. -/
namespace Freak.Proto

/-- The modules, by their COM nodes. -/
inductive Node
  | bsp
  | rtsp
  | vsf
  | web
  | app
deriving DecidableEq

/-- `proto_key_e`. -/
inductive Key
  | dummy
  | frame
  | stream
  | osd
  | rtspSvr
  | webSvr
  | alg
deriving DecidableEq

def Key.value : Key → UInt32
  | .dummy => 0
  | .frame => 1
  | .stream => 2
  | .osd => 3
  | .rtspSvr => 4
  | .webSvr => 5
  | .alg => 6

/-- `s_msgbox_node`, in the order of its rows. -/
def msgboxNode : List (Key × Node) :=
  [(.dummy, .bsp), (.rtspSvr, .rtsp), (.frame, .vsf), (.stream, .vsf), (.osd, .vsf),
    (.webSvr, .web), (.alg, .app)]

/-- The handlers that a module's `main` registers. -/
def registered : Node → List Key
  | .bsp => [.dummy]
  | .rtsp => [.rtspSvr]
  | .vsf => [.frame, .stream, .osd]
  | .web => [.webSvr]
  | .app => [.alg]

/-- A `proto_header_t` with its data, whose length is the size in the header. -/
structure Packet where
  version : UInt8
  ts : UInt64
  chn : UInt8
  key : UInt32
  action : UInt32
  errcode : UInt8
  format : UInt32
  data : List UInt8
  size_lt : data.length < 65536

/-- `msgbox_param_t`. -/
structure Param where
  chn : UInt8
  action : UInt8
  format : UInt8
  data : List UInt8

def Packet.param (p : Packet) : Param := ⟨p.chn, p.action.toUInt8, p.format.toUInt8, p.data⟩

/-- What a handler returns and puts out; `none` if it does not return. -/
abbrev Handler := Param → Option (Int × List UInt8)

/-- `s_msgbox_node[key].handler` in a module. -/
def handlerOf (handlers : Key → Handler) (n : Node) (key : UInt32) : Option Handler :=
  ((registered n).find? (·.value = key)).map handlers

/-- What `msgbox_do_handler` makes of a handler's return value and output. -/
def Packet.reply (p : Packet) (now : UInt64) (ret : Int) (out : List UInt8) : Packet where
  version := 1
  ts := now
  chn := p.chn
  key := p.key
  action := p.action
  errcode := UInt8.ofNat (ret % 256).toNat
  format := p.format
  data := out.take (out.length % 65536)
  size_lt := by
    rw [List.length_take]
    have := Nat.mod_lt out.length (by decide : 65536 > 0)
    omega

/-- `msgbox_do_handler`; without a handler the assertion fails. -/
def msgboxDoHandler (handlers : Key → Handler) (now : UInt64) (n : Node) (p : Packet) :
    Option Packet :=
  match handlerOf handlers n p.key with
  | none => none
  | some func => (func p.param).map fun (ret, out) => p.reply now ret out

/-- The node that the table gives for a key. -/
def destination (key : UInt32) : Option Node := (msgboxNode[key.toNat]?).map Prod.snd

/-- `msgbox_do_forward`: the reply, `none` when none comes or an assertion fails. -/
def msgboxDoForward (handlers : Key → Handler) (now : UInt64) (p : Packet) : Option Packet :=
  match destination p.key with
  | none => none
  | some n =>
    match msgboxDoHandler handlers now n p with
    | none => none
    | some r => if r.key = p.key ∧ r.errcode = 0 then some r else none

/-- The package reaches the module that registered its key's handler, and what that module
replies comes back. -/
def Transparent (handlers : Key → Handler) (now : UInt64) (k : Key) (p : Packet) : Prop :=
  ∃ n, k ∈ registered n ∧ destination p.key = some n ∧
    ∀ r, msgboxDoHandler handlers now n p = some r → msgboxDoForward handlers now p = some r

variable {handlers : Key → Handler} {now : UInt64} {k : Key} {n : Node} {p r : Packet}

/-- The rows of two keys stand in the wrong place. -/
theorem destination_registered :
    (∃ n, k ∈ registered n ∧ destination k.value = some n) ↔ k ≠ .frame ∧ k ≠ .rtspSvr := by
  constructor
  · rintro ⟨n, hn, hd⟩
    revert hn hd
    cases n <;> cases k <;> decide
  · rintro ⟨hf, hr⟩
    cases k with
    | dummy => exact ⟨.bsp, by decide, rfl⟩
    | frame => exact (hf rfl).elim
    | stream => exact ⟨.vsf, by decide, rfl⟩
    | osd => exact ⟨.vsf, by decide, rfl⟩
    | rtspSvr => exact (hr rfl).elim
    | webSvr => exact ⟨.web, by decide, rfl⟩
    | alg => exact ⟨.app, by decide, rfl⟩

/-- A key is registered by one module. -/
theorem registered_unique {m : Node} (hn : k ∈ registered n) (hm : k ∈ registered m) : m = n := by
  revert hn hm
  cases n <;> cases m <;> cases k <;> decide

theorem Key.value_inj {k' : Key} (hk : k.value.toNat = k'.value.toNat) : k = k' := by
  cases k <;> cases k' <;> first | rfl | exact absurd hk (by decide)

theorem handlerOf_registered (hn : k ∈ registered n) :
    handlerOf handlers n k.value = some (handlers k) := by
  have hfind : (registered n).find? (·.value = k.value) = some k := by
    revert hn
    cases n <;> cases k <;> decide
  rw [handlerOf, hfind]
  rfl

theorem msgboxDoHandler_registered (hn : k ∈ registered n) (hk : p.key = k.value) :
    msgboxDoHandler handlers now n p =
      (handlers k p.param).map fun (ret, out) => p.reply now ret out := by
  rw [msgboxDoHandler, hk, handlerOf_registered hn]

theorem errcode_reply {ret : Int} {out : List UInt8} :
    (p.reply now ret out).errcode = 0 ↔ ret % 256 = 0 := by
  have hpos : 0 ≤ ret % 256 := Int.emod_nonneg ret (by decide)
  have hlt : ret % 256 < 256 := Int.emod_lt_of_pos ret (by decide)
  rw [Packet.reply, ← UInt8.toNat_inj, UInt8.toNat_ofNat']
  simp only [UInt8.toNat_zero]
  omega

/-- Forwarding is transparent for the keys whose rows are in place, unless the handler fails. -/
theorem transparent_iff (handlers : Key → Handler) (now : UInt64) (k : Key) (p : Packet)
    (hk : p.key = k.value) :
    Transparent handlers now k p ↔ (k ≠ .frame ∧ k ≠ .rtspSvr) ∧
      ∀ ret out, handlers k p.param = some (ret, out) → ret % 256 = 0 := by
  constructor
  · rintro ⟨n, hn, hd, hr⟩
    refine ⟨destination_registered.mp ⟨n, hn, hk ▸ hd⟩, fun ret out ho => ?_⟩
    have hreply : msgboxDoHandler handlers now n p = some (p.reply now ret out) := by
      rw [msgboxDoHandler_registered hn hk, ho]
      rfl
    have hback := hr _ hreply
    simp only [msgboxDoForward, hd, hreply, Option.ite_none_right_eq_some] at hback
    exact errcode_reply.mp hback.1.2
  · rintro ⟨hplace, hret⟩
    obtain ⟨n, hn, hd⟩ := destination_registered.mpr hplace
    rw [← hk] at hd
    refine ⟨n, hn, hd, fun r hr => ?_⟩
    have hr' := hr
    rw [msgboxDoHandler_registered hn hk] at hr'
    obtain ⟨⟨ret, out⟩, ho, rfl⟩ := Option.map_eq_some_iff.mp hr'
    have herr : (p.reply now ret out).errcode = 0 := errcode_reply.mpr (hret ret out ho)
    simp only [msgboxDoForward, hd, hr]
    exact if_pos ⟨rfl, herr⟩

def sampleHandler : Handler := fun _ => some (0, [1, 2])

def samplePacket (key : UInt32) : Packet := ⟨1, 0, 0, key, 2, 0, 0, [], by decide⟩

theorem transparent_osd :
    Transparent (fun _ => sampleHandler) 0 .osd (samplePacket 3) :=
  (transparent_iff _ _ .osd (samplePacket 3) rfl).mpr
    ⟨⟨by decide, by decide⟩, by rintro ret out ⟨⟩; rfl⟩

/-- A package for the frame manager goes to the rtsp module. -/
theorem frame_misrouted :
    ¬ ∀ (handlers : Key → Handler) (now : UInt64) (k : Key) (p : Packet), p.key = k.value →
      Transparent handlers now k p := by
  intro h
  obtain ⟨n, hn, hd, -⟩ := h (fun _ => sampleHandler) 0 .frame (samplePacket 1) rfl
  exact (destination_registered.mp ⟨n, hn, hd⟩).1 rfl

end Freak.Proto
