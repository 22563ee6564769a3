import Freak.Manager.Image
import Freak.Proto.Package

/-! What a module makes of the bytes that its REP endpoint receives: `msgbox_do_handler` of
`msgbox.c` and the handlers that it dispatches to. -/
namespace Freak.Proto

open Bytes Json Schema

/-- The fields of `proto_header_t`. -/
structure Header where
  version : UInt8
  ts : UInt64
  chn : UInt8
  key : UInt32
  action : UInt32
  errcode : UInt8
  format : UInt32
  size : UInt16

def Header.read (bs : List UInt8) : Header where
  version := UInt8.ofNat (ofLe (slice bs 0 1))
  ts := UInt64.ofNat (ofLe (slice bs 8 8))
  chn := UInt8.ofNat (ofLe (slice bs 16 1))
  key := UInt32.ofNat (ofLe (slice bs 20 4))
  action := UInt32.ofNat (ofLe (slice bs 24 4))
  errcode := UInt8.ofNat (ofLe (slice bs 28 1))
  format := UInt32.ofNat (ofLe (slice bs 32 4))
  size := UInt16.ofNat (ofLe (slice bs 36 2))

/-- The package that goes back. -/
structure Sent where
  header : Header
  data : List UInt8

/-- A module: the number formatter, the leaf codecs and `cJSON_Parse` that it is linked with, and
the handlers that it registered, each by the manager that it has for a channel. -/
structure Server (σ : Type) where
  numText : Int → List UInt8
  cs : Codecs
  parse : List UInt8 → Option Json
  handler : Nat → Option (UInt8 → Ops σ)

namespace Server

variable {σ : Type} (v : Server σ)

/-- `proto_server_data_pre` on the bytes received from the data on, over what the stack held. -/
def dataIn (json : Bool) (t : Ty) (size : Nat) (data old : List UInt8) : Run (List UInt8) :=
  if json then do
    Run.access (0 ∈ data)
    Run.assert (size = strlen data + 1)
    return t.j2s v.cs (v.parse (cstr data)) old
  else do
    Run.assert (size = t.size)
    Run.access (size ≤ data.length)
    return data.take size

/-- `msgbox_osd_set` and its siblings: what they put into the reply buffer. -/
def func (m : Ops σ) (a : Action) (h : Header) (data stack mem : List UInt8) (s : σ) :
    Run (σ × Encoded) := do
  let json := h.format.toUInt8 == 1
  let t := (m.record a).ty
  let rec ← v.dataIn json t h.size.toNat data (stack.take t.size)
  let (s, out) ← m.call a s rec
  return (s, dataOut v.numText v.cs json t (out.take t.size) mem)

/-- The accesses to the reply buffer, and the package sent from it. -/
def pack (h : Header) (now : UInt64) (e : Encoded) : Run Sent := do
  Run.access (dataOffset + e.written ≤ packageMaxsize)
  -- the NUL that ends a text
  Run.access (dataOffset + e.osize ≤ packageMaxsize)
  Run.access (e.size.toNat + headerSize ≤ packageMaxsize)
  return ⟨⟨1, now, h.chn, h.key, h.action, 0, h.format, e.size⟩, e.mem.take e.osize⟩

/-- `msgbox_do_handler` on the bytes received, the stack and the reply buffer. -/
def msgboxDoHandler (s : σ) (inp stack obuf : List UInt8) (now : UInt64) : Run (σ × Sent) := do
  Run.access (headerSize ≤ inp.length)
  let h := Header.read inp
  -- the dump of a text reads it to its NUL
  Run.access (h.format = 1 → 0 ∈ inp.drop dataOffset)
  Run.access (h.key.toNat < 7)
  match v.handler h.key.toNat with
  | none => .error .assertion
  | some ops =>
    match (ops h.chn).action h.action.toUInt8 with
    | none => .error .assertion
    | some a => do
      let (s, e) ← v.func (ops h.chn) a h (inp.drop dataOffset) stack (obuf.drop dataOffset) s
      let r ← pack h now e
      return (s, r)

/-- A request in order: a header, of a key that the module registered and an action that its
handler takes, with a record of the action's type or a text that ends where the header says. -/
structure WellFormed (inp : List UInt8) (m : Ops σ) (a : Action) : Prop where
  header : headerSize ≤ inp.length
  key : (Header.read inp).key.toNat < 7
  handler : ∃ ops, v.handler (Header.read inp).key.toNat = some ops ∧
    ops (Header.read inp).chn = m
  action : (Header.read inp).action.toNat = a.value
  known : a = .tgr → m.tgr.isSome
  data : (Header.read inp).format = 0 ∧ (Header.read inp).size.toNat = (m.record a).ty.size ∧
      (m.record a).ty.size ≤ (inp.drop dataOffset).length ∨
    (Header.read inp).format = 1 ∧ 0 ∈ inp.drop dataOffset ∧
      (Header.read inp).size.toNat = strlen (inp.drop dataOffset) + 1 ∧
      (v.parse (cstr (inp.drop dataOffset))).isSome

/-- The record that the handler finds; where a text leaves a field out, what the stack held. -/
def decoded (inp : List UInt8) (t : Ty) (stack : List UInt8) : List UInt8 :=
  if (Header.read inp).format = 1 then
    t.j2s v.cs (v.parse (cstr (inp.drop dataOffset))) (stack.take t.size)
  else (inp.drop dataOffset).take t.size

/-- The manager takes the record, and a text of the record that comes back leaves room. -/
def Served (s : σ) (inp : List UInt8) (m : Ops σ) (a : Action) (stack obuf : List UInt8) : Prop :=
  ∃ t out, m.call a s (v.decoded inp (m.record a).ty stack) = .ok (t, out) ∧
    ((Header.read inp).format = 1 →
      Room v.numText ((m.record a).ty.s2j v.cs (out.take (m.record a).ty.size))
        (obuf.drop dataOffset))

/-- Whatever the stack and the reply buffer held, a reply comes; one to a request that is not in
order says so and has changed nothing. -/
def Robust (s : σ) (inp : List UInt8) : Prop :=
  ∀ stack obuf now, stack.length = 428 → obuf.length = packageMaxsize →
    ∃ t r, v.msgboxDoHandler s inp stack obuf now = .ok (t, r) ∧
      ((¬ ∃ m a, v.WellFormed inp m a) → r.header.errcode ≠ 0 ∧ t = s)

end Server

section

variable {σ : Type} {v : Server σ} {m : Ops σ} {a : Action} {s t : σ} {e : Encoded}
  {rec out inp stack obuf : List UInt8} {now : UInt64} {r : Sent} {code : UInt8}

/-- The accesses to the reply buffer are in order when the data fits the package. -/
theorem Encoded.accesses_iff : (dataOffset + e.written ≤ packageMaxsize ∧
    dataOffset + e.osize ≤ packageMaxsize ∧ e.size.toNat + headerSize ≤ packageMaxsize) ↔
      e.Fits := by
  rw [fits_iff, size_toNat]
  simp only [dataOffset, headerSize, packageMaxsize]
  omega

namespace Server

variable {h : Header} {data mem : List UInt8}

theorem func_eq_ok : v.func m a h data stack mem s = .ok (t, e) ↔
    ∃ rec out, v.dataIn (h.format.toUInt8 == 1) (m.record a).ty h.size.toNat data
        (stack.take (m.record a).ty.size) = .ok rec ∧ m.call a s rec = .ok (t, out) ∧
      e = dataOut v.numText v.cs (h.format.toUInt8 == 1) (m.record a).ty
        (out.take (m.record a).ty.size) mem := by
  simp only [func, Run.bind_eq_ok, Run.pure_eq_ok, Prod.mk.injEq]
  constructor
  · rintro ⟨rec, hrec, ⟨u, out⟩, hcall, rfl, rfl⟩
    exact ⟨rec, out, hrec, hcall, rfl⟩
  · rintro ⟨rec, out, hrec, hcall, rfl⟩
    exact ⟨rec, hrec, (t, out), hcall, rfl, rfl⟩

theorem pack_eq_ok : pack h now e = .ok r ↔
    e.Fits ∧ r = ⟨⟨1, now, h.chn, h.key, h.action, 0, h.format, e.size⟩, e.mem.take e.osize⟩ := by
  simp only [pack, Run.bind_eq_ok, Run.access_eq_ok, Run.pure_eq_ok, exists_const]
  rw [← Encoded.accesses_iff, and_assoc, and_assoc, eq_comm]

/-- Everything that goes well before a reply is sent. -/
theorem msgboxDoHandler_eq_ok : v.msgboxDoHandler s inp stack obuf now = .ok (t, r) ↔
    headerSize ≤ inp.length ∧ ((Header.read inp).format = 1 → 0 ∈ inp.drop dataOffset) ∧
    (Header.read inp).key.toNat < 7 ∧
    ∃ ops a e, v.handler (Header.read inp).key.toNat = some ops ∧
      (ops (Header.read inp).chn).action (Header.read inp).action.toUInt8 = some a ∧
      v.func (ops (Header.read inp).chn) a (Header.read inp) (inp.drop dataOffset) stack
        (obuf.drop dataOffset) s = .ok (t, e) ∧
      pack (Header.read inp) now e = .ok r := by
  simp only [msgboxDoHandler, Run.bind_eq_ok, Run.access_eq_ok, exists_const]
  refine and_congr_right fun hlen => and_congr_right fun hdump => and_congr_right fun hkey => ?_
  cases hops : v.handler (Header.read inp).key.toNat with
  | none => simp
  | some ops =>
    cases ha : (ops (Header.read inp).chn).action (Header.read inp).action.toUInt8 with
    | none => simp [ha]
    | some a =>
      simp only [ha, Run.bind_eq_ok, Run.pure_eq_ok, Prod.mk.injEq]
      constructor
      · rintro ⟨⟨u, e⟩, hfunc, r, hpack, rfl, rfl⟩
        exact ⟨ops, a, e, rfl, ha, hfunc, hpack⟩
      · rintro ⟨ops', a', e, hops', ha', hfunc, hpack⟩
        obtain rfl := Option.some.inj hops'
        obtain rfl := Option.some.inj (ha.symm.trans ha')
        exact ⟨(t, e), hfunc, r, hpack, rfl, rfl⟩

/-- The record that the handler finds goes to the manager, and what comes back is sent. -/
theorem msgboxDoHandler_of_dataIn {ops : UInt8 → Ops σ} (hh : Header.read inp = h)
    (hd : inp.drop dataOffset = data) (hlen : headerSize ≤ inp.length)
    (hdump : h.format = 1 → 0 ∈ data) (hkey : h.key.toNat < 7)
    (hops : v.handler h.key.toNat = some ops) (ha : (ops h.chn).action h.action.toUInt8 = some a)
    (hrec : v.dataIn (h.format.toUInt8 == 1) ((ops h.chn).record a).ty h.size.toNat data
      (stack.take ((ops h.chn).record a).ty.size) = .ok rec) :
    v.msgboxDoHandler s inp stack obuf now = .ok (t, r) ↔
      ∃ out e, (ops h.chn).call a s rec = .ok (t, out) ∧
        e = dataOut v.numText v.cs (h.format.toUInt8 == 1) ((ops h.chn).record a).ty
          (out.take ((ops h.chn).record a).ty.size) (obuf.drop dataOffset) ∧
        pack h now e = .ok r := by
  subst hh hd
  rw [msgboxDoHandler_eq_ok]
  constructor
  · rintro ⟨-, -, -, ops', a', e, hops', ha', hfunc, hpack⟩
    obtain rfl := Option.some.inj (hops.symm.trans hops')
    obtain rfl := Option.some.inj (ha.symm.trans ha')
    obtain ⟨rec', out, hrec', hcall, he⟩ := func_eq_ok.mp hfunc
    obtain rfl := Except.ok.inj (hrec.symm.trans hrec')
    exact ⟨out, e, hcall, he, hpack⟩
  · rintro ⟨out, e, hcall, he, hpack⟩
    exact ⟨hlen, hdump, hkey, ops, a, e, hops, ha, func_eq_ok.mpr ⟨rec, out, hrec, hcall, he⟩,
      hpack⟩

theorem errcode_eq_zero (h : v.msgboxDoHandler s inp stack obuf now = .ok (t, r)) :
    r.header.errcode = 0 := by
  obtain ⟨-, -, -, ops, a, e, -, -, -, hpack⟩ := msgboxDoHandler_eq_ok.mp h
  obtain ⟨-, rfl⟩ := pack_eq_ok.mp hpack
  rfl

section

variable (w : v.WellFormed inp m a)
include w

theorem WellFormed.action_eq : m.action (Header.read inp).action.toUInt8 = some a :=
  Ops.action_of_value w.action w.known

theorem WellFormed.dataIn_eq :
    v.dataIn ((Header.read inp).format.toUInt8 == 1) (m.record a).ty (Header.read inp).size.toNat
        (inp.drop dataOffset) (stack.take (m.record a).ty.size) =
      .ok (v.decoded inp (m.record a).ty stack) := by
  rcases w.data with ⟨hf, hs, hl⟩ | ⟨hf, h0, hs, -⟩
  · rw [dataIn, decoded, hf, hs, if_neg (by decide), if_neg (by decide)]
    simp only [Run.bind_eq_ok, Run.assert_eq_ok, Run.access_eq_ok, Run.pure_eq_ok, exists_const]
    exact ⟨trivial, hl, trivial⟩
  · rw [dataIn, decoded, hf, hs, if_pos (by decide), if_pos rfl]
    simp only [Run.bind_eq_ok, Run.assert_eq_ok, Run.access_eq_ok, Run.pure_eq_ok, exists_const]
    exact ⟨h0, trivial, trivial⟩

theorem WellFormed.dump (hf : (Header.read inp).format = 1) : 0 ∈ inp.drop dataOffset := by
  rcases w.data with ⟨hf', -⟩ | ⟨-, h0, -⟩
  · rw [hf] at hf'
    exact absurd hf' (by decide)
  · exact h0

/-- A request in order is answered when the manager takes its record and what comes back fits. -/
theorem WellFormed.msgboxDoHandler_eq_ok :
    v.msgboxDoHandler s inp stack obuf now = .ok (t, r) ↔
      ∃ out e, m.call a s (v.decoded inp (m.record a).ty stack) = .ok (t, out) ∧
        e = dataOut v.numText v.cs ((Header.read inp).format.toUInt8 == 1) (m.record a).ty
          (out.take (m.record a).ty.size) (obuf.drop dataOffset) ∧
        pack (Header.read inp) now e = .ok r := by
  obtain ⟨ops, hops, rfl⟩ := w.handler
  exact msgboxDoHandler_of_dataIn rfl rfl w.header w.dump w.key hops w.action_eq w.dataIn_eq

/-- The record that comes back fits its package, a text of it when it leaves room. -/
theorem WellFormed.fits_iff (hnum : ∀ n, 0 ∉ v.numText n) (hobuf : obuf.length = packageMaxsize) :
    (dataOut v.numText v.cs ((Header.read inp).format.toUInt8 == 1) (m.record a).ty
        (out.take (m.record a).ty.size) (obuf.drop dataOffset)).Fits ↔
      ((Header.read inp).format = 1 →
        Room v.numText ((m.record a).ty.s2j v.cs (out.take (m.record a).ty.size))
          (obuf.drop dataOffset)) := by
  have hmem : 2008 ≤ (obuf.drop dataOffset).length := by
    rw [List.length_drop, hobuf]
    decide
  rcases w.data with ⟨hf, -⟩ | ⟨hf, -⟩
  · have hle : (out.take (m.record a).ty.size).length ≤ 428 :=
      (List.length_take_le _ _).trans (m.record a).size_le
    rw [hf, Proto.fits_iff]
    simp only [dataOut]
    rw [if_neg (by decide)]
    refine iff_of_true ⟨hle.trans (by decide), hle.trans (by decide)⟩ ?_
    intro h
    exact absurd h (by decide)
  · rw [hf]
    exact (fits_json_iff hnum hmem).trans ⟨fun h _ => h, fun h => h rfl⟩

end

/-- A module replies to a request exactly when that is in order, the manager takes what the handler
finds in it and the text of what comes back leaves room. -/
theorem robust_iff (hnum : ∀ n, 0 ∉ v.numText n) : v.Robust s inp ↔
    ∃ m a, v.WellFormed inp m a ∧ ∀ stack obuf, stack.length = 428 →
      obuf.length = packageMaxsize → v.Served s inp m a stack obuf := by
  constructor
  · intro h
    by_cases hw : ∃ m a, v.WellFormed inp m a
    · obtain ⟨m, a, w⟩ := hw
      refine ⟨m, a, w, ?_⟩
      intro stack obuf hstack hobuf
      obtain ⟨t, r, hok, -⟩ := h stack obuf 0 hstack hobuf
      obtain ⟨out, e, hcall, rfl, hpack⟩ := w.msgboxDoHandler_eq_ok.mp hok
      exact ⟨t, out, hcall, (w.fits_iff hnum hobuf).mp (pack_eq_ok.mp hpack).1⟩
    · exfalso
      obtain ⟨t, r, hok, hr⟩ := h (List.replicate 428 0) (List.replicate packageMaxsize 0) 0
        List.length_replicate List.length_replicate
      exact (hr hw).1 (errcode_eq_zero hok)
  · rintro ⟨m, a, w, hserved⟩ stack obuf now hstack hobuf
    obtain ⟨t, out, hcall, hroom⟩ := hserved stack obuf hstack hobuf
    have hfits := (w.fits_iff hnum hobuf).mpr hroom
    refine ⟨t, _, w.msgboxDoHandler_eq_ok.mpr ⟨out, _, hcall, rfl, pack_eq_ok.mpr ⟨hfits, rfl⟩⟩, ?_⟩
    intro hw
    exact absurd ⟨_, a, w⟩ hw

end Server

end

open Manager

/-- A board of one group and three encoders. -/
def sampleHal : Hal where
  vpssNum := 1
  vencNum := 3
  rgnNum := 128
  vpssMax := 32
  vencMax := 16
  chnMax := 4
  venc_le := by decide
  creates _ := true
  vpssAttr _ := true
  vencAttr _ := true
  display _ := 0

/-- The vsf module. -/
def sampleServer : Server State := ⟨decimal, plain, fun _ => none, sampleHal.handler .vsf⟩

/-- Three records, all zero. -/
def sampleSlots : Slots :=
  ⟨⟨3, fun _ => List.replicate 12 0, fun _ => List.replicate 24 0⟩, fun _ => false⟩

/-- A package for the streams. -/
def sampleRequest (action : Nat) (data : List UInt8) : List UInt8 :=
  [1, 0, 0, 0, 0, 0, 0, 0] ++ le 8 0 ++ [0, 0, 0, 0] ++ le 4 2 ++ le 4 action ++ [0, 0, 0, 0] ++
    le 4 0 ++ le 2 data.length ++ data ++ [0, 0]

namespace Server

/-- How many streams there are. -/
theorem robust_num : sampleServer.Robust (fun _ => sampleSlots) (sampleRequest 0 (le 4 0)) := by
  refine (robust_iff zero_notMem_decimal).mpr
    ⟨among .stream (sampleHal.ops .stream 0), .num, ?_, ?_⟩
  · exact ⟨by decide, by decide, ⟨_, rfl, rfl⟩, by decide, nofun,
      .inl ⟨by decide, by decide, by decide⟩⟩
  · intro stack obuf _ _
    refine ⟨fun _ => sampleSlots, le 4 3, rfl, ?_⟩
    intro hf
    exact absurd hf (by decide)

/-- An action that no handler knows stops the module. -/
theorem unknown_action_stops :
    ¬ ∀ (v : Server State) (s : State) (inp : List UInt8), (∀ n, 0 ∉ v.numText n) →
      v.Robust s inp := by
  intro h
  obtain ⟨t, r, hok, -⟩ := h sampleServer (fun _ => sampleSlots) (sampleRequest 9 (le 4 0))
    zero_notMem_decimal (List.replicate 428 0) (List.replicate packageMaxsize 0) 0
    List.length_replicate List.length_replicate
  obtain ⟨-, -, -, ops, a, e, hops, ha, -⟩ := msgboxDoHandler_eq_ok.mp hok
  have hkey : (Header.read (sampleRequest 9 (le 4 0))).key.toNat = 2 := by decide
  rw [hkey] at hops
  obtain rfl := Option.some.inj hops
  exact Option.some_ne_none a (ha.symm.trans rfl)

end Server

end Freak.Proto
