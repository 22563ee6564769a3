import Freak.Lib.Bus
import Freak.Lib.JsonRead
import Freak.Lib.Printf
import Freak.Media.Delivery
import Freak.Vsf.Callback
import Freak.Web.Handshake

/-! The FIFOs of `media.c` between the modules: who meets whom at a name, and what is read of what
was written. -/
namespace Freak.Media.Mfifo

open Bytes Lts
open Json (decimal digits)
open Freak.Vsf (Board Slot Channel Kind)
open Freak.Rtsp (Chan scanInt scanPath isDigit isSpace ofDigits)
open Freak.Web.Handshake (scanFlv)

/-- The two prefixes of `mfifo_init`. -/
def namePrefix : Kind → List UInt8
  | .stream => ascii "media-video-stream"
  | .frame => ascii "media-video-frame"

/-- What its `snprintf` prints. -/
def nameText (c : Channel) : List UInt8 :=
  namePrefix c.type ++ 45 :: (decimal c.chn ++ 45 :: decimal c.subchn)

/-- What `ufifo_open` is told, of an array of 64 bytes that held `stack`. -/
def mfifoName (stack : List UInt8) (c : Channel) : List UInt8 :=
  cstr (snprintf stack 64 (nameText c))

/-- The numbers of a channel are of type `int`. -/
def Ints (c : Channel) : Prop :=
  (-2 ^ 31 ≤ c.chn ∧ c.chn < 2 ^ 31) ∧ (-2 ^ 31 ≤ c.subchn ∧ c.subchn < 2 ^ 31)

section

variable {stack stack' : List UInt8} {c d : Channel} {n : Int} {r : List UInt8}

theorem foldl_ofDigits {ds : List UInt8} (h : ∀ d ∈ ds, Json.IsDigit d) (m : Nat) :
    ds.foldl (fun (n : Int) d => 10 * n + (d.toNat - 48)) m =
      (ds.foldl (fun v d => 10 * v + (d.toNat - 48)) m : Nat) := by
  induction ds generalizing m with
  | nil => rfl
  | cons d ds ih =>
    have hd : 48 ≤ d.toNat := UInt8.le_iff_toNat_le.mp (h d List.mem_cons_self).1
    rw [List.foldl_cons, List.foldl_cons, ← ih fun e he => h e (List.mem_cons_of_mem d he)]
    congr 1
    omega

theorem ofDigits_digits (k : Nat) : ofDigits (digits (k + 1) k) = k := by
  have hd : ∀ d ∈ digits (k + 1) k, Json.IsDigit d := Json.isDigit_of_mem_digits
  have h := foldl_ofDigits hd 0
  rw [Json.foldl_digits k.lt_succ_self] at h
  exact h

theorem digits_ne_nil (k fuel : Nat) : digits (fuel + 1) k ≠ [] := by
  rw [digits]
  split_ifs <;> simp

theorem isDigit_of_isDigit {b : UInt8} (h : Json.IsDigit b) : isDigit b = true := by
  simpa [isDigit, Json.IsDigit] using h

/-- Digits are read up to what is none. -/
theorem scan_digits {ds : List UInt8} (hd : ∀ d ∈ ds, Json.IsDigit d)
    (hr : ∀ b ∈ r.head?, isDigit b = false) :
    (ds ++ r).takeWhile isDigit = ds ∧ (ds ++ r).dropWhile isDigit = r := by
  have hds : ∀ d ∈ ds, isDigit d = true := fun d h => isDigit_of_isDigit (hd d h)
  rw [List.takeWhile_append_of_pos hds, List.dropWhile_append_of_pos hds]
  cases r with
  | nil => simp
  | cons b r =>
    have hb := hr b rfl
    simp [hb]

theorem scanInt_decimal (hr : ∀ b ∈ r.head?, isDigit b = false) :
    scanInt (decimal n ++ r) = some (n, r) := by
  obtain ⟨ds, hds⟩ : ∃ ds, digits (n.natAbs + 1) n.natAbs = ds := ⟨_, rfl⟩
  have hd : ∀ d ∈ ds, Json.IsDigit d := by
    rw [← hds]
    exact fun d h => Json.isDigit_of_mem_digits d h
  have hne : ds ≠ [] := hds ▸ digits_ne_nil _ _
  have hval : ofDigits ds = n.natAbs := hds ▸ ofDigits_digits n.natAbs
  obtain ⟨htake, hdrop⟩ := scan_digits hd hr
  rw [decimal, hds]
  split_ifs with hn
  · have hspace : (45 :: ds ++ r).dropWhile isSpace = 45 :: (ds ++ r) := by
      simp [isSpace]
    rw [scanInt, hspace]
    simp only [List.head?_cons, List.tail_cons, true_or, if_true, htake, hdrop,
      List.isEmpty_eq_false_iff.mpr hne, hval, Bool.false_eq_true, if_false, Option.some.injEq,
      Prod.mk.injEq, and_true]
    omega
  · obtain ⟨d, ds', rfl⟩ := List.exists_cons_of_ne_nil hne
    have hfirst := hd d List.mem_cons_self
    have hspace : (d :: ds' ++ r).dropWhile isSpace = d :: ds' ++ r := by
      have h32 : d ≠ 32 := hfirst.ne (.inl (by decide))
      have hlt : ¬ d ≤ 13 := fun h => absurd (UInt8.le_trans hfirst.1 h) (by decide)
      simp [isSpace, h32, hlt]
    have h45 : d ≠ 45 := hfirst.ne (.inl (by decide))
    have h43 : d ≠ 43 := hfirst.ne (.inl (by decide))
    rw [scanInt, hspace]
    have hhead : ¬ (d :: ds' ++ r).head? = some 45 ∧ ¬ (d :: ds' ++ r).head? = some 43 := by
      simp [h45, h43]
    simp only [hhead.1, hhead.2, or_self, if_false, htake, hdrop,
      List.isEmpty_eq_false_iff.mpr hne, hval, Bool.false_eq_true, Option.some.injEq,
      Prod.mk.injEq, and_true]
    omega

/-- The path of a channel is read as this channel. -/
theorem scanPath_decimal {m : Int} (hr : ∀ b ∈ r.head?, isDigit b = false) :
    scanPath (47 :: (decimal n ++ 45 :: (decimal m ++ r))) = some ⟨n, m⟩ := by
  have hdash : ∀ b ∈ (45 :: (decimal m ++ r)).head?, isDigit b = false := by
    rintro b ⟨⟩
    rfl
  rw [scanPath, scanInt_decimal hdash]
  simp only [Option.bind_eq_bind, Option.bind_some, scanInt_decimal hr]

theorem zero_notMem_nameText : (0 : UInt8) ∉ nameText c := by
  have hprefix : (0 : UInt8) ∉ namePrefix c.type := by
    cases c.type <;> decide
  have hdash : (0 : UInt8) ≠ 45 := by decide
  simp only [nameText, List.mem_append, List.mem_cons, hprefix, Json.zero_notMem_decimal, hdash,
    or_self, not_false_eq_true]

theorem length_nameText (h : Ints c) : (nameText c).length ≤ 42 := by
  have hprefix : (namePrefix c.type).length ≤ 18 := by
    cases c.type <;> decide
  have hchn : (decimal c.chn).length ≤ 11 := Json.length_decimal (k := 10) (by decide) (by
    have := h.1
    omega)
  have hsubchn : (decimal c.subchn).length ≤ 11 := Json.length_decimal (k := 10) (by decide) (by
    have := h.2
    omega)
  simp only [nameText, List.length_append, List.length_cons]
  omega

/-- The array is long enough for every name. -/
theorem mfifoName_eq (h : Ints c) : mfifoName stack c = nameText c := by
  have hlen := length_nameText h
  rw [mfifoName, cstr_snprintf zero_notMem_nameText (by decide)]
  exact List.take_of_length_le (by omega)

theorem nameText_inj (h : nameText c = nameText d) : c = d := by
  obtain ⟨type, chn, subchn⟩ := c
  obtain ⟨type', chn', subchn'⟩ := d
  obtain rfl : type = type' := by
    by_contra hne
    have hletter : (nameText ⟨type, chn, subchn⟩)[12]? = (nameText ⟨type', chn', subchn'⟩)[12]? :=
      congrArg (fun name => name[12]?) h
    cases type <;> cases type' <;> simp_all [nameText, namePrefix, ascii]
  have hrest := List.append_cancel_left h
  have hdash : ∀ m : Int, ∀ b ∈ (45 :: decimal m).head?, isDigit b = false := by
    rintro m b ⟨⟩
    rfl
  have hchn := congrArg scanInt (List.cons.inj hrest).2
  rw [scanInt_decimal (hdash subchn), scanInt_decimal (hdash subchn')] at hchn
  obtain ⟨rfl, htail⟩ := Prod.mk.inj (Option.some.inj hchn)
  have hnone : ∀ b ∈ ([] : List UInt8).head?, isDigit b = false := by
    rintro b ⟨⟩
  have hsubchn := congrArg (fun s => scanInt (s ++ [])) (List.cons.inj htail).2
  simp only [scanInt_decimal hnone] at hsubchn
  obtain ⟨rfl, -⟩ := Prod.mk.inj (Option.some.inj hsubchn)
  rfl

end

/-- Who opens a FIFO: a manager of `vsf` for one of its slots, an RTSP session or a web media for
its path, an algorithm for a frame channel; the number tells several apart. -/
inductive Party
  | slot (x : Slot) (k : Nat)
  | rtsp (path : List UInt8) (k : Nat)
  | web (path : List UInt8) (k : Nat)
  | alg (chn subchn : Int) (k : Nat)
deriving DecidableEq

/-- The `mfifo_init_t` of a party; a path that names no stream opens nothing. -/
def Party.init (b : Board) : Party → Option Channel
  | .slot x _ => some (b.channelOf x)
  | .rtsp path _ => (scanPath path).map fun c => ⟨.stream, c.chn, c.subchn⟩
  | .web path _ => (scanFlv path).map fun c => ⟨.stream, c.chn, c.subchn⟩
  | .alg chn subchn _ => some ⟨.frame, chn, subchn⟩

/-- What `mfifo_create` and `mfifo_attach` open it by, whatever the stack holds. -/
def Party.name (b : Board) (stack : Party → List UInt8) (p : Party) : Option (List UInt8) :=
  (p.init b).map (mfifoName (stack p))

/-- The buffers that the parties read into; the managers only put. -/
def Party.bufsize : Party → Nat
  | .slot _ _ => 0
  | .rtsp _ _ | .web _ _ => sizeofData
  | .alg _ _ _ => 640 * 640 * 3 + 1024

/-- What a producer hands over, with the memory that its data is in. -/
inductive Item (abi : Abi)
  | stream (s : VideoStream abi) (mem : Nat → UInt8)
  | frame (f : VideoFrame) (phys : Nat → UInt8)

/-- A call of `put`: the data, the time, and the bytes before the ring's end. -/
structure Put (abi : Abi) where
  item : Item abi
  ts : Nat
  n1 : Nat

/-- What a call of `get` fills in and returns. -/
structure Got where
  buf : List UInt8
  size : Nat

variable {abi : Abi}

def Item.type : Item abi → Kind
  | .stream _ _ => .stream
  | .frame _ _ => .frame

/-- The `recput` hook for the type. -/
def Put.recput (q : Put abi) : PutCursor × Nat :=
  match q.item with
  | .stream s mem => videoStreamRecput mem q.ts q.n1 s
  | .frame f phys => videoFrameRecput abi phys q.ts q.n1 f

/-- What the hook stored in the ring. -/
def Put.stored (q : Put abi) : List UInt8 := q.recput.1.p1 ++ q.recput.1.p2

/-- The record of a call. -/
def Put.record (q : Put abi) : List UInt8 :=
  match q.item with
  | .stream s mem => s.record mem q.ts
  | .frame f phys => f.record abi phys q.ts

/-- Sizes and offsets are valid, and the record's size fits its field. -/
def Item.Fits : Item abi → Prop
  | .stream s _ => s.OffsetsValid ∧ s.fullSize < 2 ^ 32
  | .frame f _ => f.u64HeaderVirAddr0 ≤ f.u64ExtVirAddr0 ∧ f.fullSize < 2 ^ 32

inductive Action (abi : Abi)
  | attach (p : Party)
  | put (x : Slot) (k : Nat) (q : Put abi)
  | get (p : Party) (g : Got)

/-- The hook `recget` into a buffer of `n` bytes, wherever in the ring the record lies, and whatever
the buffer held. -/
def Reads (n : Nat) (R : List UInt8) (g : Got) : Prop :=
  ∃ n1 p1 p2 arg, arg.length = n ∧ InRing R n1 p1 p2 ∧
    recget p1 n1 p2 arg = some (g.buf, g.size)

/-- An action, and what it is to the FIFOs. -/
inductive Shows : Action abi → Bus.Action Party (List UInt8) → Prop
  | attach {p : Party} : Shows (.attach p) (.attach p)
  | put {x : Slot} {k : Nat} {q : Put abi} (htype : q.item.type = x.kind) :
      Shows (.put x k q) (.put (.slot x k) q.stored)
  | get {p : Party} {R : List UInt8} {g : Got} (hg : Reads p.bufsize R g) :
      Shows (.get p g) (.get p R)

/-- The modules with the FIFOs of a library: every party opens its own, the managers put. -/
def Step {σ : Type} (lib : σ → Bus.Action Party (List UInt8) → σ → Prop) (s : σ) (a : Action abi)
    (t : σ) : Prop :=
  ∃ a', Shows a a' ∧ lib s a' t

/-- What the managers have put for a channel. -/
def puts (b : Board) (c : Channel) (as : List (Action abi)) : List (Put abi) :=
  as.filterMap fun
    | .put x _ q => if b.channelOf x = c then some q else none
    | _ => none

/-- What they have put for the channel that a party has named. -/
def offered (b : Board) (p : Party) (as : List (Action abi)) : List (Put abi) :=
  (p.init b).elim [] fun c => puts b c as

/-- What a party has got. -/
def gets (p : Party) (as : List (Action abi)) : List Got :=
  as.filterMap fun
    | .get p' g => if p' = p then some g else none
    | _ => none

/-- A party has in its buffer of `n` bytes what was put: the record, byte for byte, and of a stream
both senders hand over the valid bytes, pack by pack. -/
structure Delivered (n : Nat) (g : Got) (q : Put abi) : Prop where
  room (h : q.item.Fits) : g.buf.length = n ∧ g.size ≤ n
  whole (h : q.item.Fits) : g.size = q.record.length ∧ g.buf.take g.size = q.record
  senders (s : VideoStream abi) (mem : Nat → UInt8) (hs : q.item = .stream s mem)
    (h : q.item.Fits) (ho : ∀ p ∈ s.pstPack, p.u32Offset = 0 ∨ p.u32Offset = p.u32Len) :
    Delivers mem s g.buf g.size (rtpSendData abi g.buf) ∧
      ∀ pts, Delivers mem s g.buf g.size (flvSendProc abi g.buf pts).1

section

variable {b : Board} {stack : Party → List UInt8} {n : Nat} {as : List (Action abi)}
  {as' : List (Bus.Action Party (List UInt8))} {p : Party} {c : Channel} {g : Got} {q : Put abi}

theorem stored_eq (h : q.item.Fits) : q.stored = q.record := by
  obtain ⟨item, ts, n1⟩ := q
  cases item with
  | stream s mem =>
    obtain ⟨-, h1, h2⟩ := VideoStream.holds_recput mem ts n1 s
    simp only [Put.stored, Put.recput, Put.record, h1, h2, List.take_append_drop]
  | frame f phys =>
    obtain ⟨-, h1, h2⟩ := @VideoFrame.holds_recput abi f phys ts n1 h.1 h.2
    simp only [Put.stored, Put.recput, Put.record, h1, h2, List.take_append_drop]

theorem whole_of_reads (h : q.item.Fits) (hg : Reads n q.stored g) :
    ∃ rest, g.buf = q.record ++ rest ∧ g.size = q.record.length ∧ g.buf.length = n := by
  rw [stored_eq h] at hg
  obtain ⟨n1, p1, p2, arg, harg, hring, hget⟩ := hg
  have hround : ∃ tag put, RoundTrips q.record q.record.length tag n1 put := by
    obtain ⟨item, ts, n⟩ := q
    cases item with
    | stream s mem =>
      have hround := VideoStream.roundTrips h.1 h.2 mem ts n1
      rw [← hround.length] at hround
      exact ⟨_, _, hround⟩
    | frame f phys =>
      have hround := @VideoFrame.roundTrips abi f h.1 h.2 phys ts n1
      rw [← hround.length] at hround
      exact ⟨_, _, hround⟩
  obtain ⟨tag, put, hround⟩ := hround
  rw [hround.recget hring arg] at hget
  split_ifs at hget with hroom
  obtain ⟨hbuf, hsize⟩ := Prod.mk.inj (Option.some.inj hget)
  refine ⟨_, hbuf.symm, hsize.symm, ?_⟩
  rw [← hbuf, List.length_append, List.length_drop, ← harg]
  omega

theorem delivered_of_reads (hg : Reads n q.stored g) : Delivered n g q where
  room h := by
    obtain ⟨rest, hbuf, hsize, hlen⟩ := whole_of_reads h hg
    refine ⟨hlen, ?_⟩
    rw [hsize, ← hlen, hbuf, List.length_append]
    exact Nat.le_add_right _ _
  whole h := by
    obtain ⟨rest, hbuf, hsize, -⟩ := whole_of_reads h hg
    exact ⟨hsize, by rw [hbuf, hsize, List.take_left]⟩
  senders s mem hs h ho := by
    obtain ⟨rest, hbuf, hsize, -⟩ := whole_of_reads h hg
    obtain ⟨item, ts, n1⟩ := q
    obtain rfl : item = .stream s mem := hs
    obtain ⟨hv, hlt⟩ := h
    obtain ⟨hbytes, hin⟩ := recvPlaces_record hv mem ts rest (VideoStream.sizes hv hlt ts).1 hlt
    have hvalid : s.pstPack.map (VideoStream.payload mem) =
        s.pstPack.map (VideoStreamPack.valid mem) :=
      List.map_congr_left fun p hp =>
        (VideoStreamPack.payload_eq_valid_iff (hv p hp)).mpr (ho p hp) mem
    have hrecord : (Put.record ⟨.stream s mem, ts, n1⟩).length = s.fullSize :=
      VideoStream.length_record mem ts hv
    have hrtp : Delivers mem s g.buf g.size (rtpSendData abi g.buf) := by
      rw [delivers_iff, places_rtpSendData, hbuf, hsize, hrecord]
      exact ⟨hbytes.trans hvalid, hin⟩
    exact ⟨hrtp, fun pts => delivers_flvSendProc pts hrtp⟩

theorem name_slot {x : Slot} {k : Nat} {st : List UInt8} (hx : Ints (b.channelOf x))
    (hc : Ints c) :
    Party.name b stack (.slot x k) = some (mfifoName st c) ↔ b.channelOf x = c := by
  have hname : Party.name b stack (.slot x k) = some (nameText (b.channelOf x)) :=
    congrArg some (mfifoName_eq hx)
  rw [hname, mfifoName_eq hc, Option.some.injEq]
  exact ⟨nameText_inj, congrArg nameText⟩

/-- Under its name a FIFO is given what the managers put for its channel. -/
theorem puts_shown (h : List.Forall₂ Shows as as') (hslots : ∀ x, Ints (b.channelOf x))
    (hc : Ints c) (st : List UInt8) :
    Bus.puts (Party.name b stack) (mfifoName st c) as' = (puts b c as).map Put.stored := by
  induction h with
  | nil => rfl
  | @cons a a' as as' ha _ ih =>
    rw [Bus.puts, puts] at ih ⊢
    cases ha with
    | attach => exact ih
    | get => exact ih
    | @put x k q htype =>
      rw [List.filterMap_cons, List.filterMap_cons, ih]
      have hname : Party.name b stack (.slot x k) = some (mfifoName st c) ↔ b.channelOf x = c :=
        name_slot (hslots x) hc
      by_cases hx : b.channelOf x = c
      · simp only [hname, hx, if_true, List.map_cons]
      · simp only [hname, hx, if_false]

theorem type_shown (h : List.Forall₂ Shows as as') : ∀ q ∈ puts b c as, q.item.type = c.type := by
  induction h with
  | nil =>
    rintro q ⟨⟩
  | @cons a a' as as' ha _ ih =>
    rw [puts] at ih ⊢
    cases ha with
    | attach => exact ih
    | get => exact ih
    | @put x k q htype =>
      rw [List.filterMap_cons]
      by_cases hx : b.channelOf x = c
      · simp only [hx, if_true, List.forall_mem_cons]
        exact ⟨htype.trans (congrArg Channel.type hx), ih⟩
      · simp only [hx, if_false]
        exact ih

theorem gets_shown (h : List.Forall₂ Shows as as') :
    List.Forall₂ (Reads p.bufsize) (Bus.gets p as') (gets p as) := by
  induction h with
  | nil => exact .nil
  | @cons a a' as as' ha _ ih =>
    rw [Bus.gets, gets] at ih ⊢
    cases ha with
    | attach => exact ih
    | put => exact ih
    | @get p' R g hg =>
      rw [List.filterMap_cons, List.filterMap_cons]
      by_cases hp' : p' = p
      · subst hp'
        simp only [if_true]
        exact .cons hg ih
      · simp only [hp', if_false]
        exact ih

/-- However the calls of all modules are interleaved, every party gets, in their order and none of
them twice, items of its type that the managers of `vsf` have put for the channel it has named, each
whole and inside its buffer, if the library keeps what is put under a name in order. -/
theorem party_gets {σ : Type} {lib : σ → Bus.Action Party (List UInt8) → σ → Prop} {s₀ t : σ}
    (hlib : Bus.InOrder (Party.name b stack) lib s₀) (hslots : ∀ x, Ints (b.channelOf x))
    (hp : ∀ c, p.init b = some c → Ints c) (hrun : MTr (Step lib) s₀ as t) :
    ∃ qs, List.Forall₂ (Delivered p.bufsize) (gets p as) qs ∧ qs.Sublist (offered b p as) ∧
      ∀ q ∈ qs, ∃ c, p.init b = some c ∧ q.item.type = c.type := by
  obtain ⟨as', hshown, hbus⟩ := mtr_shown (fun _ _ _ h => h) hrun
  have hreads := gets_shown (p := p) hshown
  rcases hlib as' t hbus p with hnil | ⟨n, hn, hsub⟩
  · rw [hnil, List.forall₂_nil_left_iff] at hreads
    rw [hreads]
    exact ⟨[], .nil, List.nil_sublist _, by simp⟩
  · obtain ⟨c, hc, rfl⟩ := Option.map_eq_some_iff.mp hn
    rw [puts_shown hshown hslots (hp c hc)] at hsub
    obtain ⟨qs, hqs, heq⟩ := List.sublist_map_iff.mp hsub
    rw [heq, List.forall₂_map_left_iff] at hreads
    refine ⟨qs, hreads.flip.imp fun _ _ => delivered_of_reads, ?_, fun q hq => ⟨c, hc, ?_⟩⟩
    · rwa [offered, hc]
    · exact type_shown hshown q (hqs.subset hq)

end

/-- Two stream slots, of the sub-channels 0 and 1. -/
def sampleBoard : Board where
  caps x := ⟨0, if x.id = 1 then 1 else 0⟩
  cfgIds x := x.id
  vencNum := 2
  vpssNum := 1
  payload _ := .h264

/-- The second slot, and an RTSP session for its path. -/
def sampleSlot : Slot := ⟨.stream, 1⟩

def samplePath : List UInt8 := ascii "/0-1/video"

def samplePut : Put .lp64 := ⟨.stream plainStream fun a => UInt8.ofNat a, 7, 50⟩

theorem sample_reads : ∃ g, Reads sizeofData samplePut.stored g := by
  have hv : plainStream.OffsetsValid := by decide
  have hlt : plainStream.fullSize < 2 ^ 32 := by decide
  have hring := VideoStream.inRing_recput (fun a => UInt8.ofNat a) 7 50 plainStream [] []
  have hround := VideoStream.roundTrips hv hlt (fun a => UInt8.ofNat a) 7 50
  obtain ⟨arg, harg⟩ : ∃ arg : List UInt8, arg.length = sizeofData :=
    ⟨List.replicate sizeofData 0, List.length_replicate⟩
  have hroom : plainStream.fullSize ≤ arg.length := by
    rw [harg]
    decide
  have hstored : samplePut.stored = plainStream.record (fun a => UInt8.ofNat a) 7 :=
    stored_eq ⟨hv, hlt⟩
  exact ⟨⟨_, _⟩, 50, _, _, arg, harg, hstored ▸ hring,
    (hround.recget hring arg).trans (if_pos hroom)⟩

theorem ints_sampleBoard (x : Slot) : Ints (sampleBoard.channelOf x) := by
  by_cases hx : x.id = 1 <;> simp [Ints, Board.channelOf, sampleBoard, hx]

theorem init_samplePath : (Party.rtsp samplePath 0).init sampleBoard = some ⟨.stream, 0, 1⟩ := by
  have hscan : scanPath samplePath = some ⟨0, 1⟩ := by decide
  rw [Party.init, hscan]
  rfl

/-- FIFOs that keep all that was put, and are named as on this board. -/
abbrev Fifos := Bus.State Party Unit (List UInt8) (List UInt8)

def sampleName : Party → Option (List UInt8) := Party.name sampleBoard fun _ => []

/-- The session gets the picture. -/
theorem party_gets_path : ∃ g t,
    MTr (Step (Bus.Step sampleName)) (Bus.start : Fifos)
      [.attach (.slot sampleSlot 0), .attach (.rtsp samplePath 0), .put sampleSlot 0 samplePut,
        .get (.rtsp samplePath 0) g] t ∧
    ∃ qs, List.Forall₂ (Delivered sizeofData) [g] qs ∧ qs.Sublist [samplePut] := by
  obtain ⟨g, hreads⟩ := sample_reads
  have hslot : sampleName (.slot sampleSlot 0) =
      some (nameText ⟨.stream, 0, 1⟩) := congrArg some (mfifoName_eq (ints_sampleBoard sampleSlot))
  have hpath : sampleName (.rtsp samplePath 0) = some (nameText ⟨.stream, 0, 1⟩) := by
    rw [sampleName, Party.name, init_samplePath]
    exact congrArg some (mfifoName_eq (ints_sampleBoard sampleSlot))
  obtain ⟨t, hrun⟩ : ∃ t, MTr (Step (Bus.Step sampleName)) (Bus.start : Fifos)
      [.attach (.slot sampleSlot 0), .attach (.rtsp samplePath 0), .put sampleSlot 0 samplePut,
        .get (.rtsp samplePath 0) g] t :=
    ⟨_, .stepL ⟨_, .attach, .attach (f := ()) (k := 0) rfl hslot (.inl rfl)⟩ <|
      .stepL ⟨_, .attach, .attach (f := ()) (k := 0) (by simp [Bus.start]) hpath
        (.inr (by simp))⟩ <|
      .stepL ⟨_, .put rfl, .put (f := ()) (by simp)⟩ <|
      .stepL ⟨_, .get hreads, .get (f := ()) (k := 0) (by simp) (by simp)
        (by simp [Bus.start])⟩ .refl⟩
  have hints : ∀ c, (Party.rtsp samplePath 0).init sampleBoard = some c → Ints c := by
    intro c hc
    obtain rfl := Option.some.inj (init_samplePath.symm.trans hc)
    exact ints_sampleBoard sampleSlot
  obtain ⟨qs, hqs, hsub, -⟩ := party_gets Bus.inOrder ints_sampleBoard hints hrun
  have hgets : gets (.rtsp samplePath 0) [.attach (.slot sampleSlot 0),
      .attach (.rtsp samplePath 0), .put sampleSlot 0 samplePut, .get (.rtsp samplePath 0) g] =
        [g] := by
    simp [gets]
  rw [hgets] at hqs
  rw [offered, init_samplePath] at hsub
  exact ⟨g, t, hrun, qs, hqs, hsub⟩

end Freak.Media.Mfifo
