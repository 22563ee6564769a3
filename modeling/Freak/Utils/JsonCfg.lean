import Freak.Lib.JsonRead

/-! The settings in a file: `json_cfg_load` and `json_cfg_save`, with every call that may fail. -/
namespace Freak.Utils.JsonCfg

open Bytes

def enoent : Int := 2
def eio : Int := 5
def enomem : Int := 12

/-- What the two functions acquire: the stream, the memory of the text, and the object. -/
inductive Resource
  | fp
  | data
  | json
  deriving DecidableEq

/-- The file, if there is one, and how many of each resource are held. -/
structure World where
  file : Option (List UInt8)
  held : Resource → Int

namespace World

def acquire (w : World) (r : Resource) : World :=
  { w with held := Function.update w.held r (w.held r + 1) }

def release (w : World) (r : Resource) : World :=
  { w with held := Function.update w.held r (w.held r - 1) }

/-- `free`, which does nothing for `NULL`. -/
def free (w : World) : Option (List UInt8) → World
  | none => w
  | some _ => w.release .data

/-- `fopen(filename, "wb")`. -/
def truncate (w : World) : World := { w with file := some [] }.acquire .fp

/-- Of the text, as many bytes as the file takes. -/
def fprintf (w : World) (written : Nat) (data : List UInt8) : World :=
  { w with file := w.file.map (· ++ data.take written) }

/-- The label `end1` of both functions. -/
def end1 (w : World) : World := w.release .fp

/-- The label `end2` of both functions. -/
def end2 (w : World) (data : Option (List UInt8)) : World := (w.free data).end1

@[simp] theorem release_acquire (w : World) (r : Resource) : (w.acquire r).release r = w := by
  simp [acquire, release]

@[simp] theorem acquire_file (w : World) (r : Resource) : (w.acquire r).file = w.file := rfl

@[simp] theorem release_file (w : World) (r : Resource) : (w.release r).file = w.file := rfl

@[simp] theorem acquire_held (w : World) (r q : Resource) :
    (w.acquire r).held q = w.held q + if q = r then 1 else 0 := by
  by_cases h : q = r <;> simp [acquire, Function.update, h]

@[simp] theorem release_held (w : World) (r q : Resource) :
    (w.release r).held q = w.held q - if q = r then 1 else 0 := by
  by_cases h : q = r <;> simp [release, Function.update, h]

@[simp] theorem fprintf_held (w : World) (n : Nat) (data : List UInt8) :
    (w.fprintf n data).held = w.held := rfl

end World

/-- cJSON's printer and parser, and the two directions of a record's callback. -/
structure Codec (C : Type) where
  print : Json → List UInt8
  parse : List UInt8 → Option Json
  s2j : Json → C → Json
  j2s : Json → C → C

/-- Which calls of `json_cfg_load` succeed; the parser may be short of memory too. -/
structure LoadCalls where
  fopen : Bool
  ftell : Bool
  calloc : Bool
  fread : Bool
  parse : Bool

/-- Which calls of `json_cfg_save` succeed, and how much of the text the file takes. -/
structure SaveCalls where
  fopen : Bool
  create : Bool
  print : Bool
  written : Nat

section

variable {C : Type} (codec : Codec C)

def jsonCfgLoad (calls : LoadCalls) (cfg : C) (w : World) : Int × C × World :=
  match if calls.fopen then w.file else none with
  | none => (-enoent, cfg, w)
  | some content =>
    let w := w.acquire .fp
    let len : Int := if calls.ftell then content.length else -1
    if len ≤ 0 then (-eio, cfg, w.end1)
    else if ¬ calls.calloc then (-enomem, cfg, w.end1)
    else
      let w := w.acquire .data
      if ¬ calls.fread then (-eio, cfg, w.end2 (some content))
      else
        match if calls.parse then codec.parse (cstr content) else none with
        | none => (-enomem, cfg, w.end2 (some content))
        | some json =>
          let w := w.acquire .json
          (0, codec.j2s json cfg, (w.release .json).end2 (some content))

def jsonCfgSave (calls : SaveCalls) (cfg : C) (w : World) : Int × World :=
  if ¬ calls.fopen then (-enoent, w)
  else
    let w := w.truncate
    if ¬ calls.create then (-enomem, w.end1)
    else
      let w := w.acquire .json
      let json := codec.s2j (.obj []) cfg
      match if calls.print then some (codec.print json) else none with
      -- the label below frees the text only
      | none => (-enomem, w.end2 none)
      | some data =>
        let w := (w.acquire .data).fprintf calls.written data
        (0, (w.release .json).end2 (some data))

/-- The text of a configuration. -/
def printed (cfg : C) : List UInt8 := codec.print (codec.s2j (.obj []) cfg)

/-- What `json_cfg_load` makes of a configuration when none of its calls fails. -/
def reading (cfg : C) (w : World) : Int × C :=
  match jsonCfgLoad codec ⟨true, true, true, true, true⟩ cfg w with
  | (ret, cfg, _) => (ret, cfg)

/-- A content that `json_cfg_load` can read. -/
def Readable (w : World) : Prop :=
  ∃ content, w.file = some content ∧ content ≠ [] ∧ (codec.parse (cstr content)).isSome

/-- No call fails, and the file takes the whole text. -/
def Completes (calls : SaveCalls) (cfg : C) : Prop :=
  calls.fopen ∧ calls.create ∧ calls.print ∧ (printed codec cfg).length ≤ calls.written

/-- A call that does not complete fails and leaves what was read before to be read; one that
succeeds leaves the configuration; and no call leaves a resource behind. -/
structure Atomic (calls : SaveCalls) (cfg : C) (w : World) : Prop where
  kept : ¬ Completes codec calls cfg → (jsonCfgSave codec calls cfg w).1 < 0 ∧
    ∀ cfg', (reading codec cfg' w).1 = 0 →
      reading codec cfg' (jsonCfgSave codec calls cfg w).2 = reading codec cfg' w
  saved : (jsonCfgSave codec calls cfg w).1 = 0 →
    (jsonCfgSave codec calls cfg w).2.file = some (printed codec cfg)
  released : ∀ r, (jsonCfgSave codec calls cfg w).2.held r = w.held r

end

variable {C : Type} {codec : Codec C} {calls : SaveCalls} {cfg : C} {w : World}

/-- Loading fails and changes nothing, or takes the configuration from the file; on every path it
releases what it acquires. -/
theorem jsonCfgLoad_cases (calls : LoadCalls) :
    (∃ ret < 0, jsonCfgLoad codec calls cfg w = (ret, cfg, w)) ∨
      ∃ content json, w.file = some content ∧ content ≠ [] ∧
        codec.parse (cstr content) = some json ∧
        jsonCfgLoad codec calls cfg w = (0, codec.j2s json cfg, w) := by
  rw [jsonCfgLoad]
  split
  · exact .inl ⟨-enoent, by decide, rfl⟩
  · next content hopen =>
    have hfile : w.file = some content := by
      split_ifs at hopen
      exact hopen
    generalize hftell : (if calls.ftell = true then (content.length : Int) else -1) = len
    by_cases hlen : len ≤ 0
    · exact .inl ⟨-eio, by decide, by simp [hlen, World.end1]⟩
    by_cases hcalloc : calls.calloc = true
    swap
    · exact .inl ⟨-enomem, by decide, by simp [hlen, hcalloc, World.end1]⟩
    by_cases hfread : calls.fread = true
    swap
    · exact .inl ⟨-eio, by decide, by
        simp [hlen, hcalloc, hfread, World.end2, World.free, World.end1]⟩
    simp only [hlen, hcalloc, hfread, if_false, not_true_eq_false]
    split
    · exact .inl ⟨-enomem, by decide, by simp [World.end2, World.free, World.end1]⟩
    · next json hparse =>
      refine .inr ⟨content, json, hfile, ?_, ?_, ?_⟩
      · rintro rfl
        apply hlen
        rw [← hftell]
        split_ifs <;> decide
      · split_ifs at hparse
        exact hparse
      · simp [World.end2, World.free, World.end1]

/-- When no call fails, a content that can be read is read. -/
theorem reading_of_parse {content : List UInt8} {json : Json} (hfile : w.file = some content)
    (hne : content ≠ []) (hparse : codec.parse (cstr content) = some json) :
    reading codec cfg w = (0, codec.j2s json cfg) := by
  simp [reading, jsonCfgLoad, hfile, hne, hparse]

theorem reading_eq_zero_iff : (reading codec cfg w).1 = 0 ↔ Readable codec w := by
  constructor
  · intro h
    rcases @jsonCfgLoad_cases C codec cfg w ⟨true, true, true, true, true⟩ with
      ⟨ret, hneg, hload⟩ | ⟨content, json, hfile, hne, hparse, -⟩
    · rw [reading, hload] at h
      exact absurd h hneg.ne
    · exact ⟨content, hfile, hne, by simp [hparse]⟩
  · rintro ⟨content, hfile, hne, hsome⟩
    obtain ⟨json, hparse⟩ := Option.isSome_iff_exists.mp hsome
    rw [reading_of_parse hfile hne hparse]

/-- An empty file cannot be read. -/
theorem not_readable_of_empty (h : w.file = some []) : ¬ Readable codec w := by
  rintro ⟨content, hfile, hne, -⟩
  rw [h, Option.some.injEq] at hfile
  exact hne hfile.symm

/-! What each way through `json_cfg_save` leaves. -/
theorem jsonCfgSave_of_not_fopen (h : calls.fopen = false) :
    jsonCfgSave codec calls cfg w = (-enoent, w) := by
  simp [jsonCfgSave, h]

/-- Without an object the file is left empty. -/
theorem jsonCfgSave_of_not_create (hf : calls.fopen = true) (h : calls.create = false) :
    jsonCfgSave codec calls cfg w = (-enomem, { w with file := some [] }) := by
  simp [jsonCfgSave, hf, h, World.truncate, World.end1]

/-- Without a text the object is held on to. -/
theorem jsonCfgSave_of_not_print (hf : calls.fopen = true) (hc : calls.create = true)
    (h : calls.print = false) : (jsonCfgSave codec calls cfg w).1 = -enomem ∧
      (jsonCfgSave codec calls cfg w).2.file = some [] ∧
      ∀ r, (jsonCfgSave codec calls cfg w).2.held r = w.held r + if r = .json then 1 else 0 := by
  simp only [jsonCfgSave, hf, hc, h]
  refine ⟨rfl, rfl, fun r => ?_⟩
  cases r <;> simp [World.end2, World.free, World.end1, World.truncate]

theorem jsonCfgSave_of_print (hf : calls.fopen = true) (hc : calls.create = true)
    (h : calls.print = true) : (jsonCfgSave codec calls cfg w).1 = 0 ∧
      (jsonCfgSave codec calls cfg w).2.file = some ((printed codec cfg).take calls.written) ∧
      ∀ r, (jsonCfgSave codec calls cfg w).2.held r = w.held r := by
  simp only [jsonCfgSave, hf, hc, h]
  refine ⟨rfl, rfl, fun r => ?_⟩
  cases r <;> simp [World.end2, World.free, World.end1, World.truncate]

theorem atomic_of_not_fopen (h : calls.fopen = false) : Atomic codec calls cfg w := by
  have hsave : jsonCfgSave codec calls cfg w = (-enoent, w) := jsonCfgSave_of_not_fopen h
  refine ⟨fun _ => ?_, fun h0 => ?_, fun r => ?_⟩
  · rw [hsave]
    exact ⟨(by decide : -enoent < 0), fun _ _ => rfl⟩
  · rw [hsave] at h0
    exact absurd h0 (by decide : -enoent ≠ 0)
  · rw [hsave]

/-- Once the file is opened, failing to make the object costs what could be read of it. -/
theorem atomic_iff_of_not_create (hf : calls.fopen = true) (h : calls.create = false) :
    Atomic codec calls cfg w ↔ ¬ Readable codec w := by
  have hsave : jsonCfgSave codec calls cfg w = (-enomem, { w with file := some [] }) :=
    jsonCfgSave_of_not_create hf h
  have hempty : ¬ Readable codec { w with file := some [] } := not_readable_of_empty rfl
  constructor
  · intro hatomic hread
    have hzero : (reading codec cfg w).1 = 0 := reading_eq_zero_iff.mpr hread
    have hkept := (hatomic.kept (by simp [Completes, h])).2 cfg hzero
    rw [hsave] at hkept
    exact hempty (reading_eq_zero_iff.mp (hkept ▸ hzero))
  · intro hread
    refine ⟨fun _ => ?_, fun h0 => ?_, fun r => ?_⟩
    · rw [hsave]
      exact ⟨(by decide : -enomem < 0),
        fun _ hzero => (hread (reading_eq_zero_iff.mp hzero)).elim⟩
    · rw [hsave] at h0
      exact absurd h0 (by decide : -enomem ≠ 0)
    · rw [hsave]

theorem not_atomic_of_not_print (hf : calls.fopen = true) (hc : calls.create = true)
    (h : calls.print = false) : ¬ Atomic codec calls cfg w := by
  intro hatomic
  have hheld := (@jsonCfgSave_of_not_print C codec calls cfg w hf hc h).2.2 .json
  rw [hatomic.released .json] at hheld
  simp at hheld

/-- Once there is a text, the call returns 0 however much of it the file takes. -/
theorem atomic_iff_of_print (hf : calls.fopen = true) (hc : calls.create = true)
    (h : calls.print = true) :
    Atomic codec calls cfg w ↔ (printed codec cfg).length ≤ calls.written := by
  obtain ⟨hret, hfile, hheld⟩ := @jsonCfgSave_of_print C codec calls cfg w hf hc h
  constructor
  · intro hatomic
    by_contra hpart
    have hneg := (hatomic.kept (by simp [Completes, hpart])).1
    rw [hret] at hneg
    exact absurd hneg (by decide)
  · intro hall
    refine ⟨fun hno => (hno ⟨hf, hc, h, hall⟩).elim, fun _ => ?_, hheld⟩
    rw [hfile, List.take_of_length_le hall]

/-- Saving is atomic exactly when the file cannot be opened, or nothing fails, or the object cannot
be made and there was nothing to read. -/
theorem jsonCfgSave_atomic_iff : Atomic codec calls cfg w ↔
    calls.fopen = false ∨ (calls.create = false ∧ ¬ Readable codec w) ∨
      Completes codec calls cfg := by
  cases hf : calls.fopen with
  | false => simp [atomic_of_not_fopen hf]
  | true =>
    cases hc : calls.create with
    | false => simp [atomic_iff_of_not_create hf hc, Completes, hc]
    | true =>
      cases hp : calls.print with
      | false => simp [not_atomic_of_not_print hf hc hp, Completes, hp]
      | true => simp [atomic_iff_of_print hf hc hp, Completes, hf, hc, hp]

/-- What a completed call saves is what is read back. -/
theorem reading_jsonCfgSave {cfg' : C} (h : Completes codec calls cfg)
    (hzero : 0 ∉ printed codec cfg) (hne : printed codec cfg ≠ [])
    (hparse : codec.parse (printed codec cfg) = some (codec.s2j (.obj []) cfg)) :
    reading codec cfg' (jsonCfgSave codec calls cfg w).2 =
      (0, codec.j2s (codec.s2j (.obj []) cfg) cfg') := by
  have hfile := (@jsonCfgSave_of_print C codec calls cfg w h.1 h.2.1 h.2.2.1).2.1
  rw [List.take_of_length_le h.2.2.2] at hfile
  exact reading_of_parse hfile hne (by rwa [← List.append_nil (printed codec cfg),
    cstr_append_notMem hzero, cstr, List.takeWhile_nil, List.append_nil])

/-- Settings of one number, which the printer sets apart with a line of its own. -/
def portCodec : Codec Int where
  print
    | .obj [(name, .num n)] =>
      ascii "\x7b\n\t" ++ Json.quoted name ++ ascii ":\t" ++ Json.decimal n ++ ascii "\n\x7d"
    | _ => ascii "\x7b\n\x7d"
  parse t := if t = ascii "\x7b\x7d" then some (.obj []) else none
  s2j _ n := .obj [(ascii "port", .num n)]
  j2s _ n := n

/-- A device whose settings are the object without members, which memory fails at shutdown. -/
theorem jsonCfgSave_loses :
    ¬ Atomic portCodec ⟨true, false, true, 0⟩ 8080 ⟨some (ascii "\x7b\x7d"), fun _ => 0⟩ := by
  have hread : Readable portCodec ⟨some (ascii "\x7b\x7d"), fun _ => 0⟩ :=
    ⟨ascii "\x7b\x7d", rfl, by decide, by decide⟩
  exact fun hatomic => (atomic_iff_of_not_create rfl rfl).mp hatomic hread

end Freak.Utils.JsonCfg
