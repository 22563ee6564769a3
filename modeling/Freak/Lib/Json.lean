import Freak.Lib.Bytes

/-! JSON values and what a printer with a bounded buffer writes of them. -/

/-- A JSON value; names and strings are C strings. -/
inductive Json
  | null
  | bool (b : Bool)
  | num (n : Int)
  | str (s : List UInt8)
  | arr (xs : List Json)
  | obj (ms : List (List UInt8 × Json))

namespace Json

open Bytes (ascii)

def lower (c : UInt8) : UInt8 := if 65 ≤ c ∧ c ≤ 90 then c + 32 else c

def isNull : Json → Bool
  | null => true
  | _ => false

/-- The first member of a name, case ignored. -/
def getItem (name : List UInt8) : Json → Option Json
  | obj ms => (ms.find? fun m => m.1.map lower == name.map lower).map Prod.snd
  | _ => none

/-! One piece of output: what is written, the room asked for it and whether a NUL follows. -/
structure Piece where
  bytes : List UInt8
  need : Nat
  ends : Bool

namespace Piece

def closed (bs : List UInt8) : Piece := ⟨bs, bs.length + 1, true⟩

def opened (bs : List UInt8) (need : Nat) : Piece := ⟨bs, need, false⟩

/-- A piece asks for its bytes, and for one more when a NUL follows; no NUL is among them. -/
def Fair (p : Piece) : Prop :=
  p.bytes.length ≤ p.need ∧ p.need ≤ p.bytes.length + 1 ∧
    (p.ends = true → p.need = p.bytes.length + 1) ∧ 0 ∉ p.bytes

theorem fair_closed {bs : List UInt8} (h : 0 ∉ bs) : (closed bs).Fair := by
  simp [Fair, closed, h]

theorem fair_opened {bs : List UInt8} {n : Nat} (h : 0 ∉ bs)
    (hn : n = bs.length ∨ n = bs.length + 1) : (opened bs n).Fair := by
  refine ⟨?_, ?_, by simp [opened], h⟩ <;> simp only [opened] <;> omega

end Piece

def hexDigit (d : UInt8) : UInt8 := if d < 10 then 48 + d else 87 + d

/-- A character as it stands between quotes. -/
def escape (c : UInt8) : List UInt8 :=
  if c = 34 ∨ c = 92 then [92, c]
  else if c = 8 then [92, 98]
  else if c = 12 then [92, 102]
  else if c = 10 then [92, 110]
  else if c = 13 then [92, 114]
  else if c = 9 then [92, 116]
  else if c < 32 then [92, 117, 48, 48, hexDigit (c / 16), hexDigit (c % 16)]
  else [c]

def quoted (s : List UInt8) : List UInt8 := 34 :: ((Bytes.cstr s).flatMap escape ++ [34])

section Pieces

variable (numText : Int → List UInt8)

mutual
/-- The pieces of a value in the order they are written, unformatted. -/
def pieces : Json → List Piece
  | null => [.closed (ascii "null")]
  | bool b => [.closed (ascii (if b then "true" else "false"))]
  | num n => [.closed (numText n)]
  | str s => [.closed (quoted s)]
  | arr xs => .opened (ascii "[") 1 :: (itemPieces xs ++ [.closed (ascii "]")])
  | obj ms => .opened (ascii "\x7b") 2 :: (memberPieces ms ++ [.closed (ascii "\x7d")])

def itemPieces : List Json → List Piece
  | [] => []
  | x :: xs => pieces x ++ ((if xs.isEmpty then [] else [.closed (ascii ",")]) ++ itemPieces xs)

def memberPieces : List (List UInt8 × Json) → List Piece
  | [] => []
  | (k, v) :: ms =>
    .closed (quoted k) :: .opened (ascii ":") 1 ::
      (pieces v ++ (.closed (if ms.isEmpty then [] else ascii ",") :: memberPieces ms))
end

def text (j : Json) : List UInt8 := (pieces numText j).flatMap Piece.bytes

/-- What is in the buffer when the printer returns: its verdict, the text and the final NUL. -/
structure Printed where
  ok : Bool
  text : List UInt8
  ends : Bool
deriving DecidableEq

/-- Writing piece after piece until one does not fit. -/
def put (cap : Nat) : List Piece → List UInt8 → Bool → Printed
  | [], acc, ends => ⟨true, acc, ends⟩
  | p :: ps, acc, ends =>
    if acc.length + p.need + 1 ≤ cap then put cap ps (acc ++ p.bytes) p.ends
    else ⟨false, acc, ends⟩

/-- `cJSON_PrintPreallocated(json, buffer, length, 0)`. -/
def printPreallocated (cap : Int) (j : Json) : Printed :=
  if cap < 0 then ⟨false, [], false⟩ else put cap.toNat (pieces numText j) [] false

end Pieces

namespace Printed

/-- The bytes the printer has written, from the buffer's first on. -/
def written (p : Printed) : List UInt8 := p.text ++ if p.ends then [0] else []

end Printed

variable {numText : Int → List UInt8}

theorem put_fits {cap : Nat} {ps : List Piece} (hps : ∀ p ∈ ps, p.Fair) {acc : List UInt8}
    {e : Bool} (h : (acc ++ ps.flatMap Piece.bytes).length + 2 ≤ cap) :
    put cap ps acc e =
      ⟨true, acc ++ ps.flatMap Piece.bytes, (ps.getLast?.map Piece.ends).getD e⟩ := by
  induction ps generalizing acc e with
  | nil => simp [put]
  | cons p ps ih =>
    obtain ⟨-, hn, -⟩ := hps p List.mem_cons_self
    simp only [List.flatMap_cons, List.length_append] at h
    have hfit : acc.length + p.need + 1 ≤ cap := by omega
    rw [put, if_pos hfit, ih (fun q hq => hps q (List.mem_cons_of_mem p hq))
      (by simp only [List.length_append]; omega)]
    cases ps with
    | nil => simp
    | cons q qs =>
      rw [List.getLast?_cons_cons, List.getLast?_eq_some_getLast (List.cons_ne_nil q qs)]
      simp

/-- A text that ends in a closed piece and does not fit is cut before that piece. -/
theorem put_cut {cap : Nat} {ps : List Piece} (hps : ∀ p ∈ ps, p.Fair) {a : List UInt8}
    {e : Bool} {bs : List UInt8} (hbs : bs ≠ [])
    (h : cap < (a ++ ps.flatMap Piece.bytes ++ bs).length + 2) :
    ∃ r : Printed, put cap (ps ++ [.closed bs]) a e = r ∧ r.ok = false ∧
      ∃ s ≠ [], r.text ++ s = a ++ ps.flatMap Piece.bytes ++ bs := by
  induction ps generalizing a e with
  | nil =>
    refine ⟨⟨false, a, e⟩, ?_, rfl, bs, hbs, by simp⟩
    have hno : ¬ a.length + (bs.length + 1) + 1 ≤ cap := by simp at h; omega
    simp [put, Piece.closed, hno]
  | cons p ps ih =>
    rw [List.cons_append, put]
    by_cases hfit : a.length + p.need + 1 ≤ cap
    · rw [if_pos hfit]
      obtain ⟨r, hr, hok, s, hs, hcat⟩ := ih (a := a ++ p.bytes) (e := p.ends)
        (fun q hq => hps q (List.mem_cons_of_mem p hq)) (by simpa using h)
      exact ⟨r, hr, hok, s, hs, by simpa using hcat⟩
    · rw [if_neg hfit]
      exact ⟨_, rfl, rfl, p.bytes ++ (ps.flatMap Piece.bytes ++ bs), by simp [hbs], by simp⟩

theorem zero_notMem_put {cap : Nat} {ps : List Piece} (hps : ∀ p ∈ ps, p.Fair) {acc : List UInt8}
    {e : Bool} (h : 0 ∉ acc) : 0 ∉ (put cap ps acc e).text := by
  induction ps generalizing acc e with
  | nil => exact h
  | cons p ps ih =>
    rw [put]
    split
    · refine ih (fun q hq => hps q (List.mem_cons_of_mem p hq)) ?_
      rw [List.mem_append, not_or]
      exact ⟨h, (hps p List.mem_cons_self).2.2.2⟩
    · exact h

theorem hexDigit_ne_zero {d : UInt8} (h : d.toNat < 16) : hexDigit d ≠ 0 := by
  have hall : ∀ n : Fin 16, hexDigit (UInt8.ofNat n) ≠ 0 := by decide
  simpa using hall ⟨d.toNat, h⟩

theorem zero_notMem_escape {c : UInt8} (hc : c ≠ 0) : 0 ∉ escape c := by
  have hlow : (c % 16).toNat < 16 := by
    rw [UInt8.toNat_mod]
    exact Nat.mod_lt _ (by decide)
  have hhigh : (c / 16).toNat < 16 := by
    rw [UInt8.toNat_div]
    exact Nat.div_lt_of_lt_mul (c.toNat_lt.trans_le (by decide))
  unfold escape
  split_ifs <;>
    simp [hc.symm, (hexDigit_ne_zero hlow).symm, (hexDigit_ne_zero hhigh).symm]

theorem zero_notMem_quoted (s : List UInt8) : 0 ∉ quoted s := by
  simp only [quoted, List.mem_cons, List.mem_append, List.mem_flatMap, List.not_mem_nil, or_false,
    not_or, not_exists, not_and]
  refine ⟨by decide, ?_, by decide⟩
  intro c hc
  exact zero_notMem_escape fun h => Bytes.zero_notMem_cstr s (h ▸ hc)

theorem text_obj (ms : List (List UInt8 × Json)) :
    text numText (obj ms) =
      ascii "\x7b" ++ ((memberPieces numText ms).flatMap Piece.bytes ++ ascii "\x7d") := by
  simp [text, pieces, Piece.opened, Piece.closed]

mutual
theorem fair_pieces (hnum : ∀ n, 0 ∉ numText n) :
    ∀ (j : Json), ∀ p ∈ pieces numText j, p.Fair
  | null => by simpa [pieces] using Piece.fair_closed (by decide)
  | bool b => by
    cases b
    · simpa [pieces] using Piece.fair_closed (by decide)
    · simpa [pieces] using Piece.fair_closed (by decide)
  | num n => by simpa [pieces] using Piece.fair_closed (hnum n)
  | str s => by simpa [pieces] using Piece.fair_closed (zero_notMem_quoted s)
  | arr xs => by
    intro p hp
    simp only [pieces, List.mem_cons, List.mem_append, List.not_mem_nil, or_false] at hp
    rcases hp with rfl | hp | rfl
    · exact Piece.fair_opened (by decide) (Or.inl rfl)
    · exact fair_itemPieces hnum xs p hp
    · exact Piece.fair_closed (by decide)
  | obj ms => by
    intro p hp
    simp only [pieces, List.mem_cons, List.mem_append, List.not_mem_nil, or_false] at hp
    rcases hp with rfl | hp | rfl
    · exact Piece.fair_opened (by decide) (Or.inr rfl)
    · exact fair_memberPieces hnum ms p hp
    · exact Piece.fair_closed (by decide)

theorem fair_itemPieces (hnum : ∀ n, 0 ∉ numText n) :
    ∀ (xs : List Json), ∀ p ∈ itemPieces numText xs, p.Fair
  | [] => by simp [itemPieces]
  | x :: xs => by
    intro p hp
    simp only [itemPieces, List.mem_append] at hp
    rcases hp with hp | hp | hp
    · exact fair_pieces hnum x p hp
    · cases hx : xs.isEmpty
      · rw [hx] at hp
        rcases List.mem_singleton.mp hp with rfl
        exact Piece.fair_closed (by decide)
      · simp [hx] at hp
    · exact fair_itemPieces hnum xs p hp

theorem fair_memberPieces (hnum : ∀ n, 0 ∉ numText n) :
    ∀ (ms : List (List UInt8 × Json)), ∀ p ∈ memberPieces numText ms, p.Fair
  | [] => by simp [memberPieces]
  | (k, v) :: ms => by
    intro p hp
    simp only [memberPieces, List.mem_append, List.mem_cons] at hp
    rcases hp with rfl | rfl | hp | rfl | hp
    · exact Piece.fair_closed (zero_notMem_quoted k)
    · exact Piece.fair_opened (by decide) (Or.inl rfl)
    · exact fair_pieces hnum v p hp
    · cases ms.isEmpty <;> exact Piece.fair_closed (by decide)
    · exact fair_memberPieces hnum ms p hp
end

section Fair

variable (hnum : ∀ n, 0 ∉ numText n)
include hnum

theorem zero_notMem_text (j : Json) : 0 ∉ text numText j := by
  intro h
  obtain ⟨p, hp, h0⟩ := List.mem_flatMap.mp h
  exact (fair_pieces hnum j p hp).2.2.2 h0

theorem zero_notMem_printed (cap : Int) (j : Json) :
    0 ∉ (printPreallocated numText cap j).text := by
  rw [printPreallocated]
  split
  · simp
  · exact zero_notMem_put (fair_pieces hnum j) (by simp)

variable {ms : List (List UInt8 × Json)} {cap : Int}

/-- An object is printed whole when two bytes more than its text are given. -/
theorem print_obj_fits (h : ((text numText (obj ms)).length : Int) + 2 ≤ cap) :
    printPreallocated numText cap (obj ms) = ⟨true, text numText (obj ms), true⟩ := by
  rw [printPreallocated, if_neg (by omega), put_fits (fair_pieces hnum _) (by
    simpa [text] using (by omega : (text numText (obj ms)).length + 2 ≤ cap.toNat))]
  simp [text, pieces, List.getLast?_cons, Piece.closed]

/-- Otherwise a proper prefix of it is. -/
theorem print_obj_cut (h : ¬ ((text numText (obj ms)).length : Int) + 2 ≤ cap) :
    (printPreallocated numText cap (obj ms)).ok = false ∧
      ∃ s ≠ [], (printPreallocated numText cap (obj ms)).text ++ s = text numText (obj ms) := by
  rw [printPreallocated]
  split
  · exact ⟨rfl, text numText (obj ms), by simp [text_obj, ascii], rfl⟩
  · have hps : ∀ p ∈ Piece.opened (ascii "\x7b") 2 :: memberPieces numText ms, p.Fair := by
      intro p hp
      rcases List.mem_cons.mp hp with rfl | hp
      · exact Piece.fair_opened (by decide) (Or.inr rfl)
      · exact fair_memberPieces hnum ms p hp
    have hcap : cap.toNat < ([] ++ (Piece.opened (ascii "\x7b") 2 ::
        memberPieces numText ms).flatMap Piece.bytes ++ ascii "\x7d").length + 2 := by
      simp [text_obj, Piece.opened] at h ⊢
      omega
    obtain ⟨r, hr, hok, s, hs, hcat⟩ := put_cut hps (e := false) (by simp [ascii]) hcap
    rw [pieces, ← List.cons_append, hr]
    exact ⟨hok, s, hs, by simpa [text_obj, Piece.opened] using hcat⟩

end Fair

section Formatted

variable (numText : Int → List UInt8)

mutual
/-- A value over several lines, its members `depth` tabs from the margin. -/
def formatted (depth : Nat) : Json → List UInt8
  | null => ascii "null"
  | bool b => ascii (if b then "true" else "false")
  | num n => numText n
  | str s => quoted s
  | arr xs => ascii "[" ++ formattedItems depth xs ++ ascii "]"
  | obj ms =>
    ascii "\x7b\n" ++ formattedMembers (depth + 1) ms ++ List.replicate depth 9 ++ ascii "\x7d"

def formattedItems (depth : Nat) : List Json → List UInt8
  | [] => []
  | x :: xs =>
    formatted depth x ++ (if xs.isEmpty then [] else ascii ", ") ++ formattedItems depth xs

def formattedMembers (depth : Nat) : List (List UInt8 × Json) → List UInt8
  | [] => []
  | (k, v) :: ms =>
    List.replicate depth 9 ++ quoted k ++ ascii ":\t" ++ formatted depth v ++
      (if ms.isEmpty then [] else ascii ",") ++ ascii "\n" ++ formattedMembers depth ms
end

variable {numText}

mutual
theorem zero_notMem_formatted (hnum : ∀ n, 0 ∉ numText n) : ∀ (depth : Nat) (j : Json),
    0 ∉ formatted numText depth j
  | _, null => by simp only [formatted]; decide
  | _, bool b => by cases b <;> simp only [formatted] <;> decide
  | _, num n => by simpa only [formatted] using hnum n
  | _, str s => by simpa only [formatted] using zero_notMem_quoted s
  | depth, arr xs => by
    simp only [formatted, List.mem_append, not_or]
    exact ⟨⟨by decide, zero_notMem_formattedItems hnum depth xs⟩, by decide⟩
  | depth, obj ms => by
    simp only [formatted, List.mem_append, not_or, List.mem_replicate]
    exact ⟨⟨⟨by decide, zero_notMem_formattedMembers hnum (depth + 1) ms⟩, by simp⟩, by decide⟩

theorem zero_notMem_formattedItems (hnum : ∀ n, 0 ∉ numText n) : ∀ (depth : Nat) (xs : List Json),
    0 ∉ formattedItems numText depth xs
  | _, [] => by simp [formattedItems]
  | depth, x :: xs => by
    simp only [formattedItems, List.mem_append, not_or]
    refine ⟨⟨zero_notMem_formatted hnum depth x, ?_⟩, zero_notMem_formattedItems hnum depth xs⟩
    split_ifs <;> decide

theorem zero_notMem_formattedMembers (hnum : ∀ n, 0 ∉ numText n) : ∀ (depth : Nat)
    (ms : List (List UInt8 × Json)), 0 ∉ formattedMembers numText depth ms
  | _, [] => by simp [formattedMembers]
  | depth, (k, v) :: ms => by
    simp only [formattedMembers, List.mem_append, not_or, List.mem_replicate]
    refine ⟨⟨⟨⟨⟨⟨by simp, zero_notMem_quoted k⟩, by decide⟩, zero_notMem_formatted hnum depth v⟩,
      ?_⟩, by decide⟩, zero_notMem_formattedMembers hnum depth ms⟩
    split_ifs <;> decide
end

end Formatted

end Json
