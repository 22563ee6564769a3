import Freak.Lib.Json

/-! Reading back what the printer wrote. -/
namespace Json

open Bytes (ascii)

/-- The decimal digits of a number, at most so many. -/
def digits : Nat → Nat → List UInt8
  | 0, _ => []
  | fuel + 1, n =>
    if n < 10 then [48 + UInt8.ofNat n] else digits fuel (n / 10) ++ [48 + UInt8.ofNat (n % 10)]

/-- `%d`. -/
def decimal (n : Int) : List UInt8 :=
  if n < 0 then 45 :: digits (n.natAbs + 1) n.natAbs else digits (n.natAbs + 1) n.natAbs

def IsDigit (c : UInt8) : Prop := 48 ≤ c ∧ c ≤ 57

theorem isDigit_ofNat {n : Nat} (h : n < 10) : IsDigit (48 + UInt8.ofNat n) := by
  have hall : ∀ k : Fin 10, 48 ≤ 48 + UInt8.ofNat k ∧ 48 + UInt8.ofNat k ≤ 57 := by decide
  exact hall ⟨n, h⟩

theorem isDigit_of_mem_digits {fuel n : Nat} : ∀ c ∈ digits fuel n, IsDigit c := by
  induction fuel generalizing n with
  | zero => simp [digits]
  | succ fuel ih =>
    intro c hc
    rw [digits] at hc
    split_ifs at hc with hn
    · rw [List.mem_singleton.mp hc]
      exact isDigit_ofNat hn
    · rcases List.mem_append.mp hc with hc | hc
      · exact ih c hc
      · rw [List.mem_singleton.mp hc]
        exact isDigit_ofNat (Nat.mod_lt n (by decide))

theorem notMem_decimal {c : UInt8} (n : Int) (hsign : c ≠ 45) (hc : ¬ IsDigit c) :
    c ∉ decimal n := by
  have hd : c ∉ digits (n.natAbs + 1) n.natAbs := fun h => hc (isDigit_of_mem_digits c h)
  rw [decimal]
  split_ifs
  · rw [List.mem_cons, not_or]
    exact ⟨hsign, hd⟩
  · exact hd

theorem zero_notMem_decimal (n : Int) : 0 ∉ decimal n :=
  notMem_decimal n (by decide) fun h => absurd h.1 (by decide)

theorem length_digits {fuel n k : Nat} (hk : 0 < k) (hn : n < 10 ^ k) :
    (digits fuel n).length ≤ k := by
  induction fuel generalizing n k with
  | zero => exact Nat.zero_le k
  | succ fuel ih =>
    rw [digits]
    split_ifs with h
    · exact hk
    · obtain ⟨k, rfl⟩ := Nat.exists_eq_add_of_lt hk
      have hpos : 0 < k := by
        by_contra hzero
        obtain rfl : k = 0 := by omega
        exact h hn
      have hdiv : n / 10 < 10 ^ k := by
        rw [Nat.div_lt_iff_lt_mul (by decide), ← pow_succ]
        simpa using hn
      have hlen := ih hpos hdiv
      rw [List.length_append, List.length_singleton]
      omega

theorem length_decimal {n : Int} {k : Nat} (hk : 0 < k) (hn : n.natAbs < 10 ^ k) :
    (decimal n).length ≤ k + 1 := by
  have hlen : (digits (n.natAbs + 1) n.natAbs).length ≤ k := length_digits hk hn
  rw [decimal]
  split_ifs
  · exact Nat.succ_le_succ hlen
  · exact hlen.trans (Nat.le_succ k)

theorem IsDigit.ne {c : UInt8} (h : IsDigit c) {d : UInt8} (hd : d < 48 ∨ 57 < d) : c ≠ d := by
  rintro rfl
  rcases hd with hd | hd
  · exact absurd h.1 (UInt8.not_le.mpr hd)
  · exact absurd h.2 (UInt8.not_le.mpr hd)

/-- `strtol`, on digits and a sign before them. -/
def readDecimal : List UInt8 → Int
  | 45 :: ds => -(ds.foldl (fun v c => 10 * v + (c.toNat - 48)) 0 : Nat)
  | ds => (ds.foldl (fun v c => 10 * v + (c.toNat - 48)) 0 : Nat)

theorem foldl_digits {fuel n : Nat} (h : n < fuel) :
    (digits fuel n).foldl (fun v c => 10 * v + (c.toNat - 48)) 0 = n := by
  have hdigit : ∀ k, k < 10 → (48 + UInt8.ofNat k).toNat - 48 = k := by
    intro k hk
    rw [UInt8.toNat_add, UInt8.toNat_ofNat']
    simp
    omega
  induction fuel generalizing n with
  | zero => omega
  | succ fuel ih =>
    rw [digits]
    split_ifs with hn
    · simp only [List.foldl_cons, List.foldl_nil, hdigit n hn]
      omega
    · rw [List.foldl_append, ih (by omega), List.foldl_cons, List.foldl_nil,
        hdigit _ (Nat.mod_lt n (by decide))]
      omega

theorem readDecimal_decimal (n : Int) : readDecimal (decimal n) = n := by
  have hvalue := foldl_digits (Nat.lt_succ_self n.natAbs)
  rw [decimal]
  split_ifs with hn
  · rw [readDecimal, hvalue]
    omega
  · have hfirst : ∀ c ∈ digits (n.natAbs + 1) n.natAbs, c ≠ 45 :=
      fun c hc => (isDigit_of_mem_digits c hc).ne (.inl (by decide))
    cases hd : digits (n.natAbs + 1) n.natAbs with
    | nil =>
      rw [hd] at hvalue
      simp only [List.foldl_nil] at hvalue
      simp [readDecimal]
      omega
    | cons c ds =>
      rw [hd] at hfirst hvalue
      rw [readDecimal]
      · rw [hvalue]
        omega
      · intro ds' heq
        exact hfirst c List.mem_cons_self (List.cons.inj heq).1

mutual
/-- What is printed of a value: names and strings up to their NUL. -/
def upToNul : Json → Json
  | null => null
  | bool b => bool b
  | num n => num n
  | str s => str (Bytes.cstr s)
  | arr xs => arr (upToNulItems xs)
  | obj ms => obj (upToNulMembers ms)

def upToNulItems : List Json → List Json
  | [] => []
  | x :: xs => upToNul x :: upToNulItems xs

def upToNulMembers : List (List UInt8 × Json) → List (List UInt8 × Json)
  | [] => []
  | (k, v) :: ms => (Bytes.cstr k, upToNul v) :: upToNulMembers ms
end

theorem upToNulItems_eq_map (xs : List Json) : upToNulItems xs = xs.map upToNul := by
  induction xs with
  | nil => rfl
  | cons x xs ih => rw [upToNulItems, ih, List.map_cons]

/-! A reader of what is printed. Each function takes its value off the front of a text; the number
is a bound on the text's length. -/

def hexValue (d : UInt8) : UInt8 := if d < 58 then d - 48 else d - 87

/-- The character behind a backslash. -/
def unescape (c : UInt8) : UInt8 :=
  if c = 98 then 8
  else if c = 102 then 12
  else if c = 110 then 10
  else if c = 114 then 13
  else if c = 116 then 9
  else c

def readChar : List UInt8 → Option (UInt8 × List UInt8)
  | [] => none
  | c :: t =>
    if c ≠ 92 then some (c, t)
    else if t.head? = some 117 then
      some (16 * hexValue (t.getD 3 0) + hexValue (t.getD 4 0), t.drop 5)
    else t.head?.map fun c => (unescape c, t.tail)

/-- The characters up to the closing quote. -/
def readString : Nat → List UInt8 → Option (List UInt8 × List UInt8)
  | 0, _ => none
  | fuel + 1, t =>
    if t.head? = some 34 then some ([], t.tail)
    else (readChar t).bind fun c => (readString fuel c.2).map (Prod.map (c.1 :: ·) id)

def afterComma (t : List UInt8) : List UInt8 := if t.head? = some 44 then t.tail else t

def numeral (c : UInt8) : Bool := c = 45 ∨ 48 ≤ c ∧ c ≤ 57

mutual
def readValue : Nat → List UInt8 → Option (Json × List UInt8)
  | 0, _ => none
  | fuel + 1, t =>
    if t.head? = some 123 then (readMembers fuel t.tail).map (Prod.map obj id)
    else if t.head? = some 91 then (readItems fuel t.tail).map (Prod.map arr id)
    else if t.head? = some 34 then (readString fuel t.tail).map (Prod.map str id)
    else if t.head? = some 110 then some (null, t.drop 4)
    else if t.head? = some 116 then some (bool true, t.drop 4)
    else if t.head? = some 102 then some (bool false, t.drop 5)
    else some (num (readDecimal (t.takeWhile numeral)), t.dropWhile numeral)

def readItems : Nat → List UInt8 → Option (List Json × List UInt8)
  | 0, _ => none
  | fuel + 1, t =>
    if t.head? = some 93 then some ([], t.tail)
    else
      (readValue fuel t).bind fun x =>
        (readItems fuel (afterComma x.2)).map (Prod.map (x.1 :: ·) id)

def readMembers : Nat → List UInt8 → Option (List (List UInt8 × Json) × List UInt8)
  | 0, _ => none
  | fuel + 1, t =>
    if t.head? = some 125 then some ([], t.tail)
    else
      (readString fuel t.tail).bind fun k =>
        (readValue fuel k.2.tail).bind fun v =>
          (readMembers fuel (afterComma v.2)).map (Prod.map ((k.1, v.1) :: ·) id)
end

/-- `cJSON_Parse`, on texts that begin with an object as the printer writes it. -/
def parseObject (t : List UInt8) : Option Json :=
  (readMembers t.length t.tail).bind fun ms =>
    if (text decimal (obj ms.1)).isPrefixOf t then some (obj ms.1) else none

theorem hexValue_hexDigit {d : UInt8} (h : d.toNat < 16) : hexValue (hexDigit d) = d := by
  have hall : ∀ n : Fin 16, hexValue (hexDigit (UInt8.ofNat n)) = UInt8.ofNat n := by decide
  simpa using hall ⟨d.toNat, h⟩

theorem readChar_escape (c : UInt8) (t : List UInt8) : readChar (escape c ++ t) = some (c, t) := by
  have hlow : (c % 16).toNat < 16 := by
    rw [UInt8.toNat_mod]
    exact Nat.mod_lt _ (by decide)
  have hhigh : (c / 16).toNat < 16 := by
    rw [UInt8.toNat_div]
    exact Nat.div_lt_of_lt_mul (c.toNat_lt.trans_le (by decide))
  have hparts : 16 * (c / 16) + c % 16 = c := by
    rw [← UInt8.toNat_inj, UInt8.toNat_add, UInt8.toNat_mul, UInt8.toNat_div, UInt8.toNat_mod]
    have hlt := c.toNat_lt
    simp
    omega
  unfold escape
  split_ifs with hquote
  · have hne : c ≠ 117 := by
      rintro rfl
      exact absurd hquote (by decide)
    have hsame : unescape c = c := by
      rcases hquote with rfl | rfl <;> rfl
    simp [readChar, hne, hsame]
  all_goals simp_all [readChar, unescape, hexValue_hexDigit]

theorem head_escape (c : UInt8) : ∃ d t, escape c = d :: t ∧ d ≠ 34 := by
  unfold escape
  split_ifs with hquote
  · exact ⟨_, _, rfl, by decide⟩
  all_goals exact ⟨_, _, rfl, by simp_all⟩

theorem readString_escaped {s r : List UInt8} {fuel : Nat}
    (h : (s.flatMap escape).length < fuel) :
    readString fuel (s.flatMap escape ++ 34 :: r) = some (s, r) := by
  induction s generalizing fuel with
  | nil =>
    obtain ⟨fuel, rfl⟩ := Nat.exists_eq_add_of_lt h
    simp [readString]
  | cons c s ih =>
    obtain ⟨d, t, hd, hne⟩ := head_escape c
    have hpos : 0 < (escape c).length := by simp [hd]
    rw [List.flatMap_cons, List.length_append] at h
    obtain ⟨fuel, rfl⟩ : ∃ n, fuel = n + 1 := ⟨fuel - 1, by omega⟩
    have hhead : (escape c ++ (s.flatMap escape ++ 34 :: r)).head? ≠ some 34 := by
      simpa [hd] using hne
    rw [List.flatMap_cons, List.append_assoc, readString, if_neg hhead, readChar_escape,
      Option.bind_some, ih (by omega)]
    rfl

theorem numeral_of_mem_decimal {n : Int} : ∀ c ∈ decimal n, numeral c = true := by
  intro c hc
  rw [numeral, decide_eq_true_eq]
  by_contra hnot
  rw [not_or] at hnot
  exact notMem_decimal n hnot.1 hnot.2 hc

theorem numeral_ne {c d : UInt8} (hc : numeral c = true) (hd : numeral d = false) : c ≠ d := by
  rintro rfl
  rw [hc] at hd
  exact absurd hd (by decide)

theorem decimal_ne_nil (n : Int) : decimal n ≠ [] := by
  have hdigits : digits (n.natAbs + 1) n.natAbs ≠ [] := by
    rw [digits]
    split_ifs <;> simp
  rw [decimal]
  split_ifs
  · exact List.cons_ne_nil _ _
  · exact hdigits

theorem takeWhile_decimal {n : Int} {r : List UInt8} (hr : ∀ c ∈ r.head?, numeral c = false) :
    (decimal n ++ r).takeWhile numeral = decimal n ∧
      (decimal n ++ r).dropWhile numeral = r := by
  rw [List.takeWhile_append_of_pos numeral_of_mem_decimal,
    List.dropWhile_append_of_pos numeral_of_mem_decimal]
  cases r with
  | nil => simp
  | cons c r =>
    have hc : numeral c = false := hr c rfl
    simp [hc]

/-! The pieces of a value end to end. -/

def items (xs : List Json) : List UInt8 := (itemPieces decimal xs).flatMap Piece.bytes

def members (ms : List (List UInt8 × Json)) : List UInt8 :=
  (memberPieces decimal ms).flatMap Piece.bytes

def comma (last : Bool) : List UInt8 := if last then [] else [44]

theorem text_num (n : Int) : text decimal (num n) = decimal n := by
  simp [text, pieces, Piece.closed]

theorem text_str (s : List UInt8) :
    text decimal (str s) = 34 :: ((Bytes.cstr s).flatMap escape ++ [34]) := by
  simp [text, pieces, Piece.closed, quoted]

theorem text_arr (xs : List Json) : text decimal (arr xs) = 91 :: (items xs ++ [93]) := by
  simp [text, pieces, items, Piece.opened, Piece.closed, ascii]

theorem text_members (ms : List (List UInt8 × Json)) :
    text decimal (obj ms) = 123 :: (members ms ++ [125]) := by
  simp [text_obj, members, ascii]

theorem items_cons (x : Json) (xs : List Json) :
    items (x :: xs) = text decimal x ++ (comma xs.isEmpty ++ items xs) := by
  cases xs <;> simp [items, itemPieces, text, comma, Piece.closed, ascii]

theorem members_cons (k : List UInt8) (v : Json) (ms : List (List UInt8 × Json)) :
    members ((k, v) :: ms) = 34 :: ((Bytes.cstr k).flatMap escape ++
      34 :: 58 :: (text decimal v ++ (comma ms.isEmpty ++ members ms))) := by
  cases ms <;> simp [members, memberPieces, text, comma, quoted, Piece.closed, Piece.opened, ascii]

/-- What follows a number in a text is none of its own characters. -/
theorem numeral_after {last : Bool} {t r : List UInt8} {c : UInt8} (hc : c = 93 ∨ c = 125)
    (ht : last = true → t = []) :
    ∀ d ∈ (comma last ++ (t ++ c :: r)).head?, numeral d = false := by
  cases last with
  | false => simp [comma]; decide
  | true =>
    rw [ht rfl]
    rcases hc with rfl | rfl <;> simp [comma] <;> decide

theorem afterComma_comma {last : Bool} {t r : List UInt8} {c : UInt8} (hc : c ≠ 44)
    (ht : last = true → t = []) :
    afterComma (comma last ++ (t ++ c :: r)) = t ++ c :: r := by
  cases last with
  | false => simp [comma, afterComma]
  | true =>
    rw [ht rfl]
    simp [comma, afterComma, hc]

theorem head_text (j : Json) : ∃ c t, text decimal j = c :: t ∧ c ≠ 93 := by
  cases j with
  | null => exact ⟨_, _, rfl, by decide⟩
  | bool b => cases b <;> exact ⟨_, _, rfl, by decide⟩
  | num n =>
    have hne := decimal_ne_nil n
    have hmem := @numeral_of_mem_decimal n
    cases hd : decimal n with
    | nil => exact absurd hd hne
    | cons c t =>
      refine ⟨c, t, (text_num n).trans hd, ?_⟩
      rintro rfl
      rw [hd] at hmem
      exact absurd (hmem 93 List.mem_cons_self) (by decide)
  | str s => exact ⟨_, _, text_str s, by decide⟩
  | arr xs => exact ⟨_, _, text_arr xs, by decide⟩
  | obj ms => exact ⟨_, _, text_members ms, by decide⟩

/-- A number begins as no other value does. -/
theorem readValue_decimal {n : Int} {r : List UInt8} {fuel : Nat}
    (hr : ∀ c ∈ r.head?, numeral c = false) :
    readValue (fuel + 1) (decimal n ++ r) = some (num n, r) := by
  obtain ⟨htake, hdrop⟩ := takeWhile_decimal (n := n) hr
  have hnumeral := @numeral_of_mem_decimal n
  cases hn : decimal n with
  | nil => exact absurd hn (decimal_ne_nil n)
  | cons c t =>
    have hc : numeral c = true := hnumeral c (hn ▸ List.mem_cons_self)
    have hhead : (decimal n ++ r).head? = some c := by
      rw [hn]
      rfl
    rw [← hn, readValue, hhead]
    simp only [Option.some.injEq, numeral_ne hc (d := 123) rfl, numeral_ne hc (d := 91) rfl,
      numeral_ne hc (d := 34) rfl, numeral_ne hc (d := 110) rfl, numeral_ne hc (d := 116) rfl,
      numeral_ne hc (d := 102) rfl, if_false]
    rw [htake, hdrop, readDecimal_decimal]

mutual
/-- A value is read off the front of a text, whatever follows that a number does not run into. -/
theorem readValue_text : ∀ (j : Json) (r : List UInt8) (fuel : Nat),
    (text decimal j).length ≤ fuel → (∀ c ∈ r.head?, numeral c = false) →
      readValue fuel (text decimal j ++ r) = some (upToNul j, r)
  | _, _, 0, h, _ => by
    obtain ⟨c, t, htext, -⟩ := head_text ‹_›
    rw [htext] at h
    exact absurd h (by simp)
  | null, r, fuel + 1, _, _ => by
    simp [text, pieces, Piece.closed, ascii, readValue, upToNul]
  | bool b, r, fuel + 1, _, _ => by
    cases b <;> simp [text, pieces, Piece.closed, ascii, readValue, upToNul]
  | num n, r, fuel + 1, _, hr => by
    rw [text_num]
    exact readValue_decimal hr
  | str s, r, fuel + 1, h, _ => by
    rw [text_str, List.length_cons, List.length_append, List.length_singleton] at h
    have hread := @readString_escaped (Bytes.cstr s) r fuel (by omega)
    rw [text_str]
    simp [readValue, hread, upToNul]
  | arr xs, r, fuel + 1, h, _ => by
    rw [text_arr, List.length_cons, List.length_append, List.length_singleton] at h
    have hread := readItems_text xs r fuel (by omega)
    rw [text_arr]
    simp [readValue, hread, upToNul]
  | obj ms, r, fuel + 1, h, _ => by
    rw [text_members, List.length_cons, List.length_append, List.length_singleton] at h
    have hread := readMembers_text ms r fuel (by omega)
    rw [text_members]
    simp [readValue, hread, upToNul]

theorem readItems_text : ∀ (xs : List Json) (r : List UInt8) (fuel : Nat),
    (items xs).length < fuel → readItems fuel (items xs ++ 93 :: r) = some (upToNulItems xs, r)
  | _, _, 0, h => absurd h (Nat.not_lt_zero _)
  | [], r, fuel + 1, _ => by simp [items, itemPieces, readItems, upToNulItems]
  | x :: xs, r, fuel + 1, h => by
    obtain ⟨c, t, htext, hc⟩ := head_text x
    have hpos : 0 < (text decimal x).length := by simp [htext]
    have hlast : xs.isEmpty = true → items xs = [] := by
      cases xs <;> simp [items, itemPieces]
    have hhead : (text decimal x ++ (comma xs.isEmpty ++ (items xs ++ 93 :: r))).head? ≠
        some 93 := by
      simpa [htext] using hc
    rw [items_cons, List.length_append, List.length_append] at h
    have hx := readValue_text x (comma xs.isEmpty ++ (items xs ++ 93 :: r)) fuel (by omega)
      (numeral_after (.inl rfl) hlast)
    have hxs := readItems_text xs r fuel (by omega)
    rw [items_cons, List.append_assoc, List.append_assoc, readItems, if_neg hhead, hx,
      Option.bind_some, afterComma_comma (by decide) hlast, hxs]
    rfl

theorem readMembers_text : ∀ (ms : List (List UInt8 × Json)) (r : List UInt8) (fuel : Nat),
    (members ms).length < fuel →
      readMembers fuel (members ms ++ 125 :: r) = some (upToNulMembers ms, r)
  | _, _, 0, h => absurd h (Nat.not_lt_zero _)
  | [], r, fuel + 1, _ => by simp [members, memberPieces, readMembers, upToNulMembers]
  | (k, v) :: ms, r, fuel + 1, h => by
    have hlast : ms.isEmpty = true → members ms = [] := by
      cases ms <;> simp [members, memberPieces]
    rw [members_cons] at h ⊢
    simp only [List.length_cons, List.length_append] at h
    have hk := @readString_escaped (Bytes.cstr k)
      (58 :: (text decimal v ++ (comma ms.isEmpty ++ (members ms ++ 125 :: r)))) fuel (by omega)
    have hv := readValue_text v (comma ms.isEmpty ++ (members ms ++ 125 :: r)) fuel (by omega)
      (numeral_after (.inr rfl) hlast)
    have hms := readMembers_text ms r fuel (by omega)
    have hhead : (34 :: ((Bytes.cstr k).flatMap escape ++ 34 :: 58 :: (text decimal v ++
        (comma ms.isEmpty ++ members ms))) ++ 125 :: r).head? ≠ some 125 := by
      simp
    have hcomma := @afterComma_comma ms.isEmpty (members ms) r 125 (by decide) hlast
    rw [readMembers, if_neg hhead]
    simp only [List.cons_append, List.append_assoc, List.tail_cons, hk, Option.bind_some, hv,
      hcomma, hms]
    rfl
end

/-- An object without NULs in its strings and names is read back, whatever follows it. -/
theorem parseObject_text {ms : List (List UInt8 × Json)} (h : upToNul (obj ms) = obj ms)
    (r : List UInt8) : parseObject (text decimal (obj ms) ++ r) = some (obj ms) := by
  have hms : upToNulMembers ms = ms := obj.inj h
  have htail : (text decimal (obj ms) ++ r).tail = members ms ++ 125 :: r := by
    simp [text_members]
  have hread := readMembers_text ms r (text decimal (obj ms) ++ r).length (by simp [text_members])
  rw [parseObject, htail, hread, hms, Option.bind_some, if_pos]
  exact List.isPrefixOf_iff_prefix.mpr (List.prefix_append _ _)

/-- No proper prefix of an object's text is. -/
theorem parseObject_prefix {ms : List (List UInt8 × Json)} {p s : List UInt8} (hs : s ≠ [])
    (h : p ++ s = text decimal (obj ms)) : parseObject p = none := by
  cases hread : readMembers p.length p.tail with
  | none => rw [parseObject, hread, Option.bind_none]
  | some ks =>
    rw [parseObject, hread, Option.bind_some, if_neg]
    intro hprefix
    obtain ⟨r, hp⟩ := List.isPrefixOf_iff_prefix.mp hprefix
    rw [← hp, text_members, text_members, List.append_assoc, List.cons_append,
      List.append_assoc] at h
    have htail := (List.cons.inj h).2
    -- the text is read in two ways
    have hone := readMembers_text ks.1 (r ++ s) ((members ks.1).length + (members ms).length + 1)
      (by omega)
    have htwo := readMembers_text ms [] ((members ks.1).length + (members ms).length + 1)
      (by omega)
    rw [← List.singleton_append, htail, htwo] at hone
    have hnil : r ++ s = [] := (Prod.mk.inj (Option.some.inj hone)).2.symm
    exact hs (List.append_eq_nil_iff.mp hnil).2

end Json
