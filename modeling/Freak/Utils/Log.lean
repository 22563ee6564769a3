import Freak.Lib.JsonRead
import Freak.Lib.Printf

/-! A line of the log on its two ways out: `log_printf`, and `log_callback` of the log server. -/
namespace Freak.Utils.Log

open Bytes
open Json (decimal length_decimal zero_notMem_decimal)

/-- `log_lv_t`. -/
inductive Level
  | fatal
  | error
  | warn
  | info
  | trace
  | debug
deriving DecidableEq

/-- The enumeration's order. -/
def Level.toNat : Level → Nat
  | fatal => 0
  | error => 1
  | warn => 2
  | info => 3
  | trace => 4
  | debug => 5

/-- `LOG_DIR_LOCAL`. -/
def dirLocal : BitVec 32 := 1

/-- `LOG_DIR_REMOTE`. -/
def dirRemote : BitVec 32 := 4

/-- `s_level` and `s_dirmask`, and whether there is an `s_nnm`. -/
structure State where
  level : Level
  dirmask : BitVec 32
  nnm : Bool

/-- The time and the caller that a line begins with. -/
structure Header where
  sec : Int
  nsec : Nat
  pid : Int
  tid : Int
  sec_long : sec.natAbs ≤ 2 ^ 63
  nsec_lt : nsec < 10 ^ 9
  pid_int : pid.natAbs ≤ 2 ^ 31
  tid_long : tid.natAbs ≤ 2 ^ 63

/-- `%09ld` of a number without a sign. -/
def padded (n : Nat) : List UInt8 :=
  List.replicate (9 - (decimal n).length) 48 ++ decimal n

/-- `LOG_CLR_NONE"%ld.%09ld [%d-%ld]"`. -/
def Header.text (h : Header) : List UInt8 :=
  ascii "\x1b[m" ++ (decimal h.sec ++ (ascii "." ++ (padded h.nsec ++ (ascii " [" ++
    (decimal h.pid ++ (ascii "-" ++ (decimal h.tid ++ ascii "]")))))))

/-- What a format comes to: a text, or a failure that leaves something in the buffer. -/
inductive Formatted
  | text (t : List UInt8)
  | failed (left : List UInt8)

namespace Formatted

/-- What `vsnprintf` returns: the length of the whole text, if it is an `int`. -/
def ret : Formatted → Int
  | text t => if t.length < 2 ^ 31 then t.length else -1
  | failed _ => -1

/-- `vsnprintf(&buf[n], size, ..)`. -/
def print (buf : List UInt8) (n size : Nat) : Formatted → List UInt8
  | text t => buf.take n ++ snprintf (buf.drop n) size t
  | failed left => store buf n (left.take size)

end Formatted

/-- `sizeof(buf)`. -/
def sizeofBuf : Nat := 2048

/-- `puts`, which has no result without a NUL. -/
def puts (bs : List UInt8) : Option (List UInt8) := if 0 ∈ bs then some (cstr bs ++ [10]) else none

/-- What the log server prints of a message. -/
def logCallback (buf : List UInt8) : Option (List UInt8) := puts buf

/-- `nnm_push_send`: what is given to `nn_send`, if anything. Past the end of the buffer there is
no result. -/
def nnmPushSend (nnm : Bool) (buf : List UInt8) (len : Nat) : Option (Option (List UInt8)) :=
  if nnm = false ∨ len = 0 then some none
  else if len ≤ buf.length then some (some (buf.take len))
  else none

/-- What a call leaves in its buffer, prints, sends and returns. -/
structure Outcome where
  buf : List UInt8
  printed : Option (List UInt8)
  sent : Option (List UInt8)
  ret : Int

section

variable (s : State) (h : Header) (level : Level) (f : Formatted) (junk : List UInt8)

/-- `n`, before it is known to be an `int`. -/
def count : Int := h.text.length + f.ret

/-- `buf`, in whose place there was `junk`. -/
def buffer : List UInt8 :=
  store (f.print (snprintf junk sizeofBuf h.text) h.text.length (sizeofBuf - h.text.length))
    (sizeofBuf - 1) [0]

/-- The line on the standard output. -/
def localSink (buf : List UInt8) : Option (Option (List UInt8)) :=
  if s.dirmask &&& dirLocal ≠ 0 then some <$> puts buf else some none

def remoteSink (buf : List UInt8) (len : Nat) : Option (Option (List UInt8)) :=
  if s.dirmask &&& dirRemote ≠ 0 then nnmPushSend s.nnm buf len else some none

def logPrintf : Option Outcome :=
  if s.level.toNat < level.toNat then some ⟨junk, none, none, 0⟩
  else if count h f + 1 < 2 ^ 31 then do
    let printed ← localSink s (buffer h f junk)
    let sent ← remoteSink s (buffer h f junk) (count h f + 1).toNat
    pure ⟨buffer h f junk, printed, sent, count h f + 1⟩
  -- `n + 1` overflows
  else none

/-- What is sent is in the buffer, the same whatever the buffer held before, and ends with its
first NUL; the log server prints of it what the buffer prints, and so what the call printed. -/
def SinksAgree : Prop :=
  ∃ sent, ∀ junk, junk.length = sizeofBuf → ∃ out, logPrintf s h level f junk = some out ∧
    out.sent = sent ∧ ∀ msg, sent = some msg →
      msg.length ≤ sizeofBuf ∧ msg <+: out.buf ∧ msg = cstr msg ++ [0] ∧
      (∃ line, logCallback msg = some line ∧ puts out.buf = some line) ∧
      ∀ line, out.printed = some line → logCallback msg = some line

/-- The line is sent, if its level is not left out. -/
def Remote : Prop := s.dirmask &&& dirRemote ≠ 0 ∧ s.nnm = true

instance : Decidable (Remote s) := inferInstanceAs (Decidable (_ ∧ _))

end

variable {s : State} {h : Header} {level : Level} {f : Formatted} {junk t : List UInt8}

theorem length_padded {n : Nat} (hn : n < 10 ^ 9) : (padded n).length ≤ 10 := by
  have hlen : (decimal n).length ≤ 10 := length_decimal (by decide) hn
  rw [padded, List.length_append, List.length_replicate]
  omega

theorem zero_notMem_padded (n : Nat) : 0 ∉ padded n := by
  rw [padded, List.mem_append, not_or]
  exact ⟨fun h => absurd (List.eq_of_mem_replicate h) (by decide), zero_notMem_decimal n⟩

/-- The header is a small part of the buffer. -/
theorem Header.length_text (h : Header) : 0 < h.text.length ∧ h.text.length ≤ 78 := by
  have hsec : (decimal h.sec).length ≤ 20 :=
    length_decimal (by decide) (h.sec_long.trans_lt (by decide))
  have hnsec := length_padded h.nsec_lt
  have hpid : (decimal h.pid).length ≤ 20 :=
    length_decimal (by decide) (h.pid_int.trans_lt (by decide))
  have htid : (decimal h.tid).length ≤ 20 :=
    length_decimal (by decide) (h.tid_long.trans_lt (by decide))
  simp only [text, List.length_append, ascii, List.length_map, String.reduceToList,
    List.length_cons, List.length_nil]
  omega

theorem Header.zero_notMem_text (h : Header) : 0 ∉ h.text := by
  simp only [text, List.mem_append, zero_notMem_decimal, zero_notMem_padded, false_or]
  decide

/-- What the header leaves in the buffer. -/
theorem snprintf_header (h : Header) (junk : List UInt8) :
    snprintf junk sizeofBuf h.text = h.text ++ 0 :: junk.drop (h.text.length + 1) := by
  have htake : h.text.take (sizeofBuf - 1) = h.text :=
    List.take_of_length_le (h.length_text.2.trans (by decide))
  rw [snprintf_eq (by decide), htake]

theorem length_print (hj : junk.length = sizeofBuf) :
    (f.print (snprintf junk sizeofBuf h.text) h.text.length
      (sizeofBuf - h.text.length)).length = sizeofBuf := by
  have hlen : (snprintf junk sizeofBuf h.text).length = junk.length := length_snprintf hj.ge
  have hle : h.text.length ≤ sizeofBuf := h.length_text.2.trans (by decide)
  cases f with
  | text t =>
    have hdrop : (snprintf ((snprintf junk sizeofBuf h.text).drop h.text.length)
        (sizeofBuf - h.text.length) t).length = sizeofBuf - h.text.length := by
      rw [length_snprintf, List.length_drop, hlen, hj]
      rw [List.length_drop, hlen, hj]
    rw [Formatted.print, List.length_append, hdrop, List.length_take, hlen, hj]
    omega
  | failed left =>
    rw [Formatted.print, length_store, hlen, hj]
    rw [List.length_take, hlen, hj]
    omega

theorem length_buffer (hj : junk.length = sizeofBuf) : (buffer h f junk).length = sizeofBuf := by
  have hlen := length_print (h := h) (f := f) hj
  rw [buffer, length_store (by rw [hlen]; decide), hlen]

/-- The header is at the front of the buffer, whatever is printed after it. -/
theorem take_buffer (hj : junk.length = sizeofBuf) :
    (buffer h f junk).take h.text.length = h.text := by
  have hlen := length_print (h := h) (f := f) hj
  have hle : h.text.length ≤ sizeofBuf - 1 := h.length_text.2.trans (by decide)
  have hstore : slice (buffer h f junk) 0 h.text.length =
      slice (f.print (snprintf junk sizeofBuf h.text) h.text.length
        (sizeofBuf - h.text.length)) 0 h.text.length :=
    slice_store_before (by omega) (by rw [hlen]; decide)
  rw [slice, slice, List.drop_zero, List.drop_zero] at hstore
  rw [hstore, snprintf_header]
  cases f with
  | text t => simp [Formatted.print]
  | failed left => simp [Formatted.print, store]

/-- A text with room for it follows the header, and a NUL follows the text. -/
theorem buffer_text (junk : List UInt8) (hfit : h.text.length + t.length < sizeofBuf) :
    ∃ r, buffer h (.text t) junk = h.text ++ t ++ 0 :: r := by
  have hprint : ∃ r, Formatted.print (snprintf junk sizeofBuf h.text) h.text.length
      (sizeofBuf - h.text.length) (.text t) = h.text ++ t ++ 0 :: r := by
    have htake : t.take (sizeofBuf - h.text.length - 1) = t :=
      List.take_of_length_le (by omega)
    rw [Formatted.print, snprintf_header, List.take_left, List.drop_left,
      snprintf_eq (by omega), htake]
    exact ⟨_, (List.append_assoc ..).symm⟩
  obtain ⟨r, hr⟩ := hprint
  rw [buffer, hr]
  apply store_nul
  rw [List.length_append]
  omega

theorem zero_mem_buffer : 0 ∈ buffer h f junk := by
  rw [buffer, store, List.mem_append, List.mem_append]
  exact Or.inl (Or.inr List.mem_cons_self)

theorem puts_eq_some {bs : List UInt8} (hbs : 0 ∈ bs) : puts bs = some (cstr bs ++ [10]) :=
  if_pos hbs

theorem count_pos (h : Header) (f : Formatted) : 0 < count h f + 1 := by
  have hret : -1 ≤ f.ret := by
    cases f with
    | text t =>
      rw [Formatted.ret]
      split_ifs <;> omega
    | failed left => exact le_rfl
  have hlen := h.length_text.1
  rw [count]
  omega

theorem localSink_eq {buf : List UInt8} (h0 : 0 ∈ buf) : localSink s buf =
    some (if s.dirmask &&& dirLocal ≠ 0 then puts buf else none) := by
  rw [localSink, puts_eq_some h0]
  split_ifs <;> rfl

theorem remoteSink_eq {buf : List UInt8} {len : Nat} (hlen : 0 < len) : remoteSink s buf len =
    if Remote s then (if len ≤ buf.length then some (some (buf.take len)) else none)
    else some none := by
  rw [remoteSink, nnmPushSend]
  by_cases hmask : s.dirmask &&& dirRemote ≠ 0
  · have hr : Remote s ↔ s.nnm = true := and_iff_right hmask
    simp only [if_pos hmask, hr]
    cases s.nnm <;> simp [hlen.ne']
  · rw [if_neg hmask, if_neg fun h => hmask h.1]

/-- What a call makes of its buffer, unless it sends more than is there or `n + 1` overflows. -/
theorem logPrintf_eq_some {out : Outcome} (hlevel : ¬ s.level.toNat < level.toNat)
    (hj : junk.length = sizeofBuf) : logPrintf s h level f junk = some out ↔
      count h f + 1 < 2 ^ 31 ∧ (Remote s → count h f + 1 ≤ sizeofBuf) ∧
      out = ⟨buffer h f junk,
        if s.dirmask &&& dirLocal ≠ 0 then puts (buffer h f junk) else none,
        if Remote s then some ((buffer h f junk).take (count h f + 1).toNat) else none,
        count h f + 1⟩ := by
  have hlen := length_buffer (h := h) (f := f) hj
  have hpos := count_pos h f
  rw [logPrintf, if_neg hlevel]
  by_cases hint : count h f + 1 < 2 ^ 31
  · rw [if_pos hint, and_iff_right hint, localSink_eq zero_mem_buffer,
      remoteSink_eq (Int.lt_toNat.mpr hpos), hlen]
    have hroom : (count h f + 1).toNat ≤ sizeofBuf ↔ count h f + 1 ≤ sizeofBuf := by omega
    by_cases hr : Remote s
    · by_cases hfit : count h f + 1 ≤ sizeofBuf
      · simp [hr, hfit, hroom, eq_comm]
      · simp [hr, hfit, hroom]
    · simp [hr, eq_comm]
  · rw [if_neg hint]
    exact iff_of_false nofun fun h => hint h.1

theorem count_text (hfit : h.text.length + t.length < sizeofBuf) :
    count h (.text t) + 1 = (h.text ++ t ++ [0]).length := by
  have hret : Formatted.ret (.text t) = t.length := by
    rw [sizeofBuf] at hfit
    exact if_pos (by omega)
  rw [count, hret]
  simp [add_assoc]

/-- What is sent of a text with room for it: the line with its NUL. -/
theorem take_buffer_text (junk : List UInt8) (hfit : h.text.length + t.length < sizeofBuf) :
    (buffer h (.text t) junk).take (count h (.text t) + 1).toNat = h.text ++ t ++ [0] := by
  obtain ⟨r, hr⟩ := buffer_text junk hfit
  rw [count_text hfit, Int.toNat_natCast, hr, List.append_cons (h.text ++ t) 0 r, List.take_left]

/-- What is sent after a failure: the header, without a NUL. -/
theorem take_buffer_failed (hj : junk.length = sizeofBuf) (hret : f.ret = -1) :
    (buffer h f junk).take (count h f + 1).toNat = h.text := by
  have hcount : (count h f + 1).toNat = h.text.length := by
    rw [count, hret]
    omega
  rw [hcount, take_buffer hj]

theorem text_of_ret (hret : f.ret ≠ -1) : ∃ t, f = .text t ∧ f.ret = t.length := by
  cases f with
  | failed left => exact absurd rfl hret
  | text t =>
    refine ⟨t, rfl, ?_⟩
    rw [Formatted.ret] at hret ⊢
    exact if_pos (by_contra fun h => hret (if_neg h))

/-- A line that is sent has its text whole, and no NUL in it. -/
theorem fits_of_sinksAgree (hlevel : ¬ s.level.toNat < level.toNat) (hr : Remote s)
    (hs : SinksAgree s h level f) :
    ∃ t, f = .text t ∧ 0 ∉ t ∧ h.text.length + t.length < sizeofBuf := by
  obtain ⟨sent, hs⟩ := hs
  have hj : (List.replicate sizeofBuf (0 : UInt8)).length = sizeofBuf := List.length_replicate
  obtain ⟨out, hout, hsent, hmsg⟩ := hs _ hj
  obtain ⟨-, hroom, rfl⟩ := (logPrintf_eq_some hlevel hj).mp hout
  rw [if_pos hr] at hsent
  obtain ⟨-, -, hnul, -⟩ := hmsg _ hsent.symm
  have hret : f.ret ≠ -1 := by
    intro hret
    rw [take_buffer_failed hj hret] at hnul
    apply h.zero_notMem_text
    rw [hnul]
    exact List.mem_append_right _ List.mem_cons_self
  obtain ⟨t, rfl, hret⟩ := text_of_ret hret
  have hfit : h.text.length + t.length < sizeofBuf := by
    have hle := hroom hr
    rw [count, hret] at hle
    omega
  refine ⟨t, rfl, fun h0 => ?_, hfit⟩
  rw [take_buffer_text _ hfit, List.append_left_inj] at hnul
  apply zero_notMem_cstr (h.text ++ t ++ [0])
  rw [← hnul]
  exact List.mem_append_right _ h0

theorem zero_notMem_line (h : Header) (ht : 0 ∉ t) : 0 ∉ h.text ++ t := by
  rw [List.mem_append, not_or]
  exact ⟨h.zero_notMem_text, ht⟩

/-- What the local sink prints of a text with room for it. -/
theorem puts_buffer_text (junk : List UInt8) (ht : 0 ∉ t)
    (hfit : h.text.length + t.length < sizeofBuf) :
    puts (buffer h (.text t) junk) = some (h.text ++ t ++ [10]) := by
  obtain ⟨r, hr⟩ := buffer_text junk hfit
  rw [puts_eq_some zero_mem_buffer, hr, cstr_append (zero_notMem_line h ht)]

/-- What the log server prints of a line with its NUL. -/
theorem logCallback_line (h : Header) (ht : 0 ∉ t) :
    logCallback (h.text ++ t ++ [0]) = some (h.text ++ t ++ [10]) := by
  have h0 : 0 ∈ h.text ++ t ++ [0] := List.mem_append_right _ List.mem_cons_self
  rw [logCallback, puts_eq_some h0, cstr_append (zero_notMem_line h ht)]

/-- Both sinks have the line when the text is whole. -/
theorem sinksAgree_of_fits (hlevel : ¬ s.level.toNat < level.toNat) (ht : 0 ∉ t)
    (hfit : h.text.length + t.length < sizeofBuf) : SinksAgree s h level (.text t) := by
  have hlen : (h.text ++ t ++ [0]).length ≤ sizeofBuf := by
    simp only [List.length_append, List.length_singleton]
    omega
  refine ⟨if Remote s then some (h.text ++ t ++ [0]) else none, fun junk hj => ?_⟩
  have hcount := count_text hfit
  have hputs := puts_buffer_text junk ht hfit
  have hcallback := logCallback_line h ht
  refine ⟨_, (logPrintf_eq_some hlevel hj).mpr ⟨?_, fun _ => ?_, rfl⟩, ?_, fun msg hmsg => ?_⟩
  · rw [hcount]
    rw [sizeofBuf] at hlen
    omega
  · rw [hcount]
    exact_mod_cast hlen
  · simp only [take_buffer_text junk hfit]
  · obtain ⟨-, rfl⟩ : Remote s ∧ h.text ++ t ++ [0] = msg := by simpa using hmsg
    refine ⟨hlen, ?_, ?_, ⟨_, hcallback, hputs⟩, fun line hprinted => ?_⟩
    · rw [← take_buffer_text junk hfit]
      exact List.take_prefix _ _
    · rw [cstr_append (zero_notMem_line h ht)]
    · simp only [hputs, Option.ite_none_right_eq_some] at hprinted
      exact hcallback.trans hprinted.2

/-- A line that is not sent has only its length to be an `int`. -/
theorem sinksAgree_of_not_remote (hlevel : ¬ s.level.toNat < level.toNat) (hr : ¬ Remote s) :
    SinksAgree s h level f ↔ count h f + 1 < 2 ^ 31 := by
  constructor
  · rintro ⟨sent, hs⟩
    have hj : (List.replicate sizeofBuf (0 : UInt8)).length = sizeofBuf := List.length_replicate
    obtain ⟨out, hout, -⟩ := hs _ hj
    exact ((logPrintf_eq_some hlevel hj).mp hout).1
  · refine fun hint => ⟨none, fun junk hj => ?_⟩
    exact ⟨_, (logPrintf_eq_some hlevel hj).mpr ⟨hint, fun h => absurd h hr, rfl⟩, if_neg hr, nofun⟩

/-- The two sinks have the same line exactly when the level is left out, or nothing is sent, or the
text has no NUL and fits the buffer behind the header. -/
theorem logPrintf_sinks_iff : SinksAgree s h level f ↔ s.level.toNat < level.toNat ∨
    (¬ Remote s ∧ count h f + 1 < 2 ^ 31) ∨
    ∃ t, f = .text t ∧ 0 ∉ t ∧ h.text.length + t.length < sizeofBuf := by
  by_cases hlevel : s.level.toNat < level.toNat
  · refine iff_of_true ⟨none, fun junk _ => ?_⟩ (Or.inl hlevel)
    exact ⟨_, if_pos hlevel, rfl, nofun⟩
  · rw [or_iff_right hlevel]
    constructor
    · intro hs
      by_cases hr : Remote s
      · exact Or.inr (fits_of_sinksAgree hlevel hr hs)
      · exact Or.inl ⟨hr, (sinksAgree_of_not_remote hlevel hr).mp hs⟩
    · rintro (⟨hr, hint⟩ | ⟨t, rfl, ht, hfit⟩)
      · exact (sinksAgree_of_not_remote hlevel hr).mpr hint
      · exact sinksAgree_of_fits hlevel ht hfit

/-- After `log_setdir(LOG_DIR_LOCAL | LOG_DIR_REMOTE)`. -/
def bothSinks : State := ⟨.info, 5, true⟩

def sampleHeader : Header := ⟨5, 70, 812, 815, by decide, by decide, by decide, by decide⟩

/-- A text as long as the buffer: more is sent than the buffer has. -/
theorem logPrintf_sinks_not : ¬ SinksAgree bothSinks sampleHeader .info
    (.text (List.replicate sizeofBuf 97)) := by
  intro hs
  obtain ⟨t, ht, -, hfit⟩ := fits_of_sinksAgree (by decide) (by decide) hs
  obtain rfl := Formatted.text.inj ht
  rw [List.length_replicate] at hfit
  omega

end Freak.Utils.Log
