import Freak.Lib.Codecs
import Freak.Lib.JsonRead
import Freak.Proto.Records

/-! The websocket gateway: `__ws_recv` between the browser and `msgbox_do_forward`. -/
namespace Freak.Web

open Bytes Json Schema
open Freak.Proto (headerTy)

/-- What the gateway uses: the number formatter, the leaf codecs, `cJSON_Parse` of a C string and
`nnm_req_exchange` of a packet. -/
structure Gateway where
  numText : Int → List UInt8
  cs : Codecs
  parse : List UInt8 → Option Json
  exchange : List UInt8 → Option (List UInt8)

/-- `tmpbuf` and the reply buffer are this long. -/
def packageMaxsize : Nat := 2048

def keyOf (buf : List UInt8) : Nat := ofLe (slice buf 20 4)

def errcodeOf (buf : List UInt8) : Nat := ofLe (slice buf 28 1)

def formatOf (buf : List UInt8) : Nat := ofLe (slice buf 32 4)

def dataSize (buf : List UInt8) : Nat := ofLe (slice buf 36 2)

/-- `proto_header_dump` prints the data of a JSON packet up to its NUL. -/
def Dumps (buf : List UInt8) : Prop := formatOf buf = 1 → 0 ∈ buf.drop 38

instance (buf : List UInt8) : Decidable (Dumps buf) := by
  unfold Dumps
  infer_instance

/-- `int length` of a `size_t`. -/
def toInt (n : Nat) : Int := (n : Int).bmod (2 ^ 32)

namespace Gateway

variable (g : Gateway)

/-- The header that a request declares. -/
def header (inp : List UInt8) : List UInt8 :=
  headerTy.j2s g.cs (g.parse (cstr inp)) (List.replicate 40 0)

/-- `tmpbuf` with the request: `none` when `cJSON_Parse` or `memcpy` leaves its bounds. -/
def request (inp : List UInt8) : Option (List UInt8) :=
  if 0 ∈ inp then
    match store (List.replicate packageMaxsize 0) 0 (g.header inp) with
    | buf =>
      if dataSize buf ≤ inp.length ∧ 38 + dataSize buf ≤ packageMaxsize then
        some (store buf 38 (inp.drop (inp.length - dataSize buf)))
      else none
  else none

/-- `msgbox_do_forward` on `tmpbuf`: the table, the dumps, the bytes sent, the assertions and the
copy of the reply. Without a reply it does not return: `nn_recv` blocks, or `fatal` ends the
module. -/
def forward (buf : List UInt8) : Option (List UInt8) :=
  if keyOf buf < 7 ∧ Dumps buf ∧ dataSize buf + 40 ≤ packageMaxsize then
    match g.exchange (buf.take (dataSize buf + 40)) with
    | none => none
    | some out =>
      if 38 ≤ out.length ∧ Dumps out ∧ keyOf out = keyOf buf ∧ errcodeOf out = 0 ∧
          out.length ≤ packageMaxsize then some (store buf 0 out)
      else none
  else none

/-- The header of `tmpbuf` as it is printed. -/
def headerJson (buf : List UInt8) : Json := headerTy.s2j g.cs (buf.take 40)

def headerText (buf : List UInt8) : List UInt8 := text g.numText (g.headerJson buf)

/-- The reply buffer after the answer, and `*osize`. -/
def answer (isize : Nat) (buf obuf : List UInt8) : Option (List UInt8 × Nat) :=
  match (printPreallocated g.numText (toInt isize) (g.headerJson buf)).written with
  | written =>
    if written.length ≤ packageMaxsize then
      match store obuf 0 written with
      | obuf =>
        if 0 ∈ obuf ∧ 38 + dataSize buf ≤ packageMaxsize ∧
            strlen obuf + dataSize buf ≤ packageMaxsize then
          some (store obuf (strlen obuf) (slice buf 38 (dataSize buf)),
            strlen obuf + dataSize buf)
        else none
    else none

/-- `__ws_recv`. -/
def wsRecv (inp obuf : List UInt8) : Option (List UInt8 × Nat) :=
  (g.request inp).bind fun buf => (g.forward buf).bind fun buf => g.answer inp.length buf obuf

/-- The answer is the header's text and the data behind it, as long as the two. -/
def Complete (buf : List UInt8) (r : Option (List UInt8 × Nat)) : Prop :=
  ∃ obuf, r = some (obuf, (g.headerText buf).length + dataSize buf) ∧
    obuf.take ((g.headerText buf).length + dataSize buf) =
      g.headerText buf ++ slice buf 38 (dataSize buf)

variable {g} {inp req out buf obuf : List UInt8} {isize : Nat}

theorem length_header (h : g.cs.Lawful) (inp : List UInt8) : (g.header inp).length = 40 :=
  Ty.length_j2s h headerTy (by simp [headerTy, Ty.Sized, Fields.SizedMembers]) _ _
    (by decide)

theorem length_request (h : g.cs.Lawful) (hreq : g.request inp = some req) :
    req.length = packageMaxsize := by
  simp only [request] at hreq
  split_ifs at hreq with h0 hsize
  obtain rfl := Option.some.inj hreq
  have hbuf : (store (List.replicate packageMaxsize 0) 0 (g.header inp)).length =
      packageMaxsize := by
    rw [length_store (by rw [length_header h, List.length_replicate]; decide),
      List.length_replicate]
  rw [length_store, hbuf]
  rw [List.length_drop, hbuf]
  omega

theorem length_forward (hbuf : buf.length = packageMaxsize) (hout : g.forward buf = some out) :
    out.length = packageMaxsize := by
  simp only [forward] at hout
  split_ifs at hout with hc
  cases he : g.exchange (buf.take (dataSize buf + 40)) with
  | none =>
    rw [he] at hout
    cases hout
  | some r =>
    simp only [he] at hout
    split_ifs at hout with hr
    obtain rfl := Option.some.inj hout
    rw [length_store (by omega), hbuf]

theorem answer_spec {o : List UInt8} {n : Nat} (h : g.answer isize buf obuf = some (o, n)) :
    ∃ w, (printPreallocated g.numText (toInt isize) (g.headerJson buf)).written = w ∧
      w.length ≤ packageMaxsize ∧ 0 ∈ store obuf 0 w ∧
      strlen (store obuf 0 w) + dataSize buf ≤ packageMaxsize ∧
      n = strlen (store obuf 0 w) + dataSize buf := by
  simp only [answer] at h
  split_ifs at h with hw hc
  obtain ⟨-, rfl⟩ := Prod.mk.inj (Option.some.inj h)
  exact ⟨_, rfl, hw, hc.1, hc.2.2, rfl⟩

section Complete

variable (hnum : ∀ n, 0 ∉ g.numText n) (hbuf : buf.length = packageMaxsize)
  (hsize : 40 + dataSize buf ≤ packageMaxsize)
include hnum

/-- The header is printed whole. -/
theorem written_of_fits (h : ((g.headerText buf).length : Int) + 2 ≤ toInt isize) :
    (printPreallocated g.numText (toInt isize) (g.headerJson buf)).written =
      g.headerText buf ++ [0] := by
  obtain ⟨ms, hms⟩ : ∃ ms, g.headerJson buf = .obj ms := ⟨_, rfl⟩
  rw [headerText, hms] at h ⊢
  rw [print_obj_fits hnum h]
  rfl

theorem zero_notMem_headerText : 0 ∉ g.headerText buf := zero_notMem_text hnum _

include hbuf hsize

theorem complete_of_fits (h : ((g.headerText buf).length : Int) + 2 ≤ toInt isize)
    (hlt : (g.headerText buf).length < packageMaxsize)
    (hle : (g.headerText buf).length + dataSize buf ≤ packageMaxsize) :
    g.Complete buf (g.answer isize buf obuf) := by
  have h0 : 0 ∉ g.headerText buf := zero_notMem_headerText hnum
  have hstore : store obuf 0 (g.headerText buf ++ [0]) =
      g.headerText buf ++ 0 :: obuf.drop ((g.headerText buf).length + 1) := by
    rw [store_zero]
    simp
  have hlen : (slice buf 38 (dataSize buf)).length = dataSize buf := length_slice (by omega)
  have hanswer : g.answer isize buf obuf =
      some (store (g.headerText buf ++ 0 :: obuf.drop ((g.headerText buf).length + 1))
        (g.headerText buf).length (slice buf 38 (dataSize buf)),
        (g.headerText buf).length + dataSize buf) := by
    simp only [answer, written_of_fits hnum h, hstore, strlen_append h0]
    rw [if_pos (by simpa using hlt), if_pos ⟨by simp, by omega, hle⟩]
  refine ⟨_, hanswer, ?_⟩
  have htotal : (g.headerText buf ++ slice buf 38 (dataSize buf)).length =
      (g.headerText buf).length + dataSize buf := by
    rw [List.length_append, hlen]
  rw [store_after rfl, ← htotal, List.take_left]

/-- Whatever the reply buffer held, the answer is complete when the request was two bytes longer
than the header's text, and not otherwise. -/
theorem complete_answer_iff :
    (∀ obuf : List UInt8, obuf.length = packageMaxsize →
      g.Complete buf (g.answer isize buf obuf)) ↔
    ((g.headerText buf).length : Int) + 2 ≤ toInt isize ∧
      (g.headerText buf).length < packageMaxsize ∧
      (g.headerText buf).length + dataSize buf ≤ packageMaxsize := by
  have h0 : 0 ∉ g.headerText buf := zero_notMem_headerText hnum
  constructor
  · intro h
    obtain ⟨o, ho, -⟩ := h (List.replicate packageMaxsize 1) List.length_replicate
    obtain ⟨w, hw, hlen, hmem, hroom, hn⟩ := answer_spec ho
    by_cases hfit : ((g.headerText buf).length : Int) + 2 ≤ toInt isize
    · rw [written_of_fits hnum hfit] at hw
      subst hw
      rw [store_zero, List.append_assoc, List.singleton_append, strlen_append h0] at hroom
      rw [List.length_append, List.length_singleton] at hlen
      exact ⟨hfit, hlen, hroom⟩
    · exfalso
      obtain ⟨ms, hms⟩ : ∃ ms, g.headerJson buf = .obj ms := ⟨_, rfl⟩
      rw [headerText, hms] at hfit hn
      obtain ⟨-, s, hs, hcat⟩ := print_obj_cut hnum hfit
      have hz := zero_notMem_printed hnum (toInt isize) (.obj ms)
      rw [hms] at hw
      generalize printPreallocated g.numText (toInt isize) (.obj ms) = p at hw hcat hz
      have hpos : 0 < s.length := List.length_pos_iff.mpr hs
      have hlt := congrArg List.length hcat
      rw [List.length_append] at hlt
      subst hw
      cases hp : p.ends with
      | true =>
        rw [store_zero, Printed.written, hp, if_pos rfl, List.append_assoc,
          List.singleton_append, strlen_append hz] at hn
        omega
      | false =>
        rw [store_zero, Printed.written, hp] at hmem
        simp only [Bool.false_eq_true, if_false, List.append_nil, List.mem_append] at hmem
        rcases hmem with hmem | hmem
        · exact hz hmem
        · exact absurd (List.eq_of_mem_replicate (List.mem_of_mem_drop hmem)) (by decide)
  · rintro ⟨h, hlt, hle⟩ obuf -
    exact complete_of_fits hnum hbuf hsize h hlt hle

end Complete

/-- A reply comes through the gateway whole exactly when the request that it answers was long
enough for its header's text. -/
theorem gateway_complete_iff (hcs : g.cs.Lawful) (hnum : ∀ n, 0 ∉ g.numText n)
    (hreq : g.request inp = some req) (hout : g.forward req = some out)
    (hsize : 40 + dataSize out ≤ packageMaxsize) :
    (∀ obuf : List UInt8, obuf.length = packageMaxsize →
      g.Complete out (g.wsRecv inp obuf)) ↔
    ((g.headerText out).length : Int) + 2 ≤ toInt inp.length ∧
      (g.headerText out).length < packageMaxsize ∧
      (g.headerText out).length + dataSize out ≤ packageMaxsize := by
  have hlen : out.length = packageMaxsize := length_forward (length_request hcs hreq) hout
  have hrecv : ∀ obuf, g.wsRecv inp obuf = g.answer inp.length out obuf := by
    intro obuf
    rw [wsRecv, hreq, Option.bind_some, hout, Option.bind_some]
  rw [← complete_answer_iff hnum hlen hsize]
  exact forall_congr' fun obuf => by rw [hrecv]

/-- A header, and the text it has. -/
def sampleHeader (ts : Nat) : List UInt8 :=
  [1, 0, 0, 0, 0, 0, 0, 0] ++ le 8 ts ++ [0, 0, 0, 0] ++ le 4 3 ++ le 4 0 ++ [0, 0, 0, 0] ++
    le 4 0 ++ le 2 4

/-- How many OSD records there are. -/
def sampleRequest : List UInt8 :=
  text decimal (headerTy.s2j plain (sampleHeader 0 ++ [0, 0])) ++ le 4 0

/-- Sixteen, says the reply at a time. -/
def sample (ts : Nat) : Gateway where
  numText := decimal
  cs := plain
  parse t := if t = cstr sampleRequest then
    some (headerTy.s2j plain (sampleHeader 0 ++ [0, 0])) else none
  exchange _ := some (sampleHeader ts ++ le 4 16 ++ [0, 0])

theorem sample_forward (ts n : Nat) (h : (((sample ts).request sampleRequest).bind
    (sample ts).forward).map (fun out => (((sample ts).headerText out).length, dataSize out)) =
      some (n, 4)) :
    ∃ req out, (sample ts).request sampleRequest = some req ∧
      (sample ts).forward req = some out ∧ ((sample ts).headerText out).length = n ∧
      dataSize out = 4 := by
  obtain ⟨out, hout, hn⟩ := Option.map_eq_some_iff.mp h
  obtain ⟨req, hreq, hfwd⟩ := Option.bind_eq_some_iff.mp hout
  obtain ⟨hlen, hsize⟩ := Prod.mk.inj hn
  exact ⟨req, out, hreq, hfwd, hlen, hsize⟩

theorem length_sampleRequest : sampleRequest.length = 149 := by decide +kernel

theorem gateway_complete_now :
    ∃ out, ∀ obuf : List UInt8, obuf.length = packageMaxsize →
      (sample 0).Complete out ((sample 0).wsRecv sampleRequest obuf) := by
  obtain ⟨req, out, hreq, hout, hn, hs⟩ := sample_forward 0 145 (by decide +kernel)
  refine ⟨out, (gateway_complete_iff plain_lawful zero_notMem_decimal hreq hout ?_).mpr ?_⟩
  · rw [hs]
    decide
  · rw [hn, hs, length_sampleRequest]
    decide

/-- Seconds later the reply's header is longer than the request, and is cut. -/
theorem later_reply_cut :
    ¬ ∀ (g : Gateway) (inp req out obuf : List UInt8), g.cs.Lawful → (∀ n, 0 ∉ g.numText n) →
      g.request inp = some req → g.forward req = some out →
      40 + dataSize out ≤ packageMaxsize → obuf.length = packageMaxsize →
      g.Complete out (g.wsRecv inp obuf) := by
  intro h
  obtain ⟨req, out, hreq, hout, hn, hs⟩ := sample_forward 123456789 153 (by decide +kernel)
  have hsize : 40 + dataSize out ≤ packageMaxsize := by
    rw [hs]
    decide
  have hlen : out.length = packageMaxsize :=
    length_forward (length_request plain_lawful hreq) hout
  have hall := (complete_answer_iff zero_notMem_decimal hlen hsize).mp fun obuf ho => by
    have hc := h _ _ _ _ obuf plain_lawful zero_notMem_decimal hreq hout hsize ho
    rwa [wsRecv, hreq, Option.bind_some, hout, Option.bind_some] at hc
  rw [hn, length_sampleRequest] at hall
  exact absurd hall.1 (by decide)

end Gateway

end Freak.Web
