import Freak.Web.Gateway

/-! The buffers of the websocket gateway, whatever the browser sends. -/
namespace Freak.Web

open Bytes Json Schema
open Freak.Proto (headerTy)

namespace Gateway

variable (g : Gateway)

/-- The size that the request's header declares. -/
def declared (inp : List UInt8) : Nat := dataSize (g.header inp)

/-- `tmpbuf` with the request's header and body. -/
def tmpbuf (inp : List UInt8) : List UInt8 :=
  store (store (List.replicate packageMaxsize 0) 0 (g.header inp)) 38
    (inp.drop (inp.length - g.declared inp))

/-- A request that the gateway can take: a C string, no shorter than the body it declares, with
room for the body and for a known module. -/
structure Accepts (inp : List UInt8) : Prop where
  ends : 0 ∈ inp
  sent : g.declared inp ≤ inp.length
  fits : g.declared inp + 40 ≤ packageMaxsize
  key : keyOf (g.header inp) < 7

/-- What the module answers. -/
def reply (inp : List UInt8) : Option (List UInt8) :=
  g.exchange ((g.tmpbuf inp).take (g.declared inp + 40))

/-- A reply that the gateway can take: the requested module's, without an error. -/
structure Replied (inp out : List UInt8) : Prop where
  header : 38 ≤ out.length
  dumps : Dumps out
  key : keyOf out = keyOf (g.header inp)
  errcode : errcodeOf out = 0
  fits : out.length ≤ packageMaxsize

/-- `tmpbuf` after the exchange. -/
def after (inp out : List UInt8) : List UInt8 := store (g.tmpbuf inp) 0 out

/-- The header of a packet, printed up to `isize` bytes. -/
def printed (isize : Nat) (buf : List UInt8) : Printed :=
  printPreallocated g.numText (toInt isize) (g.headerJson buf)

/-- A packet that the reply buffer holds: what is printed of its header ends, there or in the bytes
of an earlier answer, and there is room for the data behind. -/
structure Holds (isize : Nat) (buf obuf : List UInt8) : Prop where
  room : (g.printed isize buf).written.length ≤ packageMaxsize
  ends : (g.printed isize buf).ends = true ∨ 0 ∈ obuf.drop (g.printed isize buf).text.length
  data : 38 + dataSize buf ≤ packageMaxsize
  fits : (g.printed isize buf).text.length + (if (g.printed isize buf).ends = true then 0 else
    strlen (obuf.drop (g.printed isize buf).text.length)) + dataSize buf ≤ packageMaxsize

variable {g} {inp out buf obuf : List UInt8} {isize : Nat}

section Request

variable (hcs : g.cs.Lawful)
include hcs

theorem length_headed (inp : List UInt8) :
    (store (List.replicate packageMaxsize 0) 0 (g.header inp)).length = packageMaxsize := by
  rw [length_store, List.length_replicate]
  rw [length_header hcs, List.length_replicate]
  decide

theorem slice_headed {b n : Nat} (h : b + n ≤ 40) :
    slice (store (List.replicate packageMaxsize 0) 0 (g.header inp)) b n =
      slice (g.header inp) b n :=
  slice_store_zero (by rw [length_header hcs]; exact h)

theorem request_eq (inp : List UInt8) : g.request inp =
    if 0 ∈ inp ∧ g.declared inp ≤ inp.length ∧ 38 + g.declared inp ≤ packageMaxsize then
      some (g.tmpbuf inp) else none := by
  have hsize : dataSize (store (List.replicate packageMaxsize 0) 0 (g.header inp)) =
      g.declared inp := by
    rw [dataSize, slice_headed hcs (by decide)]
    rfl
  simp only [request, hsize]
  split_ifs with h0 h1 h2 h2 h2
  · rfl
  · exact absurd ⟨h0, h1⟩ h2
  · exact absurd h2.2 h1
  · rfl
  · exact absurd h2.1 h0
  · rfl

/-- The body leaves the header as it is. -/
theorem slice_tmpbuf {b n : Nat} (h : b + n ≤ 38) :
    slice (g.tmpbuf inp) b n = slice (g.header inp) b n := by
  rw [tmpbuf, slice_store_before h, slice_headed hcs (by omega)]
  rw [length_headed hcs]
  decide

theorem keyOf_tmpbuf (inp : List UInt8) : keyOf (g.tmpbuf inp) = keyOf (g.header inp) := by
  rw [keyOf, slice_tmpbuf hcs (by decide), keyOf]

theorem dataSize_tmpbuf (inp : List UInt8) : dataSize (g.tmpbuf inp) = g.declared inp := by
  rw [dataSize, slice_tmpbuf hcs (by decide), declared, dataSize]

/-- Behind the body `tmpbuf` is as it was allocated. -/
theorem dumps_tmpbuf (h : g.Accepts inp) : Dumps (g.tmpbuf inp) := by
  intro
  have hsent := h.sent
  have hfits := h.fits
  have hhead := length_headed hcs inp
  have hbody : (inp.drop (inp.length - g.declared inp)).length = g.declared inp := by
    rw [List.length_drop]
    omega
  have hdrop : (g.tmpbuf inp).drop 38 = inp.drop (inp.length - g.declared inp) ++
      (store (List.replicate packageMaxsize 0) 0 (g.header inp)).drop (38 + g.declared inp) := by
    rw [tmpbuf, store, List.append_assoc, List.drop_left' (by
      rw [List.length_take, hhead]
      decide), hbody]
  have hzero : (0 : UInt8) ∈
      (List.replicate packageMaxsize (0 : UInt8)).drop (40 + (g.declared inp - 2)) := by
    rw [List.drop_replicate]
    apply List.mem_replicate.mpr ⟨_, rfl⟩
    simp only [packageMaxsize] at hfits ⊢
    omega
  rw [hdrop, store_zero, length_header hcs, List.drop_append, length_header hcs, List.drop_drop]
  apply List.mem_append_right
  apply List.mem_append_right
  rwa [show 38 + g.declared inp - 40 = g.declared inp - 2 by omega]

end Request

theorem forward_tmpbuf (hcs : g.cs.Lawful) (inp : List UInt8) : g.forward (g.tmpbuf inp) =
    if keyOf (g.header inp) < 7 ∧ Dumps (g.tmpbuf inp) ∧
        g.declared inp + 40 ≤ packageMaxsize then
      match g.reply inp with
      | none => none
      | some out =>
        if 38 ≤ out.length ∧ Dumps out ∧ keyOf out = keyOf (g.header inp) ∧ errcodeOf out = 0 ∧
            out.length ≤ packageMaxsize then some (g.after inp out)
        else none
    else none := by
  rw [forward, keyOf_tmpbuf hcs, dataSize_tmpbuf hcs]
  rfl

/-- The gateway takes the requests that are in order and are answered, in order, and no others. -/
theorem forwarded_iff (hcs : g.cs.Lawful) :
    (g.request inp).bind g.forward = some buf ↔
      g.Accepts inp ∧
        ∃ out, g.reply inp = some out ∧ g.Replied inp out ∧ buf = g.after inp out := by
  rw [request_eq hcs]
  constructor
  · intro h
    obtain ⟨req, hreq, hfwd⟩ := Option.bind_eq_some_iff.mp h
    split_ifs at hreq with hr
    obtain rfl := Option.some.inj hreq
    rw [forward_tmpbuf hcs] at hfwd
    split_ifs at hfwd with hf
    refine ⟨⟨hr.1, hr.2.1, hf.2.2, hf.1⟩, ?_⟩
    cases hrep : g.reply inp with
    | none =>
      rw [hrep] at hfwd
      cases hfwd
    | some out =>
      simp only [hrep] at hfwd
      split_ifs at hfwd with ho
      exact ⟨out, rfl, ⟨ho.1, ho.2.1, ho.2.2.1, ho.2.2.2.1, ho.2.2.2.2⟩,
        (Option.some.inj hfwd).symm⟩
  · rintro ⟨hacc, out, hrep, ho, rfl⟩
    have hfits := hacc.fits
    rw [if_pos ⟨hacc.ends, hacc.sent, by omega⟩, Option.bind_some, forward_tmpbuf hcs,
      if_pos ⟨hacc.key, dumps_tmpbuf hcs hacc, hfits⟩, hrep]
    exact if_pos ⟨ho.header, ho.dumps, ho.key, ho.errcode, ho.fits⟩

/-- What the gateway answers, by what it prints of the header. -/
theorem answer_eq : g.answer isize buf obuf =
    if (g.printed isize buf).written.length ≤ packageMaxsize then
      if 0 ∈ store obuf 0 (g.printed isize buf).written ∧ 38 + dataSize buf ≤ packageMaxsize ∧
          strlen (store obuf 0 (g.printed isize buf).written) + dataSize buf ≤ packageMaxsize then
        some (store (store obuf 0 (g.printed isize buf).written)
          (strlen (store obuf 0 (g.printed isize buf).written)) (slice buf 38 (dataSize buf)),
          strlen (store obuf 0 (g.printed isize buf).written) + dataSize buf)
      else none
    else none := rfl

section Answer

variable (hnum : ∀ n, 0 ∉ g.numText n)
include hnum

theorem strlen_store_printed : strlen (store obuf 0 (g.printed isize buf).written) =
    (g.printed isize buf).text.length + (if (g.printed isize buf).ends = true then 0 else
      strlen (obuf.drop (g.printed isize buf).text.length)) := by
  have hz : 0 ∉ (g.printed isize buf).text := zero_notMem_printed hnum _ _
  rw [store_zero, Printed.written]
  cases hends : (g.printed isize buf).ends with
  | true =>
    rw [if_pos rfl, if_pos rfl, List.append_assoc, List.singleton_append, strlen_append hz,
      Nat.add_zero]
  | false =>
    rw [if_neg Bool.false_ne_true, if_neg Bool.false_ne_true, List.append_nil,
      strlen_append_notMem hz]

theorem zero_mem_store_printed : 0 ∈ store obuf 0 (g.printed isize buf).written ↔
    (g.printed isize buf).ends = true ∨ 0 ∈ obuf.drop (g.printed isize buf).text.length := by
  have hz : 0 ∉ (g.printed isize buf).text := zero_notMem_printed hnum _ _
  rw [store_zero, Printed.written]
  cases (g.printed isize buf).ends with
  | true => simp
  | false => simp [hz]

theorem answered_iff : (g.answer isize buf obuf).isSome ↔ g.Holds isize buf obuf := by
  have hmem := @zero_mem_store_printed g buf obuf isize hnum
  have hlen := @strlen_store_printed g buf obuf isize hnum
  constructor
  · intro h
    obtain ⟨⟨o, n⟩, ho⟩ := Option.isSome_iff_exists.mp h
    rw [answer_eq] at ho
    split_ifs at ho with hw hc
    refine ⟨hw, hmem.mp hc.1, hc.2.1, ?_⟩
    rw [← hlen]
    exact hc.2.2
  · intro h
    rw [answer_eq, if_pos h.room, if_pos ⟨hmem.mpr h.ends, h.data, by rw [hlen]; exact h.fits⟩]
    exact Option.isSome_some

end Answer

/-- A header that is printed whole, and room for it and the data. -/
theorem holds_of_fits (hnum : ∀ n, 0 ∉ g.numText n)
    (h : ((g.headerText buf).length : Int) + 2 ≤ toInt isize)
    (hroom : (g.headerText buf).length + 1 ≤ packageMaxsize)
    (hdata : 38 + dataSize buf ≤ packageMaxsize)
    (hfits : (g.headerText buf).length + dataSize buf ≤ packageMaxsize) :
    g.Holds isize buf obuf := by
  have hp : g.printed isize buf = ⟨true, g.headerText buf, true⟩ := print_obj_fits hnum h
  constructor
  · rw [hp, Printed.written, if_pos rfl, List.length_append]
    exact hroom
  · rw [hp]
    exact Or.inl rfl
  · exact hdata
  · rw [hp, if_pos rfl]
    exact hfits

/-- The gateway stays in its buffers and returns exactly when the request is in order, the module
answers, in order, and the reply buffer holds the answer. -/
theorem gateway_safe_iff (hcs : g.cs.Lawful) (hnum : ∀ n, 0 ∉ g.numText n) :
    (g.wsRecv inp obuf).isSome ↔
      g.Accepts inp ∧ ∃ out, g.reply inp = some out ∧ g.Replied inp out ∧
        g.Holds inp.length (g.after inp out) obuf := by
  rw [wsRecv, ← Option.bind_assoc]
  constructor
  · intro h
    obtain ⟨r, hr⟩ := Option.isSome_iff_exists.mp h
    obtain ⟨buf, hbuf, hans⟩ := Option.bind_eq_some_iff.mp hr
    obtain ⟨hacc, out, hrep, ho, rfl⟩ := (forwarded_iff hcs).mp hbuf
    exact ⟨hacc, out, hrep, ho, (answered_iff hnum).mp (Option.isSome_iff_exists.mpr ⟨r, hans⟩)⟩
  · rintro ⟨hacc, out, hrep, ho, hholds⟩
    rw [(forwarded_iff hcs).mpr ⟨hacc, out, hrep, ho, rfl⟩, Option.bind_some]
    exact (answered_iff hnum).mpr hholds

theorem gateway_safe_num :
    ((sample 0).wsRecv sampleRequest (List.replicate packageMaxsize 0)).isSome := by
  obtain ⟨req, _, hreq, hfwd, hn, hs⟩ := sample_forward 0 145 (by decide +kernel)
  obtain ⟨hacc, out, hrep, ho, rfl⟩ := (forwarded_iff plain_lawful).mp
    (Option.bind_eq_some_iff.mpr ⟨req, hreq, hfwd⟩)
  refine (gateway_safe_iff plain_lawful zero_notMem_decimal).mpr ⟨hacc, out, hrep, ho, ?_⟩
  apply holds_of_fits zero_notMem_decimal
  · rw [hn, length_sampleRequest]
    decide
  · rw [hn]
    decide
  · rw [hs]
    decide
  · rw [hn, hs]
    decide

/-- A header alone, that declares as much data as its field can say. -/
def boastHeader : Json :=
  headerTy.s2j plain ((sampleHeader 0).take 36 ++ le 2 65535 ++ [0, 0])

def boast : List UInt8 := text decimal boastHeader ++ [0]

/-- The body would begin before the request does, however well the module answers. -/
theorem boast_out_of_bounds :
    ¬ ∀ (g : Gateway) (inp obuf : List UInt8), g.cs.Lawful → (∀ n, 0 ∉ g.numText n) →
      (∃ out, g.reply inp = some out ∧ g.Replied inp out) → obuf.length = packageMaxsize →
      (g.wsRecv inp obuf).isSome := by
  intro h
  have hsome := h
    { sample 0 with parse := fun t => if t = cstr boast then some boastHeader else none } boast
    (List.replicate packageMaxsize 0) plain_lawful zero_notMem_decimal
    ⟨_, rfl, by decide, by decide, by decide +kernel, by decide, by decide⟩ List.length_replicate
  rw [wsRecv, show request _ boast = none by decide +kernel] at hsome
  exact Bool.false_ne_true hsome

end Gateway

end Freak.Web
