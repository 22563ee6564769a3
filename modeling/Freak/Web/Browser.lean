import Freak.Proto.Forward
import Freak.Proto.Heading
import Freak.Web.Bounds

/-! What a page sends over the gateway and what comes back: packets, each as the text of its header
with the data behind it. -/
namespace Freak.Web

open Bytes Json Schema
open Freak.Proto (headerTy Header Sent Node destination registered)

namespace Gateway

variable (g : Gateway)

/-- A packet as a page has it. -/
def message (pkt : List UInt8) : List UInt8 := g.headerText pkt ++ slice pkt 38 (dataSize pkt)

/-- `cJSON_Parse` reads the text of the header, whatever follows it. -/
def ReadsHeader (pkt : List UInt8) : Prop :=
  ∀ rest, g.parse (g.headerText pkt ++ rest) = some (g.headerJson pkt)

/-- `nnm_req_exchange` with the module that `s_msgbox_node` has for the packet's key. -/
def routed (nodes : Node → List UInt8 → Option (List UInt8)) (req : List UInt8) :
    Option (List UInt8) :=
  (destination (Header.read req).key).bind fun n => nodes n req

/-- Whatever the reply buffer held, the page has the packet. -/
def Delivers (inp out : List UInt8) : Prop :=
  ∀ obuf : List UInt8, obuf.length = packageMaxsize → ∃ o,
    g.wsRecv inp obuf = some (o, (g.message out).length) ∧
      o.take (g.message out).length = g.message out

/-- A message that is two bytes longer than the text of the reply's header, and a reply that the
reply buffer has room for. -/
def Carries (inp out : List UInt8) : Prop :=
  ((g.headerText out).length : Int) + 2 ≤ toInt inp.length ∧
    (g.headerText out).length < packageMaxsize ∧ (g.message out).length ≤ packageMaxsize

variable {g} {pkt buf data out obuf : List UInt8} {h : Header}

theorem keyOf_eq (buf : List UInt8) : keyOf buf = (Header.read buf).key.toNat := by
  rw [Header.read, UInt32.toNat_ofNat']
  exact (Nat.mod_eq_of_lt (ofLe_slice_lt buf 20 4)).symm

theorem errcodeOf_eq (buf : List UInt8) : errcodeOf buf = (Header.read buf).errcode.toNat := by
  rw [Header.read, UInt8.toNat_ofNat']
  exact (Nat.mod_eq_of_lt (ofLe_slice_lt buf 28 1)).symm

theorem formatOf_eq (buf : List UInt8) : formatOf buf = (Header.read buf).format.toNat := by
  rw [Header.read, UInt32.toNat_ofNat']
  exact (Nat.mod_eq_of_lt (ofLe_slice_lt buf 32 4)).symm

theorem dataSize_eq (buf : List UInt8) : dataSize buf = (Header.read buf).size.toNat := by
  rw [Header.read, UInt16.toNat_ofNat']
  exact (Nat.mod_eq_of_lt (ofLe_slice_lt buf 36 2)).symm

theorem headerJson_eq (hbuf : Proto.dataOffset ≤ buf.length) :
    g.headerJson buf = (Header.read buf).json g.cs := by
  have htake : Proto.dataOffset ≤ (buf.take 40).length := by
    rw [List.length_take]
    exact le_min (by decide) hbuf
  rw [headerJson, Proto.s2j_eq_json htake]
  exact congrArg _ (Proto.read_take buf)

theorem length_front (h : Header) : (h.bytes.take Proto.dataOffset).length = 38 := by
  rw [List.length_take, Proto.length_bytes]
  rfl

theorem bytes_split (h : Header) : h.bytes = h.bytes.take Proto.dataOffset ++ [0, 0] := by
  rw [Proto.take_bytes]
  rfl

theorem read_of_packet (h : Header) (data : List UInt8) : Header.read (h.packet data) = h := by
  rw [Header.packet, List.append_assoc]
  exact Proto.read_packet h _

/-- A packet's own data is found behind its header. -/
theorem slice_packet (hdata : data.length = h.size.toNat) :
    slice (h.packet data) 38 (dataSize (h.packet data)) = data := by
  rw [dataSize_eq, read_of_packet, Header.packet, List.append_assoc]
  exact slice_append_of_eq (length_front h) hdata

section Packet

variable (hcs : g.cs.Lawful) (hx : g.cs.Exact) (hnum : ∀ n, 0 ∉ g.numText n) (hn : h.Named)
  (hread : g.ReadsHeader (h.packet data))
include hcs hx hnum hn hread

/-- The gateway finds the header that the page has printed. -/
theorem header_message : g.header (g.message (h.packet data)) = h.bytes := by
  have hlen : Proto.dataOffset ≤ (h.packet data).length := by
    rw [Header.packet, List.length_append, List.length_append, length_front]
    exact Nat.le_add_right_of_le (Nat.le_add_right _ _)
  rw [header, message, cstr_append_notMem (zero_notMem_headerText hnum), hread, headerJson_eq hlen,
    read_of_packet]
  exact Proto.j2s_json hcs hx hn

variable (hdata : data.length = h.size.toNat)
include hdata

theorem declared_message : g.declared (g.message (h.packet data)) = data.length := by
  rw [declared, header_message hcs hx hnum hn hread, dataSize_eq, Proto.read_bytes_self, hdata]

/-- What the gateway sends is the packet itself. -/
theorem tmpbuf_message (hfits : data.length + 40 ≤ packageMaxsize) :
    (g.tmpbuf (g.message (h.packet data))).take (data.length + 40) = h.packet data := by
  have hdeclared := declared_message hcs hx hnum hn hread hdata
  have hbody : (g.message (h.packet data)).drop
      ((g.message (h.packet data)).length - data.length) = data := by
    rw [message, slice_packet hdata, List.length_append, Nat.add_sub_cancel, List.drop_left]
  rw [tmpbuf, hdeclared, hbody, header_message hcs hx hnum hn hread]
  have hzeros : store (List.replicate packageMaxsize 0) 0 h.bytes =
      h.bytes.take Proto.dataOffset ++ List.replicate 2010 0 := by
    rw [store_zero, Proto.length_bytes, List.drop_replicate]
    nth_rewrite 1 [bytes_split h]
    rw [List.append_assoc]
    congr 1
  have hlen : (h.bytes.take Proto.dataOffset ++ data).length = data.length + 38 := by
    rw [List.length_append, length_front, Nat.add_comm]
  have hgap : 2010 - data.length =
      packageMaxsize - (h.bytes.take Proto.dataOffset ++ data).length := by
    rw [hlen, packageMaxsize]
    omega
  rw [hzeros, store_after (length_front h), List.drop_replicate, hgap,
    Proto.take_append_zeros hlen.le (by omega), List.take_left' hlen]
  rfl

end Packet

theorem length_sent {r : Sent} {rbuf tail : List UInt8} (hrbuf : rbuf.length = packageMaxsize) :
    (r.bytes rbuf tail).length = 38 + r.data.length + tail.length := by
  have hlen : ∀ a n, a + n ≤ 2048 → (slice rbuf a n).length = n := fun a n h =>
    length_slice (by rw [hrbuf]; exact h)
  simp only [Sent.bytes, List.length_append, List.length_cons, length_le, hlen 1 7 (by decide),
    hlen 17 3 (by decide), hlen 29 3 (by decide)]
  omega

theorem read_store (hout : 38 ≤ out.length) :
    Header.read (store buf 0 out) = Header.read out := by
  simp only [Header.read]
  rw [slice_store_zero (by omega), slice_store_zero (by omega), slice_store_zero (by omega),
    slice_store_zero (by omega), slice_store_zero (by omega), slice_store_zero (by omega),
    slice_store_zero (by omega), slice_store_zero (by omega)]

/-- A page has what `tmpbuf` holds after the exchange. -/
theorem message_store (hbuf : buf.length = packageMaxsize) (hout : out.length ≤ packageMaxsize)
    (hsize : 38 + dataSize out ≤ out.length) :
    g.message (store buf 0 out) = g.message out ∧ dataSize (store buf 0 out) = dataSize out ∧
      g.headerText (store buf 0 out) = g.headerText out := by
  have hlen : (store buf 0 out).length = packageMaxsize := by
    rw [length_store (by omega), hbuf]
  have hread := @read_store buf out (by omega)
  have hdata : dataSize (store buf 0 out) = dataSize out := by
    rw [dataSize_eq, hread, ← dataSize_eq]
  have htext : g.headerText (store buf 0 out) = g.headerText out := by
    rw [headerText, headerText, headerJson_eq (by rw [hlen]; decide),
      headerJson_eq (by rw [Proto.dataOffset]; omega), hread]
  refine ⟨?_, hdata, htext⟩
  rw [message, htext, hdata, slice_store_zero hsize, message]

theorem length_message (hpkt : 38 + dataSize pkt ≤ pkt.length) :
    (g.message pkt).length = (g.headerText pkt).length + dataSize pkt := by
  rw [message, List.length_append, length_slice hpkt]

section Exchange

variable (hcs : g.cs.Lawful) (hx : g.cs.Exact) (hnum : ∀ n, 0 ∉ g.numText n) (hn : h.Named)
  (hread : g.ReadsHeader (h.packet data)) (hdata : data.length = h.size.toNat)
include hcs hx hnum hn hread hdata

/-- The gateway takes the message of a packet. -/
theorem accepts_message (hzero : 0 ∈ data) (hkey : h.key.toNat < 7)
    (hfits : data.length + 40 ≤ packageMaxsize) : g.Accepts (g.message (h.packet data)) := by
  have hmessage : g.message (h.packet data) = g.headerText (h.packet data) ++ data := by
    rw [message, slice_packet hdata]
  have hdeclared := declared_message hcs hx hnum hn hread hdata
  constructor
  · rw [hmessage]
    exact List.mem_append_right _ hzero
  · rw [hdeclared, hmessage, List.length_append]
    exact Nat.le_add_left _ _
  · rwa [hdeclared]
  · rwa [header_message hcs hx hnum hn hread, keyOf_eq, Proto.read_bytes_self]

theorem reply_message (hfits : data.length + 40 ≤ packageMaxsize) :
    g.reply (g.message (h.packet data)) = g.exchange (h.packet data) := by
  rw [reply, declared_message hcs hx hnum hn hread hdata,
    tmpbuf_message hcs hx hnum hn hread hdata hfits]

end Exchange

/-- What the gateway makes of a message depends on what is in `tmpbuf` after the exchange. -/
theorem wsRecv_of_accepts {inp : List UInt8} (hcs : g.cs.Lawful) (hacc : g.Accepts inp)
    (hreply : g.reply inp = some out) (hrep : g.Replied inp out) :
    (g.tmpbuf inp).length = packageMaxsize ∧
      ∀ obuf, g.wsRecv inp obuf = g.answer inp.length (g.after inp out) obuf := by
  have hforward := (forwarded_iff hcs).mpr ⟨hacc, out, hreply, hrep, rfl⟩
  have hfits := hacc.fits
  have hreq : g.request inp = some (g.tmpbuf inp) := by
    rw [request_eq hcs, if_pos ⟨hacc.ends, hacc.sent, by omega⟩]
  refine ⟨length_request hcs hreq, fun obuf => ?_⟩
  rw [wsRecv, ← Option.bind_assoc, hforward, Option.bind_some]

/-- A message that is taken, and a reply that is, come to the page whole exactly when the message is
long enough for the header of the reply. -/
theorem delivers_iff {inp : List UInt8} (hcs : g.cs.Lawful) (hnum : ∀ n, 0 ∉ g.numText n)
    (hacc : g.Accepts inp) (hreply : g.reply inp = some out) (hrep : g.Replied inp out)
    (hsize : 40 + dataSize out ≤ out.length) :
    g.Delivers inp out ↔ g.Carries inp out := by
  have hfits := hrep.fits
  obtain ⟨htmp, hrecv⟩ := wsRecv_of_accepts hcs hacc hreply hrep
  obtain ⟨hmessage, hdata, htext⟩ := @message_store g (g.tmpbuf inp) out htmp hfits (by omega)
  rw [← after] at hmessage hdata htext
  have hlen : (g.after inp out).length = packageMaxsize := by
    rw [after, length_store (by omega), htmp]
  have hcomplete := @complete_answer_iff g (g.after inp out) inp.length hnum hlen (by omega)
  rw [htext, hdata, ← length_message (by omega)] at hcomplete
  rw [Carries, ← hcomplete]
  refine forall_congr' fun obuf => imp_congr_right fun _ => ?_
  rw [hrecv, Complete, htext, hdata, ← length_message (by omega)]
  rw [message, htext, hdata] at hmessage
  rw [hmessage]

/-- Without a reply the gateway does not return. -/
theorem not_delivers_of_unanswered {inp : List UInt8} (hcs : g.cs.Lawful)
    (hreply : g.reply inp = none) : ¬ g.Delivers inp out := by
  intro hdelivers
  obtain ⟨o, ho, -⟩ := hdelivers (List.replicate packageMaxsize 0) List.length_replicate
  rw [wsRecv, ← Option.bind_assoc, Option.bind_eq_some_iff] at ho
  obtain ⟨buf, hbuf, -⟩ := ho
  obtain ⟨-, out', hout, -⟩ := (forwarded_iff hcs).mp hbuf
  rw [hreply] at hout
  cases hout

/-- `cJSON_Parse` has found the end of the message. -/
theorem zero_mem_of_wsRecv {inp : List UInt8} {o : List UInt8 × Nat}
    (h : g.wsRecv inp obuf = some o) : 0 ∈ inp := by
  obtain ⟨req, hreq, -⟩ := Option.bind_eq_some_iff.mp h
  simp only [request] at hreq
  split_ifs at hreq with hzero
  exact hzero

section Answered

variable {σ : Type} {v : Proto.Server σ} {json : Bool} {k : Proto.Key} {a : Proto.Action} {t : Ty}
  {rec inp stack rbuf tail : List UInt8} {ts now : UInt64} {s s' : σ} {r : Sent}

/-- A text ends, and a record that has a zero in it. -/
theorem zero_mem_message (hv : ∀ n, 0 ∉ v.numText n)
    (hinp : v.request json k a t rec ts = .ok inp) (hzero : json = false → 0 ∈ rec) :
    0 ∈ g.message inp := by
  obtain ⟨h, data, rfl, -, -, hdata, -, htext, hrec⟩ := Proto.Server.request_packet hv hinp
  rw [message, slice_packet hdata]
  refine List.mem_append_right _ ?_
  cases json with
  | true => exact htext rfl
  | false => exact hrec rfl ▸ hzero rfl

variable
  (hcs : g.cs.Lawful) (hx : g.cs.Exact) (hnum : ∀ n, 0 ∉ g.numText n) (hv : ∀ n, 0 ∉ v.numText n)
  (hinp : v.request json k a t rec ts = .ok inp) (hread : g.ReadsHeader inp)
  (hr : v.msgboxDoHandler s inp stack rbuf now = .ok (s', r)) (hrbuf : rbuf.length = packageMaxsize)
  (htail : tail.length = 2) (hexch : g.exchange inp = some (r.bytes rbuf tail))
include hcs hx hnum hv hinp hread hr hrbuf htail hexch

theorem delivers_of_zero (hzero : 0 ∈ g.message inp) :
    g.Delivers (g.message inp) (r.bytes rbuf tail) ↔
      g.Carries (g.message inp) (r.bytes rbuf tail) := by
  obtain ⟨h, data, rfl, hn, hk, hdata, hfits, -, -⟩ := Proto.Server.request_packet hv hinp
  obtain ⟨hheader, hrlen, hrfits, hrtext⟩ := Proto.Server.reply_framed hr hrbuf
  obtain ⟨hrread, hrdrop⟩ := @Proto.read_bytes r rbuf tail hrbuf
  have hlen := @length_sent r rbuf tail hrbuf
  rw [read_of_packet] at hheader
  have hkey : r.header.key = h.key := by rw [hheader]
  have herr : r.header.errcode = 0 := by rw [hheader]
  obtain ⟨out, hout⟩ : ∃ out, r.bytes rbuf tail = out := ⟨_, rfl⟩
  rw [hout] at hrread hrdrop hlen hexch ⊢
  have hzero' : 0 ∈ data := by
    rw [message, slice_packet hdata, List.mem_append] at hzero
    exact hzero.resolve_left (zero_notMem_headerText hnum)
  have hkey7 : h.key.toNat < 7 := by
    rw [hk]
    cases k <;> decide
  have hrfits' : r.data.length + 40 ≤ packageMaxsize := hrfits
  have hacc := accepts_message hcs hx hnum hn hread hdata hzero' hkey7 hfits
  have hreply := reply_message hcs hx hnum hn hread hdata hfits
  have hsize : dataSize out = r.data.length := by rw [dataSize_eq, hrread, hrlen]
  refine delivers_iff hcs hnum hacc (hreply.trans hexch) ?_ (by omega)
  -- the reply is the one for the request's key, and without an error
  constructor
  · omega
  · intro hf
    rw [formatOf_eq, hrread] at hf
    have hmem := hrtext (UInt32.toNat_inj.mp hf)
    exact hrdrop ▸ List.mem_append_left _ hmem
  · rw [keyOf_eq, hrread, hkey, header_message hcs hx hnum hn hread, keyOf_eq,
      Proto.read_bytes_self]
  · rw [errcodeOf_eq, hrread, herr]
    rfl
  · omega

end Answered

section Routed

variable {σ : Type} {v : Node → Proto.Server σ} {n : Node} {json : Bool} {k : Proto.Key}
  {a : Proto.Action} {t : Ty} {rec inp stack rbuf tail : List UInt8} {ts now : UInt64} {s s' : σ}
  {r : Sent} {nodes : Node → List UInt8 → Option (List UInt8)}

/-- A packet that a client would send of a module, and the module's answer to it, come to the page
whole exactly when the table has the key in its place and the page's message is long enough for the
answer's header. -/
theorem browser_answered (hcs : g.cs.Lawful) (hx : g.cs.Exact) (hnum : ∀ i, 0 ∉ g.numText i)
    (hv : ∀ m i, 0 ∉ (v m).numText i)
    (hhandler : ∀ m key ops, (v m).handler key = some ops →
      ∃ k ∈ registered m, k.value.toNat = key) (hk : k ∈ registered n)
    (hinp : (v n).request json k a t rec ts = .ok inp) (hread : g.ReadsHeader inp)
    (hr : (v n).msgboxDoHandler s inp stack rbuf now = .ok (s', r))
    (hrbuf : rbuf.length = packageMaxsize) (htail : tail.length = 2)
    (hnodes : ∀ m reply, nodes m inp = some reply →
      ∃ s stack rbuf now o, (v m).msgboxDoHandler s inp stack rbuf now = .ok o)
    (hnode : nodes n inp = some (r.bytes rbuf tail)) (hzero : json = false → 0 ∈ rec) :
    Delivers { g with exchange := routed nodes } (g.message inp) (r.bytes rbuf tail) ↔
      (k ≠ .frame ∧ k ≠ .rtspSvr) ∧ g.Carries (g.message inp) (r.bytes rbuf tail) := by
  have hkey : (Header.read inp).key = k.value := by
    obtain ⟨h, data, rfl, -, hkey, -⟩ := Proto.Server.request_packet (hv n) hinp
    rw [read_of_packet, hkey]
  by_cases hplace : k ≠ .frame ∧ k ≠ .rtspSvr
  · obtain ⟨m, hm, hdest⟩ := Proto.destination_registered.mpr hplace
    obtain rfl := Proto.registered_unique hk hm
    have hexch : routed nodes inp = some (r.bytes rbuf tail) := by
      rw [routed, hkey, hdest, Option.bind_some, hnode]
    rw [and_iff_right hplace]
    exact delivers_of_zero (g := { g with exchange := routed nodes }) hcs hx hnum (hv m) hinp hread
      hr hrbuf htail hexch (zero_mem_message (hv m) hinp hzero)
  · refine iff_of_false ?_ fun h => hplace h.1
    -- the module that is asked has no handler for the key
    have hexch : routed nodes inp = none := by
      rw [routed, hkey, Option.bind_eq_none_iff]
      intro m hm
      refine Option.eq_none_iff_forall_ne_some.mpr fun reply hreply => hplace ?_
      obtain ⟨s, stack, rbuf, now, ⟨s', r⟩, hr⟩ := hnodes m reply hreply
      obtain ⟨-, -, -, ops, -, -, hops, -⟩ := Proto.Server.msgboxDoHandler_eq_ok.mp hr
      obtain ⟨k', hk', hvalue⟩ := hhandler m _ ops hops
      rw [hkey] at hvalue
      obtain rfl := Proto.Key.value_inj hvalue
      exact Proto.destination_registered.mp ⟨m, hk', hm⟩
    obtain ⟨h, data, rfl, hn, -, hdata, hfits, -⟩ := Proto.Server.request_packet (hv n) hinp
    have hreply : ∀ inp, Gateway.reply { g with exchange := routed nodes } inp =
        routed nodes ((g.tmpbuf inp).take (g.declared inp + 40)) := fun _ => rfl
    have hreply := hreply (g.message (h.packet data))
    rw [declared_message hcs hx hnum hn hread hdata,
      tmpbuf_message hcs hx hnum hn hread hdata hfits, hexch] at hreply
    exact not_delivers_of_unanswered hcs hreply

end Routed

end Gateway

end Freak.Web
