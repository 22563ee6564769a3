import Freak.Manager.Clients
import Freak.Web.Browser

/-! Browsers beside the clients: their calls go over the gateway of the web module to the modules
that serve the clients, and back. -/
namespace Freak.Manager

open Bytes Json Schema Lts
open Freak.Proto (Action Key Node Server packageMaxsize headerSize Sent Header headerTy registered
  destination)
open Freak.Web (Gateway)

/-- What a page finds in an answer: the shortest text that is read, as a header, and the data behind
it. -/
def Finds (g : Gateway) (ans : List UInt8) (hd : Header) (data : List UInt8) : Prop :=
  ∃ t j, ans = t ++ data ∧ g.parse t = some j ∧
    (∀ p s, s ≠ [] → p ++ s = t → g.parse p = none) ∧
    headerTy.j2s g.cs (some j) (List.replicate headerSize 0) = hd.bytes

/-- The parser reads the text of the header, whatever follows it, and no part of it. -/
def Framed (g : Gateway) (pkt : List UInt8) : Prop :=
  g.ReadsHeader pkt ∧ ∀ p s, s ≠ [] → p ++ s = g.headerText pkt → g.parse p = none

section

variable (h : Hal) (v : Node → Server State) (g : Gateway)

/-- A call from a page: the gateway asks the module that the table gives for the key, and the page
finds a record in what comes back. Headers are read, and there is room for the reply. -/
inductive Browse : (Node → State) → Node × Call → (Node → State) → Prop
  | mk {ss : Node → State} {n m : Node} {c : Asked} {back inp reply obuf o data : List UInt8}
      {len : Nat} {t : State} {hd : Header} {e : List UInt8 → Option (List UInt8)}
      (hsends : c.Sends h (v n) n inp) (hdest : destination c.key.value = some m)
      (hh : Handles h (v m) (ss m) c inp reply t) (he : e inp = some reply)
      (hobuf : obuf.length = packageMaxsize)
      (hrecv : Gateway.wsRecv { g with exchange := e } (g.message inp) obuf = some (o, len))
      (hframed : Framed g inp ∧ Framed g reply) (hroom : g.Carries (g.message inp) reply)
      (hfinds : Finds g (o.take len) hd data)
      (hback : (v n).dataIn c.json ((c.call []).record h).ty hd.size.toNat data c.sent = .ok back) :
      Browse ss (n, c.call back) (Function.update ss m t)

/-- A call from a client or from a page. -/
def Round (ss : Node → State) (x : Node × Call) (ts : Node → State) : Prop :=
  Side (fun n => Serve h (v n) n) ss x ts ∨ Browse h v g ss x ts

end

section

variable {h : Hal} {v : Node → Server State} {g : Gateway} {ss ts : Node → State} {n m : Node}
  {c : Call}

/-- A module has handlers for the keys that it has registered. -/
theorem registered_of_handler {key : Nat} {ops : UInt8 → Proto.Ops State}
    (hops : h.handler n key = some ops) : ∃ k ∈ registered n, k.value.toNat = key := by
  obtain ⟨k, hfind, -⟩ := Option.map_eq_some_iff.mp hops
  have hbeq := List.find?_some hfind
  rw [beq_iff_eq] at hbeq
  exact ⟨k, List.mem_of_find?_eq_some hfind, hbeq⟩

/-- Only the module of the manager has a handler for its key. -/
theorem node_of_handles {s t : State} {a : Asked} {inp reply : List UInt8} {w : Server State}
    (hw : w.handler = h.handler m) (hsends : a.Sends h (v n) n inp)
    (hh : Handles h w s a inp reply t) : m = n := by
  obtain ⟨hfair, ts, hinp⟩ := hsends
  cases hh.1 with
  | mk _ _ _ hr =>
    obtain ⟨e, -, -, rfl⟩ := Proto.Server.request_eq_ok.mp hinp
    obtain ⟨-, -, -, ops, a', e', hops, -⟩ := Proto.Server.msgboxDoHandler_eq_ok.mp hr
    rw [Proto.read_fillHeader, hw] at hops
    obtain ⟨k, hmem, hk⟩ := registered_of_handler hops
    rw [Proto.Key.value_inj hk] at hmem
    exact Proto.registered_unique hfair.key hmem

/-- There is one way to find a packet in an answer. -/
theorem finds_iff {pkt data : List UInt8} {hd : Header} (hcs : g.cs.Lawful) (hx : g.cs.Exact)
    (hframed : Framed g pkt) (hnamed : (Header.read pkt).Named)
    (hpkt : Proto.dataOffset ≤ pkt.length) : Finds g (g.message pkt) hd data ↔
      hd = Header.read pkt ∧ data = slice pkt 38 (Web.dataSize pkt) := by
  obtain ⟨hread, hpart⟩ := hframed
  have hwhole : g.parse (g.headerText pkt) = some (g.headerJson pkt) := by
    have hnil := hread []
    rwa [List.append_nil] at hnil
  have hdecoded : headerTy.j2s g.cs (some (g.headerJson pkt)) (List.replicate headerSize 0) =
      (Header.read pkt).bytes := by
    rw [Gateway.headerJson_eq hpkt, Proto.j2s_json hcs hx hnamed]
  refine ⟨?_, fun ⟨hhd, hdata⟩ => hhd ▸ hdata ▸ ⟨_, _, rfl, hwhole, hpart, hdecoded⟩⟩
  rintro ⟨t, j, hsplit, hparse, hshortest, hj⟩
  obtain ⟨rfl, hdata⟩ : t = g.headerText pkt ∧ data = slice pkt 38 (Web.dataSize pkt) := by
    rcases List.append_eq_append_iff.mp hsplit with ⟨e, ht, hdata⟩ | ⟨e, ht, hdata⟩
    · by_cases he : e = []
      · subst he
        exact ⟨by rw [ht, List.append_nil], by rw [hdata, List.nil_append]⟩
      · rw [hshortest _ e he ht.symm] at hwhole
        cases hwhole
    · by_cases he : e = []
      · subst he
        exact ⟨by rw [ht, List.append_nil], by rw [hdata, List.nil_append]⟩
      · rw [hpart t e he ht.symm] at hparse
        cases hparse
  obtain rfl := Option.some.inj (hwhole.symm.trans hparse)
  refine ⟨?_, hdata⟩
  rw [← Proto.read_bytes_self hd, ← hj, hdecoded, Proto.read_bytes_self]

/-- What a page finds in the answer to a call is the module's reply. -/
theorem finds_reply {σ : Type} {w : Server σ} {s s' : σ} {json : Bool} {k : Key} {a : Action}
    {t : Ty} {rec inp stack rbuf tail data : List UInt8} {clock now : UInt64} {r : Sent}
    {hd : Header} (hcs : g.cs.Lawful) (hx : g.cs.Exact) (hnum : ∀ i, 0 ∉ w.numText i)
    (hinp : w.request json k a t rec clock = .ok inp)
    (hr : w.msgboxDoHandler s inp stack rbuf now = .ok (s', r))
    (hrbuf : rbuf.length = packageMaxsize) (hframed : Framed g (r.bytes rbuf tail)) :
    Finds g (g.message (r.bytes rbuf tail)) hd data ↔ hd = r.header ∧ data = r.data := by
  obtain ⟨h, sent, rfl, hn, -⟩ := Proto.Server.request_packet hnum hinp
  obtain ⟨hheader, hlen, -⟩ := Proto.Server.reply_framed hr hrbuf
  rw [Gateway.read_of_packet] at hheader
  obtain ⟨hread, hdrop⟩ := @Proto.read_bytes r rbuf tail hrbuf
  have hnamed : (Header.read (r.bytes rbuf tail)).Named := by
    rw [hread, hheader]
    exact ⟨hn.key, hn.action, hn.format⟩
  have hlong : Proto.dataOffset ≤ (r.bytes rbuf tail).length := by
    rw [Gateway.length_sent hrbuf, Proto.dataOffset]
    omega
  have hdata : slice (r.bytes rbuf tail) 38 (Web.dataSize (r.bytes rbuf tail)) = r.data := by
    rw [Gateway.dataSize_eq, hread, ← hlen, slice]
    exact (congrArg (List.take r.data.length) hdrop).trans List.take_left
  rw [finds_iff hcs hx hframed hnamed hlong, hread, hdata]

/-- A call from a page is one that a client could have made. -/
theorem side_of_browse (hv : ∀ n, (v n).handler = h.handler n)
    (hnum : ∀ n i, 0 ∉ (v n).numText i) (hcs : g.cs.Lawful) (hx : g.cs.Exact)
    (hgnum : ∀ i, 0 ∉ g.numText i) (hshow : h.ShowsRecord) (hs : Sound h n (ss n))
    (hb : Browse h v g ss (n, c) ts) : Side (fun n => Serve h (v n) n) ss (n, c) ts := by
  cases hb with
  | @mk _ m a back inp reply obuf o data len t hd e hsends _ hh he hobuf hrecv hframed hroom
      hfinds hback =>
    obtain rfl := node_of_handles (hv m) hsends hh
    obtain ⟨back', hserve, hpost⟩ := serve_of_handles (hv m) hshow hs hsends hh
    obtain ⟨hfair, ts, hinp⟩ := hsends
    cases hh.1 with
    | mk hstack hrbuf htail hr =>
      rename_i stack rbuf tail now r
      have hdelivers := (Gateway.delivers_of_zero (g := { g with exchange := e }) hcs hx hgnum
        (hnum m) hinp hframed.1.1 hr hrbuf htail he (Gateway.zero_mem_of_wsRecv hrecv)).mpr hroom
      obtain ⟨o', ho', htake⟩ := hdelivers obuf hobuf
      obtain ⟨rfl, rfl⟩ := Prod.mk.inj (Option.some.inj (hrecv.symm.trans ho'))
      rw [htake] at hfinds
      obtain ⟨rfl, rfl⟩ := (finds_reply hcs hx (hnum m) hinp hr hrbuf hframed.2).mp hfinds
      -- so does a client
      have hpost' : a.post h (v m) (r.bytes rbuf tail) = .ok back :=
        (Proto.Server.clientCall_of_reply hrbuf hinp hr hback).2
      obtain rfl := Except.ok.inj (hpost'.symm.trans hpost)
      exact .mk hserve

/-- Whatever a module handles for a client it does for a page: the table has the key in its place,
the message ends, and there is room for the reply. -/
theorem browse_of_handles {a : Asked} {inp reply : List UInt8} {t : State}
    (hv : (v n).handler = h.handler n) (hnum : ∀ i, 0 ∉ (v n).numText i) (hcs : g.cs.Lawful)
    (hx : g.cs.Exact) (hgnum : ∀ i, 0 ∉ g.numText i) (hshow : h.ShowsRecord)
    (hs : Sound h n (ss n)) (hsends : a.Sends h (v n) n inp)
    (hdest : destination a.key.value = some n) (hh : Handles h (v n) (ss n) a inp reply t)
    (hzero : 0 ∈ g.message inp) (hframed : Framed g inp ∧ Framed g reply)
    (hroom : g.Carries (g.message inp) reply) :
    ∃ back, Browse h v g ss (n, a.call back) (Function.update ss n t) ∧
      a.post h (v n) reply = .ok back := by
  have hsends' := hsends
  have hh' := hh
  obtain ⟨hfair, ts, hinp⟩ := hsends
  cases hh.1 with
  | mk hstack hrbuf htail hr =>
    rename_i stack rbuf tail now r
    obtain ⟨back, hback⟩ := decoded_of_reply hv hshow hs hfair hrbuf hinp hr
    have hpost : a.post h (v n) (r.bytes rbuf tail) = .ok back :=
      (Proto.Server.clientCall_of_reply hrbuf hinp hr hback).2
    obtain ⟨o, hrecv, htake⟩ := (Gateway.delivers_of_zero
      (g := { g with exchange := fun _ => some (r.bytes rbuf tail) }) hcs hx hgnum hnum hinp
      hframed.1.1 hr hrbuf htail rfl hzero).mpr hroom (List.replicate packageMaxsize 0)
      List.length_replicate
    refine ⟨back, .mk hsends' hdest hh' rfl List.length_replicate hrecv hframed hroom ?_ hback,
      hpost⟩
    rw [htake]
    exact (finds_reply hcs hx hnum hinp hr hrbuf hframed.2).mpr ⟨rfl, rfl⟩

/-- Calls from pages and clients, in any order, are calls of clients. -/
theorem side_of_rounds {acts : List (Node × Call)} (hv : ∀ n, (v n).handler = h.handler n)
    (hnum : ∀ n i, 0 ∉ (v n).numText i) (hlaw : ∀ n, (v n).cs.Lawful) (hcs : g.cs.Lawful)
    (hx : g.cs.Exact) (hgnum : ∀ i, 0 ∉ g.numText i) (hshow : h.ShowsRecord)
    (hs : ∀ n, Sound h n (ss n)) (hrun : MTr (Round h v g) ss acts ts)
    (hread : ∀ n c, (n, c) ∈ acts → Legible h (v n) c) :
    MTr (Side fun n => Serve h (v n) n) ss acts ts := by
  induction hrun with
  | refl => exact .refl
  | @stepL ss us ts x acts hround _ ih =>
    obtain ⟨n, c⟩ := x
    have hside : Side (fun n => Serve h (v n) n) ss (n, c) us := by
      rcases hround with hside | hbrowse
      · exact hside
      · exact side_of_browse hv hnum hcs hx hgnum hshow (hs n) hbrowse
    refine .stepL hside (ih ?_ fun n c hc => hread n c (List.mem_cons_of_mem _ hc))
    cases hside with
    | mk hserve =>
      intro k
      by_cases hk : k = n
      · subst hk
        rw [Function.update_self]
        exact sound_step (hv k) (hnum k) (hlaw k) hshow (hs k) (hread k c List.mem_cons_self) hserve
      · rw [Function.update_of_ne hk]
        exact hs k

/-- However the calls of pages and clients are interleaved over the modules, a GET is told the
record of the last SET for its id at its manager, whether a page or a client has made it, and the
other calls what they ask for. -/
theorem browsers_answer {acts pre post : List (Node × Call)}
    (hv : ∀ n, (v n).handler = h.handler n) (hnum : ∀ n i, 0 ∉ (v n).numText i)
    (hlaw : ∀ n, (v n).cs.Lawful) (hcs : g.cs.Lawful) (hx : g.cs.Exact)
    (hgnum : ∀ i, 0 ∉ g.numText i) (hshow : h.ShowsRecord) (hs : ∀ n, Sound h n (ss n))
    (hrun : MTr (Round h v g) ss acts ts) (hread : ∀ n c, (n, c) ∈ acts → Legible h (v n) c)
    (hacts : acts = pre ++ (n, c) :: post) :
    (c.record h).ty.Same c.back (c.answer (ss n) (own n pre)) := by
  have hside := side_of_rounds hv hnum hlaw hcs hx hgnum hshow hs hrun hread
  have hans := answer_of_run hv hnum hlaw hshow (tracks_start (hs n)) hside hread hacts
  rwa [List.nil_append] at hans

end

open Proto (sampleHal)

/-- The header of a record that is asked for, and of the one that comes back. -/
def samplePageHeader : Header := ⟨1, 0, 1, 3, 2, 0, 0, 428⟩

/-- A gateway that prints and reads as the modules do. -/
def samplePage : Gateway where
  numText := decimal
  cs := plain
  parse := parseObject
  exchange _ := none

/-- A page asks for the overlay. -/
def samplePaged : Asked := ⟨false, .osd, .get, (sampleGet false []).sent⟩

section

variable {pkt : List UInt8} (hread : Header.read pkt = samplePageHeader)
  (hpkt : Proto.dataOffset ≤ pkt.length)
include hread hpkt

theorem sample_headerJson : samplePage.headerJson pkt = samplePageHeader.json plain := by
  rw [Gateway.headerJson_eq hpkt, hread]
  rfl

theorem sample_framed : Framed samplePage pkt := by
  obtain ⟨ms, hms⟩ : ∃ ms, samplePageHeader.json plain = .obj ms := ⟨_, rfl⟩
  have hwhole : upToNul (.obj ms) = .obj ms := by
    rw [← hms]
    rfl
  have hjson := (sample_headerJson hread hpkt).trans hms
  have htext : samplePage.headerText pkt = text decimal (.obj ms) := by
    rw [Gateway.headerText, hjson]
    rfl
  refine ⟨fun rest => ?_, fun p s hs hp => parseObject_prefix hs (hp.trans htext)⟩
  rw [htext, hjson]
  exact parseObject_text hwhole rest

end

theorem length_sampleText : (text decimal (samplePageHeader.json plain)).length = 147 := by
  decide +kernel

/-- What an exchange of the overlay looks like. -/
structure Overlaid (inp reply : List UInt8) : Prop where
  asked : Header.read inp = samplePageHeader
  length : 466 ≤ inp.length
  told : Header.read reply = samplePageHeader
  room : 466 ≤ reply.length
  zero : 0 ∈ samplePage.message inp

/-- A module that has an overlay is asked for it. -/
theorem sample_asked {s : State} (hs : Sound sampleHal .vsf s)
    (hstored : (s .osd).info.cfgs 1 = sampleOverlay) : ∃ inp t r,
    (sampleNetwork .vsf).request false .osd .get Proto.Record.osdCfg.ty samplePaged.sent 0 =
      .ok inp ∧
    (sampleNetwork .vsf).msgboxDoHandler s inp (List.replicate 428 0)
      (List.replicate packageMaxsize 0) 0 = .ok (t, r) ∧
    Overlaid inp (r.bytes (List.replicate packageMaxsize 0) [0, 0]) := by
  have hshow : sampleHal.ShowsRecord := fun _ _ _ _ _ => rfl
  have hnum : ∀ i, 0 ∉ (sampleNetwork .vsf).numText i := zero_notMem_decimal
  have hend := clientCall_of_call (w := sampleNetwork .vsf) rfl hshow hs
    (sample_fair.2 false sampleOverlay) rfl
    (manager_get_eq_ok.mpr ⟨1, ⟨sample_id.2, by decide⟩, rfl, hstored.symm⟩)
  simp only [Server.clientCall, Run.bind_eq_ok, Run.pure_eq_ok, Run.assert_eq_ok, exists_const,
    Prod.exists] at hend
  obtain ⟨inp, hinp, t, r, hr, -, -, back, hback, -⟩ := hend
  have hrbuf : (List.replicate packageMaxsize (0 : UInt8)).length = packageMaxsize :=
    List.length_replicate
  have hread : Header.read inp = samplePageHeader := by
    obtain ⟨e, rfl, -, rfl⟩ := Proto.Server.request_eq_ok.mp hinp
    obtain ⟨-, hosize, -⟩ := @Proto.Server.dataOut_record _ (sampleNetwork .vsf)
      Proto.Record.osdCfg.ty samplePaged.sent (List.replicate 2010 0)
      (sample_fair.2 false []).length
      (by decide) List.length_replicate
    have hchn : Action.get.chn samplePaged.sent = 1 := by decide
    have hsize : (Proto.dataOut decimal plain false Proto.Record.osdCfg.ty samplePaged.sent
        (List.replicate 2010 0)).size = 428 := congrArg UInt16.ofNat hosize
    rw [Proto.read_fillHeader]
    exact congrArg₂ (fun chn size => (⟨1, 0, chn, 3, 2, 0, 0, size⟩ : Header)) hchn hsize
  obtain ⟨hheader, hdata, -⟩ := Proto.Server.reply_framed hr hrbuf
  -- the client has found a whole record in the reply
  have hsize : r.header.size = 428 := by
    have hfound : (sampleNetwork .vsf).dataIn false Proto.Record.osdCfg.ty r.header.size.toNat
        r.data samplePaged.sent = .ok back := hback
    simp only [Proto.Server.dataIn, Bool.false_eq_true, if_false, Run.bind_eq_ok, Run.assert_eq_ok,
      exists_const] at hfound
    exact UInt16.toNat_inj.mp hfound.1
  have htold : r.header = samplePageHeader := by
    rw [hheader, hread, hsize]
    rfl
  obtain ⟨hrread, -⟩ := @Proto.read_bytes r _ [0, 0] hrbuf
  refine ⟨inp, t, r, hinp, hr, hread, ?_, hrread.trans htold, ?_,
    Gateway.zero_mem_message hnum hinp fun _ => by decide⟩
  · obtain ⟨hd, data, rfl, -, -, hlen, -⟩ := Proto.Server.request_packet hnum hinp
    rw [Gateway.read_of_packet] at hread
    rw [Proto.Header.packet, List.length_append, List.length_append, Gateway.length_front, hlen,
      hread]
    decide
  · rw [Gateway.length_sent hrbuf, hdata, htold]
    decide

section

variable {inp reply : List UInt8} (ho : Overlaid inp reply)
include ho

theorem Overlaid.framed : Framed samplePage inp ∧ Framed samplePage reply := by
  have hoffset : Proto.dataOffset ≤ 466 := by decide
  exact ⟨sample_framed ho.asked (hoffset.trans ho.length),
    sample_framed ho.told (hoffset.trans ho.room)⟩

theorem Overlaid.carries : samplePage.Carries (samplePage.message inp) reply := by
  have hlen : ∀ pkt, Header.read pkt = samplePageHeader → 466 ≤ pkt.length →
      (samplePage.headerText pkt).length = 147 ∧ (samplePage.message pkt).length = 575 := by
    intro pkt hp hl
    have hsize : Web.dataSize pkt = 428 := by
      rw [Gateway.dataSize_eq, hp]
      rfl
    have htext : (samplePage.headerText pkt).length = 147 := by
      rw [Gateway.headerText, sample_headerJson hp (by rw [Proto.dataOffset]; omega)]
      exact length_sampleText
    refine ⟨htext, ?_⟩
    rw [Gateway.length_message (by omega), htext, hsize]
  obtain ⟨-, hmessage⟩ := hlen inp ho.asked ho.length
  obtain ⟨htext, hreply⟩ := hlen reply ho.told ho.room
  rw [Gateway.Carries, hmessage, htext, hreply]
  decide

end

/-- The reply of the module that has the overlay comes back to the page. -/
theorem browser_answered_overlay : ∃ inp reply, Overlaid inp reply ∧
    Gateway.Delivers { samplePage with
        exchange := Gateway.routed fun n _ => if n = .vsf then some reply else none }
      (samplePage.message inp) reply := by
  obtain ⟨s, -, hsound, hstored⟩ := sample_stored
  obtain ⟨inp, t, r, hinp, hr, ho⟩ := sample_asked hsound hstored
  have hrbuf : (List.replicate packageMaxsize (0 : UInt8)).length = packageMaxsize :=
    List.length_replicate
  have htail : [(0 : UInt8), 0].length = 2 := rfl
  refine ⟨inp, _, ho, (Gateway.browser_answered (v := sampleNetwork) (n := .vsf) plain_lawful
    plain_exact zero_notMem_decimal (fun _ => zero_notMem_decimal) ?_ (by decide) hinp ho.framed.1.1
    hr hrbuf htail ?_ (if_pos rfl) fun _ => by decide).mpr ⟨by decide, ho.carries⟩⟩
  · intro m key ops hops
    exact registered_of_handler hops
  · intro m reply hreply
    obtain ⟨rfl, -⟩ := Option.ite_none_right_eq_some.mp hreply
    exact ⟨s, List.replicate 428 0, List.replicate packageMaxsize 0, 0, _, hr⟩

/-- A page asks for the overlay. -/
theorem sample_browse {ss : Node → State} (hs : Sound sampleHal .vsf (ss .vsf))
    (hstored : (ss .vsf .osd).info.cfgs 1 = sampleOverlay) : ∃ ts back,
      Browse sampleHal sampleNetwork samplePage ss (.vsf, samplePaged.call back) ts := by
  obtain ⟨inp, t, r, hinp, hr, ho⟩ := sample_asked hs hstored
  have hfair : (samplePaged.call []).Fair sampleHal .vsf := sample_fair.2 false []
  obtain ⟨back, hb, -⟩ := browse_of_handles (g := samplePage) (a := samplePaged) rfl
    zero_notMem_decimal plain_lawful plain_exact zero_notMem_decimal (fun _ _ _ _ _ => rfl) hs
    ⟨hfair, 0, hinp⟩ rfl ⟨.mk List.length_replicate List.length_replicate rfl hr, by rintro ⟨⟩⟩
    ho.zero ho.framed ho.carries
  exact ⟨_, back, hb⟩

/-- A page is told what a client has set. -/
theorem browsers_answer_page : ∃ ts back,
    MTr (Round sampleHal sampleNetwork samplePage) (fun _ => sampleState)
      [(.vsf, sampleSet), (.vsf, samplePaged.call back)] ts ∧
    Proto.Record.osdCfg.ty.Same back sampleOverlay := by
  have hshow : sampleHal.ShowsRecord := fun _ _ _ _ _ => rfl
  obtain ⟨s, hone, hsound, hstored⟩ := sample_stored
  obtain ⟨ss, hss, hvsf⟩ : ∃ ss : Node → State, Function.update (fun _ => sampleState) .vsf s = ss ∧
      ss .vsf = s := ⟨_, rfl, Function.update_self ..⟩
  obtain ⟨ts, back, hbrowse⟩ := @sample_browse ss (hvsf.symm ▸ hsound) (by rw [hvsf, hstored])
  have hrun : MTr (Round sampleHal sampleNetwork samplePage) (fun _ => sampleState)
      [(.vsf, sampleSet), (.vsf, samplePaged.call back)] ts :=
    .stepL (.inl (hss ▸ .mk hone)) (.stepL (.inr hbrowse) .refl)
  have hsplit : [(Node.vsf, sampleSet), (.vsf, samplePaged.call back)] =
      [(.vsf, sampleSet)] ++ (.vsf, samplePaged.call back) :: [] := rfl
  have hans := browsers_answer (fun _ => rfl) (fun _ => zero_notMem_decimal)
    (fun _ => plain_lawful) plain_lawful plain_exact zero_notMem_decimal hshow sample_sound hrun
    (fun n c _ => sample_legible c n) hsplit
  exact ⟨ts, back, hrun, sample_answer false back ▸ hans⟩

end Freak.Manager
