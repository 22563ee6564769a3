import Freak.Proto.Client

/-! When a call comes to the same in both formats. -/
namespace Freak.Proto

open Bytes Json Schema

variable {σ : Type}

/-- What a manager does with records of an action: it stops for both of two that are the same or for
neither, and what it makes of them is the same. -/
structure Ops.Respects (m : Ops σ) (R : σ → σ → Prop) (a : Action) (s : σ) : Prop where
  same : ∀ rec rec', rec.length = (m.record a).ty.size → rec'.length = (m.record a).ty.size →
    (m.record a).ty.Same rec rec' →
      Run.Corres (fun x y => R x.1 y.1 ∧ (m.record a).ty.Same x.2 y.2) (m.call a s rec)
        (m.call a s rec')
  length : ∀ rec t out, rec.length = (m.record a).ty.size → m.call a s rec = .ok (t, out) →
    out.length = (m.record a).ty.size
  terminated : ∀ rec t out, rec.length = (m.record a).ty.size → (m.record a).ty.Terminated rec →
    m.call a s rec = .ok (t, out) → (m.record a).ty.Terminated out

/-- The stored records, the record that a manager was called with and the one given back are the
same. -/
def Outcome.Same (R : σ → σ → Prop) (t : Ty) (o o' : Outcome σ) : Prop :=
  R o.state o'.state ∧ t.Same o.called o'.called ∧ t.Same o.returned o'.returned

namespace Server

variable (v : Server σ)

/-- `cJSON_Parse` undoes `cJSON_Print`, and takes no proper prefix of a text. -/
def Reads (j : Json) : Prop :=
  v.parse (text v.numText j) = some j ∧
    ∀ p s, s ≠ [] → p ++ s = text v.numText j → v.parse p = none

/-- The text of a record leaves room for its NUL in a package. -/
def Short (t : Ty) (rec : List UInt8) : Prop := (text v.numText (t.s2j v.cs rec)).length ≤ 2007

/-- Whatever the stacks and reply buffers held, a call ends in both formats or in neither, and in
both with the same outcome. -/
def Agree (R : σ → σ → Prop) (k : Key) (a : Action) (t : Ty) (s : σ) (rec : List UInt8) : Prop :=
  ∀ stack obuf ts now stack' obuf' ts' now', stack.length = 428 → obuf.length = packageMaxsize →
    stack'.length = 428 → obuf'.length = packageMaxsize →
      Run.Corres (Outcome.Same R t) (v.clientCall true k a t s rec stack obuf ts now)
        (v.clientCall false k a t s rec stack' obuf' ts' now')

/-- The texts of the record and of the one that comes back are short. -/
def TextsShort (m : Ops σ) (a : Action) (s : σ) (rec : List UInt8) : Prop :=
  v.Short (m.record a).ty rec ∧
    ∀ t out, m.call a s rec = .ok (t, out) → v.Short (m.record a).ty out

/-- The text of the record is not short, the manager does not take the record, and what is left of
the text does not reach it, or the manager takes nothing else that the stack may have held. -/
def NeitherServed (m : Ops σ) (a : Action) (s : σ) (rec : List UInt8) : Prop :=
  ¬ v.Short (m.record a).ty rec ∧ (∀ t out, m.call a s rec ≠ .ok (t, out)) ∧
    (Room v.numText ((m.record a).ty.s2j v.cs rec) (List.replicate 2010 0) →
      ∀ stack obuf : List UInt8, stack.length = 428 → obuf.length = packageMaxsize →
        ∀ t out, m.call a s (stack.take (m.record a).ty.size) = .ok (t, out) →
          ¬ Room v.numText ((m.record a).ty.s2j v.cs (out.take (m.record a).ty.size))
            (obuf.drop dataOffset))

variable {v} {R : σ → σ → Prop} {k : Key} {a : Action} {s : σ} {ops : UInt8 → Ops σ} {m : Ops σ}
  {rec stack obuf : List UInt8} {ts now : UInt64} {o : Outcome σ}

/-- A record is copied whole into a package and out of it. -/
theorem dataOut_record {t : Ty} {data mem : List UInt8} (hdata : data.length = t.size)
    (hsize : t.size ≤ 428) (hmem : mem.length = 2010) :
    (dataOut v.numText v.cs false t data mem).Fits ∧
      (dataOut v.numText v.cs false t data mem).osize = t.size ∧
      (dataOut v.numText v.cs false t data mem).mem.length = 2010 ∧
      (dataOut v.numText v.cs false t data mem).mem.take t.size = data := by
  simp only [fits_iff, dataOut, Bool.false_eq_true, if_false]
  refine ⟨by omega, hdata, ?_, ?_⟩
  · rw [length_store (by omega), hmem]
  · rw [store_zero, List.take_left' hdata]

theorem length_take_stack {r : Record} (h : stack.length = 428) :
    (stack.take r.ty.size).length = r.ty.size := by
  have hle := r.size_le
  rw [List.length_take]
  omega

theorem length_drop_obuf (h : obuf.length = packageMaxsize) :
    (obuf.drop dataOffset).length = 2010 := by
  rw [List.length_drop, h]
  rfl

section

variable (hops : v.handler k.value.toNat = some ops) (hm : ops (a.chn rec) = m)
  (htgr : a = .tgr → m.tgr.isSome) (hobuf : obuf.length = packageMaxsize)
include hops hm htgr hobuf

/-- A call with records comes to the manager's own. -/
theorem structCall_eq_ok (hr : m.Respects R a s) (hrec : rec.length = (m.record a).ty.size) :
    v.clientCall false k a (m.record a).ty s rec stack obuf ts now = .ok o ↔
      ∃ t out, m.call a s rec = .ok (t, out) ∧ o = ⟨t, rec, out⟩ := by
  subst hm
  have hle := ((ops (a.chn rec)).record a).size_le
  have hmem := length_drop_obuf hobuf
  obtain ⟨hfits, hosize, hlen, htake⟩ := @dataOut_record _ v _ rec (List.replicate 2010 0) hrec hle
    List.length_replicate
  have hgot := (@dataIn_record _ v _ (stack.take ((ops (a.chn rec)).record a).ty.size) rec _ _
    (by omega) hfits hfits.le_sent).mpr ⟨hosize, htake.symm⟩
  rw [clientCall_eq_ok hops htgr rfl rfl hfits (by omega) hgot]
  constructor
  · rintro ⟨t, out, e', back, hcall, rfl, hfits', hback, rfl⟩
    have hout := hr.length rec t out hrec hcall
    rw [List.take_of_length_le hout.le] at hfits' hback
    obtain ⟨-, hosize', hlen', htake'⟩ := @dataOut_record _ v _ out (obuf.drop dataOffset) hout hle
      hmem
    obtain ⟨-, rfl⟩ := (dataIn_record (by omega) hfits' le_rfl).mp hback
    exact ⟨t, out, hcall, by rw [htake']⟩
  · rintro ⟨t, out, hcall, rfl⟩
    have hout := hr.length rec t out hrec hcall
    obtain ⟨hfits', hosize', hlen', htake'⟩ := @dataOut_record _ v _ out (obuf.drop dataOffset) hout
      hle hmem
    refine ⟨t, out, _, out, hcall, by rw [List.take_of_length_le hout.le], hfits', ?_, rfl⟩
    exact (dataIn_record (by omega) hfits' le_rfl).mpr ⟨hosize', htake'.symm⟩

/-- A call with texts comes to what is decoded from them. -/
theorem jsonCall_eq_ok (hfits : (dataOut v.numText v.cs true (m.record a).ty rec
      (List.replicate 2010 0)).Fits) :
    v.clientCall true k a (m.record a).ty s rec stack obuf ts now = .ok o ↔
      ∃ got t out e, got = (m.record a).ty.j2s v.cs (v.parse (cstr (dataOut v.numText v.cs true
          (m.record a).ty rec (List.replicate 2010 0)).mem)) (stack.take (m.record a).ty.size) ∧
        m.call a s got = .ok (t, out) ∧
        e = dataOut v.numText v.cs true (m.record a).ty (out.take (m.record a).ty.size)
          (obuf.drop dataOffset) ∧ e.Fits ∧
        o = ⟨t, got, (m.record a).ty.j2s v.cs (v.parse (cstr e.mem)) rec⟩ := by
  subst hm
  have hmem := length_drop_obuf hobuf
  have hlen := length_mem_text List.length_replicate hfits
  have hosize := ((fits_iff _).mp hfits).2
  have hgot := @dataIn_text _ v ((ops (a.chn rec)).record a).ty
    (stack.take ((ops (a.chn rec)).record a).ty.size) _ osize_text (by omega) hfits _ hfits.le_sent
  rw [clientCall_eq_ok hops htgr rfl rfl hfits (by omega) hgot]
  constructor
  · rintro ⟨t, out, e', back, hcall, rfl, hfits', hback, rfl⟩
    have hosize' := ((fits_iff _).mp hfits').2
    have hlen' := length_mem_text hmem hfits'
    rw [dataIn_text osize_text (by omega) hfits' le_rfl] at hback
    obtain rfl := Except.ok.inj hback
    exact ⟨_, t, out, _, rfl, hcall, rfl, hfits', rfl⟩
  · rintro ⟨got, t, out, e', rfl, hcall, rfl, hfits', rfl⟩
    have hosize' := ((fits_iff _).mp hfits').2
    have hlen' := length_mem_text hmem hfits'
    exact ⟨t, out, _, _, hcall, rfl, hfits', dataIn_text osize_text (by omega) hfits' le_rfl, rfl⟩

end

/-- A call whose request does not fit does not end. -/
theorem fits_of_clientCall {json : Bool} {t : Ty}
    (h : v.clientCall json k a t s rec stack obuf ts now = .ok o) :
    (dataOut v.numText v.cs json t rec (List.replicate 2010 0)).Fits := by
  obtain ⟨inp, hinp, -⟩ := Run.bind_eq_ok.mp h
  obtain ⟨e, rfl, hfits, -⟩ := request_eq_ok.mp hinp
  exact hfits

section

variable (hnum : ∀ n, 0 ∉ v.numText n) {r : Record} {img mem : List UInt8}
include hnum

theorem parse_short (hread : v.Reads (r.ty.s2j v.cs img)) (hshort : v.Short r.ty img)
    (hmem : mem.length = 2010) : (dataOut v.numText v.cs true r.ty img mem).Fits ∧
      v.parse (cstr (dataOut v.numText v.cs true r.ty img mem).mem) =
        some (r.ty.s2j v.cs img) := by
  obtain ⟨ms, hobj⟩ := r.s2j_obj v.cs img
  obtain ⟨hfits, hcstr⟩ := text_short hnum hobj hshort hmem
  rw [hcstr]
  exact ⟨hfits, hread.1⟩

theorem parse_cut (hread : v.Reads (r.ty.s2j v.cs img)) (hlong : ¬ v.Short r.ty img)
    (hfits : (dataOut v.numText v.cs true r.ty img (List.replicate 2010 0)).Fits) :
    v.parse (cstr (dataOut v.numText v.cs true r.ty img (List.replicate 2010 0)).mem) = none := by
  obtain ⟨ms, hobj⟩ := r.s2j_obj v.cs img
  obtain ⟨s, hs, hcat⟩ := text_cut hnum hobj (not_le.mp hlong) hfits
  exact hread.2 _ s hs hcat

end

/-- A short text is decoded into the record that it was printed of. -/
theorem same_of_short (hnum : ∀ n, 0 ∉ v.numText n) (hlaw : v.cs.Lawful) {r : Record}
    {img mem old : List UInt8} (himg : img.length = r.ty.size) (hterm : r.ty.Terminated img)
    (hread : v.Reads (r.ty.s2j v.cs img)) (hshort : v.Short r.ty img) (hmem : mem.length = 2010)
    (hold : old.length = r.ty.size) :
    (dataOut v.numText v.cs true r.ty img mem).Fits ∧
      (r.ty.j2s v.cs (v.parse (cstr (dataOut v.numText v.cs true r.ty img mem).mem)) old).length =
        r.ty.size ∧
      r.ty.Same (r.ty.j2s v.cs (v.parse (cstr (dataOut v.numText v.cs true r.ty img mem).mem)) old)
        img := by
  obtain ⟨hfits, hparse⟩ := parse_short hnum hread hshort hmem
  rw [hparse]
  exact ⟨hfits, Ty.length_j2s hlaw _ (Ty.sized_of_wf _ r.wf) _ _ hold,
    Ty.same_j2s hlaw _ r.wf img old himg hold hterm⟩

/-- A cut text leaves the record as it is. -/
theorem eq_of_cut (hnum : ∀ n, 0 ∉ v.numText n) (hlaw : v.cs.Lawful) {r : Record}
    {img old : List UInt8} (hread : v.Reads (r.ty.s2j v.cs img)) (hlong : ¬ v.Short r.ty img)
    (hfits : (dataOut v.numText v.cs true r.ty img (List.replicate 2010 0)).Fits)
    (hold : old.length = r.ty.size) :
    r.ty.j2s v.cs (v.parse (cstr (dataOut v.numText v.cs true r.ty img
      (List.replicate 2010 0)).mem)) old = old := by
  rw [parse_cut hnum hread hlong hfits]
  exact Ty.j2s_absent hlaw _ r.wf old hold

/-- The stack may have held a record that is not the same. -/
theorem exists_other {r : Record} (hrec : rec.length = r.ty.size) :
    ∃ stack : List UInt8, stack.length = 428 ∧ ¬ r.ty.Same (stack.take r.ty.size) rec := by
  have hpos := r.size_pos
  cases rec with
  | nil => simp at hrec; omega
  | cons b bs =>
    refine ⟨(b + 1) :: List.replicate 427 0, ?_, ?_⟩
    · rw [List.length_cons, List.length_replicate]
    · intro hs
      have hfirst := Record.same_first hs
      obtain ⟨n, hn⟩ := Nat.exists_eq_succ_of_ne_zero hpos.ne'
      rw [hn, List.take_succ_cons, List.take_succ_cons, List.take_succ_cons, List.cons.injEq]
        at hfirst
      have hne := congrArg UInt8.toNat hfirst.1
      simp at hne
      omega

section

variable (hnum : ∀ n, 0 ∉ v.numText n) (hlaw : v.cs.Lawful)
  (hread : ∀ img, img.length = (m.record a).ty.size → (m.record a).ty.Terminated img →
    v.Reads ((m.record a).ty.s2j v.cs img))
  (hr : m.Respects R a s) (hrec : rec.length = (m.record a).ty.size)
  (hterm : (m.record a).ty.Terminated rec)
include hnum hlaw hread hr hrec hterm

/-- What the manager makes of a record and of one that is the same has one text, which is decoded
into the same again. -/
theorem reply_short (hshort : v.TextsShort m a s rec) (hobuf : obuf.length = packageMaxsize)
    {got out out' : List UInt8} {t t' : σ} (hglen : got.length = (m.record a).ty.size)
    (hgot : (m.record a).ty.Same got rec) (hcall : m.call a s got = .ok (t, out))
    (hcall' : m.call a s rec = .ok (t', out')) :
    (dataOut v.numText v.cs true (m.record a).ty (out.take (m.record a).ty.size)
        (obuf.drop dataOffset)).Fits ∧ R t t' ∧
      (m.record a).ty.Same ((m.record a).ty.j2s v.cs (v.parse (cstr (dataOut v.numText v.cs true
        (m.record a).ty (out.take (m.record a).ty.size) (obuf.drop dataOffset)).mem)) rec)
        out' := by
  have hwf := (m.record a).wf
  have hmem := length_drop_obuf hobuf
  obtain ⟨-, hsame⟩ := Run.corres_iff.mp (hr.same _ rec hglen hrec hgot)
  obtain ⟨hR, hout⟩ := hsame _ _ hcall hcall'
  have hgterm := Ty.terminated_of_same _ hwf _ rec hglen hrec hgot hterm
  have holen := hr.length _ _ _ hglen hcall
  have holen' := hr.length _ _ _ hrec hcall'
  have hoterm := hr.terminated _ _ _ hglen hgterm hcall
  have hoshort : v.Short (m.record a).ty out := by
    rw [Short, Ty.s2j_congr hlaw _ hwf out out' holen holen' hout]
    exact hshort.2 t' out' hcall'
  obtain ⟨hfits, hblen, hback⟩ := same_of_short hnum hlaw holen hoterm (hread out holen hoterm)
    hoshort hmem hrec
  rw [List.take_of_length_le holen.le]
  exact ⟨hfits, hR, Ty.same_trans _ hwf _ out out' hblen holen holen' hback hout⟩

variable (hops : v.handler k.value.toNat = some ops) (hm : ops (a.chn rec) = m)
  (htgr : a = .tgr → m.tgr.isSome)
include hops hm htgr

/-- Short texts carry the record there and back. -/
theorem agree_of_short (hshort : v.TextsShort m a s rec) :
    v.Agree R k a (m.record a).ty s rec := by
  intro stack obuf ts now stack' obuf' ts' now' hstack hobuf hstack' hobuf'
  have hold : (stack.take (m.record a).ty.size).length = _ := length_take_stack hstack
  obtain ⟨hfits, hglen, hgot⟩ := same_of_short hnum hlaw hrec hterm (hread rec hrec hterm)
    hshort.1 (List.length_replicate (n := 2010) (a := 0)) hold
  obtain ⟨hboth, -⟩ := Run.corres_iff.mp (hr.same _ rec hglen hrec hgot)
  rw [Run.corres_iff]
  refine ⟨⟨?_, ?_⟩, ?_⟩
  · rintro ⟨o, ho⟩
    obtain ⟨got, t, out, e, rfl, hcall, -⟩ :=
      (jsonCall_eq_ok hops hm htgr hobuf hfits).mp ho
    obtain ⟨⟨t', out'⟩, hcall'⟩ := hboth.mp ⟨_, hcall⟩
    exact ⟨_, (structCall_eq_ok hops hm htgr hobuf' hr hrec).mpr ⟨t', out', hcall', rfl⟩⟩
  · rintro ⟨o, ho⟩
    obtain ⟨t', out', hcall', rfl⟩ := (structCall_eq_ok hops hm htgr hobuf' hr hrec).mp ho
    obtain ⟨⟨t, out⟩, hcall⟩ := hboth.mpr ⟨_, hcall'⟩
    obtain ⟨hfits', -, -⟩ := reply_short hnum hlaw hread hr hrec hterm hshort hobuf hglen hgot hcall
      hcall'
    exact ⟨_, (jsonCall_eq_ok hops hm htgr hobuf hfits).mpr
      ⟨_, t, out, _, rfl, hcall, rfl, hfits', rfl⟩⟩
  · intro o o' ho ho'
    obtain ⟨got, t, out, e, rfl, hcall, rfl, -, rfl⟩ :=
      (jsonCall_eq_ok hops hm htgr hobuf hfits).mp ho
    obtain ⟨t', out', hcall', rfl⟩ := (structCall_eq_ok hops hm htgr hobuf' hr hrec).mp ho'
    obtain ⟨-, hR, hback⟩ := reply_short hnum hlaw hread hr hrec hterm hshort hobuf hglen hgot hcall
      hcall'
    exact ⟨hR, hgot, hback⟩

/-- Nothing is served in either format. -/
theorem agree_of_neither (hneither : v.NeitherServed m a s rec) :
    v.Agree R k a (m.record a).ty s rec := by
  obtain ⟨hlong, hnever, hstale⟩ := hneither
  intro stack obuf ts now stack' obuf' ts' now' hstack hobuf hstack' hobuf'
  have hold : (stack.take (m.record a).ty.size).length = _ := length_take_stack hstack
  have hmem := (length_drop_obuf hobuf).symm.le.trans' (by decide : 2008 ≤ 2010)
  have hjson : ∀ o, v.clientCall true k a (m.record a).ty s rec stack obuf ts now ≠ .ok o := by
    intro o ho
    have hfits := fits_of_clientCall ho
    obtain ⟨got, t, out, e, rfl, hcall, rfl, hfits', -⟩ :=
      (jsonCall_eq_ok hops hm htgr hobuf hfits).mp ho
    rw [eq_of_cut hnum hlaw (hread rec hrec hterm) hlong hfits hold] at hcall
    have hroom := (fits_json_iff hnum (by rw [List.length_replicate]; decide)).mp hfits
    exact hstale hroom stack obuf hstack hobuf t out hcall ((fits_json_iff hnum hmem).mp hfits')
  have hstruct : ∀ o,
      v.clientCall false k a (m.record a).ty s rec stack' obuf' ts' now' ≠ .ok o := by
    intro o ho
    obtain ⟨t, out, hcall, -⟩ := (structCall_eq_ok hops hm htgr hobuf' hr hrec).mp ho
    exact hnever t out hcall
  rw [Run.corres_iff]
  refine ⟨iff_of_false ?_ ?_, ?_⟩
  · rintro ⟨o, ho⟩
    exact hjson o ho
  · rintro ⟨o, ho⟩
    exact hstruct o ho
  · intro o o' ho
    exact absurd ho (hjson o)

omit hnum hlaw hread hterm in
/-- Where the manager takes the record, a call with texts ends with the same. -/
theorem json_of_agree (h : v.Agree R k a (m.record a).ty s rec) (hstack : stack.length = 428)
    (hobuf : obuf.length = packageMaxsize) {t : σ} {out : List UInt8}
    (hcall : m.call a s rec = .ok (t, out)) :
    ∃ o, v.clientCall true k a (m.record a).ty s rec stack obuf 0 0 = .ok o ∧
      o.Same R (m.record a).ty ⟨t, rec, out⟩ := by
  obtain ⟨hboth, hsame⟩ := Run.corres_iff.mp
    (h stack obuf 0 0 stack obuf 0 0 hstack hobuf hstack hobuf)
  have hstruct : v.clientCall false k a (m.record a).ty s rec stack obuf 0 0 =
      .ok ⟨t, rec, out⟩ :=
    (structCall_eq_ok hops hm htgr hobuf hr hrec).mpr ⟨t, out, hcall, rfl⟩
  obtain ⟨o, ho⟩ := hboth.mpr ⟨_, hstruct⟩
  exact ⟨o, ho, hsame _ _ ho hstruct⟩

omit hnum hlaw hread hterm in
/-- A record that the manager takes, and whose text is written over the end of the package. -/
theorem not_agree_of_unfit {t : σ} {out : List UInt8} (hcall : m.call a s rec = .ok (t, out))
    (hunfit : ¬ (dataOut v.numText v.cs true (m.record a).ty rec (List.replicate 2010 0)).Fits) :
    ¬ v.Agree R k a (m.record a).ty s rec := by
  intro h
  obtain ⟨o, ho, -⟩ := json_of_agree hr hrec hops hm htgr h
    (List.length_replicate (n := 428) (a := 0)) (List.length_replicate (a := 0)) hcall
  exact hunfit (fits_of_clientCall ho)

/-- A record whose text is cut does not reach the manager. -/
theorem never_of_agree (hlong : ¬ v.Short (m.record a).ty rec)
    (h : v.Agree R k a (m.record a).ty s rec) : ∀ t out, m.call a s rec ≠ .ok (t, out) := by
  intro t out hcall
  obtain ⟨stack, hstack, hother⟩ := exists_other hrec
  have hobuf : (List.replicate packageMaxsize (0 : UInt8)).length = packageMaxsize :=
    List.length_replicate
  have hold : (stack.take (m.record a).ty.size).length = _ := length_take_stack hstack
  obtain ⟨o, ho, hsame⟩ := json_of_agree hr hrec hops hm htgr h hstack hobuf hcall
  have hfits := fits_of_clientCall ho
  obtain ⟨got, t', out', e, rfl, -, -, -, rfl⟩ := (jsonCall_eq_ok hops hm htgr hobuf hfits).mp ho
  have hcalled := hsame.2.1
  rw [eq_of_cut hnum hlaw (hread rec hrec hterm) hlong hfits hold] at hcalled
  exact hother hcalled

/-- Where the text of the reply is cut, the caller is left with its own record. -/
theorem short_of_agree (hshort : v.Short (m.record a).ty rec)
    (h : v.Agree R k a (m.record a).ty s rec) {t : σ} {out : List UInt8}
    (hcall : m.call a s rec = .ok (t, out)) : v.Short (m.record a).ty out := by
  by_contra hlong
  have hwf := (m.record a).wf
  have hstack : (List.replicate 428 (0 : UInt8)).length = 428 := List.length_replicate
  have hobuf : (List.replicate packageMaxsize (0 : UInt8)).length = packageMaxsize :=
    List.length_replicate
  have hzeros : (List.replicate packageMaxsize (0 : UInt8)).drop dataOffset =
      List.replicate 2010 0 := by
    rw [List.drop_replicate]
    rfl
  have hold : ((List.replicate 428 (0 : UInt8)).take (m.record a).ty.size).length = _ :=
    length_take_stack hstack
  obtain ⟨o, ho, hsame⟩ := json_of_agree hr hrec hops hm htgr h hstack hobuf hcall
  obtain ⟨hfits, hglen, hgot⟩ := same_of_short hnum hlaw hrec hterm (hread rec hrec hterm)
    hshort (List.length_replicate (n := 2010) (a := 0)) hold
  obtain ⟨got, t', out', e, rfl, hcall', rfl, hfits', rfl⟩ :=
    (jsonCall_eq_ok hops hm htgr hobuf hfits).mp ho
  obtain ⟨-, hcorr⟩ := Run.corres_iff.mp (hr.same _ rec hglen hrec hgot)
  have hout := (hcorr _ _ hcall' hcall).2
  have hgterm := Ty.terminated_of_same _ hwf _ rec hglen hrec hgot hterm
  have holen := hr.length _ _ _ hrec hcall
  have holen' := hr.length _ _ _ hglen hcall'
  have hoterm' := hr.terminated _ _ _ hglen hgterm hcall'
  have htext := Ty.s2j_congr hlaw _ hwf out' out holen' holen hout
  have hlong' : ¬ v.Short (m.record a).ty out' := by
    rwa [Short, htext]
  have hback := hsame.2.2
  rw [List.take_of_length_le holen'.le, hzeros] at hfits' hback
  rw [eq_of_cut hnum hlaw (hread out' holen' hoterm') hlong' hfits' hrec] at hback
  rw [Short, Ty.s2j_congr hlaw _ hwf rec out hrec holen hback] at hshort
  exact hlong hshort

/-- The two formats come to the same exactly when the texts are short, or nothing is served in
either. -/
theorem agree_iff : v.Agree R k a (m.record a).ty s rec ↔
    v.TextsShort m a s rec ∨ v.NeitherServed m a s rec := by
  constructor
  · intro h
    by_cases hshort : v.Short (m.record a).ty rec
    · left
      refine ⟨hshort, ?_⟩
      intro t out hcall
      exact short_of_agree hnum hlaw hread hr hrec hterm hops hm htgr hshort h hcall
    · right
      have hnever := never_of_agree hnum hlaw hread hr hrec hterm hops hm htgr hshort h
      refine ⟨hshort, hnever, ?_⟩
      intro hroom stack obuf hstack hobuf t out hcall hroom'
      have hold : (stack.take (m.record a).ty.size).length = _ := length_take_stack hstack
      have hmem := (length_drop_obuf hobuf).symm.le.trans' (by decide : 2008 ≤ 2010)
      have hfits := (fits_json_iff hnum (by rw [List.length_replicate]; decide)).mpr hroom
      obtain ⟨hboth, -⟩ := Run.corres_iff.mp
        (h stack obuf 0 0 stack obuf 0 0 hstack hobuf hstack hobuf)
      rw [← eq_of_cut hnum hlaw (hread rec hrec hterm) hshort hfits hold] at hcall
      obtain ⟨o, ho⟩ := hboth.mp ⟨_, (jsonCall_eq_ok hops hm htgr hobuf hfits).mpr
        ⟨_, t, out, _, rfl, hcall, rfl, (fits_json_iff hnum hmem).mpr hroom', rfl⟩⟩
      obtain ⟨t', out', hcall', -⟩ := (structCall_eq_ok hops hm htgr hobuf hr hrec).mp ho
      exact hnever t' out' hcall'
  · rintro (hshort | hneither)
    · exact agree_of_short hnum hlaw hread hr hrec hterm hops hm htgr hshort
    · exact agree_of_neither hnum hlaw hread hr hrec hterm hops hm htgr hneither

end

end Server

end Freak.Proto
