import Freak.Lib.Given
import Freak.Proto.Formats

/-! A reply on its way back: the bytes of the reply buffer, and what a client makes of them. -/
namespace Freak.Proto

open Bytes Json Schema

/-- `proto_package_fill` over what the reply buffer held, the data, and what lies behind it. -/
def Sent.bytes (r : Sent) (obuf tail : List UInt8) : List UInt8 :=
  (r.header.version :: slice obuf 1 7) ++ (le 8 r.header.ts.toNat ++
    ((r.header.chn :: slice obuf 17 3) ++ (le 4 r.header.key.toNat ++
      (le 4 r.header.action.toNat ++ ((r.header.errcode :: slice obuf 29 3) ++
        (le 4 r.header.format.toNat ++ (le 2 r.header.size.toNat ++ (r.data ++ tail))))))))

namespace Server

variable {σ : Type} (v : Server σ)

/-- Behind `nnm_req_exchange`: the assertions, and `proto_client_data_post` over the caller's
record. -/
def clientPost (json : Bool) (k : Key) (t : Ty) (reply rec : List UInt8) : Run (List UInt8) := do
  let h := Header.read reply
  Run.assert (h.key = k.value)
  Run.assert (h.errcode = 0)
  v.dataIn json t h.size.toNat (reply.drop dataOffset) rec

end Server

section

variable {σ : Type} {v : Server σ} {r : Sent} {json : Bool} {k : Key} {a : Action} {t : Ty}
  {s s' : σ} {rec stack obuf tail data back out mem inp : List UInt8} {ts now : UInt64} {size : Nat}

/-- What is read from a reply. -/
theorem read_bytes (hobuf : obuf.length = packageMaxsize) :
    Header.read (r.bytes obuf tail) = r.header ∧
      (r.bytes obuf tail).drop dataOffset = r.data ++ tail := by
  have hlen : ∀ a n, a + n ≤ 2048 → (slice obuf a n).length = n := fun a n h =>
    length_slice (by rw [hobuf]; exact h)
  obtain ⟨p, hp⟩ : ∃ p, slice obuf 1 7 = p := ⟨_, rfl⟩
  obtain ⟨p', hp'⟩ : ∃ p, slice obuf 17 3 = p := ⟨_, rfl⟩
  obtain ⟨p'', hp''⟩ : ∃ p, slice obuf 29 3 = p := ⟨_, rfl⟩
  have h7 : p.length = 7 := by rw [← hp, hlen 1 7 (by decide)]
  have h3 : p'.length = 3 := by rw [← hp', hlen 17 3 (by decide)]
  have h3' : p''.length = 3 := by rw [← hp'', hlen 29 3 (by decide)]
  rw [Sent.bytes, hp, hp', hp'']
  refine ⟨?_, ?_⟩
  · cases r.header with
    | mk version hts chn key action errcode format hsize =>
      simp [Header.read, slice, List.drop_append, h7, h3, h3', length_le, List.drop_eq_nil_of_le,
        ofLe_le, ofLe]
  · simp [dataOffset, List.drop_append, h7, h3, h3', length_le, List.drop_eq_nil_of_le]

namespace Server

/-- What lies behind the data is not read. -/
theorem dataIn_append (h : v.dataIn json t size data rec = .ok back) :
    v.dataIn json t size (data ++ tail) rec = .ok back := by
  cases json with
  | true =>
    simp only [dataIn, if_true, Run.bind_eq_ok, Run.access_eq_ok, Run.assert_eq_ok, Run.pure_eq_ok,
      exists_const] at h ⊢
    obtain ⟨hzero, hsize, rfl⟩ := h
    have hcstr : cstr (data ++ tail) = cstr data := by
      obtain ⟨s, z, rfl⟩ := List.append_of_mem hzero
      rw [List.append_assoc, List.cons_append, cstr_append_zero, cstr_append_zero]
    rw [strlen, hcstr, ← strlen]
    exact ⟨List.mem_append_left _ hzero, hsize, rfl⟩
  | false =>
    simp only [dataIn, Bool.false_eq_true, if_false, Run.bind_eq_ok, Run.access_eq_ok,
      Run.assert_eq_ok, Run.pure_eq_ok, exists_const] at h ⊢
    obtain ⟨hsize, hle, rfl⟩ := h
    rw [List.take_append_of_le_length hle, List.length_append]
    exact ⟨hsize, hle.trans (Nat.le_add_right _ _), rfl⟩

/-- What is written into a reply is found in it. -/
theorem dataIn_reply {e : Encoded} (he : e = dataOut v.numText v.cs json t (out.take t.size) mem)
    (hmem : mem.length = 2010) (hfits : e.Fits) (hsize : t.size ≤ 428)
    (hout : json = false → out.length = t.size) :
    ∃ back, v.dataIn json t e.size.toNat (e.mem.take e.osize) rec = .ok back := by
  subst he
  cases json with
  | true =>
    have hle := ((fits_iff _).mp hfits).2
    have hlen := length_mem_text hmem hfits
    exact ⟨_, dataIn_text osize_text (by omega) hfits le_rfl⟩
  | false =>
    have hlen := hout rfl
    rw [List.take_of_length_le hlen.le] at hfits ⊢
    obtain ⟨-, hosize, hmlen, -⟩ := dataOut_record (v := v) hlen hsize hmem
    exact ⟨_, (dataIn_record (by omega) hfits le_rfl).mpr ⟨hosize, rfl⟩⟩

/-- A request that is answered ends its call, whatever happens before the answer is received. -/
theorem clientCall_of_reply (hobuf : obuf.length = packageMaxsize)
    (hinp : v.request json k a t rec ts = .ok inp)
    (hr : v.msgboxDoHandler s inp stack obuf now = .ok (s', r))
    (hdata : v.dataIn json t r.header.size.toNat r.data rec = .ok back) :
    v.clientCall json k a t s rec stack obuf ts now = .ok ⟨s', v.decoded inp t stack, back⟩ ∧
      v.clientPost json k t (r.bytes obuf tail) rec = .ok back := by
  have hkey : r.header.key = k.value := by
    obtain ⟨-, -, -, ops, a', e, -, -, -, hpack⟩ := msgboxDoHandler_eq_ok.mp hr
    obtain ⟨-, rfl⟩ := pack_eq_ok.mp hpack
    obtain ⟨e, -, -, rfl⟩ := request_eq_ok.mp hinp
    rw [read_fillHeader]
  have herr := errcode_eq_zero hr
  obtain ⟨hread, hdrop⟩ := @read_bytes r obuf tail hobuf
  refine ⟨?_, ?_⟩
  · simp only [clientCall, Run.bind_eq_ok, Run.pure_eq_ok, Run.assert_eq_ok, exists_const,
      Prod.exists]
    exact ⟨inp, hinp, s', r, hr, hkey, herr, back, hdata, rfl⟩
  · simp only [clientPost, Run.bind_eq_ok, Run.assert_eq_ok, exists_const, hread, hdrop]
    exact ⟨hkey, herr, dataIn_append hdata⟩

end Server

end

end Freak.Proto
