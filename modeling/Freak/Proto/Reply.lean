import Freak.Proto.Forward
import Freak.Proto.Msgbox

/-! What the reply of `msgbox_do_handler` says of the handler, and what a client takes from it. -/
namespace Freak.Proto

/-- `*osize`, and `proto_package_size` of a package. -/
def Packet.packageSize (p : Packet) : Nat := p.data.length + headerSize

/-- The reply to `p` tells that the handler returned `ret` and wrote `out`. -/
structure Reports (p : Packet) (ret : Int) (out : List UInt8) (r : Packet) : Prop where
  chn : r.chn = p.chn
  key : r.key = p.key
  action : r.action = p.action
  format : r.format = p.format
  errcode : r.errcode = 0 ↔ ret = 0
  size : r.data.length = out.length
  osize : r.packageSize = out.length + headerSize
  data : r.data = out

/-- The bytes that a client decodes, once it has seen that there is no error. -/
def Packet.decoded (r : Packet) : Option (List UInt8) := if r.errcode = 0 then some r.data else none

variable {handlers : Key → Handler} {now : UInt64} {k : Key} {n : Node} {p r : Packet} {ret : Int}
  {out : List UInt8}

theorem length_reply : (p.reply now ret out).data.length = out.length % 65536 := by
  rw [Packet.reply, List.length_take]
  exact min_eq_left (Nat.mod_le _ _)

theorem reply_reports_iff : Reports p ret out (p.reply now ret out) ↔
    (ret = 0 ∨ ¬ 256 ∣ ret) ∧ out.length < 65536 := by
  have hret : ((p.reply now ret out).errcode = 0 ↔ ret = 0) ↔ ret = 0 ∨ ¬ 256 ∣ ret := by
    rw [errcode_reply]
    omega
  have hsize : (p.reply now ret out).data.length = out.length ↔ out.length < 65536 := by
    rw [length_reply]
    omega
  rw [← hret, ← hsize]
  constructor
  · intro hr
    exact ⟨hr.errcode, hr.size⟩
  · rintro ⟨herr, hlen⟩
    refine ⟨rfl, rfl, rfl, rfl, herr, hlen, congrArg (· + headerSize) hlen, ?_⟩
    have hmod : out.length % 65536 = out.length := Nat.mod_eq_of_lt (hsize.mp hlen)
    exact List.take_of_length_le hmod.ge

/-- A client that decodes a reply which reports has what a handler without an error wrote. -/
theorem Reports.decoded {d : List UInt8} (h : Reports p ret out r) (hd : r.decoded = some d) :
    ret = 0 ∧ d = out := by
  rw [Packet.decoded] at hd
  split_ifs at hd with herr
  exact ⟨h.errcode.mp herr, (Option.some.inj hd).symm.trans h.data⟩

/-- The managers' own handlers return 0 and write no more than a package holds. -/
theorem reports_of_pack {h : Header} {e : Encoded} {s : Sent} (hs : Server.pack h now e = .ok s)
    (ho : out.length = e.osize) : Reports p 0 out (p.reply now 0 out) := by
  obtain ⟨hfits, -⟩ := Server.pack_eq_ok.mp hs
  have hle := ((fits_iff e).mp hfits).2
  exact reply_reports_iff.mpr ⟨Or.inl rfl, by omega⟩

/-- A reply reports its handler's outcome unless the result or the length is narrowed to another
one. -/
theorem reports_iff (handlers : Key → Handler) (now : UInt64) (k : Key) (n : Node) (p : Packet)
    (ret : Int) (out : List UInt8) (hn : k ∈ registered n) (hk : p.key = k.value)
    (ho : handlers k p.param = some (ret, out)) :
    (∃ r, msgboxDoHandler handlers now n p = some r ∧ Reports p ret out r) ↔
      (ret = 0 ∨ ¬ 256 ∣ ret) ∧ out.length < 65536 := by
  rw [msgboxDoHandler_registered hn hk, ho, Option.map_some]
  simp only [Option.some.injEq, exists_eq_left']
  exact reply_reports_iff

/-- A handler fails, and its reply says so. -/
theorem reports_failure : ∃ r, msgboxDoHandler (fun _ _ => some (-1, [])) 0 .vsf (samplePacket 3) =
    some r ∧ r.errcode ≠ 0 := by
  obtain ⟨r, hr, hreports⟩ := (reports_iff (fun _ _ => some (-1, [])) 0 .osd .vsf (samplePacket 3)
    (-1) [] (by decide) rfl rfl).mpr ⟨Or.inr (by decide), by decide⟩
  exact ⟨r, hr, fun herr => absurd (hreports.errcode.mp herr) (by decide)⟩

/-- A handler fails with a code whose last byte is 0. -/
theorem reports_lost : ¬ ∃ r, msgboxDoHandler (fun _ _ => some (256, [])) 0 .vsf (samplePacket 3) =
    some r ∧ Reports (samplePacket 3) 256 [] r := by
  rintro ⟨r, hr, hreports⟩
  obtain rfl := Option.some.inj hr
  exact absurd (hreports.errcode.mp (by decide)) (by decide)

end Freak.Proto
