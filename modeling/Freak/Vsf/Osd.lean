import Freak.Lib.Printf
import Freak.Lib.Same
import Freak.Manager.Boot
import Freak.Vsf.Draw

/-! The pictures of `osd_mgr.c`: texts, and the boxes of objects with their labels. -/
namespace Freak.Vsf

open Bytes Schema Grid
open Freak.Manager (word uword conditionOf)
open Freak.Proto (Record)

/-- What `FT_Load_Char` leaves in the slot of a face. -/
structure Glyph where
  bitmap : FtBitmap
  bitmapLeft : Int
  bitmapTop : Int
  advance : Int × Int

/-- `FT_Face`: the sizes it can be set to, and a character's glyph at a size and a pen. -/
structure Face where
  setPixelSizes : Nat → Bool
  loadChar : Nat → Int × Int → UInt8 → Option Glyph

/-- `proto_vsf_osd_text_t`. -/
structure OsdText where
  point : Int × Int
  size : Nat
  color : UInt32
  text : List UInt8

/-- `proto_vsf_osd_obj_t`. -/
structure OsdObj where
  id : Int
  color : UInt32
  rect : ObjRect

section

variable (face : Face) (b : Bitmap)

/-- The loop of `__draw_text` over the characters. -/
def drawChars (size : Nat) (color : UInt32) : List UInt8 → Int × Int → Pixels → Run Pixels
  | [], _, mem => pure mem
  | c :: cs, pen, mem =>
    match face.loadChar size pen c with
    -- the character is left out, and the pen stays
    | none => drawChars size color cs pen mem
    | some slot => do
      let point := (slot.bitmapLeft, s32 (b.u32Height - slot.bitmapTop))
      let mem ← drawChar b slot.bitmap color point mem
      let pen := (s32 (pen.1 + slot.advance.1), s32 (pen.2 + slot.advance.2))
      drawChars size color cs pen mem

/-- The pen at the beginning of a text. -/
def OsdText.pen (text : OsdText) : Int × Int :=
  let x := scale (range text.point.1 0 8191).toNat b.u32Width
  let y := scale (range text.point.2 0 8191).toNat b.u32Height
  (x * 64, s32 ((b.u32Height - y) * 64))

/-- `__draw_text`. -/
def drawText (text : OsdText) (mem : Pixels) : Run Pixels := do
  Run.access (0 ∈ text.text)
  Run.assert (face.setPixelSizes text.size)
  drawChars face b text.size text.color (cstr text.text) (text.pen b) mem

/-- The text that `__draw_obj` puts at a box. -/
def OsdObj.label (obj : OsdObj) : Run OsdText := do
  let text ← sprintf (List.replicate 32 0) 0 (ascii "id: " ++ Json.decimal obj.id)
  pure ⟨(s32 (obj.rect.x - 32 - 2), obj.rect.y), 32, obj.color, text⟩

def stores (color : Nat) : List Dot → Pixels → Run Pixels
  | [], mem => pure mem
  | d :: ds, mem => do
    let k ← Run.index b.size d.index
    stores color ds (Function.update mem k color)

/-- `__draw_obj`. -/
def drawObject (obj : OsdObj) (mem : Pixels) : Run Pixels :=
  match drawObj b obj.rect with
  -- `8192 - x` is undefined
  | none => .error .bounds
  -- it has returned early when there is nothing to write
  | some dots =>
    if dots.isEmpty then pure mem
    else do
      let mem ← stores b (argb8888To1555 obj.color) dots mem
      let text ← obj.label
      drawText face b text mem

/-- `memset(bitmap->pData, 0, bitmap->u32Height * bitmap->u32Stride)`. -/
def clear (mem : Pixels) : Pixels := fun k =>
  if k < b.u32Height * b.u32Stride % 2 ^ 32 / 2 then 0 else mem k

def textOf (img : List UInt8) : OsdText :=
  ⟨(word img 0, word img 4), uword img 8, UInt32.ofNat (uword img 12), slice img 16 32⟩

def objOf (img : List UInt8) : OsdObj :=
  ⟨word img 0, UInt32.ofNat (uword img 4),
    ⟨word img 8, word img 12, uword img 16, uword img 20⟩⟩

/-- `texts->texts[i]` and `objs->objs[i]` of an OSD record. -/
def textAt (cfg : List UInt8) (i : Nat) : OsdText := textOf (slice cfg (44 + i * 48) 48)

def objAt (cfg : List UInt8) (i : Nat) : OsdObj := objOf (slice cfg (44 + i * 24) 24)

/-- `__vsf_osd_ctrl_texts`. -/
def ctrlTexts (cfg : List UInt8) (mem : Pixels) : Run Pixels :=
  Run.loop (fun i mem => do
    let i ← Run.index 8 i
    drawText face b (textAt cfg i) mem) (uword cfg 40) (clear b mem)

/-- `__vsf_osd_ctrl_objs`. -/
def ctrlObjs (cfg : List UInt8) (mem : Pixels) : Run Pixels :=
  Run.loop (fun i mem => do
    let i ← Run.index 16 i
    drawObject face b (objAt cfg i) mem) (uword cfg 40) (clear b mem)

/-- What `__vsf_osd_ctrl` has drawn on the canvas of its region. -/
def osdDraw (cfg : List UInt8) (mem : Pixels) : Run Pixels :=
  if condIs "mask" (conditionOf cfg) then pure mem
  else if condIs "texts" (conditionOf cfg) then ctrlTexts face b cfg mem
  else if condIs "objs" (conditionOf cfg) then ctrlObjs face b cfg mem
  else pure mem

/-- The glyphs of a text, one behind the other. -/
def Face.glyphs (size : Nat) : List UInt8 → Int × Int → List Glyph
  | [], _ => []
  | c :: cs, pen =>
    match face.loadChar size pen c with
    | none => glyphs size cs pen
    | some g => g :: glyphs size cs (pen + g.advance)

/-- Where a glyph covers the canvas. -/
def Glyph.cells (g : Glyph) : Set Nat :=
  {k | ∃ p < g.bitmap.width, ∃ q < g.bitmap.rows,
    Covers b g.bitmap (g.bitmapLeft, b.u32Height - g.bitmapTop) p q k}

/-- Where a text begins, in 26.6 pixels from the lower left. -/
def OsdText.start (t : OsdText) : Int × Int :=
  (((range t.point.1 0 8191).toNat * b.u32Width / 8192 : Nat) * 64,
    (b.u32Height - ((range t.point.2 0 8191).toNat * b.u32Height / 8192 : Nat)) * 64)

/-- A text as it lies on the canvas. -/
def OsdText.layers (t : OsdText) : List (Nat × Set Nat) :=
  (face.glyphs t.size (cstr t.text) (t.start b)).map fun g => (argb1555 t.color, g.cells b)

/-- Where the border of a box is. -/
def Box.cells (rect : Box) : Set Nat :=
  {k | ∃ row col, rect.OnBorder row col ∧ k = b.pixel row col}

/-- The label of an object begins left of its box. -/
def OsdObj.caption (obj : OsdObj) : OsdText :=
  ⟨(obj.rect.x - 34, obj.rect.y), 32, obj.color, ascii "id: " ++ Json.decimal obj.id⟩

/-- An object as it lies on the canvas: its box, and its label over it. -/
def OsdObj.layers (obj : OsdObj) : List (Nat × Set Nat) :=
  if (obj.rect.target b).w = 0 ∨ (obj.rect.target b).h = 0 then []
  else (argb1555 obj.color, (obj.rect.target b).cells b) :: obj.caption.layers face b

end

/-- Glyphs lie within 16 bits, and the pen is not advanced by more. -/
def Face.Renders (face : Face) : Prop :=
  ∀ size pen c g, face.loadChar size pen c = some g →
    (-2 ^ 15 ≤ g.bitmapLeft ∧ g.bitmapLeft < 2 ^ 15) ∧
    (-2 ^ 15 ≤ g.bitmapTop ∧ g.bitmapTop < 2 ^ 15) ∧
    g.bitmap.width < 2 ^ 16 ∧ g.bitmap.rows < 2 ^ 16 ∧
    (-2 ^ 22 ≤ g.advance.1 ∧ g.advance.1 ≤ 2 ^ 22) ∧ (-2 ^ 22 ≤ g.advance.2 ∧ g.advance.2 ≤ 2 ^ 22)

section

variable {face : Face} {b : Bitmap} {size : Nat} {color : UInt32} {cs : List UInt8}
  {pen : Int × Int} {mem mem' : Pixels} {t : OsdText} {obj : OsdObj}

/-- A glyph lies on the canvas where the face says. -/
theorem drawChar_shows {c : UInt8} {g : Glyph} (hface : face.Renders)
    (hsize : b.u32Height * b.u32Stride < 2 ^ 32) (hH : b.u32Height < 2 ^ 18)
    (hg : face.loadChar size pen c = some g) :
    ∃ mem', drawChar b g.bitmap color (g.bitmapLeft, s32 (b.u32Height - g.bitmapTop)) mem =
      .ok mem' ∧ Shows [(argb1555 color, g.cells b)] mem mem' := by
  obtain ⟨⟨hl, hl'⟩, ⟨ht, ht'⟩, hw, hr, -, -⟩ := hface _ _ _ _ hg
  have htop : s32 (b.u32Height - g.bitmapTop) = b.u32Height - g.bitmapTop :=
    s32_eq (by omega) (by omega)
  rw [htop]
  obtain ⟨mem', hok, hpaints⟩ := @drawChar_paints b g.bitmap color
    (g.bitmapLeft, b.u32Height - g.bitmapTop) mem hsize (by dsimp only; omega)
    (by dsimp only; omega) (by dsimp only; omega) (by dsimp only; omega)
  rw [argb8888To1555_eq] at hpaints
  exact ⟨mem', hok, hpaints.shows⟩

/-- The pen does not leave its 32 bits while there is room for the characters to come. -/
theorem drawChars_shows (hface : face.Renders) (hsize : b.u32Height * b.u32Stride < 2 ^ 32)
    (hH : b.u32Height < 2 ^ 18) (hx : -2 ^ 31 + cs.length * 2 ^ 22 ≤ pen.1)
    (hx' : pen.1 + cs.length * 2 ^ 22 < 2 ^ 31) (hy : -2 ^ 31 + cs.length * 2 ^ 22 ≤ pen.2)
    (hy' : pen.2 + cs.length * 2 ^ 22 < 2 ^ 31) :
    ∃ mem', drawChars face b size color cs pen mem = .ok mem' ∧
      Shows ((face.glyphs size cs pen).map fun g => (argb1555 color, g.cells b)) mem mem' := by
  induction cs generalizing pen mem with
  | nil => exact ⟨mem, rfl, shows_nil⟩
  | cons c cs ih =>
    rw [List.length_cons] at hx hx' hy hy'
    rw [drawChars, Face.glyphs]
    cases hg : face.loadChar size pen c with
    | none =>
      dsimp only
      apply ih <;> omega
    | some g =>
      obtain ⟨-, -, -, -, ⟨ha, ha'⟩, ⟨hb, hb'⟩⟩ := hface _ _ _ _ hg
      obtain ⟨m, hm, hshow⟩ := @drawChar_shows face b size color pen mem c g hface hsize hH hg
      have hpen : (s32 (pen.1 + g.advance.1), s32 (pen.2 + g.advance.2)) = pen + g.advance := by
        rw [s32_eq (by omega) (by omega), s32_eq (by omega) (by omega)]
        rfl
      obtain ⟨mem', hrest, hshow'⟩ := @ih (pen + g.advance) m (by rw [Prod.fst_add]; omega)
        (by rw [Prod.fst_add]; omega) (by rw [Prod.snd_add]; omega) (by rw [Prod.snd_add]; omega)
      refine ⟨mem', ?_, hshow.trans hshow'⟩
      dsimp only
      rw [hpen]
      exact Run.bind_eq_ok.mpr ⟨m, hm, hrest⟩

theorem length_cstr_lt {bs : List UInt8} (h : 0 ∈ bs) : (cstr bs).length < bs.length := by
  rw [zero_mem_iff] at h
  exact h

theorem scaled_le {v m : Nat} (hv : v ≤ 8191) : v * m / 8192 ≤ m :=
  Nat.div_le_of_le_mul (Nat.mul_le_mul_right _ (by omega))

/-- A text begins on its canvas. -/
theorem pen_eq (hW : b.u32Width < 2 ^ 18) (hH : b.u32Height < 2 ^ 18) :
    t.pen b = t.start b ∧ (0 ≤ (t.start b).1 ∧ (t.start b).1 < 2 ^ 24) ∧
      0 ≤ (t.start b).2 ∧ (t.start b).2 < 2 ^ 24 := by
  have hgx := range_grid t.point.1
  have hgy := range_grid t.point.2
  have hx := scaled_le (m := b.u32Width) hgx
  have hy := scaled_le (m := b.u32Height) hgy
  simp only [OsdText.pen, OsdText.start, scale_eq (hgx.trans (by decide)) hW,
    scale_eq (hgy.trans (by decide)) hH]
  refine ⟨Prod.ext rfl (s32_eq ?_ ?_), ⟨?_, ?_⟩, ?_, ?_⟩ <;> omega

/-- A text lies on the canvas glyph by glyph. -/
theorem drawText_shows (hface : face.Renders) (hsize : b.u32Height * b.u32Stride < 2 ^ 32)
    (hW : b.u32Width < 2 ^ 18) (hH : b.u32Height < 2 ^ 18) (hlen : t.text.length = 32)
    (hterm : 0 ∈ t.text) (ht : face.setPixelSizes t.size = true) :
    ∃ mem', drawText face b t mem = .ok mem' ∧ Shows (t.layers face b) mem mem' := by
  have hchars := length_cstr_lt hterm
  obtain ⟨hpen, ⟨hx, hx'⟩, hy, hy'⟩ := pen_eq (t := t) hW hH
  rw [drawText, hpen]
  obtain ⟨mem', hok, hshow⟩ : ∃ mem',
      drawChars face b t.size t.color (cstr t.text) (t.start b) mem = .ok mem' ∧
        Shows (t.layers face b) mem mem' := by
    apply drawChars_shows hface hsize hH <;> omega
  exact ⟨mem', Run.bind_eq_ok.mpr ⟨(), Run.access_eq_ok.mpr hterm,
    Run.bind_eq_ok.mpr ⟨(), Run.assert_eq_ok.mpr ht, hok⟩⟩, hshow⟩

/-- A text that is drawn ends inside its field and has a size that the face can be set to. -/
theorem drawText_eq_ok (h : drawText face b t mem = .ok mem') :
    0 ∈ t.text ∧ face.setPixelSizes t.size = true := by
  obtain ⟨_, hterm, h⟩ := Run.bind_eq_ok.mp h
  obtain ⟨_, ht, -⟩ := Run.bind_eq_ok.mp h
  exact ⟨Run.access_eq_ok.mp hterm, Run.assert_eq_ok.mp ht⟩

/-- Texts with the same characters lie on the canvas alike. -/
theorem layers_congr {t t' : OsdText} (hp : t.point = t'.point) (hs : t.size = t'.size)
    (hc : t.color = t'.color) (ht : cstr t.text = cstr t'.text) :
    t.layers face b = t'.layers face b := by
  simp only [OsdText.layers, OsdText.start, hp, hs, hc, ht]

theorem word_range (img : List UInt8) (a : Nat) : -2 ^ 31 ≤ word img a ∧ word img a < 2 ^ 31 := by
  obtain ⟨n, hn⟩ : ∃ n : Int, word img a = n.bmod (2 ^ 32) := ⟨_, rfl⟩
  rw [hn, Int.bmod_def]
  omega

theorem length_decimal {n : Int} (hn : -2 ^ 31 ≤ n) (hn' : n < 2 ^ 31) :
    (Json.decimal n).length ≤ 11 := by
  have hlt : n.natAbs < 10 ^ 10 := by omega
  have hd := @Json.length_digits (n.natAbs + 1) n.natAbs 10 (by decide) hlt
  rw [Json.decimal]
  split_ifs
  · rw [List.length_cons]
    omega
  · omega

/-- The label of an object fits its field and says its caption. -/
theorem label_spec (hid : -2 ^ 31 ≤ obj.id) (hid' : obj.id < 2 ^ 31)
    (hx : 8192 - obj.rect.x < 2 ^ 31) (hx' : obj.rect.x < 2 ^ 31) :
    ∃ t, obj.label = .ok t ∧ t.text.length = 32 ∧ 0 ∈ t.text ∧ t.size = 32 ∧
      t.layers face b = obj.caption.layers face b := by
  obtain ⟨txt, htxt⟩ : ∃ txt, ascii "id: " ++ Json.decimal obj.id = txt := ⟨_, rfl⟩
  have hlen : txt.length ≤ 15 := by
    have hdec := length_decimal hid hid'
    have hpre : (ascii "id: ").length = 4 := rfl
    rw [← htxt, List.length_append]
    omega
  have hzero : (0 : UInt8) ∉ txt := by
    rw [← htxt, List.mem_append, not_or]
    exact ⟨by decide, Json.zero_notMem_decimal _⟩
  have hstr : cstr (store (List.replicate 32 0) 0 (txt ++ [0])) = txt :=
    @cstr_store_strlen (List.replicate 32 0) txt hzero
  have hx₀ : s32 (obj.rect.x - 32 - 2) = obj.rect.x - 34 := by
    rw [s32_eq] <;> omega
  refine ⟨⟨(obj.rect.x - 34, obj.rect.y), 32, obj.color,
    store (List.replicate 32 0) 0 (txt ++ [0])⟩, ?_, ?_, ?_, rfl, ?_⟩
  · rw [OsdObj.label, htxt, hx₀]
    refine Run.bind_eq_ok.mpr ⟨_, sprintf_eq_ok.mpr ⟨?_, rfl⟩, rfl⟩
    rw [List.length_replicate]
    omega
  · rw [length_store, List.length_replicate]
    rw [List.length_append, List.length_singleton, List.length_replicate]
    omega
  · simp [store]
  · refine layers_congr rfl rfl rfl ?_
    rw [OsdObj.caption, htxt, hstr, cstr_of_notMem hzero]

/-- Stores inside the canvas. -/
theorem stores_eq {v : Nat} {dots : List Dot} (h : ∀ d ∈ dots, d.index < b.size) :
    stores b v dots mem = .ok (paint v (dots.map Dot.index) mem) := by
  induction dots generalizing mem with
  | nil => rfl
  | cons d ds ih =>
    rw [stores]
    refine Run.bind_eq_ok.mpr ⟨d.index, Run.index_eq_ok.mpr ⟨rfl, h d List.mem_cons_self⟩, ?_⟩
    exact ih fun e he => h e (List.mem_cons_of_mem d he)

/-- An object that fits lies on the canvas with its label. -/
theorem drawObject_shows (hface : face.Renders) (hsize : b.u32Height * b.u32Stride < 2 ^ 32)
    (hW : b.u32Width < 2 ^ 18) (hH : b.u32Height < 2 ^ 18) (hid : -2 ^ 31 ≤ obj.id)
    (hid' : obj.id < 2 ^ 31) (hx : obj.rect.x < 2 ^ 31) (hfits : Fits b obj.rect)
    (hlabel : face.setPixelSizes 32 = true) :
    ∃ mem', drawObject face b obj mem = .ok mem' ∧ Shows (obj.layers face b) mem mem' := by
  obtain ⟨dots, hdots, hdraws⟩ := (drawObj_draws_iff b obj.rect hW hH).mpr hfits
  rw [drawObject, hdots, OsdObj.layers]
  dsimp only
  by_cases hempty : dots = []
  · subst hempty
    rw [if_pos (draws_nil_iff.mp hdraws)]
    exact ⟨mem, rfl, shows_nil⟩
  · have hne : ¬ ((obj.rect.target b).w = 0 ∨ (obj.rect.target b).h = 0) := by
      intro hzero
      obtain ⟨d, hd⟩ := List.exists_mem_of_ne_nil dots hempty
      have hborder := (hdraws.2 d.row d.col).mp ⟨d, hd, rfl, rfl⟩
      rw [Box.OnBorder] at hborder
      omega
    rw [if_neg hne, if_neg (by simpa using hempty)]
    have hin : ∀ d ∈ dots, d.index < b.size := by
      intro d hd
      obtain ⟨hr, hc, hindex⟩ := hdraws.1 d hd
      rw [hindex]
      exact Bitmap.pixel_lt hr hc
    have hbox := (hdraws.paints (argb8888To1555 obj.color) mem).shows
    rw [argb8888To1555_eq] at hbox
    obtain ⟨t, ht, hlen, hterm, htsize, hlayers⟩ :=
      @label_spec face b obj hid hid' hfits.1 hx
    obtain ⟨mem', hok, hshow⟩ := @drawText_shows face b
      (paint (argb1555 obj.color) (dots.map Dot.index) mem) t hface hsize hW hH hlen hterm
      (htsize ▸ hlabel)
    rw [hlayers] at hshow
    refine ⟨mem', ?_, hbox.trans hshow⟩
    rw [argb8888To1555_eq]
    exact Run.bind_eq_ok.mpr ⟨_, stores_eq hin, Run.bind_eq_ok.mpr ⟨t, ht, hok⟩⟩

theorem glyph_inside {g : Glyph} : ∀ k ∈ g.cells b, k < b.size := by
  rintro k ⟨p, -, q, -, hx, hx', hy, hy', -, rfl⟩
  apply Bitmap.pixel_lt <;> omega

theorem text_inside : ∀ l ∈ t.layers face b, ∀ k ∈ l.2, k < b.size := by
  intro l hl
  obtain ⟨g, -, rfl⟩ := List.mem_map.mp hl
  exact glyph_inside

theorem obj_inside : ∀ l ∈ obj.layers face b, ∀ k ∈ l.2, k < b.size := by
  intro l hl
  rw [OsdObj.layers] at hl
  split_ifs at hl with hempty
  · cases hl
  · rcases List.mem_cons.mp hl with rfl | hl
    · rintro k ⟨row, col, ⟨-, hr, -, hc, -⟩, rfl⟩
      obtain ⟨hgx, hgy⟩ := target_le b obj.rect
      apply Bitmap.pixel_lt <;> omega
    · exact text_inside l hl

/-- A loop over the entries of an array of `max`. -/
theorem entries_shows {n max : Nat} {body : Nat → Pixels → Run Pixels}
    {L : Nat → List (Nat × Set Nat)} (hn : n ≤ max)
    (hbody : ∀ k < n, ∀ m, ∃ m', body k m = .ok m' ∧ Shows (L k) m m') :
    ∃ mem', Run.loop (fun i mem => do
        let i ← Run.index max i
        body i mem) n mem = .ok mem' ∧ Shows ((List.range n).flatMap L) mem mem' := by
  apply loop_shows
  intro k hk m
  obtain ⟨m', hb, hshow⟩ := hbody k hk m
  have hindex : Run.index max k = .ok k := Run.index_eq_ok.mpr ⟨rfl, by omega⟩
  exact ⟨m', Run.bind_eq_ok.mpr ⟨k, hindex, hb⟩, hshow⟩

end

/-- A canvas with several sets of pixels one over the other, transparent elsewhere, and the memory
beside it as it was. -/
def Depicts (b : Bitmap) (ls : List (Nat × Set Nat)) (mem mem' : Pixels) : Prop :=
  ∀ k, mem' k = if k < b.size then (top ls k).getD 0 else mem k

/-- The texts of a record, the last one uppermost. -/
noncomputable def textsPicture (face : Face) (b : Bitmap) (cfg : List UInt8) :
    List (Nat × Set Nat) :=
  (List.range (uword cfg 40)).flatMap fun i => (textAt cfg i).layers face b

/-- The objects of a record. -/
noncomputable def objsPicture (face : Face) (b : Bitmap) (cfg : List UInt8) :
    List (Nat × Set Nat) :=
  (List.range (uword cfg 40)).flatMap fun i => (objAt cfg i).layers face b

section

variable {face : Face} {b : Bitmap} {cfg : List UInt8} {mem mem' : Pixels}

/-- What lies on a cleared canvas does not depend on what it held. -/
theorem depicts_of_shows {ls : List (Nat × Set Nat)} (hsize : b.u32Height * b.u32Stride < 2 ^ 32)
    (hshow : Shows ls (clear b mem) mem') (hin : ∀ l ∈ ls, ∀ k ∈ l.2, k < b.size) :
    Depicts b ls mem mem' := by
  intro k
  rw [hshow k, clear, Nat.mod_eq_of_lt hsize]
  split_ifs with hk hk' hk'
  · rfl
  · exact absurd hk hk'
  · exact absurd hk' hk
  · rw [top_eq_none fun l hl hmem => hk (hin l hl k hmem)]
    rfl

/-- Names that a condition is equal to begin alike. -/
theorem condIs_take {a c : String} {cond : List UInt8} (ha : condIs a cond = true)
    (hc : condIs c cond = true) {m : Nat} (hm : m ≤ a.length + 1) (hm' : m ≤ c.length + 1) :
    (ascii a ++ [0]).take m = (ascii c ++ [0]).take m := by
  rw [← eq_of_beq ha, ← eq_of_beq hc, List.take_take, List.take_take, Nat.min_eq_left hm,
    Nat.min_eq_left hm']

theorem not_mask {name : String} (h : condIs name (conditionOf cfg) = true)
    (hname : name = "texts" ∨ name = "objs") : ¬ condIs "mask" (conditionOf cfg) = true := by
  intro hmask
  rcases hname with rfl | rfl
  · exact absurd (condIs_take h hmask (m := 4) (by decide) (by decide)) (by decide)
  · exact absurd (condIs_take h hmask (m := 4) (by decide) (by decide)) (by decide)

theorem not_texts (h : condIs "objs" (conditionOf cfg) = true) :
    ¬ condIs "texts" (conditionOf cfg) = true := by
  intro htexts
  exact absurd (condIs_take h htexts (m := 4) (by decide) (by decide)) (by decide)

theorem objAt_range (cfg : List UInt8) (i : Nat) : -2 ^ 31 ≤ (objAt cfg i).id ∧
    (objAt cfg i).id < 2 ^ 31 ∧ (objAt cfg i).rect.x < 2 ^ 31 := by
  obtain ⟨hid, hid'⟩ := word_range (slice cfg (44 + i * 24) 24) 0
  obtain ⟨-, hx⟩ := word_range (slice cfg (44 + i * 24) 24) 8
  simp only [objAt, objOf]
  exact ⟨hid, hid', hx⟩

theorem length_textAt {i : Nat} (hlen : cfg.length = Record.osdCfg.ty.size) (hi : i < 8) :
    (textAt cfg i).text.length = 32 := by
  have hsize : Record.osdCfg.ty.size = 428 := rfl
  have houter : (slice cfg (44 + i * 48) 48).length = 48 := length_slice (by omega)
  exact length_slice (by omega)

/-- Texts are drawn exactly when they are in the record, end inside their fields and have sizes that
the face can be set to. Whatever the canvas held, it then has their glyphs, the last one uppermost,
and nothing else, and no other memory is touched. -/
theorem texts_drawn (hface : face.Renders) (hsize : b.u32Height * b.u32Stride < 2 ^ 32)
    (hW : b.u32Width < 2 ^ 18) (hH : b.u32Height < 2 ^ 18)
    (hlen : cfg.length = Record.osdCfg.ty.size) (hc : condIs "texts" (conditionOf cfg) = true)
    (mem : Pixels) :
    ((∃ mem', osdDraw face b cfg mem = .ok mem') ↔ uword cfg 40 ≤ 8 ∧ ∀ i < uword cfg 40,
      0 ∈ (textAt cfg i).text ∧ face.setPixelSizes (textAt cfg i).size = true) ∧
    ∀ mem', osdDraw face b cfg mem = .ok mem' →
      Depicts b (textsPicture face b cfg) mem mem' := by
  rw [osdDraw, if_neg (not_mask hc (.inl rfl)), if_pos hc, ctrlTexts]
  have hgo : uword cfg 40 ≤ 8 → (∀ i < uword cfg 40, 0 ∈ (textAt cfg i).text ∧
      face.setPixelSizes (textAt cfg i).size = true) → ∃ mem', ctrlTexts face b cfg mem = .ok mem' ∧
        Depicts b (textsPicture face b cfg) mem mem' := by
    intro hnum hall
    obtain ⟨mem', hok, hshow⟩ := @entries_shows (clear b mem) _ 8
      (fun i => drawText face b (textAt cfg i)) (fun i => (textAt cfg i).layers face b) hnum
      fun k hk m => drawText_shows hface hsize hW hH (length_textAt hlen (by omega)) (hall k hk).1
        (hall k hk).2
    refine ⟨mem', hok, depicts_of_shows hsize hshow fun l hl => ?_⟩
    obtain ⟨i, -, hl⟩ := List.mem_flatMap.mp hl
    exact text_inside l hl
  have hback : ∀ mem', ctrlTexts face b cfg mem = .ok mem' → uword cfg 40 ≤ 8 ∧
      ∀ i < uword cfg 40, 0 ∈ (textAt cfg i).text ∧
        face.setPixelSizes (textAt cfg i).size = true := by
    intro mem' h
    have hbody : ∀ i < uword cfg 40, i < 8 ∧ 0 ∈ (textAt cfg i).text ∧
        face.setPixelSizes (textAt cfg i).size = true := by
      intro i hi
      obtain ⟨s, t, hst⟩ := Run.body_of_loop h i hi
      obtain ⟨j, hj, hdraw⟩ := Run.bind_eq_ok.mp hst
      obtain ⟨hij, hj8⟩ := Run.index_eq_ok.mp hj
      obtain rfl : i = j := by omega
      exact ⟨hj8, drawText_eq_ok hdraw⟩
    refine ⟨?_, fun i hi => (hbody i hi).2⟩
    by_contra! hnum
    have hlast := (hbody 8 hnum).1
    omega
  constructor
  · constructor
    · rintro ⟨mem', h⟩
      exact hback mem' h
    · rintro ⟨hnum, hall⟩
      obtain ⟨mem', hok, -⟩ := hgo hnum hall
      exact ⟨mem', hok⟩
  · intro mem' h
    obtain ⟨hnum, hall⟩ := hback mem' h
    obtain ⟨mem'', hok, hpicture⟩ := hgo hnum hall
    have heq : mem'' = mem' := Except.ok.inj (hok.symm.trans h)
    rwa [← heq]

/-- Objects whose boxes fit are drawn, each with its label over its box and the last one uppermost,
on a canvas that is otherwise transparent whatever it held. -/
theorem objs_drawn (hface : face.Renders) (hsize : b.u32Height * b.u32Stride < 2 ^ 32)
    (hW : b.u32Width < 2 ^ 18) (hH : b.u32Height < 2 ^ 18)
    (hc : condIs "objs" (conditionOf cfg) = true) (hnum : uword cfg 40 ≤ 16)
    (hfits : ∀ i < uword cfg 40, Fits b (objAt cfg i).rect)
    (hlabel : face.setPixelSizes 32 = true) (mem : Pixels) :
    ∃ mem', osdDraw face b cfg mem = .ok mem' ∧ Depicts b (objsPicture face b cfg) mem mem' := by
  rw [osdDraw, if_neg (not_mask hc (.inr rfl)), if_neg (not_texts hc), if_pos hc]
  obtain ⟨mem', hok, hshow⟩ := @entries_shows (clear b mem) _ 16
    (fun i => drawObject face b (objAt cfg i)) (fun i => (objAt cfg i).layers face b) hnum
    fun k hk m => drawObject_shows hface hsize hW hH (objAt_range cfg k).1 (objAt_range cfg k).2.1
      (objAt_range cfg k).2.2 (hfits k hk) hlabel
  refine ⟨mem', hok, depicts_of_shows hsize hshow fun l hl => ?_⟩
  obtain ⟨i, -, hl⟩ := List.mem_flatMap.mp hl
  exact obj_inside l hl

end

/-- A face whose glyphs are single pixels, without one for a space. -/
def sampleFace : Face where
  setPixelSizes size := decide (0 < size)
  loadChar _ pen c :=
    if c = 32 ∨ ¬ (0 ≤ pen.1 ∧ pen.1 < 2 ^ 20 ∧ 0 ≤ pen.2 ∧ pen.2 < 2 ^ 20) then none
    else some ⟨⟨1, 1, [255], rfl, by decide⟩, pen.1 / 64, pen.2 / 64, (64, 0)⟩

theorem sampleFace_renders : sampleFace.Renders := by
  intro size pen c g hg
  simp only [sampleFace] at hg
  obtain ⟨hc, hg⟩ := Option.ite_none_left_eq_some.mp hg
  rw [not_or, not_not] at hc
  obtain ⟨-, hx, hx', hy, hy'⟩ := hc
  obtain rfl := Option.some.inj hg
  refine ⟨⟨?_, ?_⟩, ⟨?_, ?_⟩, ?_, ?_, ⟨?_, ?_⟩, ?_, ?_⟩ <;> dsimp only <;> omega

/-- An overlay with one text. -/
def sampleTexts : List UInt8 :=
  le 4 2 ++ le 4 1 ++ ascii "texts" ++ List.replicate 27 0 ++ le 4 1 ++
    (le 4 4096 ++ le 4 4096 ++ le 4 1 ++ le 4 0xffff0000 ++ ascii "a c" ++ List.replicate 29 0) ++
    List.replicate 336 0

/-- It is drawn over whatever the canvas held. -/
theorem texts_drawn_sample : ∃ mem',
    osdDraw sampleFace ⟨4, 2, 8, by decide, by decide, by decide⟩ sampleTexts (fun k => k) =
      .ok mem' ∧
    Depicts ⟨4, 2, 8, by decide, by decide, by decide⟩ (textsPicture sampleFace
      ⟨4, 2, 8, by decide, by decide, by decide⟩ sampleTexts) (fun k => k) mem' := by
  have hnum : uword sampleTexts 40 = 1 := by decide
  have hterm : 0 ∈ (textAt sampleTexts 0).text ∧
      sampleFace.setPixelSizes (textAt sampleTexts 0).size = true := by
    decide
  obtain ⟨hok, hpicture⟩ := @texts_drawn sampleFace ⟨4, 2, 8, by decide, by decide, by decide⟩
    sampleTexts sampleFace_renders (by decide) (by decide) (by decide) (by decide +kernel)
    (by decide) fun k => k
  obtain ⟨mem', h⟩ := hok.mpr ⟨by rw [hnum]; decide, fun i hi => by
    rw [hnum] at hi
    obtain rfl : i = 0 := by omega
    exact hterm⟩
  exact ⟨mem', h, hpicture mem' h⟩

/-- An overlay with one object. -/
def sampleObjs : List UInt8 :=
  le 4 2 ++ le 4 1 ++ ascii "objs" ++ List.replicate 28 0 ++ le 4 1 ++
    (le 4 7 ++ le 4 0xffff0000 ++ le 4 4000 ++ le 4 4000 ++ le 4 500 ++ le 4 700) ++
    List.replicate 360 0

/-- A box with its label on a canvas of 1920 by 1080. -/
theorem objs_drawn_sample : ∃ mem',
    osdDraw sampleFace ⟨1920, 1080, 3840, by decide, by decide, by decide⟩ sampleObjs (fun k => k) =
      .ok mem' ∧
    Depicts ⟨1920, 1080, 3840, by decide, by decide, by decide⟩ (objsPicture sampleFace
      ⟨1920, 1080, 3840, by decide, by decide, by decide⟩ sampleObjs) (fun k => k) mem' := by
  have hnum : uword sampleObjs 40 = 1 := by decide
  have hrect : (objAt sampleObjs 0).rect = ⟨4000, 4000, 500, 700⟩ := by
    have hwords : word (slice sampleObjs 44 24) 8 = 4000 ∧
        word (slice sampleObjs 44 24) 12 = 4000 ∧ uword (slice sampleObjs 44 24) 16 = 500 ∧
        uword (slice sampleObjs 44 24) 20 = 700 := by
      decide
    obtain ⟨hx, hy, hw, hh⟩ := hwords
    simp only [objAt, objOf, Nat.zero_mul, Nat.add_zero, hx, hy, hw, hh]
  have hfits : Fits ⟨1920, 1080, 3840, by decide, by decide, by decide⟩ ⟨4000, 4000, 500, 700⟩ := by
    refine ⟨by decide, by decide, .inr ⟨limited_eq_target (by decide) (by decide) ?_ ?_, ?_⟩⟩
    · decide
    · decide
    · decide
  refine objs_drawn sampleFace_renders (by decide) (by decide) (by decide) (by decide)
    (by rw [hnum]; decide) (fun i hi => ?_) (by decide) fun k => k
  rw [hnum] at hi
  obtain rfl : i = 0 := by omega
  rw [hrect]
  exact hfits

section

variable {face : Face} {b : Bitmap} {mem : Pixels}

/-- Texts of which the same is read are drawn alike. -/
theorem drawText_congr {t t' : OsdText} (hp : t.point = t'.point) (hs : t.size = t'.size)
    (hc : t.color = t'.color) (hstr : cstr t.text = cstr t'.text)
    (hlen : t.text.length = t'.text.length) : drawText face b t mem = drawText face b t' mem := by
  have hterm : (0 ∈ t.text) = (0 ∈ t'.text) := by
    rw [zero_mem_iff, zero_mem_iff, strlen, strlen, hstr, hlen]
  simp only [drawText, OsdText.pen, hterm, hp, hs, hc, hstr]

end

section

open Freak.Proto

variable {face : Face} {b : Bitmap} {cfg cfg' x y : List UInt8} {mem : Pixels}

theorem word_slice_congr {a : Nat} (h : slice x a 4 = slice y a 4) : word x a = word y a :=
  Manager.word_congr h

theorem uword_congr {a : Nat} (h : slice x a 4 = slice y a 4) : uword x a = uword y a :=
  congrArg ofLe h

theorem textOf_congr (h : osdTextTy.Same x y) : (textOf x).point = (textOf y).point ∧
    (textOf x).size = (textOf y).size ∧ (textOf x).color = (textOf y).color ∧
      cstr (textOf x).text = cstr (textOf y).text := by
  obtain ⟨⟨hx, hy, -⟩, hsize, hcolor, htext, -⟩ := h
  have hx : slice (x.take 8) 0 4 = slice (y.take 8) 0 4 := hx
  have hy : slice (x.take 8) 4 4 = slice (y.take 8) 4 4 := hy
  have hcolor : ((x.drop 8).drop 4).take 4 = ((y.drop 8).drop 4).take 4 := hcolor
  have htext : cstr ((((x.drop 8).drop 4).drop 4).take 32) =
    cstr ((((y.drop 8).drop 4).drop 4).take 32) := htext
  rw [← List.drop_zero (l := x), ← List.drop_zero (l := y), slice_drop_take (by decide),
    slice_drop_take (by decide)] at hx hy
  rw [List.drop_drop, List.drop_drop] at hcolor htext
  rw [List.drop_drop, List.drop_drop] at htext
  simp only [textOf]
  rw [word_slice_congr hx, word_slice_congr hy, uword_congr hcolor]
  exact ⟨rfl, uword_congr hsize, rfl, htext⟩

theorem rect_congr (h : rectTy.Same x y) : slice x 0 4 = slice y 0 4 ∧ slice x 4 4 = slice y 4 4 ∧
    slice x 8 4 = slice y 8 4 ∧ slice x 12 4 = slice y 12 4 := by
  obtain ⟨hx, hy, hw, hh, -⟩ := h
  have hw : ((x.drop 4).drop 4).take 4 = ((y.drop 4).drop 4).take 4 := hw
  have hh : (((x.drop 4).drop 4).drop 4).take 4 = (((y.drop 4).drop 4).drop 4).take 4 := hh
  rw [List.drop_drop, List.drop_drop] at hw hh
  rw [List.drop_drop, List.drop_drop] at hh
  exact ⟨hx, hy, hw, hh⟩

theorem objOf_congr (h : osdObjTy.Same x y) : objOf x = objOf y := by
  obtain ⟨hid, hcolor, hrect, -⟩ := h
  have hid : slice x 0 4 = slice y 0 4 := hid
  have hcolor : slice x 4 4 = slice y 4 4 := hcolor
  have hrect : rectTy.Same (((x.drop 4).drop 4).take 16) (((y.drop 4).drop 4).take 16) := hrect
  obtain ⟨hx, hy, hw, hh⟩ := rect_congr hrect
  rw [List.drop_drop, List.drop_drop, slice_drop_take (by decide), slice_drop_take (by decide)]
    at hx hy hw hh
  simp only [objOf]
  rw [word_slice_congr hid, uword_congr hcolor, word_slice_congr hx, word_slice_congr hy,
    uword_congr hw, uword_congr hh]

/-- The entries of an overlay in an OSD record. -/
theorem entries_congr {sz n i : Nat} {R : List UInt8 → List UInt8 → Prop} (hfit : 4 + n * sz ≤ 388)
    (hi : i < n) (h : List.Forall₂ R
      (chunks sz n ((((((((cfg.drop 4).drop 4).take 420).drop 32).take (4 + n * sz)).drop 4).take
        (n * sz))))
      (chunks sz n ((((((((cfg'.drop 4).drop 4).take 420).drop 32).take (4 + n * sz)).drop 4).take
        (n * sz))))) :
    R (slice cfg (44 + i * sz) sz) (slice cfg' (44 + i * sz) sz) := by
  have hentry : i * sz + sz ≤ n * sz := by
    rw [← Nat.succ_mul]
    exact Nat.mul_le_mul_right sz hi
  have hR := forall₂_chunks h hi
  have hslice : ∀ img : List UInt8, slice ((((((((img.drop 4).drop 4).take 420).drop 32).take
      (4 + n * sz)).drop 4).take (n * sz))) (i * sz) sz = slice img (44 + i * sz) sz := by
    intro img
    rw [slice_drop_take hentry, slice_drop_take (by omega), slice_drop_take (by omega), slice_drop]
    congr 1
    omega
  rwa [hslice, hslice] at hR

/-- The texts and objects of OSD records that say the same. -/
theorem overlay_congr (hs : Record.osdCfg.ty.Same cfg cfg') :
    (condIs "texts" (conditionOf cfg) = true → ∀ i < 8,
      osdTextTy.Same (slice cfg (44 + i * 48) 48) (slice cfg' (44 + i * 48) 48)) ∧
    (condIs "objs" (conditionOf cfg) = true → ∀ i < 16,
      osdObjTy.Same (slice cfg (44 + i * 24) 24) (slice cfg' (44 + i * 24) 24)) := by
  obtain ⟨-, -, ⟨-, -, htexts, hobjs, -⟩, -⟩ := hs
  have hcondition : ((((cfg.drop 4).drop 4).take 420).take 32) = conditionOf cfg := by
    rw [List.take_take, List.drop_drop]
    rfl
  constructor
  · intro hc i hi
    rw [← hcondition] at hc
    exact entries_congr (by decide) hi (htexts hc).2.1
  · intro hc i hi
    rw [← hcondition] at hc
    exact entries_congr (by decide) hi (hobjs hc).2.1

theorem index_bind {max i : Nat} {f : Nat → Run Pixels} :
    (Run.index max i >>= f) = if i < max then f i else .error .bounds := by
  split_ifs with hi
  · have hindex : Run.index max i = .ok i := Run.index_eq_ok.mpr ⟨rfl, hi⟩
    rw [hindex]
    rfl
  · have hindex : Run.index max i = .error .bounds := if_neg (by omega)
    rw [hindex]
    rfl

/-- Records that say the same draw the same on every canvas. -/
theorem osdDraw_congr (hl : cfg.length = Record.osdCfg.ty.size)
    (hl' : cfg'.length = Record.osdCfg.ty.size) (hs : Record.osdCfg.ty.Same cfg cfg') :
    osdDraw face b cfg mem = osdDraw face b cfg' mem := by
  obtain ⟨hcond, hntexts, hnobjs⟩ := Manager.osd_congr hl hl' hs
  obtain ⟨htexts, hobjs⟩ := overlay_congr hs
  rw [osdDraw, osdDraw, ← hcond _ (by decide), ← hcond _ (by decide), ← hcond _ (by decide)]
  split_ifs with _ hc hc
  · rfl
  · rw [ctrlTexts, ctrlTexts, hntexts hc]
    refine congrArg (fun body => Run.loop body (uword cfg' 40) (clear b mem)) ?_
    funext i mem
    rw [index_bind, index_bind]
    split_ifs with hi
    · obtain ⟨hp, hsize, hcolor, hstr⟩ := textOf_congr (htexts hc i hi)
      have hlen := (length_textAt hl hi).trans (length_textAt hl' hi).symm
      exact drawText_congr hp hsize hcolor hstr hlen
    · rfl
  · rw [ctrlObjs, ctrlObjs, hnobjs hc]
    refine congrArg (fun body => Run.loop body (uword cfg' 40) (clear b mem)) ?_
    funext i mem
    rw [index_bind, index_bind]
    split_ifs with hi
    · rw [objAt, objAt, objOf_congr (hobjs hc i hi)]
    · rfl
  · rfl

end

section

open Lts
open Freak.Manager (Hal Call Serve Sound Legible Loops latest slots)
open Freak.Proto (Key Node Server)

variable {h : Hal} {v : Server Manager.State} {s t u : Manager.State} {calls : List Call}
  {json : Bool} {m : Nat} {sets : List (List UInt8)}

end

open Json
open Freak.Proto (sampleHal Key)
open Freak.Manager (Call idOf idRecord blankState sampleNetwork)

/-- The first overlay, enabled, of no kind. -/
def firstOverlay : List UInt8 := Bytes.le 4 0 ++ Bytes.le 4 1 ++ List.replicate 420 0

theorem firstOverlay_fair (a : Proto.Action) (ha : a = .get ∨ a = .set) (img back : List UInt8)
    (himg : img = firstOverlay ∨ img = idRecord .osd 0) :
    Call.Fair sampleHal .vsf ⟨false, .osd, a, img, back⟩ := by
  have hkey : Key.osd ∈ Proto.registered .vsf ∧ Key.osd ≠ .dummy := by decide
  have hfirst : ∀ img, img = firstOverlay ∨ img = idRecord .osd 0 →
      img.length = Record.osdCfg.ty.size ∧ Record.osdCfg.ty.Terminated img := by
    rintro img (rfl | rfl) <;> decide +kernel
  obtain ⟨hlen, hterm⟩ := hfirst img himg
  rcases ha with rfl | rfl
  · exact ⟨hkey.1, hkey.2, fun _ => rfl, hlen, hterm⟩
  · exact ⟨hkey.1, hkey.2, fun _ => rfl, hlen, hterm⟩

/-- A client sets the first overlay. -/
def firstSet : Call := ⟨false, .osd, .set, firstOverlay, firstOverlay⟩

/-- It can be set in every state. -/
theorem serve_firstSet {s : Manager.State} (hs : Manager.Sound sampleHal .vsf s) : ∃ t,
    Manager.Serve sampleHal (sampleNetwork .vsf) .vsf s firstSet t ∧
      Manager.Sound sampleHal .vsf t ∧ (t .osd).info.cfgs 0 = firstOverlay := by
  have hshow : sampleHal.ShowsRecord := fun _ _ _ _ _ => rfl
  have hzero : idOf firstOverlay = (0 : Nat) := by decide
  have hunused : ∀ x, sampleHal.osdCtrl x firstOverlay = .ok (x, 0) := by
    intro x
    rw [Manager.Hal.osdCtrl, if_neg (by decide), if_neg (by decide),
      if_neg (by decide)]
  obtain ⟨t, hset, hstored⟩ : ∃ t,
      Manager.Serve sampleHal (sampleNetwork .vsf) .vsf s firstSet t ∧
      (t .osd).info.cfgs 0 = firstOverlay :=
    ⟨_, Manager.serve_of_call rfl hshow hs (firstOverlay_fair .set (.inr rfl) _ _ (.inl rfl)) rfl
      (Manager.manager_set_eq_ok.mpr ⟨_, 0, hunused _, ⟨hzero, by decide⟩, rfl, rfl⟩), rfl⟩
  exact ⟨t, hset, Manager.sound_step rfl zero_notMem_decimal plain_lawful hshow hs
    (Manager.sample_legible _ .vsf) hset, hstored⟩

end Freak.Vsf
