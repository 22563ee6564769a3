import Freak.Lib.Grid
import Freak.Vsf.Rgn

/-! What `osd_mgr.c` draws on a canvas: glyphs and the boxes of detected objects. -/
namespace Freak.Vsf

/-- `vsf_rgn_bitmap_t`: rows of 16-bit pixels, `u32Stride` bytes apart. -/
structure Bitmap where
  u32Width : Nat
  u32Height : Nat
  u32Stride : Nat
  stride_lt : u32Stride < 2 ^ 32
  even : 2 ∣ u32Stride
  width_le : 2 * u32Width ≤ u32Stride

/-- What `pData` points to. -/
abbrev Pixels := Nat → Nat

/-- `FT_Bitmap` in grey levels, with a pitch of its width. -/
structure FtBitmap where
  rows : Nat
  width : Nat
  buffer : List UInt8
  length_buffer : buffer.length = rows * width
  -- the renderer refuses an outline that leaves the 16-bit range
  size_lt : rows * width < 2 ^ 32

/-- A signed value where an unsigned one is wanted. -/
def u32 (i : Int) : Nat := (i % 2 ^ 32).toNat

/-- An unsigned value where a signed one is wanted. -/
def s32 (i : Int) : Int := i.bmod (2 ^ 32)

def argb8888To1555 (color : UInt32) : Nat :=
  let a := (color.toNat >>> 24) % 256
  let r := (color.toNat >>> 16) % 256
  let g := (color.toNat >>> 8) % 256
  let b := color.toNat % 256
  let a := if a ≠ 0 then 1 else 0
  (a <<< 15 ||| (r >>> 3) <<< 10 ||| (g >>> 3) <<< 5 ||| b >>> 3) % 2 ^ 16

/-- One bit of alpha and the five highest of each colour. -/
def argb1555 (color : UInt32) : Nat :=
  (if color.toNat < 2 ^ 24 then 0 else 2 ^ 15) + color.toNat / 2 ^ 19 % 32 * 2 ^ 10 +
    color.toNat / 2 ^ 11 % 32 * 2 ^ 5 + color.toNat / 2 ^ 3 % 32

/-- The fields of a pixel do not overlap. -/
theorem or_fields {a r g b : Nat} (hr : r < 32) (hg : g < 32) (hb : b < 32) :
    a <<< 15 ||| (r <<< 10 ||| (g <<< 5 ||| b)) = a * 2 ^ 15 + (r * 2 ^ 10 + (g * 2 ^ 5 + b)) := by
  rw [← Nat.shiftLeft_add_eq_or_of_lt (i := 5) hb, Nat.shiftLeft_eq g,
    ← Nat.shiftLeft_add_eq_or_of_lt (i := 10) (by omega), Nat.shiftLeft_eq r,
    ← Nat.shiftLeft_add_eq_or_of_lt (i := 15) (by omega), Nat.shiftLeft_eq a]

theorem argb8888To1555_eq (color : UInt32) : argb8888To1555 color = argb1555 color := by
  have hlt : color.toNat < 2 ^ 32 := color.toNat_lt
  obtain ⟨n, hn⟩ : ∃ n, color.toNat = n := ⟨_, rfl⟩
  have ha : n / 2 ^ 24 % 256 ≠ 0 ↔ ¬ n < 2 ^ 24 := by omega
  have hr : n / 2 ^ 16 % 256 / 2 ^ 3 = n / 2 ^ 19 % 32 := by omega
  have hg : n / 2 ^ 8 % 256 / 2 ^ 3 = n / 2 ^ 11 % 32 := by omega
  have hb : n % 256 / 2 ^ 3 = n / 2 ^ 3 % 32 := by omega
  simp only [argb8888To1555, argb1555, hn, Nat.shiftRight_eq_div_pow, Nat.or_assoc, ha, hr, hg, hb,
    ite_not]
  rw [or_fields (Nat.mod_lt _ (by decide)) (Nat.mod_lt _ (by decide)) (Nat.mod_lt _ (by decide))]
  split_ifs <;> omega

namespace Bitmap

variable (b : Bitmap)

/-- Pixels from a row to the next. -/
def pitch : Nat := b.u32Stride / 2

/-- The pixel in a row and a column. -/
def pixel (row col : Nat) : Nat := row * b.pitch + col

/-- The pixels of the memory at `pData`. -/
def size : Nat := b.u32Height * b.u32Stride / 2

theorem stride_eq : b.u32Stride = 2 * b.pitch := (Nat.mul_div_cancel' b.even).symm

theorem width_le_pitch : b.u32Width ≤ b.pitch := by
  have h := b.width_le
  rw [stride_eq] at h
  omega

theorem size_eq : b.size = b.u32Height * b.pitch := by
  rw [size, stride_eq, ← mul_assoc, mul_right_comm, Nat.mul_div_cancel _ (by omega)]

variable {b} {row col row' col' : Nat}

theorem pixel_lt (hr : row < b.u32Height) (hc : col < b.u32Width) : b.pixel row col < b.size := by
  rw [size_eq]
  exact Grid.cell_lt hr (hc.trans_le b.width_le_pitch)

theorem pixel_inj (hc : col < b.u32Width) (hc' : col' < b.u32Width) :
    b.pixel row col = b.pixel row' col' ↔ row = row' ∧ col = col' :=
  Grid.cell_inj (hc.trans_le b.width_le_pitch) (hc'.trans_le b.width_le_pitch)

/-- A row's first byte is also its first pixel. -/
theorem row_eq {k : Nat} (h : k * b.u32Stride < 2 ^ 32) :
    k * b.u32Stride % 2 ^ 32 / 2 = k * b.pitch := by
  rw [Nat.mod_eq_of_lt h, stride_eq, mul_left_comm, Nat.mul_div_cancel_left _ (by omega)]

end Bitmap

theorem s32_eq {i : Int} (h : -2 ^ 31 ≤ i) (h' : i < 2 ^ 31) : s32 i = i := by
  rw [s32, Int.bmod_def]
  omega

section

variable (src : Bitmap) (dst : FtBitmap) (color : UInt32)

/-- The coverage of the glyph in row `q`, column `p`. -/
def FtBitmap.coverage (dst : FtBitmap) (p q : Nat) : UInt8 := dst.buffer.getD (q * dst.width + p) 0

/-- The body of the loops of `__draw_char`. -/
def drawPixel (i j : Int) (p q : Nat) (mem : Pixels) : Run Pixels :=
  if i < 0 ∨ j < 0 ∨ src.u32Width ≤ u32 i ∨ src.u32Height ≤ u32 j then
    pure mem
  else do
    let a ← Run.index dst.buffer.length ((q * dst.width + p) % 2 ^ 32 : Nat)
    if dst.buffer.getD a 0 ≠ 0 then
      let k ← Run.index src.size ((u32 j * src.u32Stride % 2 ^ 32 / 2 + u32 i) % 2 ^ 32 : Nat)
      pure (Function.update mem k (argb8888To1555 color))
    else
      pure mem

/-- `__draw_char`. -/
def drawChar (point : Int × Int) (mem : Pixels) : Run Pixels :=
  let xMax := s32 (point.1 + dst.width)
  let yMax := s32 (point.2 + dst.rows)
  Run.loop (fun p => Run.loop (fun q => drawPixel src dst color (point.1 + p) (point.2 + q) p q)
    (yMax - point.2).toNat) (xMax - point.1).toNat mem

/-- Column `p`, row `q` of the glyph is drawn, and drawn on pixel `k`. -/
def Covers (point : Int × Int) (p q k : Nat) : Prop :=
  0 ≤ point.1 + p ∧ point.1 + p < src.u32Width ∧ 0 ≤ point.2 + q ∧ point.2 + q < src.u32Height ∧
    dst.coverage p q ≠ 0 ∧ k = src.pixel (point.2 + q).toNat (point.1 + p).toNat

variable {src dst} {point : Int × Int} {p q : Nat} {mem : Pixels}

theorem index_coverage (hp : p < dst.width) (hq : q < dst.rows) :
    Run.index dst.buffer.length ((q * dst.width + p) % 2 ^ 32 : Nat) = .ok (q * dst.width + p) := by
  have hlt : q * dst.width + p < dst.rows * dst.width := Grid.cell_lt hq hp
  rw [Run.index_eq_ok, dst.length_buffer, Nat.mod_eq_of_lt (hlt.trans dst.size_lt)]
  exact ⟨rfl, hlt⟩

/-- A row and a column of the canvas are found at their pixel. -/
theorem index_pixel {row col : Nat} (hsize : src.u32Height * src.u32Stride < 2 ^ 32)
    (hr : row < src.u32Height) (hc : col < src.u32Width) :
    Run.index src.size ((row * src.u32Stride % 2 ^ 32 / 2 + col) % 2 ^ 32 : Nat) =
      .ok (src.pixel row col) := by
  have hpix := src.pixel_lt hr hc
  have hrow : row * src.u32Stride < 2 ^ 32 := (Nat.mul_le_mul_right _ hr.le).trans_lt hsize
  have hlt : src.pixel row col < 2 ^ 32 := by
    rw [Bitmap.size] at hpix
    omega
  rw [Run.index_eq_ok, src.row_eq hrow]
  exact ⟨congrArg Nat.cast (Nat.mod_eq_of_lt hlt), hpix⟩

theorem drawPixel_paints (hsize : src.u32Height * src.u32Stride < 2 ^ 32)
    (hx : point.1 + p < 2 ^ 31) (hy : point.2 + q < 2 ^ 31)
    (hp : p < dst.width) (hq : q < dst.rows) (mem : Pixels) :
    ∃ mem', drawPixel src dst color (point.1 + p) (point.2 + q) p q mem = .ok mem' ∧
      Grid.Paints (argb8888To1555 color) (Covers src dst point p q) mem mem' := by
  rw [drawPixel]
  split_ifs with hclip
  · refine ⟨mem, rfl, Grid.paints_refl.congr fun k => ⟨False.elim, ?_⟩⟩
    rintro ⟨hx0, hxw, hy0, hyh, -⟩
    rw [u32, u32] at hclip
    omega
  · push Not at hclip
    obtain ⟨hx0, hy0, hxw, hyh⟩ := hclip
    have hi : u32 (point.1 + p) = (point.1 + p).toNat := by rw [u32]; omega
    have hj : u32 (point.2 + q) = (point.2 + q).toNat := by rw [u32]; omega
    rw [hi] at hxw
    rw [hj] at hyh
    rw [index_coverage hp hq, hi, hj, index_pixel hsize hyh hxw]
    by_cases hcov : dst.coverage p q = 0
    · refine ⟨mem, ?_, Grid.paints_refl.congr fun k => ⟨False.elim, fun hk => hk.2.2.2.2.1 hcov⟩⟩
      exact if_neg (not_not.mpr hcov)
    · refine ⟨_, if_pos hcov, (Grid.paints_update _).congr fun k => ?_⟩
      constructor
      · intro hk
        exact ⟨hx0, by omega, hy0, by omega, hcov, hk⟩
      · rintro ⟨-, -, -, -, -, hk⟩
        exact hk

/-- What `__draw_char` draws is the union of its loops' bodies. -/
theorem drawChar_paints (mem : Pixels) (hsize : src.u32Height * src.u32Stride < 2 ^ 32)
    (hx : -2 ^ 31 ≤ point.1) (hx' : point.1 + dst.width < 2 ^ 31)
    (hy : -2 ^ 31 ≤ point.2) (hy' : point.2 + dst.rows < 2 ^ 31) :
    ∃ mem', drawChar src dst color point mem = .ok mem' ∧
      Grid.Paints (argb8888To1555 color)
        (fun k => ∃ p < dst.width, ∃ q < dst.rows, Covers src dst point p q k) mem mem' := by
  have hxMax : (s32 (point.1 + dst.width) - point.1).toNat = dst.width := by
    rw [s32_eq (by omega) hx', add_sub_cancel_left, Int.toNat_natCast]
  have hyMax : (s32 (point.2 + dst.rows) - point.2).toNat = dst.rows := by
    rw [s32_eq (by omega) hy', add_sub_cancel_left, Int.toNat_natCast]
  rw [drawChar, hxMax, hyMax]
  refine Grid.loop_paints fun p hp m => Grid.loop_paints fun q hq m => ?_
  exact drawPixel_paints color hsize (by omega) (by omega) hp hq m

end

/-- `__draw_char` reads its glyph only inside it, draws what the glyph covers on the canvas, and
nothing else. -/
theorem drawChar_clips (src : Bitmap) (dst : FtBitmap) (color : UInt32) (point : Int × Int)
    (mem : Pixels) (hsize : src.u32Height * src.u32Stride < 2 ^ 32)
    (hx : -2 ^ 31 ≤ point.1) (hx' : point.1 + dst.width < 2 ^ 31)
    (hy : -2 ^ 31 ≤ point.2) (hy' : point.2 + dst.rows < 2 ^ 31) :
    ∃ mem', drawChar src dst color point mem = .ok mem' ∧
      (∀ p < dst.width, ∀ q < dst.rows,
        0 ≤ point.1 + p → point.1 + p < src.u32Width →
        0 ≤ point.2 + q → point.2 + q < src.u32Height →
        mem' (src.pixel (point.2 + q).toNat (point.1 + p).toNat) =
          if dst.coverage p q ≠ 0 then argb1555 color
          else mem (src.pixel (point.2 + q).toNat (point.1 + p).toNat)) ∧
      ∀ k, (∀ p < dst.width, ∀ q < dst.rows, ¬ Covers src dst point p q k) → mem' k = mem k := by
  obtain ⟨mem', hok, hpaints⟩ := drawChar_paints color mem hsize hx hx' hy hy'
  refine ⟨mem', hok, ?_, ?_⟩
  · intro p hp q hq hx0 hxw hy0 hyh
    split_ifs with hcov
    · rw [← argb8888To1555_eq]
      exact (hpaints _).1 ⟨p, hp, q, hq, hx0, hxw, hy0, hyh, hcov, rfl⟩
    · refine (hpaints _).2 ?_
      -- no other place of the glyph falls on this pixel
      rintro ⟨p', -, q', -, hx0', hxw', hy0', -, hcov', hk⟩
      obtain ⟨hrow, hcol⟩ := (Bitmap.pixel_inj (by omega) (by omega)).mp hk
      obtain ⟨rfl, rfl⟩ : p' = p ∧ q' = q := by omega
      exact hcov hcov'
  · intro k hk
    refine (hpaints k).2 ?_
    rintro ⟨p, hp, q, hq, hc⟩
    exact hk p hp q hq hc

/-- A glyph over the upper left corner of its canvas. -/
theorem drawChar_clips_corner : ∃ mem', drawChar ⟨4, 2, 8, by decide, by decide, by decide⟩
    ⟨2, 2, [7, 7, 0, 7], rfl, by decide⟩ 0xffff0000 (-1, -1) (fun _ => 0) = .ok mem' ∧
      mem' 0 = 0xfc00 ∧ mem' 1 = 0 := by
  obtain ⟨mem', hok, hin, hout⟩ := drawChar_clips ⟨4, 2, 8, by decide, by decide, by decide⟩
    ⟨2, 2, [7, 7, 0, 7], rfl, by decide⟩ 0xffff0000 (-1, -1) (fun _ => 0) (by decide) (by decide)
    (by decide) (by decide) (by decide)
  refine ⟨mem', hok, ?_, ?_⟩
  · exact hin 1 (by decide) 1 (by decide) (by decide) (by decide) (by decide) (by decide)
  · refine hout 1 fun p hp q hq hc => ?_
    obtain ⟨hp0, -, hq0, -, -, hk⟩ := hc
    have hp1 : p = 1 := by change p < 2 at hp; omega
    have hq1 : q = 1 := by change q < 2 at hq; omega
    subst hp1 hq1
    exact absurd hk (by decide)

/-- `proto_rect_t` in the grid of 8192 by 8192. -/
structure ObjRect where
  x : Int
  y : Int
  w : Nat
  h : Nat

/-- A rectangle of pixels. -/
@[ext]
structure Box where
  x : Nat
  y : Nat
  w : Nat
  h : Nat

/-- A pixel written at `box[r * u32Stride / 2 + c]`, with the row and the column it is for. -/
structure Dot where
  row : Nat
  col : Nat
  index : Nat

/-- `range` on an unsigned value, between signed limits. -/
def rangeU32 (v : Nat) (lo hi : Int) : Nat :=
  let v := if v > u32 hi then u32 hi else v
  if v < u32 lo then u32 lo else v

/-- From the grid to a canvas `n` pixels long. -/
def scale (v n : Nat) : Nat := v * n % 2 ^ 32 / 8192

/-- `8192 - x`, which may not leave the signed range. -/
def limit (x : Int) : Option Int := if 8192 - x < 2 ^ 31 then some (8192 - x) else none

section

variable (b : Bitmap) (rect : Box) (o : ObjRect)

def Box.dot (r c : Nat) : Dot :=
  ⟨rect.y + r, rect.x + c, (rect.y * b.u32Stride % 2 ^ 32 / 2 + rect.x) % 2 ^ 32 +
    (r * b.u32Stride % 2 ^ 32 / 2 + c) % 2 ^ 32⟩

/-- The rows or columns of a side that the loops write: `0..3` and `n - 1..n - 4`. -/
def edge (n : Nat) : List Nat :=
  [0, 1, 2, 3] ++ [1, 2, 3, 4].map fun d => u32 ((n : Int) - d)

/-- The two loops of `__draw_obj`. -/
def Box.loops : List Dot :=
  ((List.range rect.w).flatMap fun i => (edge rect.h).map fun r => rect.dot b r i) ++
    (List.range rect.h).flatMap fun i => (edge rect.w).map fun c => rect.dot b i c

/-- `__draw_obj`, without its label: what it writes, or none where `8192 - x` is undefined. -/
def drawObj : Option (List Dot) := do
  let wMax ← limit o.x
  let hMax ← limit o.y
  let rect : Box := {
    x := scale (range o.x 0 8191).toNat b.u32Width
    y := scale (range o.y 0 8191).toNat b.u32Height
    w := scale (rangeU32 o.w 0 wMax) b.u32Width
    h := scale (rangeU32 o.h 0 hMax) b.u32Height }
  if rect.w * rect.h % 2 ^ 32 = 0 then return []
  return rect.loops b

/-- The rectangle an object stands for: clamped to the grid, then scaled. -/
def ObjRect.target : Box where
  x := (range o.x 0 8191).toNat * b.u32Width / 8192
  y := (range o.y 0 8191).toNat * b.u32Height / 8192
  w := min o.w (8192 - (range o.x 0 8191).toNat) * b.u32Width / 8192
  h := min o.h (8192 - (range o.y 0 8191).toNat) * b.u32Height / 8192

/-- A pixel of a rectangle at most 4 away from a side. -/
def Box.OnBorder (row col : Nat) : Prop :=
  rect.y ≤ row ∧ row < rect.y + rect.h ∧ rect.x ≤ col ∧ col < rect.x + rect.w ∧
    (row < rect.y + 4 ∨ rect.y + rect.h ≤ row + 4 ∨ col < rect.x + 4 ∨ rect.x + rect.w ≤ col + 4)

/-- What is written is on the canvas, where its row and column are, and is the border. -/
def Draws (dots : List Dot) : Prop :=
  (∀ d ∈ dots, d.row < b.u32Height ∧ d.col < b.u32Width ∧ d.index = b.pixel d.row d.col) ∧
    ∀ row col, (∃ d ∈ dots, d.row = row ∧ d.col = col) ↔ rect.OnBorder row col

end

section

variable {b : Bitmap} {rect goal : Box} {o : ObjRect} {n r c : Nat}

theorem mem_edge (h : 4 ≤ n) (hn : n < 2 ^ 32) : r ∈ edge n ↔ r < n ∧ (r < 4 ∨ n ≤ r + 4) := by
  have hwrap : ∀ d : Int, 0 ≤ d → d ≤ 4 → u32 (n - d) = (n - d).toNat := by
    intro d hd hd'
    rw [u32]
    omega
  simp only [edge, List.map_cons, List.map_nil, List.mem_append, List.mem_cons, List.not_mem_nil,
    hwrap 1 (by decide) (by decide), hwrap 2 (by decide) (by decide),
    hwrap 3 (by decide) (by decide), hwrap 4 (by decide) (by decide), or_false]
  omega

/-- On a shorter side `n - 4` wraps. -/
theorem wrapped_mem_edge (h : n < 4) :
    u32 ((n : Int) - 4) ∈ edge n ∧ 2 ^ 31 ≤ u32 ((n : Int) - 4) := by
  refine ⟨by simp [edge], ?_⟩
  rw [u32]
  omega

theorem mem_loops {d : Dot} : d ∈ rect.loops b ↔
    ∃ r c, rect.dot b r c = d ∧ (r ∈ edge rect.h ∧ c < rect.w ∨ r < rect.h ∧ c ∈ edge rect.w) := by
  simp only [Box.loops, List.mem_append, List.mem_flatMap, List.mem_map, List.mem_range]
  constructor
  · rintro (⟨i, hi, r, hr, rfl⟩ | ⟨i, hi, c, hc, rfl⟩)
    · exact ⟨r, i, rfl, .inl ⟨hr, hi⟩⟩
    · exact ⟨i, c, rfl, .inr ⟨hi, hc⟩⟩
  · rintro ⟨r, c, rfl, ⟨hr, hc⟩ | ⟨hr, hc⟩⟩
    · exact .inl ⟨c, hc, r, hr, rfl⟩
    · exact .inr ⟨r, hr, c, hc, rfl⟩

/-- The loops of a box whose sides do not wrap. -/
theorem mem_loops_of_le (hw : 4 ≤ rect.w) (hh : 4 ≤ rect.h) (hw' : rect.w < 2 ^ 32)
    (hh' : rect.h < 2 ^ 32) {d : Dot} : d ∈ rect.loops b ↔
      ∃ r c, rect.dot b r c = d ∧ rect.OnBorder (rect.y + r) (rect.x + c) := by
  rw [mem_loops]
  refine exists_congr fun r => exists_congr fun c => and_congr_right fun _ => ?_
  rw [mem_edge hh hh', mem_edge hw hw', Box.OnBorder]
  omega

/-- The offset of a row and a column in a box. -/
theorem offset_eq (hr : r * b.u32Stride < 2 ^ 32) (hc : c < 2 ^ 31) :
    (r * b.u32Stride % 2 ^ 32 / 2 + c) % 2 ^ 32 = r * b.pitch + c := by
  rw [Nat.mod_eq_of_lt (by omega), b.row_eq hr]

theorem lt_of_row_eq {k : Nat} (h : k * b.u32Stride % 2 ^ 32 / 2 = k * b.pitch) :
    k * b.u32Stride < 2 ^ 32 := by
  have heq : k * b.u32Stride = 2 * (k * b.pitch) := by rw [b.stride_eq, mul_left_comm]
  omega

/-- A box drawn right is no thinner than its border. -/
theorem four_le_of_draws (h : Draws b goal (rect.loops b)) (hgx : goal.x + goal.w < 2 ^ 31)
    (hgy : goal.y + goal.h < 2 ^ 31) (hw : 0 < rect.w) (hh : 0 < rect.h) :
    4 ≤ rect.w ∧ 4 ≤ rect.h := by
  have hborder : ∀ r c, (r ∈ edge rect.h ∧ c < rect.w ∨ r < rect.h ∧ c ∈ edge rect.w) →
      goal.OnBorder (rect.y + r) (rect.x + c) := by
    intro r c hrc
    exact (h.2 _ _).mp ⟨_, mem_loops.mpr ⟨r, c, rfl, hrc⟩, rfl, rfl⟩
  constructor
  · by_contra! hlt
    obtain ⟨hmem, hbig⟩ := wrapped_mem_edge hlt
    obtain ⟨-, -, -, hcol, -⟩ := hborder 0 _ (.inr ⟨hh, hmem⟩)
    omega
  · by_contra! hlt
    obtain ⟨hmem, hbig⟩ := wrapped_mem_edge hlt
    obtain ⟨-, hrow, -⟩ := hborder _ 0 (.inl ⟨hmem, hw⟩)
    omega

/-- A box drawn right has the sides of its goal. -/
theorem sides_of_draws (h : Draws b goal (rect.loops b)) (hx : rect.x = goal.x)
    (hy : rect.y = goal.y) (hw : 4 ≤ rect.w) (hh : 4 ≤ rect.h) (hw' : rect.w < 2 ^ 32)
    (hh' : rect.h < 2 ^ 32) : rect.w = goal.w ∧ rect.h = goal.h := by
  have hmem := fun {d : Dot} => mem_loops_of_le (b := b) hw hh hw' hh' (d := d)
  have hin : ∀ r c, rect.OnBorder (rect.y + r) (rect.x + c) →
      goal.OnBorder (rect.y + r) (rect.x + c) := by
    intro r c hrc
    exact (h.2 _ _).mp ⟨_, hmem.mpr ⟨r, c, rfl, hrc⟩, rfl, rfl⟩
  have hout : ∀ row col, goal.OnBorder row col → rect.OnBorder row col := by
    intro row col hb
    obtain ⟨d, hd, rfl, rfl⟩ := (h.2 row col).mpr hb
    obtain ⟨r, c, rfl, hrc⟩ := hmem.mp hd
    exact hrc
  simp only [Box.OnBorder] at hin hout
  have hright := hin 0 (rect.w - 1) (by omega)
  have hbottom := hin (rect.h - 1) 0 (by omega)
  have hright' := hout goal.y (goal.x + (goal.w - 1)) (by omega)
  have hbottom' := hout (goal.y + (goal.h - 1)) goal.x (by omega)
  omega

/-- A box whose offsets do not wrap is drawn, row and column by row and column. -/
theorem loops_draw (hgx : rect.x + rect.w ≤ b.u32Width) (hgy : rect.y + rect.h ≤ b.u32Height)
    (hW : b.u32Width < 2 ^ 31) (hw : 4 ≤ rect.w) (hh : 4 ≤ rect.h) (hh' : rect.h < 2 ^ 32)
    (hbase : rect.y * b.u32Stride < 2 ^ 32) (hlast : (rect.h - 1) * b.u32Stride < 2 ^ 32) :
    Draws b rect (rect.loops b) := by
  have hmem := fun {d : Dot} => mem_loops_of_le (b := b) hw hh (by omega) hh' (d := d)
  constructor
  · intro d hd
    obtain ⟨r, c, rfl, hrc⟩ := hmem.mp hd
    obtain ⟨-, hr, -, hc, -⟩ := hrc
    have hrow : r * b.u32Stride < 2 ^ 32 := (Nat.mul_le_mul_right _ (by omega)).trans_lt hlast
    simp only [Box.dot, Bitmap.pixel]
    refine ⟨by omega, by omega, ?_⟩
    rw [offset_eq hbase (by omega), offset_eq hrow (by omega)]
    ring
  · intro row col
    constructor
    · rintro ⟨d, hd, rfl, rfl⟩
      obtain ⟨r, c, rfl, hrc⟩ := hmem.mp hd
      exact hrc
    · intro hrc
      have hrc' := hrc
      simp only [Box.OnBorder] at hrc'
      have hrow : rect.y + (row - rect.y) = row := by omega
      have hcol : rect.x + (col - rect.x) = col := by omega
      exact ⟨_, hmem.mpr ⟨row - rect.y, col - rect.x, rfl, by rwa [hrow, hcol]⟩, hrow, hcol⟩

/-- The rows of a box that is drawn right do not wrap. -/
theorem rows_of_draws (h : Draws b rect (rect.loops b)) (hx : rect.x < 2 ^ 31)
    (hh : 0 < rect.h) :
    rect.y * b.u32Stride < 2 ^ 32 ∧ (rect.h - 1) * b.u32Stride < 2 ^ 32 := by
  have hindex : ∀ r, r < rect.h → (rect.dot b r 0).index = b.pixel (rect.y + r) rect.x := by
    intro r hr
    refine (h.1 (rect.dot b r 0) (mem_loops.mpr ⟨r, 0, rfl, .inr ⟨hr, ?_⟩⟩)).2.2
    simp [edge]
  have hfirst := hindex 0 (by omega)
  have hlast := hindex (rect.h - 1) (by omega)
  simp only [Box.dot, Bitmap.pixel, add_mul] at hfirst hlast
  constructor
  · exact lt_of_row_eq (by omega)
  · exact lt_of_row_eq (by omega)

theorem range_grid (v : Int) : (range v 0 8191).toNat ≤ 8191 := by
  simp only [range]
  omega

theorem rangeU32_eq {v : Nat} {hi : Int} : rangeU32 v 0 hi = min v (u32 hi) := by
  have hzero : u32 0 = 0 := rfl
  simp only [rangeU32, hzero]
  split_ifs <;> omega

/-- Where a side begins and how long it is, scaled apart, are within the scaled grid. -/
theorem div_add_div_le {x w n : Nat} (h : x + w ≤ 8192) : x * n / 8192 + w * n / 8192 ≤ n := by
  have hsum : x * n + w * n ≤ 8192 * n := by
    rw [← add_mul]
    exact Nat.mul_le_mul_right n h
  omega

theorem target_le (b : Bitmap) (o : ObjRect) :
    (o.target b).x + (o.target b).w ≤ b.u32Width ∧
      (o.target b).y + (o.target b).h ≤ b.u32Height := by
  have hx := range_grid o.x
  have hy := range_grid o.y
  exact ⟨div_add_div_le (by omega), div_add_div_le (by omega)⟩

theorem scale_eq {v m : Nat} (hv : v ≤ 8192) (hm : m < 2 ^ 18) : scale v m = v * m / 8192 := by
  have hlt : v * m < 2 ^ 32 := by
    calc v * m ≤ 8192 * m := Nat.mul_le_mul_right m hv
      _ < 2 ^ 32 := by omega
  rw [scale, Nat.mod_eq_of_lt hlt]

theorem scale_lt {v m : Nat} : scale v m < 2 ^ 19 := by
  rw [scale]
  omega

/-- In memory a box that is drawn right is its border and nothing else. -/
theorem Draws.paints {dots : List Dot} (h : Draws b goal dots) (color : Nat) (mem : Pixels) :
    Grid.Paints color (fun k => ∃ row col, goal.OnBorder row col ∧ k = b.pixel row col) mem
      (Grid.paint color (dots.map Dot.index) mem) := by
  refine Grid.paints_paint.congr fun k => ?_
  rw [List.mem_map]
  constructor
  · rintro ⟨d, hd, rfl⟩
    exact ⟨d.row, d.col, (h.2 _ _).mp ⟨d, hd, rfl, rfl⟩, (h.1 d hd).2.2⟩
  · rintro ⟨row, col, hborder, rfl⟩
    obtain ⟨d, hd, rfl, rfl⟩ := (h.2 row col).mpr hborder
    exact ⟨d, hd, (h.1 d hd).2.2⟩

/-- A box of no pixels has no border. -/
theorem draws_nil_iff : Draws b goal [] ↔ goal.w = 0 ∨ goal.h = 0 := by
  constructor
  · intro h
    by_contra! hne
    obtain ⟨d, hd, -⟩ := (h.2 goal.y goal.x).mpr ⟨le_rfl, by omega, le_rfl, by omega, by omega⟩
    cases hd
  · intro h
    refine ⟨nofun, fun row col => iff_of_false nofun ?_⟩
    rw [Box.OnBorder]
    omega

/-- The loops draw their goal exactly when it is their box, is as thick as its border and has no
offset that wraps. -/
theorem loops_draws_iff (hx : rect.x = goal.x) (hy : rect.y = goal.y)
    (hgx : goal.x + goal.w ≤ b.u32Width) (hgy : goal.y + goal.h ≤ b.u32Height)
    (hW : b.u32Width < 2 ^ 31) (hH : b.u32Height < 2 ^ 31) (hw : 0 < rect.w) (hh : 0 < rect.h)
    (hw' : rect.w < 2 ^ 32) (hh' : rect.h < 2 ^ 32) :
    Draws b goal (rect.loops b) ↔ rect = goal ∧ 4 ≤ goal.w ∧ 4 ≤ goal.h ∧
      goal.y * b.u32Stride < 2 ^ 32 ∧ (goal.h - 1) * b.u32Stride < 2 ^ 32 := by
  constructor
  · intro h
    obtain ⟨hw4, hh4⟩ := four_le_of_draws h (by omega) (by omega) hw hh
    obtain ⟨hwe, hhe⟩ := sides_of_draws h hx hy hw4 hh4 hw' hh'
    obtain rfl : rect = goal := Box.ext hx hy hwe hhe
    exact ⟨rfl, hw4, hh4, rows_of_draws h (by omega) hh⟩
  · rintro ⟨rfl, hw4, hh4, hbase, hlast⟩
    exact loops_draw hgx hgy hW hw4 hh4 hh' hbase hlast

end

/-- The rectangle of an object, with the sides that `8192 - x` and `8192 - y` of its own `x` and `y`
leave. -/
def ObjRect.limited (b : Bitmap) (o : ObjRect) : Box where
  x := (o.target b).x
  y := (o.target b).y
  w := min o.w (u32 (8192 - o.x)) * b.u32Width % 2 ^ 32 / 8192
  h := min o.h (u32 (8192 - o.y)) * b.u32Height % 2 ^ 32 / 8192

/-- Nothing to draw and nothing drawn, or a rectangle as thick as its border, the same by either
limit, whose area and rows do not wrap. -/
def Fits (b : Bitmap) (o : ObjRect) : Prop :=
  8192 - o.x < 2 ^ 31 ∧ 8192 - o.y < 2 ^ 31 ∧
    (((o.target b).w = 0 ∨ (o.target b).h = 0) ∧
        (o.limited b).w * (o.limited b).h % 2 ^ 32 = 0 ∨
      o.limited b = o.target b ∧ 4 ≤ (o.target b).w ∧ 4 ≤ (o.target b).h ∧
        (o.target b).w * (o.target b).h % 2 ^ 32 ≠ 0 ∧
        (o.target b).y * b.u32Stride < 2 ^ 32 ∧ ((o.target b).h - 1) * b.u32Stride < 2 ^ 32)

theorem drawObj_eq (b : Bitmap) (o : ObjRect) (hW : b.u32Width < 2 ^ 18)
    (hH : b.u32Height < 2 ^ 18) : drawObj b o =
      if 8192 - o.x < 2 ^ 31 ∧ 8192 - o.y < 2 ^ 31 then
        some (if (o.limited b).w * (o.limited b).h % 2 ^ 32 = 0 then []
          else (o.limited b).loops b)
      else none := by
  have hx : scale (range o.x 0 8191).toNat b.u32Width = (o.target b).x :=
    scale_eq ((range_grid o.x).trans (by decide)) hW
  have hy : scale (range o.y 0 8191).toNat b.u32Height = (o.target b).y :=
    scale_eq ((range_grid o.y).trans (by decide)) hH
  simp only [drawObj, limit, rangeU32_eq, hx, hy]
  by_cases hlx : 8192 - o.x < 2 ^ 31
  · by_cases hly : 8192 - o.y < 2 ^ 31
    · rw [if_pos hlx, if_pos hly, if_pos ⟨hlx, hly⟩]
      exact (apply_ite some _ _ _).symm
    · rw [if_pos hlx, if_neg hly, if_neg fun h => hly h.2]
      rfl
  · rw [if_neg hlx, if_neg fun h : _ ∧ _ => hlx h.1]
    rfl

/-- `__draw_obj` draws the border of the rectangle exactly when it fits. -/
theorem drawObj_draws_iff (b : Bitmap) (o : ObjRect) (hW : b.u32Width < 2 ^ 18)
    (hH : b.u32Height < 2 ^ 18) :
    (∃ dots, drawObj b o = some dots ∧ Draws b (o.target b) dots) ↔ Fits b o := by
  rw [drawObj_eq b o hW hH, Fits]
  split_ifs with hlim hzero
  · simp only [Option.some.injEq, exists_eq_left', draws_nil_iff]
    constructor
    · intro hempty
      exact ⟨hlim.1, hlim.2, .inl ⟨hempty, hzero⟩⟩
    · rintro ⟨-, -, ⟨hempty, -⟩ | ⟨heq, -, -, harea, -⟩⟩
      · exact hempty
      · rw [heq] at hzero
        exact absurd hzero harea
  · have hpos : (o.limited b).w ≠ 0 ∧ (o.limited b).h ≠ 0 := by
      rw [← mul_ne_zero_iff]
      intro h
      exact hzero (by rw [h, Nat.zero_mod])
    have hlt : (o.limited b).w < 2 ^ 19 ∧ (o.limited b).h < 2 ^ 19 := ⟨scale_lt, scale_lt⟩
    obtain ⟨hgx, hgy⟩ := target_le b o
    have hgo : Draws b (o.target b) ((o.limited b).loops b) ↔ _ :=
      loops_draws_iff rfl rfl hgx hgy (by omega) (by omega) (by omega) (by omega) (by omega)
        (by omega)
    simp only [Option.some.injEq, exists_eq_left']
    rw [hgo]
    constructor
    · rintro ⟨heq, hw4, hh4, hrows⟩
      rw [heq] at hzero
      exact ⟨hlim.1, hlim.2, .inr ⟨heq, hw4, hh4, hzero, hrows⟩⟩
    · rintro ⟨-, -, ⟨-, harea⟩ | ⟨heq, hw4, hh4, -, hrows⟩⟩
      · exact absurd harea hzero
      · exact ⟨heq, hw4, hh4, hrows⟩
  · refine iff_of_false (by simp) ?_
    rintro ⟨hx, hy, -⟩
    exact hlim ⟨hx, hy⟩

/-- On the grid the two limits are one. -/
theorem limited_eq_target {b : Bitmap} {o : ObjRect} (hW : b.u32Width < 2 ^ 18)
    (hH : b.u32Height < 2 ^ 18) (hx : 0 ≤ o.x ∧ o.x ≤ 8191) (hy : 0 ≤ o.y ∧ o.y ≤ 8191) :
    o.limited b = o.target b := by
  have hlim : ∀ v : Int, 0 ≤ v ∧ v ≤ 8191 →
      u32 (8192 - v) = 8192 - (range v 0 8191).toNat := by
    intro v hv
    simp only [u32, range]
    omega
  have hw : min o.w (u32 (8192 - o.x)) ≤ 8192 := by
    rw [hlim o.x hx]
    omega
  have hh : min o.h (u32 (8192 - o.y)) ≤ 8192 := by
    rw [hlim o.y hy]
    omega
  refine Box.ext rfl rfl ?_ ?_
  · exact (scale_eq hw hW).trans (by rw [hlim o.x hx]; rfl)
  · exact (scale_eq hh hH).trans (by rw [hlim o.y hy]; rfl)

/-- A face on a canvas of 1920 by 1080. -/
theorem drawObj_draws_face : ∃ dots,
    drawObj ⟨1920, 1080, 3840, by decide, by decide, by decide⟩ ⟨4000, 4000, 500, 700⟩ = some dots ∧
      Draws ⟨1920, 1080, 3840, by decide, by decide, by decide⟩ ⟨937, 527, 117, 92⟩ dots := by
  refine (drawObj_draws_iff _ ⟨4000, 4000, 500, 700⟩ (by decide) (by decide)).mpr ?_
  refine ⟨by decide, by decide, .inr ⟨limited_eq_target (by decide) (by decide) ?_ ?_, ?_⟩⟩
  · decide
  · decide
  · decide

/-- An object two pixels high on it. -/
theorem drawObj_draws_thin : ∃ (b : Bitmap) (o : ObjRect), b.u32Width = 1920 ∧
    b.u32Height = 1080 ∧ b.u32Stride = 3840 ∧ o = ⟨4000, 4000, 500, 20⟩ ∧
    ¬ ∃ dots, drawObj b o = some dots ∧ Draws b (o.target b) dots := by
  refine ⟨⟨1920, 1080, 3840, by decide, by decide, by decide⟩, _, rfl, rfl, rfl, rfl, ?_⟩
  rw [drawObj_eq _ _ (by decide) (by decide), if_pos (by decide), if_neg (by decide)]
  rintro ⟨dots, hdots, hdraws⟩
  obtain rfl := Option.some.inj hdots
  obtain ⟨-, hh⟩ := four_le_of_draws hdraws (by decide) (by decide) (by decide) (by decide)
  exact absurd hh (by decide)

end Freak.Vsf
