import K1de.Lib.Raster
import K1de.Render.Spec
import K1de.Terminal.Reach

/-! # Every pixel of a rendered terminal

`pixelColour` says what a terminal should look like: a function of the cells and the
font, pixel by pixel. `render_pixels` says that this is what `Terminal::render` leaves in
the buffer, for every font, mode and pitch that the kernel may report.

The proof follows the passes of `render`. Each loop draws a picture (`Format.Draws`):
the background a rectangle of the whole mode, `fill_cell` and `blit_glyph` a rectangle of
one cell, and the cells lie side by side. No break and no bounds check of the loops is
ever taken.
-/

namespace K1de

open Fallible Paint Raster

/-! ## What should be on the screen -/

/-- The glyph bit of pixel `(x, y)`: a glyph has a byte for each row, and the leftmost
pixel is the highest bit. -/
def Font.bit (font : Font) (ch : UInt8) (x y : Nat) : Bool :=
  (font.data.getD (ch.toNat * 32 + y) 0).toNat.testBit (7 - x)

/-- An entry of the palette. -/
def paletteColour (i : UInt8) : UInt32 := palette.getD i.toNat 0

def Cell.foreground (cell : Cell) : UInt32 := (cell.fg.map paletteColour).getD FG

def Cell.background (cell : Cell) : UInt32 := (cell.bg.map paletteColour).getD BG

/-- The picture of a terminal. -/
def pixelColour (font : Font) (t : Terminal) (x y : Nat) : UInt32 :=
  if t.cols * font.width ≤ x ∨ t.rows * font.height ≤ y then BG
  else
    let cell := t.cells.getD (y / font.height * t.cols + x / font.width) blank
    if cell.ch ≠ 0x20 ∧ font.bit cell.ch (x % font.width) (y % font.height) then cell.foreground
    else cell.background

/-! ## Places in the buffer -/

/-- Four bytes a pixel, and `stride` pixels a row. -/
def xrgb (stride : Nat) : Format UInt8 UInt32 where
  encode := leBytes
  size := 4
  stride := stride
  length_encode := fun _ => rfl
  size_pos := by decide

/-- A rectangle that lies inside the rows and inside a buffer of `n` bytes. -/
structure Room (n stride ox oy w h : Nat) : Prop where
  right : ox + w ≤ stride
  bottom : (oy + h) * (stride * 4) ≤ n
  small : (oy + h) * (stride * 4) < Vec.usizeSize

namespace Room

/-- A row of the rectangle ends before the rectangle does. -/
theorem row_end (oy stride : Nat) {h y : Nat} (hy : y < h) :
    (oy + y) * (stride * 4) + stride * 4 ≤ (oy + h) * (stride * 4) := by
  have hle : oy + y + 1 ≤ oy + h := by omega
  calc (oy + y) * (stride * 4) + stride * 4 = (oy + y + 1) * (stride * 4) := by ring
    _ ≤ (oy + h) * (stride * 4) := Nat.mul_le_mul_right _ hle

variable {n stride ox oy w h x y : Nat} (hroom : Room n stride ox oy w h) (hx : x < w) (hy : y < h)

include hroom hx hy

/-- Inside the rectangle the offset of a row does not wrap. -/
theorem row_eq : Vec.umul (Vec.uadd oy y) (stride * 4) = (oy + y) * (stride * 4) := by
  have hend := row_end oy stride hy
  have hright := hroom.right
  have hsmall := hroom.small
  have hle : oy + y ≤ (oy + y) * (stride * 4) := Nat.le_mul_of_pos_right _ (by omega)
  rw [Vec.uadd_eq (by omega), Vec.umul_eq (by omega)]

/-- The code computes the offset of the pixel, without a wrap. -/
theorem offset_eq :
    Vec.uadd (Vec.umul (Vec.uadd oy y) (stride * 4)) (Vec.umul (Vec.uadd ox x) 4) =
      (xrgb stride).offset (ox + x) (oy + y) := by
  have hend := row_end oy stride hy
  have hright := hroom.right
  have hsmall := hroom.small
  rw [hroom.row_eq hx hy, Vec.uadd_eq (a := ox) (by omega), Vec.umul_eq (by omega),
    Vec.uadd_eq (by omega)]
  show _ = ((oy + y) * stride + (ox + x)) * 4
  ring

/-- A pixel ends inside the rectangle. -/
theorem offset_le : (xrgb stride).offset (ox + x) (oy + y) + 4 ≤ (oy + h) * (stride * 4) := by
  have hend := row_end oy stride hy
  have hright := hroom.right
  have hoffset : (xrgb stride).offset (ox + x) (oy + y) =
      (oy + y) * (stride * 4) + (ox + x) * 4 := by
    show ((oy + y) * stride + (ox + x)) * 4 = _
    ring
  omega

/-- A row has room for all pixels of the rectangle, so no loop over rows breaks. -/
theorem row_inside {k : Nat} (hk : k ≤ w) :
    decide (Vec.uadd (Vec.umul (Vec.uadd oy y) (stride * 4)) (k * 4) > n) = false := by
  have hend := row_end oy stride hy
  have hright := hroom.right
  have hbottom := hroom.bottom
  have hsmall := hroom.small
  rw [hroom.row_eq hx hy, Vec.uadd_eq (by omega)]
  exact decide_eq_false (by omega)

/-- Setting a pixel of the rectangle draws it. -/
theorem draws_setPixel (color : UInt32) :
    (xrgb stride).Draws n
      (fun buf => setPixel buf
        (Vec.uadd (Vec.umul (Vec.uadd oy y) (stride * 4)) (Vec.umul (Vec.uadd ox x) 4)) color)
      (.place (ox + x) (oy + y) (some color)) := by
  have hright := hroom.right
  have hle := hroom.offset_le hx hy
  rw [hroom.offset_eq hx hy]
  exact Format.draws_place (show ox + x < stride by omega) (hle.trans hroom.bottom) color

end Room

/-! ## The passes -/

/-- `fill_cell` draws a rectangle. -/
theorem draws_fillCell {n stride ox oy w h : Nat} (hroom : Room n stride ox oy w h) (hw : 0 < w)
    (color : UInt32) :
    (xrgb stride).Draws n (fillCell (stride * 4) color ox oy w h)
      (.patch ox oy w h fun _ _ => some color) := by
  rw [← layers_place]
  apply Format.draws_untilM
  · intro y hy
    have hy := List.mem_range.mp hy
    have hend := Room.row_end oy stride hy
    have hright := hroom.right
    have hsmall := hroom.small
    rw [Vec.umul_eq (a := w) (by omega)]
    exact hroom.row_inside hw hy le_rfl
  · intro y hy
    apply Format.draws_foldlM
    intro x hx
    exact hroom.draws_setPixel (List.mem_range.mp hx) (List.mem_range.mp hy) color

/-- The shift and mask of `Font::pixel` read one bit. -/
theorem shift_and_one : ∀ row : UInt8, ∀ x < 8,
    ((row >>> UInt8.ofNat (Vec.uwsub 7 x % 8)) &&& 1 ≠ 0) ↔ row.toNat.testBit (7 - x) := by
  decide +kernel

/-- Every bit of every glyph can be looked up. -/
theorem Font.pixel_eq {font : Font} (hwidth : font.width ≤ 8) (hheight : font.height ≤ 32)
    (ch : UInt8) {x y : Nat} (hx : x < font.width) (hy : y < font.height) :
    font.pixel ch x y = .ok (font.bit ch x y) := by
  have hch := ch.toNat_lt
  have hidx : ch.toNat * 32 + y < font.data.length := by
    rw [font.data_length]
    omega
  unfold Font.pixel Font.bit
  rw [if_neg (by omega), Vec.index_ok (List.getElem?_eq_getElem hidx), ok_bind,
    List.getD_eq_getElem _ _ hidx]
  congr 1
  simp only [shift_and_one _ x (by omega), Bool.decide_eq_true]

section

variable {font : Font} (hwidth : font.width ≤ 8) (hheight : font.height ≤ 32) {n stride ox oy : Nat}
  (hroom : Room n stride ox oy font.width font.height) (ch : UInt8) (color : UInt32)

include hwidth hheight hroom

/-- One pixel of a glyph: the bit, and the bounds check that always succeeds. -/
theorem draws_blitPixel {x y : Nat} (hx : x < font.width) (hy : y < font.height) :
    (xrgb stride).Draws n
      (fun buf => blitPixel font ch color (Vec.umul (Vec.uadd oy y) (stride * 4)) ox y buf x)
      (.place (ox + x) (oy + y) (if font.bit ch x y then some color else none)) := by
  intro buf hbuf
  dsimp only
  unfold blitPixel
  rw [Font.pixel_eq hwidth hheight ch hx hy, ok_bind]
  cases font.bit ch x y with
  | false =>
      have hnone : Picture.place (ox + x) (oy + y) (if false = true then some color else none) =
          .empty := Picture.place_none _ _
      rw [if_neg (by simp), hnone]
      exact Format.draws_id buf hbuf
  | true =>
      have hle := hroom.offset_le hx hy
      have hbottom := hroom.bottom
      have hsmall := hroom.small
      -- the bit is set, and the bounds check lets it through
      rw [if_pos]
      · exact hroom.draws_setPixel hx hy color buf hbuf
      · refine ⟨rfl, ?_⟩
        rw [hroom.offset_eq hx hy, Vec.uadd_eq (by omega), hbuf]
        omega

/-- `blit_glyph` draws the bits of the glyph. -/
theorem draws_blitGlyph :
    (xrgb stride).Draws n (blitGlyph (stride * 4) font ch color ox oy)
      (.patch ox oy font.width font.height fun x y =>
        if font.bit ch x y then some color else none) := by
  rw [← layers_place]
  apply Format.draws_untilM
  · intro y hy
    exact hroom.row_inside (k := 1) font.width_pos (List.mem_range.mp hy) font.width_pos
  · intro y hy
    apply Format.draws_foldlM
    intro x hx
    exact draws_blitPixel hwidth hheight hroom ch color (List.mem_range.mp hx)
      (List.mem_range.mp hy)

end

/-- What one cell draws: its glyph over its background. -/
def cellPicture (font : Font) (cell : Cell) : Picture UInt32 :=
  .onTop
    (fun x y => if cell.ch ≠ 0x20 ∧ font.bit cell.ch x y then some cell.foreground else none)
    (fun _ _ => cell.bg.map paletteColour)

/-- A colour that the terminal stores is in the palette. -/
theorem index_palette {c : Option UInt8} (hc : ColourOk c) {i : UInt8} (hi : c = some i) :
    Vec.index palette i.toNat = .ok (paletteColour i) := by
  have hlt : i.toNat < palette.length := UInt8.lt_iff_toNat_lt.mp (hc i hi)
  rw [Vec.index_ok (List.getElem?_eq_getElem hlt), paletteColour, List.getD_eq_getElem _ _ hlt]

theorem textColor_eq {cell : Cell} (hcell : cell.Ok) : textColor cell = .ok cell.foreground := by
  unfold textColor Cell.foreground
  cases hfg : cell.fg with
  | none => rfl
  | some fg => exact index_palette hcell.fg_ok hfg

section

variable {font : Font} {n stride ox oy : Nat} {cell : Cell}
  (hroom : Room n stride ox oy font.width font.height) (hcell : cell.Ok)

include hroom hcell

/-- A cell without a background draws none, and leaves what `clear` has drawn. -/
theorem draws_background :
    (xrgb stride).Draws n (drawBackground (stride * 4) font cell ox oy)
      (.patch ox oy font.width font.height fun _ _ => cell.bg.map paletteColour) := by
  unfold drawBackground
  cases hbg : cell.bg with
  | none =>
      have hempty : Picture.patch ox oy font.width font.height
          (fun _ _ => Option.map paletteColour none) = .empty := Picture.patch_empty ..
      rw [hempty]
      exact Format.draws_id
  | some bg =>
      intro buf hbuf
      dsimp only
      rw [index_palette hcell.bg_ok hbg, ok_bind]
      exact draws_fillCell hroom font.width_pos (paletteColour bg) buf hbuf

/-- A space draws nothing. -/
theorem draws_char (hwidth : font.width ≤ 8) (hheight : font.height ≤ 32) :
    (xrgb stride).Draws n (drawChar (stride * 4) font cell ox oy)
      (.patch ox oy font.width font.height fun x y =>
        if cell.ch ≠ 0x20 ∧ font.bit cell.ch x y then some cell.foreground else none) := by
  intro buf hbuf
  unfold drawChar
  by_cases hch : cell.ch ≠ 0x20
  · rw [if_pos hch, textColor_eq hcell, ok_bind]
    simp only [ne_eq, hch, not_false_eq_true, true_and]
    exact draws_blitGlyph hwidth hheight hroom cell.ch cell.foreground buf hbuf
  · rw [if_neg hch]
    simp only [hch, false_and, if_false]
    have hempty : Picture.patch ox oy font.width font.height
        (fun _ _ => (none : Option UInt32)) = .empty := Picture.patch_empty ..
    rw [hempty]
    exact Format.draws_id buf hbuf

end

/-! ### The background -/

/-- The number of pixels that the background pass sets in a row. -/
def clearLength (n stride width row : Nat) : Nat :=
  min (width * 4) (min (stride * 4) (n - row * (stride * 4))) / 4

/-- What the background pass draws: all rows that begin inside the buffer. -/
def clearPicture (n stride width : Nat) (color : UInt32) : Picture UInt32 :=
  layers (fun row => layers (fun px => .place px row (some color))
    (List.range (clearLength n stride width row)))
    (List.range ((n + stride * 4 - 1) / (stride * 4)))

/-- A row of the background, up to the width of the mode or the end of the buffer. -/
theorem draws_clearRow (n stride width row : Nat) (color : UInt32) :
    (xrgb stride).Draws n (fun buf => clearRow (stride * 4) (width * 4) color buf row)
      (layers (fun px => .place px row (some color))
        (List.range (clearLength n stride width row))) := by
  intro buf hbuf
  show clearRow (stride * 4) (width * 4) color buf row = _
  unfold clearRow
  rw [hbuf]
  refine Format.draws_foldlM ?_ buf hbuf
  intro px hpx
  have hpx : px < clearLength n stride width row := List.mem_range.mp hpx
  have hfit : px * 4 + 4 ≤ min (width * 4) (min (stride * 4) (n - row * (stride * 4))) := by
    have hle := (Nat.le_div_iff_mul_le (by decide)).mp hpx
    omega
  have hoffset : row * (stride * 4) + px * 4 = (xrgb stride).offset px row := by
    show _ = (row * stride + px) * 4
    ring
  show (xrgb stride).Draws n (fun buf => setPixel buf (row * (stride * 4) + px * 4) color) _
  rw [hoffset]
  apply Format.draws_place (show px < stride by omega)
  rw [← hoffset]
  show row * (stride * 4) + px * 4 + 4 ≤ n
  omega

theorem draws_clear (n width : Nat) {stride : Nat} (hpos : 0 < stride) (color : UInt32) :
    (xrgb stride).Draws n (clear (stride * 4) (width * 4) color)
      (clearPicture n stride width color) := by
  intro buf hbuf
  unfold clear
  rw [if_neg (by omega), hbuf]
  refine Format.draws_foldlM ?_ buf hbuf
  intro row _
  exact draws_clearRow n stride width row color

/-- The background covers the whole mode. -/
theorem clearPicture_eq {n stride width height : Nat} (hstride : width ≤ stride)
    (hn : height * (stride * 4) ≤ n) (color : UInt32) {x y : Nat} (hx : x < width)
    (hy : y < height) : clearPicture n stride width color x y = some color := by
  have hrow : (y + 1) * (stride * 4) ≤ n := le_trans (Nat.mul_le_mul_right _ hy) hn
  have hmul : (y + 1) * (stride * 4) = y * (stride * 4) + stride * 4 := by ring
  -- the buffer has enough rows, and the row is wide enough
  have hrows : y + 1 ≤ (n + stride * 4 - 1) / (stride * 4) :=
    (Nat.le_div_iff_mul_le (by omega)).mpr (by omega)
  have hlength : clearLength n stride width y = width := by
    unfold clearLength
    omega
  unfold clearPicture
  -- of the layers only row `y` has the pixel, and of its places only `x`
  rw [layers_range (k := y)
      (fun row hrow => layers_none fun px _ => if_neg fun h => hrow h.2.symm),
    if_pos (Nat.lt_of_succ_le hrows),
    layers_range (k := x) (fun px hpx => if_neg fun h => hpx h.1.symm), hlength, if_pos hx]
  exact if_pos ⟨rfl, rfl⟩

/-! ### The cells -/

/-- One cell of the grid. -/
theorem draws_cell {font : Font} (hwidth : font.width ≤ 8) (hheight : font.height ≤ 32)
    {n stride : Nat} {cells : List Cell} {cols r c : Nat} {cell : Cell}
    (hget : cells[r * cols + c]? = some cell) (hcell : cell.Ok)
    (hroom : Room n stride (c * font.width) (r * font.height) font.width font.height) :
    (xrgb stride).Draws n (fun buf => drawCell (stride * 4) font cells cols r buf c)
      (.patch (c * font.width) (r * font.height) font.width font.height
        (cellPicture font cell)) := by
  have hright := hroom.right
  have hsmall := hroom.small
  have hfont := font.width_pos
  have hend := Room.row_end (r * font.height) stride font.height_pos
  have hle : r * font.height ≤ (r * font.height + 0) * (stride * 4) :=
    Nat.le_mul_of_pos_right _ (by omega)
  rw [cellPicture, ← Picture.onTop_patch]
  intro buf hbuf
  show drawCell (stride * 4) font cells cols r buf c = _
  unfold drawCell
  rw [Vec.index_ok hget, ok_bind, Vec.umul_eq (a := c) (by omega), Vec.umul_eq (a := r) (by omega)]
  exact (draws_background hroom hcell).bind (draws_char hroom hcell hwidth hheight) buf hbuf

/-! ## The whole terminal -/

/-- The cells, row by row. -/
def terminalPicture (font : Font) (t : Terminal) : Picture UInt32 :=
  layers (fun r => layers (fun c => .patch (c * font.width) (r * font.height) font.width
    font.height (cellPicture font (t.cells.getD (r * t.cols + c) blank))) (List.range t.cols))
    (List.range t.rows)

/-- The cells over the background are the picture of the terminal. -/
theorem terminalPicture_or (font : Font) (t : Terminal) (x y : Nat) :
    (terminalPicture font t x y).or (some BG) = some (pixelColour font t x y) := by
  rw [terminalPicture, layers_tiles font.width_pos font.height_pos
    fun c r => cellPicture font (t.cells.getD (r * t.cols + c) blank)]
  unfold pixelColour
  by_cases hin : x < t.cols * font.width ∧ y < t.rows * font.height
  · -- inside the grid: a set bit of the glyph, or else the background of the cell
    rw [if_pos hin, if_neg (by omega)]
    generalize t.cells.getD (y / font.height * t.cols + x / font.width) blank = cell
    unfold cellPicture Picture.onTop Cell.background
    dsimp only
    split
    · rfl
    · cases cell.bg <;> rfl
  · rw [if_neg hin, if_pos (by omega)]
    rfl

/-- A font and a buffer that fit together: glyphs of at most 8 by 32 pixels, a mode with
room for one cell, and the pitch and the size that the kernel gives a buffer. -/
structure Suits (font : Font) (so : ScanOut) : Prop where
  font_width : font.width ≤ 8
  font_height : font.height ≤ 32
  width_ge : font.width ≤ so.width.toNat
  height_ge : font.height ≤ so.height.toNat
  pitch_dvd : 4 ∣ so.pitch.toNat
  pitch_ge : 4 * so.width.toNat ≤ so.pitch.toNat
  mem_length : so.pitch.toNat * so.height.toNat ≤ so.mem.length

/-- The grid that `main` gives the terminal for this mode. -/
structure GridOf (font : Font) (so : ScanOut) (t : Terminal) : Prop where
  cols_eq : t.cols = so.width.toNat / font.width
  rows_eq : t.rows = so.height.toNat / font.height

section

variable {font : Font} {so : ScanOut} (h : Suits font so) {stride : Nat}
  (hstride : so.pitch.toNat = stride * 4)

include h hstride

/-- A rectangle of the mode lies inside the buffer. -/
theorem Suits.rectangle (ox oy w height : Nat) (hright : ox + w ≤ so.width.toNat)
    (hbottom : oy + height ≤ so.height.toNat) : Room so.mem.length stride ox oy w height := by
  have hpitch := h.pitch_ge
  have harea : (oy + height) * (stride * 4) ≤ so.pitch.toNat * so.height.toNat := by
    rw [← hstride, Nat.mul_comm so.pitch.toNat]
    exact Nat.mul_le_mul_right _ hbottom
  refine ⟨by omega, harea.trans h.mem_length, lt_of_le_of_lt harea ?_⟩
  exact Vec.mul_lt_usizeSize so.pitch.toNat_lt so.height.toNat_lt

/-- A pixel of the mode, read back from the buffer. -/
theorem Suits.read_pixel {pic : Picture UInt32} {x y : Nat} {c : UInt32}
    (hx : x < so.width.toNat) (hy : y < so.height.toNat) (hc : pic x y = some c) :
    ((overlay ((xrgb stride).elements pic) so.mem).drop
      (y * so.pitch.toNat + 4 * x)).take 4 = leBytes c := by
  have hplace := h.rectangle hstride x y 1 1 hx hy
  have hend := hplace.offset_le Nat.zero_lt_one Nat.zero_lt_one
  have hright := hplace.right
  have hoffset : y * so.pitch.toNat + 4 * x = (xrgb stride).offset x y := by
    show _ = (y * stride + x) * 4
    rw [hstride]
    ring
  rw [hoffset]
  exact Format.take_drop_overlay (F := xrgb stride) (show x < stride by omega) hc
    (hend.trans hplace.bottom)

end

section

variable {font : Font} {so : ScanOut} {t : Terminal}

/-- Such a grid has less than `2 ^ 64` cells. -/
theorem GridOf.countFits (hgrid : GridOf font so t) : Terminal.CountFits (t.cols, t.rows) := by
  have hc : t.cols < 2 ^ 32 := by
    rw [hgrid.cols_eq]
    exact lt_of_le_of_lt (Nat.div_le_self _ _) so.width.toNat_lt
  have hr : t.rows < 2 ^ 32 := by
    rw [hgrid.rows_eq]
    exact lt_of_le_of_lt (Nat.div_le_self _ _) so.height.toNat_lt
  exact Vec.mul_lt_usizeSize hc hr

variable (h : Suits font so) (hgrid : GridOf font so t) {stride : Nat}
  (hstride : so.pitch.toNat = stride * 4)

include h hgrid hstride

/-- Every cell lies inside the buffer. -/
theorem Suits.room {r c : Nat} (hr : r < t.rows) (hc : c < t.cols) :
    Room so.mem.length stride (c * font.width) (r * font.height) font.width font.height := by
  have hcols := hgrid.cols_eq
  have hrows := hgrid.rows_eq
  have hright : c * font.width + font.width ≤ so.width.toNat := by
    calc c * font.width + font.width = (c + 1) * font.width := by ring
      _ ≤ so.width.toNat / font.width * font.width := Nat.mul_le_mul_right _ (by omega)
      _ ≤ so.width.toNat := Nat.div_mul_le_self _ _
  have hbottom : r * font.height + font.height ≤ so.height.toNat := by
    calc r * font.height + font.height = (r + 1) * font.height := by ring
      _ ≤ so.height.toNat / font.height * font.height := Nat.mul_le_mul_right _ (by omega)
      _ ≤ so.height.toNat := Nat.div_mul_le_self _ _
  exact h.rectangle hstride _ _ _ _ hright hbottom

/-- The cells draw their pictures, each inside its own rectangle. -/
theorem Suits.draws_cells (hinv : Terminal.Inv t) :
    (xrgb stride).Draws so.mem.length
      (fun buf => (List.range t.rows).foldlM
        (fun buf r => (List.range t.cols).foldlM
          (drawCell so.pitch.toNat font t.cells t.cols r) buf) buf)
      (terminalPicture font t) := by
  apply Format.draws_foldlM
  intro r hr
  have hr := List.mem_range.mp hr
  apply Format.draws_foldlM
  intro c hc
  have hc := List.mem_range.mp hc
  have hidx := hinv.index_lt hr hc
  rw [List.getD_eq_getElem _ _ hidx, hstride]
  exact draws_cell h.font_width h.font_height (List.getElem?_eq_getElem hidx)
    (hinv.cells_ok _ (List.getElem_mem hidx)) (h.room hgrid hstride hr hc)

/-- The pixels of `render`, before the flush. -/
theorem Suits.drawTerminal (hinv : Terminal.Inv t) :
    ∃ mem, K1de.drawTerminal font t so.pitch so.width so.mem = .ok mem ∧
      ∀ x y, x < so.width.toNat → y < so.height.toNat →
        (mem.drop (y * so.pitch.toNat + 4 * x)).take 4 = leBytes (pixelColour font t x y) := by
  have hpitch := h.pitch_ge
  have hwidth := h.width_ge
  have hfont := font.width_pos
  have hmem : so.height.toNat * (stride * 4) ≤ so.mem.length := by
    rw [← hstride, Nat.mul_comm]
    exact h.mem_length
  have hwide : so.width.toNat ≤ stride := by omega
  have hclear := draws_clear so.mem.length so.width.toNat (show 0 < stride by omega) BG
  rw [← hstride] at hclear
  refine ⟨_, hclear.bind (h.draws_cells hgrid hstride hinv) so.mem rfl, ?_⟩
  intro x y hx hy
  -- the cells over the background, which covers the whole mode
  have hpixel : Picture.onTop (terminalPicture font t)
      (clearPicture so.mem.length stride so.width.toNat BG) x y =
        some (pixelColour font t x y) := by
    rw [← terminalPicture_or, ← clearPicture_eq hwide hmem BG hx hy]
    rfl
  exact h.read_pixel hstride hx hy hpixel

end

/-- After `Terminal::render` every pixel of the mode has the colour that the terminal and
the font give it, and no access was out of range. -/
theorem render_pixels (font : Font) (t : Terminal) (w : World) (so : ScanOut)
    (hso : w.drm.scanout = some so) (hsuits : Suits font so) (ht : Terminal.Reached t)
    (hgrid : GridOf font so t) :
    ∃ t' w' so', t.render w font = .ok (t', w') ∧ w'.drm.scanout = some so' ∧
      ∀ x y, x < so.width.toNat → y < so.height.toNat →
        (so'.mem.drop (y * so.pitch.toNat + 4 * x)).take 4 =
          leBytes (pixelColour font t x y) := by
  obtain ⟨stride, hstride⟩ := hsuits.pitch_dvd
  rw [Nat.mul_comm] at hstride
  obtain ⟨mem, hdraw, hpixels⟩ :=
    hsuits.drawTerminal hgrid hstride (ht.inv hgrid.countFits)
  refine ⟨{ t with dirty := false }, present w mem, { so with mem }, ?_, ?_, hpixels⟩
  · exact render_of_draw hso hdraw
  · rw [present_drm, Drm.setMem, hso]
    rfl

/-- What it means for the buffer to show the terminal: drawing changes nothing, so every
pixel of the mode has its colour already. -/
theorem OnScreen.pixels {font : Font} {t : Terminal} {so : ScanOut} (h : OnScreen font t so)
    (hsuits : Suits font so) (ht : Terminal.Inv t) (hgrid : GridOf font so t) {x y : Nat}
    (hx : x < so.width.toNat) (hy : y < so.height.toNat) :
    (so.mem.drop (y * so.pitch.toNat + 4 * x)).take 4 = leBytes (pixelColour font t x y) := by
  obtain ⟨stride, hstride⟩ := hsuits.pitch_dvd
  rw [Nat.mul_comm] at hstride
  obtain ⟨mem, hdraw, hpixels⟩ := hsuits.drawTerminal hgrid hstride ht
  cases hdraw.symm.trans h
  exact hpixels x y hx hy

/-- The font that `k1de` falls back to. -/
def solidFont : Font where
  width := 8
  height := 8
  data := solidGlyphs
  width_pos := Nat.succ_pos 7
  height_pos := Nat.succ_pos 7
  data_length := length_solidGlyphs

/-- A mode of 17 by 9 pixels with a pitch of 72 bytes. -/
def smallScreen : ScanOut :=
  { fbId := 1, dumbHandle := 1, map := 0, mapLen := 648, pitch := 72, width := 17, height := 9
    mem := List.replicate 648 0 }

/-- A terminal of two cells, one of them printed in red. -/
def twoCells : Terminal :=
  { cols := 2, rows := 1, cells := [⟨0x78, some 1, none⟩, blank], cursorRow := 0, cursorCol := 1
    esc := .none, dirty := true, csiParams := [31], csiCur := none, curFg := some 1, curBg := none
    bold := false }

theorem reached_twoCells : Terminal.Reached twoCells :=
  ⟨2, 1, [0x1b, 0x5b, 0x33, 0x31, 0x6d, 0x78].map .byte, by decide, by decide, rfl⟩

theorem suits_smallScreen : Suits solidFont smallScreen where
  font_width := by decide
  font_height := by decide
  width_ge := by decide
  height_ge := by decide
  pitch_dvd := by decide
  pitch_ge := by decide
  mem_length := by
    rw [smallScreen, List.length_replicate]
    decide

theorem render_pixels_smallScreen :
    ∃ w : World, w.drm.scanout = some smallScreen ∧
      ∃ t' w' so', twoCells.render w solidFont = .ok (t', w') ∧ w'.drm.scanout = some so' ∧
        ∀ x y, x < smallScreen.width.toNat → y < smallScreen.height.toNat →
          (so'.mem.drop (y * smallScreen.pitch.toNat + 4 * x)).take 4 =
            leBytes (pixelColour solidFont twoCells x y) :=
  let w : World :=
    { drm := { connectorId := 1, crtcId := 1, scanout := some smallScreen }
      kernel := { ledger := .empty, log := [] } }
  ⟨w, rfl, render_pixels solidFont twoCells w smallScreen rfl suits_smallScreen reached_twoCells
    ⟨by decide, by decide⟩⟩

end K1de
