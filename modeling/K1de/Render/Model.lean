import K1de.Lib.Paint
import K1de.Drm.Model
import K1de.Terminal.Model

/-! # Drawing

The console font, and the drawing of `main.rs`: a terminal's cells, and the
screensaver, into the framebuffer of the buffer on the screen.

The buffer is a list of bytes and every slice of it is checked. `usize` sums and
products of coordinates wrap as in the release profile (`Vec.uadd`, `Vec.umul`).
-/

namespace K1de

open Fallible Paint

/-! ## The font -/

/-- A console font. `Font::load` rejects a width or height of zero, and the data
always has 32 rows for each of 256 glyphs. -/
structure Font where
  width : Nat
  height : Nat
  data : List UInt8
  width_pos : 1 ≤ width
  height_pos : 1 ≤ height
  data_length : data.length = 256 * 32

/-- Whether pixel `(x, y)` of glyph `c` is set. The shift `7 - x` is taken modulo 8,
as the release profile does for a glyph wider than 8. -/
def Font.pixel (font : Font) (c : UInt8) (x y : Nat) : Except Fault Bool :=
  if x ≥ font.width ∨ y ≥ font.height then .ok false
  else do
    let row ← Vec.index font.data (c.toNat * 32 + y)
    return (row >>> UInt8.ofNat (Vec.uwsub 7 x % 8)) &&& 1 ≠ 0

/-! ## Pixels -/

/-- `u32::to_le_bytes`. -/
def leBytes (color : UInt32) : List UInt8 :=
  [color.toUInt8, (color >>> 8).toUInt8, (color >>> 16).toUInt8, (color >>> 24).toUInt8]

/-- Writes one pixel. -/
def setPixel (buf : List UInt8) (off : Nat) (color : UInt32) : Except Fault (List UInt8) :=
  Vec.copySlice buf off (leBytes color)

/-- One row of `chunks_mut(pitch)`: its first `rowBytes` bytes, four at a time. -/
def clearRow (pitch rowBytes : Nat) (color : UInt32) (buf : List UInt8) (row : Nat) :
    Except Fault (List UInt8) :=
  let rowLen := min pitch (buf.length - row * pitch)
  (List.range (min rowBytes rowLen / 4)).foldlM
    (fun buf px => setPixel buf (row * pitch + px * 4) color) buf

/-- The loop over `chunks_mut(pitch)`, which panics for a pitch of zero. -/
def clear (pitch rowBytes : Nat) (color : UInt32) (buf : List UInt8) :
    Except Fault (List UInt8) :=
  if pitch = 0 then .error .zeroChunkSize
  else (List.range ((buf.length + pitch - 1) / pitch)).foldlM (clearRow pitch rowBytes color) buf

def fillCell (pitch : Nat) (color : UInt32) (ox oy w h : Nat) (buf : List UInt8) :
    Except Fault (List UInt8) :=
  untilM (fun len y => Vec.uadd (Vec.umul (Vec.uadd oy y) pitch) (Vec.umul w 4) > len)
    (fun buf y =>
      let rowOff := Vec.umul (Vec.uadd oy y) pitch
      (List.range w).foldlM
        (fun buf x => setPixel buf (Vec.uadd rowOff (Vec.umul (Vec.uadd ox x) 4)) color) buf)
    (List.range h) buf

/-- One pixel of a glyph: it is written if it is set and inside the buffer. -/
def blitPixel (font : Font) (ch : UInt8) (color : UInt32) (rowOff ox y : Nat) (buf : List UInt8)
    (x : Nat) : Except Fault (List UInt8) := do
  let set ← font.pixel ch x y
  let off := Vec.uadd rowOff (Vec.umul (Vec.uadd ox x) 4)
  if set = true ∧ Vec.uadd off 4 ≤ buf.length then setPixel buf off color else .ok buf

def blitGlyph (pitch : Nat) (font : Font) (ch : UInt8) (color : UInt32) (ox oy : Nat)
    (buf : List UInt8) : Except Fault (List UInt8) :=
  untilM (fun len y => Vec.uadd (Vec.umul (Vec.uadd oy y) pitch) 4 > len)
    (fun buf y =>
      let rowOff := Vec.umul (Vec.uadd oy y) pitch
      (List.range font.width).foldlM (blitPixel font ch color rowOff ox y) buf)
    (List.range font.height) buf

def drawString (pitch : Nat) (font : Font) (s : List UInt8) (ox oy : Nat) (buf : List UInt8) :
    Except Fault (List UInt8) :=
  s.zipIdx.foldlM
    (fun buf c =>
      blitGlyph pitch font c.1 FG (Vec.uadd ox (Vec.umul c.2 font.width)) oy buf) buf

/-! ## The terminal -/

/-- The background of a cell, if it has one. -/
def drawBackground (pitch : Nat) (font : Font) (cell : Cell) (ox oy : Nat) (buf : List UInt8) :
    Except Fault (List UInt8) :=
  match cell.bg with
  | none => .ok buf
  | some bg => do
      let color ← Vec.index palette bg.toNat
      fillCell pitch color ox oy font.width font.height buf

/-- The colour that a cell's character is drawn in. -/
def textColor (cell : Cell) : Except Fault UInt32 :=
  match cell.fg with
  | none => .ok FG
  | some i => Vec.index palette i.toNat

/-- The character of a cell, if it is not a space. -/
def drawChar (pitch : Nat) (font : Font) (cell : Cell) (ox oy : Nat) (buf : List UInt8) :
    Except Fault (List UInt8) :=
  if cell.ch ≠ 0x20 then do
    let fg ← textColor cell
    blitGlyph pitch font cell.ch fg ox oy buf
  else .ok buf

def drawCell (pitch : Nat) (font : Font) (cells : List Cell) (cols r : Nat) (buf : List UInt8)
    (c : Nat) : Except Fault (List UInt8) := do
  let cell ← Vec.index cells (r * cols + c)
  let ox := Vec.umul c font.width
  let oy := Vec.umul r font.height
  let buf ← drawBackground pitch font cell ox oy buf
  drawChar pitch font cell ox oy buf

/-- The pixels of `Terminal::render`: the background of the whole picture, then the
cells row by row. -/
def drawTerminal (font : Font) (t : Terminal) (pitch width : UInt32) (buf : List UInt8) :
    Except Fault (List UInt8) := do
  let buf ← clear pitch.toNat (width.toNat * 4) BG buf
  (List.range t.rows).foldlM
    (fun buf r => (List.range t.cols).foldlM (drawCell pitch.toNat font t.cells t.cols r) buf) buf

/-- The world after drawing `mem` into the buffer on the screen and flushing it. -/
def present (w : World) (mem : List UInt8) : World :=
  (Effect.exec Drm.flush { w with drm := w.drm.setMem mem }).2

/-- `Terminal::render`. Without a buffer on the screen nothing happens, and the
terminal stays dirty. -/
def Terminal.render (t : Terminal) (w : World) (font : Font) : Except Fault (Terminal × World) :=
  match w.drm.scanout with
  | none => .ok (t, w)
  | some so => do
      let mem ← drawTerminal font t so.pitch so.width so.mem
      return ({ t with dirty := false }, present w mem)

/-! ## The screensaver -/

def asciiBytes (s : String) : List UInt8 := s.toList.map fun c => UInt8.ofNat c.toNat

def logo : List UInt8 := asciiBytes "K1OS"

def hint : List UInt8 := asciiBytes "Screensaver active. Press any key to resume..."

/-- The pixels of `render_screensaver`. The subtraction for `ly` is not saturating. -/
def drawScreensaver (font : Font) (pitch width height : UInt32) (buf : List UInt8) :
    Except Fault (List UInt8) := do
  let buf ← clear pitch.toNat (width.toNat * 4) 0 buf
  let lx := width.toNat / 2 - Vec.umul (Vec.umul logo.length font.width) 2 / 2
  let ly := Vec.uwsub (height.toNat / 2) (Vec.umul font.height 2)
  let buf ← drawString pitch.toNat font logo lx ly buf
  let hx := width.toNat / 2 - Vec.umul hint.length font.width / 2
  let hy := Vec.uadd (height.toNat / 2) font.height
  drawString pitch.toNat font hint hx hy buf

def renderScreensaver (w : World) (font : Font) : Except Fault World :=
  match w.drm.scanout with
  | none => .ok w
  | some so => do
      let mem ← drawScreensaver font so.pitch so.width so.height so.mem
      return present w mem

end K1de
