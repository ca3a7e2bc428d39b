import K1de.Render.Pixels

/-! # Which pixels are written

The drawing functions as lists of writes. A `Plot` is the write of one pixel,
together with the scan line that it is meant for. The lists have the loops, the breaks,
the bounds checks and the wrapping offsets of the source, and `traces_clear`,
`traces_fillCell`, `traces_blitGlyph` and `traces_drawString` say that the functions do
the writes of their lists and nothing else.

Near enough to the origin no offset wraps (`NoWrap`), and the lists are what one expects
(`mem_fillPlots`, `mem_glyphPlots`).
-/

namespace K1de

open Fallible Paint

/-- One pixel that is written: the scan line it is meant for, its place in the buffer and
its colour. -/
structure Plot where
  line : Nat
  off : Nat
  color : UInt32
deriving DecidableEq, Repr

def Plot.put (buf : List UInt8) (p : Plot) : Except Fault (List UInt8) :=
  setPixel buf p.off p.color

theorem paints_put (p : Plot) : Paints (Plot.put · p) :=
  paints_setPixel p.off p.color

/-- A write is fine if its four bytes are inside the buffer. -/
theorem put_ok_iff {buf : List UInt8} {p : Plot} :
    (∃ r, Plot.put buf p = .ok r) ↔ p.off + 4 ≤ buf.length :=
  copySlice_ok_iff

/-! ## The writes of each function -/

/-- Where the line `y` below `oy` begins. -/
def rowOffset (pitch oy y : Nat) : Nat := Vec.umul (Vec.uadd oy y) pitch

/-- Pixel `(x, y)` of something drawn at `(ox, oy)`. -/
def plotAt (pitch : Nat) (color : UInt32) (ox oy x y : Nat) : Plot where
  line := oy + y
  off := Vec.uadd (rowOffset pitch oy y) (Vec.umul (Vec.uadd ox x) 4)
  color := color

def clearPlots (pitch rowBytes : Nat) (color : UInt32) (n : Nat) : List Plot :=
  (List.range ((n + pitch - 1) / pitch)).flatMap fun row =>
    (List.range (min rowBytes (min pitch (n - row * pitch)) / 4)).map fun px =>
      ⟨row, row * pitch + px * 4, color⟩

def fillPlots (pitch : Nat) (color : UInt32) (ox oy w h n : Nat) : List Plot :=
  ((List.range h).takeWhile fun y =>
      !decide (Vec.uadd (rowOffset pitch oy y) (Vec.umul w 4) > n)).flatMap fun y =>
    (List.range w).map fun x => plotAt pitch color ox oy x y

def glyphPlots (pitch : Nat) (font : Font) (ch : UInt8) (color : UInt32) (ox oy n : Nat) :
    List Plot :=
  ((List.range font.height).takeWhile fun y =>
      !decide (Vec.uadd (rowOffset pitch oy y) 4 > n)).flatMap fun y =>
    (List.range font.width).flatMap fun x =>
      let p := plotAt pitch color ox oy x y
      if font.bit ch x y = true ∧ Vec.uadd p.off 4 ≤ n then [p] else []

def stringPlots (pitch : Nat) (font : Font) (s : List UInt8) (ox oy n : Nat) : List Plot :=
  s.zipIdx.flatMap fun c =>
    glyphPlots pitch font c.1 FG (Vec.uadd ox (Vec.umul c.2 font.width)) oy n

/-- The writes of the background. -/
theorem traces_clear {pitch : Nat} (hpitch : 0 < pitch) (rowBytes : Nat) (color : UInt32)
    (n : Nat) :
    Traces Plot.put n (clearPlots pitch rowBytes color n) (clear pitch rowBytes color) := by
  intro buf hbuf
  unfold clear
  rw [if_neg (by omega), hbuf]
  refine traces_foldlM paints_put ?_ buf hbuf
  intro row _ buf hbuf
  dsimp only
  unfold clearRow
  rw [hbuf]
  rw [List.foldlM_map]
  rfl

/-- The writes of `fill_cell`, up to the row that breaks. -/
theorem traces_fillCell (pitch : Nat) (color : UInt32) (ox oy w h n : Nat) :
    Traces Plot.put n (fillPlots pitch color ox oy w h n) (fillCell pitch color ox oy w h) := by
  apply traces_untilM paints_put
  intro y _
  exact traces_map (fun x => plotAt pitch color ox oy x y) _

section

variable {font : Font} (hwidth : font.width ≤ 8) (hheight : font.height ≤ 32)

include hwidth hheight

/-- The writes of `blit_glyph`: the set bits that have room. -/
theorem traces_blitGlyph (pitch : Nat) (ch : UInt8) (color : UInt32) (ox oy n : Nat) :
    Traces Plot.put n (glyphPlots pitch font ch color ox oy n)
      (blitGlyph pitch font ch color ox oy) := by
  apply traces_untilM paints_put
  intro y hy
  apply traces_foldlM paints_put
  intro x hx buf hbuf
  dsimp only
  unfold blitPixel
  rw [Font.pixel_eq hwidth hheight ch (List.mem_range.mp hx) (List.mem_range.mp hy), ok_bind, hbuf]
  show (if font.bit ch x y = true ∧ Vec.uadd (plotAt pitch color ox oy x y).off 4 ≤ n then
    Plot.put buf (plotAt pitch color ox oy x y) else .ok buf) = _
  split
  · exact traces_put (plotAt pitch color ox oy x y) buf hbuf
  · rfl

theorem traces_drawString (pitch : Nat) (s : List UInt8) (ox oy n : Nat) :
    Traces Plot.put n (stringPlots pitch font s ox oy n) (drawString pitch font s ox oy) := by
  apply traces_foldlM paints_put
  intro c _
  exact traces_blitGlyph hwidth hheight pitch c.1 FG _ oy n

end

/-! ## Offsets that do not wrap -/

/-- A rectangle near enough to the origin. -/
structure NoWrap (pitch ox oy w h : Nat) : Prop where
  pitch_lt : pitch < 2 ^ 32
  bottom : oy + h ≤ 2 ^ 32
  right : ox + w ≤ 2 ^ 30 + 2 ^ 10

namespace NoWrap

variable {pitch ox oy w h : Nat} (hnw : NoWrap pitch ox oy w h) {x y : Nat} (hy : y < h)

include hnw hy

/-- Lines are within the first 2^64 bytes, with room to the right. -/
theorem row_le : (oy + y) * pitch ≤ 2 ^ 64 - 2 ^ 33 + 1 := by
  have hbottom := hnw.bottom
  have hpitch := hnw.pitch_lt
  calc (oy + y) * pitch ≤ (2 ^ 32 - 1) * (2 ^ 32 - 1) := Nat.mul_le_mul (by omega) (by omega)
    _ = 2 ^ 64 - 2 ^ 33 + 1 := rfl

theorem rowOffset_eq : rowOffset pitch oy y = (oy + y) * pitch := by
  have hrow := hnw.row_le hy
  have hbottom := hnw.bottom
  have hsize : Vec.usizeSize = 2 ^ 64 := rfl
  rw [rowOffset, Vec.uadd_eq (by omega), Vec.umul_eq (by omega)]

/-- The offset of a pixel near the origin does not wrap. -/
theorem off_eq (hx : x < w) (color : UInt32) :
    (plotAt pitch color ox oy x y).off = (oy + y) * pitch + (ox + x) * 4 := by
  have hrow := hnw.row_le hy
  have hright := hnw.right
  have hsize : Vec.usizeSize = 2 ^ 64 := rfl
  show Vec.uadd (rowOffset pitch oy y) (Vec.umul (Vec.uadd ox x) 4) = _
  rw [hnw.rowOffset_eq hy, Vec.uadd_eq (a := ox) (by omega), Vec.umul_eq (by omega),
    Vec.uadd_eq (by omega)]

end NoWrap

/-- The rows before the break: those with room for `k` pixels. -/
theorem NoWrap.mem_rows {pitch ox oy w h : Nat} (hnw : NoWrap pitch ox oy w h) {k n y : Nat}
    (hk : k ≤ 2 ^ 30 + 2 ^ 10) :
    (y ∈ (List.range h).takeWhile fun y =>
        !decide (Vec.uadd (rowOffset pitch oy y) (k * 4) > n)) ↔
      y < h ∧ (oy + y) * pitch + k * 4 ≤ n := by
  have hend : ∀ y < h, Vec.uadd (rowOffset pitch oy y) (k * 4) = (oy + y) * pitch + k * 4 := by
    intro y hy
    have hrow := hnw.row_le hy
    have hsize : Vec.usizeSize = 2 ^ 64 := rfl
    rw [hnw.rowOffset_eq hy, Vec.uadd_eq (by omega)]
  -- rows further down have less room, so the break cuts off all the rows that have none
  rw [mem_takeWhile_range]
  · apply and_congr_right
    intro hy
    rw [hend y hy]
    simp
  · -- a row above one with room has room too
    intro i j hij hj hroom
    have hle : (oy + i) * pitch ≤ (oy + j) * pitch := Nat.mul_le_mul_right _ (by omega)
    rw [hend j hj] at hroom
    rw [hend i (by omega)]
    simp only [Bool.not_eq_true', decide_eq_false_iff_not] at hroom ⊢
    omega

/-- The pixels of a filled cell: all of the rows that have room for it at the left edge. -/
theorem mem_fillPlots {pitch ox oy w h : Nat} (hnw : NoWrap pitch ox oy w h) (color : UInt32)
    {n : Nat} {p : Plot} :
    p ∈ fillPlots pitch color ox oy w h n ↔
      ∃ y < h, (oy + y) * pitch + w * 4 ≤ n ∧
        ∃ x < w, p = ⟨oy + y, (oy + y) * pitch + (ox + x) * 4, color⟩ := by
  have hright := hnw.right
  have hsize : Vec.usizeSize = 2 ^ 64 := rfl
  rw [fillPlots, Vec.umul_eq (by omega), List.mem_flatMap]
  constructor
  · rintro ⟨y, hy, hp⟩
    obtain ⟨hy, hroom⟩ := (hnw.mem_rows (by omega)).mp hy
    obtain ⟨x, hx, rfl⟩ := List.mem_map.mp hp
    have hx := List.mem_range.mp hx
    refine ⟨y, hy, hroom, x, hx, ?_⟩
    rw [← hnw.off_eq hy hx color]
    rfl
  · rintro ⟨y, hy, hroom, x, hx, rfl⟩
    refine ⟨y, (hnw.mem_rows (by omega)).mpr ⟨hy, hroom⟩, ?_⟩
    rw [← hnw.off_eq hy hx color]
    exact List.mem_map_of_mem (List.mem_range.mpr hx)

/-- The break is taken only where no pixel of the row has room. -/
theorem mem_glyphPlots {pitch ox oy : Nat} {font : Font}
    (hnw : NoWrap pitch ox oy font.width font.height) (ch : UInt8) (color : UInt32) {n : Nat}
    {p : Plot} :
    p ∈ glyphPlots pitch font ch color ox oy n ↔
      ∃ y < font.height, ∃ x < font.width, font.bit ch x y = true ∧
        (oy + y) * pitch + (ox + x) * 4 + 4 ≤ n ∧
          p = ⟨oy + y, (oy + y) * pitch + (ox + x) * 4, color⟩ := by
  have hright := hnw.right
  have hsize : Vec.usizeSize = 2 ^ 64 := rfl
  have hoff : ∀ y < font.height, ∀ x < font.width,
      Vec.uadd (plotAt pitch color ox oy x y).off 4 =
        (oy + y) * pitch + (ox + x) * 4 + 4 := by
    intro y hy x hx
    have hrow := hnw.row_le hy
    rw [hnw.off_eq hy hx, Vec.uadd_eq (by omega)]
  rw [glyphPlots, List.mem_flatMap]
  constructor
  · rintro ⟨y, hy, hp⟩
    obtain ⟨hy, -⟩ := (hnw.mem_rows (k := 1) (by omega)).mp hy
    obtain ⟨x, hx, hp⟩ := List.mem_flatMap.mp hp
    have hx := List.mem_range.mp hx
    dsimp only at hp
    rw [hoff y hy x hx] at hp
    split at hp
    · rename_i hset
      rw [List.mem_singleton.mp hp]
      refine ⟨y, hy, x, hx, hset.1, hset.2, ?_⟩
      rw [← hnw.off_eq hy hx color]
      rfl
    · cases hp
  · rintro ⟨y, hy, x, hx, hbit, hroom, rfl⟩
    refine ⟨y, (hnw.mem_rows (k := 1) (by omega)).mpr ⟨hy, by omega⟩, ?_⟩
    refine List.mem_flatMap.mpr ⟨x, List.mem_range.mpr hx, ?_⟩
    dsimp only
    rw [hoff y hy x hx, if_pos ⟨hbit, hroom⟩, ← hnw.off_eq hy hx color]
    exact List.mem_singleton.mpr rfl

end K1de
