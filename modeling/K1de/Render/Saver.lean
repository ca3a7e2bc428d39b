import K1de.Render.Bounds

/-! # The layout of the screensaver

`render_screensaver` puts the logo above the middle of the display and the hint below it.
The horizontal origins are saturating subtractions, the vertical one is not, and nothing is
clipped at the right edge: `blit_glyph` looks at the end of the buffer only. So the layout depends
on the font, too: a glyph that reaches past the edge does no harm if the pixels there are not
set. `layout_iff` says for which displays and fonts all is as it should be.
-/

namespace K1de

open Fallible Paint

/-! ## The writes of the screensaver -/

def logoPlots (font : Font) (pitch width height n : Nat) : List Plot :=
  stringPlots pitch font logo (width / 2 - Vec.umul (Vec.umul logo.length font.width) 2 / 2)
    (Vec.uwsub (height / 2) (Vec.umul font.height 2)) n

def hintPlots (font : Font) (pitch width height n : Nat) : List Plot :=
  stringPlots pitch font hint (width / 2 - Vec.umul hint.length font.width / 2)
    (Vec.uadd (height / 2) font.height) n

/-- What `render_screensaver` writes: black, the logo and the hint. -/
theorem traces_drawScreensaver (font : Font) (hwidth : font.width ≤ 8)
    (hheight : font.height ≤ 32) {pitch : UInt32} (hpitch : 0 < pitch.toNat)
    (width height : UInt32) (n : Nat) :
    Traces Plot.put n
      (clearPlots pitch.toNat (width.toNat * 4) 0 n ++
        (logoPlots font pitch.toNat width.toNat height.toNat n ++
          hintPlots font pitch.toNat width.toNat height.toNat n))
      (drawScreensaver font pitch width height) := by
  apply Traces.bind paints_put (traces_clear hpitch _ 0 n)
  apply Traces.bind paints_put
  · exact traces_drawString hwidth hheight _ _ _ _ n
  · exact traces_drawString hwidth hheight _ _ _ _ n

/-! ## What the layout should be -/

/-- The pixel is on the display, in the line that it is meant for. -/
def Plot.OnDisplay (so : ScanOut) (p : Plot) : Prop :=
  p.line < so.height.toNat ∧ ∃ x < so.width.toNat, p.off = p.line * so.pitch.toNat + 4 * x

/-- After black, `render_screensaver` writes the logo and the hint; the vertical origin does
not underflow, and all of the logo and of the hint is on the display. -/
structure LayoutOk (font : Font) (so : ScanOut) : Prop where
  writes : Traces Plot.put so.mem.length
    (clearPlots so.pitch.toNat (so.width.toNat * 4) 0 so.mem.length ++
      (logoPlots font so.pitch.toNat so.width.toNat so.height.toNat so.mem.length ++
        hintPlots font so.pitch.toNat so.width.toNat so.height.toNat so.mem.length))
    (drawScreensaver font so.pitch so.width so.height)
  origin : font.height * 2 ≤ so.height.toNat / 2
  logo : ∀ p ∈ logoPlots font so.pitch.toNat so.width.toNat so.height.toNat so.mem.length,
    p.OnDisplay so
  hint : ∀ p ∈ hintPlots font so.pitch.toNat so.width.toNat so.height.toNat so.mem.length,
    p.OnDisplay so

/-- Where a string is drawn at `(ox, oy)`, every pixel that is set in one of its glyphs is left of
the right edge of the display, or past the end of the buffer, where nothing is written. -/
def InkFits (font : Font) (so : ScanOut) (s : List UInt8) (ox oy : Nat) : Prop :=
  ∀ i ch, s[i]? = some ch → ∀ y < font.height, ∀ x < font.width, font.bit ch x y = true →
    ox + i * font.width + x < so.width.toNat ∨
      so.mem.length < (oy + y) * so.pitch.toNat + (ox + i * font.width + x) * 4 + 4

/-! ## One string -/

/-- The writes of a string: for every glyph the pixels that are set, each where it is in the glyph,
if the buffer has room for it. -/
theorem mem_stringPlots {pitch ox oy : Nat} {font : Font} {s : List UInt8}
    (hnw : NoWrap pitch ox oy (s.length * font.width) font.height) {n : Nat} {p : Plot} :
    p ∈ stringPlots pitch font s ox oy n ↔
      ∃ i ch, s[i]? = some ch ∧ ∃ y < font.height, ∃ x < font.width, font.bit ch x y = true ∧
        (oy + y) * pitch + (ox + i * font.width + x) * 4 + 4 ≤ n ∧
          p = ⟨oy + y, (oy + y) * pitch + (ox + i * font.width + x) * 4, FG⟩ := by
  have hright := hnw.right
  have hsize : Vec.usizeSize = 2 ^ 64 := rfl
  -- each glyph is a rectangle of its own
  have hglyph : ∀ {i ch}, s[i]? = some ch →
      Vec.uadd ox (Vec.umul i font.width) = ox + i * font.width ∧
        NoWrap pitch (ox + i * font.width) oy font.width font.height := by
    intro i ch hget
    have hi : i + 1 ≤ s.length := (List.getElem?_eq_some_iff.mp hget).1
    have hend : (i + 1) * font.width ≤ s.length * font.width := Nat.mul_le_mul_right _ hi
    rw [Nat.succ_mul] at hend
    rw [Vec.umul_eq (by omega), Vec.uadd_eq (by omega)]
    exact ⟨rfl, hnw.pitch_lt, hnw.bottom, by omega⟩
  rw [stringPlots, List.mem_flatMap]
  constructor
  · rintro ⟨⟨ch, i⟩, hmem, hp⟩
    have hget : s[i]? = some ch := List.mem_zipIdx_iff_getElem?.mp hmem
    obtain ⟨hox, hnw'⟩ := hglyph hget
    dsimp only at hp
    rw [hox] at hp
    exact ⟨i, ch, hget, (mem_glyphPlots hnw' ch FG).mp hp⟩
  · rintro ⟨i, ch, hget, hp⟩
    obtain ⟨hox, hnw'⟩ := hglyph hget
    refine ⟨(ch, i), List.mem_zipIdx_iff_getElem?.mpr hget, ?_⟩
    dsimp only
    rw [hox]
    exact (mem_glyphPlots hnw' ch FG).mpr hp

/-- A string at a given place is on the display if and only if its pixels are. -/
theorem string_iff {font : Font} {so : ScanOut} {s : List UInt8} {ox oy : Nat}
    (hnw : NoWrap so.pitch.toNat ox oy (s.length * font.width) font.height)
    (hbottom : oy + font.height ≤ so.height.toNat) :
    (∀ p ∈ stringPlots so.pitch.toNat font s ox oy so.mem.length, p.OnDisplay so) ↔
      InkFits font so s ox oy := by
  constructor
  · intro hall i ch hget y hy x hx hbit
    by_contra hnot
    rw [not_or, not_lt, not_lt] at hnot
    -- the pixel is written, and where it is written there is no place of its line
    have hmem := (mem_stringPlots hnw).mpr ⟨i, ch, hget, y, hy, x, hx, hbit, hnot.2, rfl⟩
    obtain ⟨-, x', hx', hoff⟩ := hall _ hmem
    dsimp only at hoff
    omega
  · intro hfits p hp
    obtain ⟨i, ch, hget, y, hy, x, hx, hbit, hroom, rfl⟩ := (mem_stringPlots hnw).mp hp
    have hleft : ox + i * font.width + x < so.width.toNat := by
      rcases hfits i ch hget y hy x hx hbit with hleft | hpast
      · exact hleft
      · omega
    refine ⟨?_, ox + i * font.width + x, hleft, ?_⟩
    · show oy + y < _
      omega
    · show (oy + y) * so.pitch.toNat + (ox + i * font.width + x) * 4 = _
      ring

/-! ## Both strings -/

/-- A string of at most 64 characters that begins left of the middle. -/
theorem Mapped.text_iff {font : Font} {so : ScanOut} (h : Mapped font so) {s : List UInt8}
    (hs : s.length ≤ 64) (dx : Nat) {oy : Nat} (hbottom : oy + font.height ≤ so.height.toNat) :
    (∀ p ∈ stringPlots so.pitch.toNat font s (so.width.toNat / 2 - dx) oy so.mem.length,
        p.OnDisplay so) ↔
      InkFits font so s (so.width.toNat / 2 - dx) oy := by
  have hlength : s.length * font.width ≤ 64 * 8 := Nat.mul_le_mul hs h.font_width
  have hpitch := h.pitch_ge
  have hlt := so.pitch.toNat_lt
  have hheight := so.height.toNat_lt
  exact string_iff ⟨hlt, by omega, by omega⟩ hbottom

section

variable {font : Font} {so : ScanOut} (h : Mapped font so)
  (horigin : font.height * 2 ≤ so.height.toNat / 2)

include h horigin

/-- The logo begins its own width left of the middle, not half of it: the source multiplies by two
before it divides by two. -/
theorem logo_iff :
    (∀ p ∈ logoPlots font so.pitch.toNat so.width.toNat so.height.toNat so.mem.length,
        p.OnDisplay so) ↔
      InkFits font so logo (so.width.toNat / 2 - logo.length * font.width)
        (so.height.toNat / 2 - font.height * 2) := by
  have hwidth := h.font_width
  have hheight := so.height.toNat_lt
  have hlength : logo.length = 4 := rfl
  have hsize : Vec.usizeSize = 2 ^ 64 := rfl
  have hx : Vec.umul (Vec.umul logo.length font.width) 2 / 2 = logo.length * font.width := by
    rw [hlength, Vec.umul_eq (a := 4) (by omega), Vec.umul_eq (by omega)]
    omega
  have hy : Vec.uwsub (so.height.toNat / 2) (Vec.umul font.height 2) =
      so.height.toNat / 2 - font.height * 2 := by
    rw [Vec.umul_eq (by omega), Vec.uwsub_eq horigin (by omega)]
  rw [logoPlots, hx, hy]
  exact h.text_iff (by omega) _ (by omega)

/-- The hint is centred. -/
theorem hint_iff :
    (∀ p ∈ hintPlots font so.pitch.toNat so.width.toNat so.height.toNat so.mem.length,
        p.OnDisplay so) ↔
      InkFits font so hint (so.width.toNat / 2 - hint.length * font.width / 2)
        (so.height.toNat / 2 + font.height) := by
  have hwidth := h.font_width
  have hheight := so.height.toNat_lt
  have hlength : hint.length = 46 := rfl
  have hsize : Vec.usizeSize = 2 ^ 64 := rfl
  have hx : Vec.umul hint.length font.width = hint.length * font.width := by
    rw [hlength, Vec.umul_eq (by omega)]
  have hy : Vec.uadd (so.height.toNat / 2) font.height = so.height.toNat / 2 + font.height :=
    Vec.uadd_eq (by omega)
  rw [hintPlots, hx, hy]
  exact h.text_iff (by omega) _ (by omega)

end

/-- For every display and every font: the screensaver is laid out on the display if and only if the
logo fits above the middle and no pixel that is set in the glyphs of the logo or of the hint is
past the right edge, unless it is past the end of the buffer as well. -/
theorem layout_iff (font : Font) (so : ScanOut) (h : Mapped font so) :
    LayoutOk font so ↔
      font.height * 2 ≤ so.height.toNat / 2 ∧
        InkFits font so logo (so.width.toNat / 2 - logo.length * font.width)
          (so.height.toNat / 2 - font.height * 2) ∧
        InkFits font so hint (so.width.toNat / 2 - hint.length * font.width / 2)
          (so.height.toNat / 2 + font.height) := by
  constructor
  · intro hok
    exact ⟨hok.origin, (logo_iff h hok.origin).mp hok.logo, (hint_iff h hok.origin).mp hok.hint⟩
  · rintro ⟨horigin, hlogo, hhint⟩
    have hwrites := traces_drawScreensaver font h.font_width h.font_height h.pitch_pos so.width
      so.height so.mem.length
    exact ⟨hwrites, horigin, (logo_iff h horigin).mpr hlogo, (hint_iff h horigin).mpr hhint⟩

/-- A string that ends before the right edge, in any font. -/
theorem InkFits.of_width {font : Font} {so : ScanOut} {s : List UInt8} {ox oy : Nat}
    (h : ox + s.length * font.width ≤ so.width.toNat) : InkFits font so s ox oy := by
  intro i ch hget y _ x hx _
  have hi : i + 1 ≤ s.length := (List.getElem?_eq_some_iff.mp hget).1
  have hend : (i + 1) * font.width ≤ s.length * font.width := Nat.mul_le_mul_right _ hi
  rw [Nat.succ_mul] at hend
  exact Or.inl (by omega)

/-- A font whose glyphs are all the same, line by line. -/
theorem bit_replicate {font : Font} {b : UInt8} (hdata : font.data = List.replicate (256 * 32) b)
    (ch : UInt8) (x : Nat) {y : Nat} (hy : y < 32) :
    font.bit ch x y = b.toNat.testBit (7 - x) := by
  have hch := ch.toNat_lt
  have hidx : ch.toNat * 32 + y < 256 * 32 := by omega
  rw [Font.bit, hdata, List.getD_replicate _ hidx]

/-- Glyphs of 2 by 2 pixels, the left ones set. -/
def stemFont : Font where
  width := 2
  height := 2
  data := List.replicate (256 * 32) 0x80
  width_pos := Nat.zero_lt_two
  height_pos := Nat.zero_lt_two
  data_length := List.length_replicate

/-- A display of 91 by 8 pixels. In glyphs of two pixels the hint is one pixel wider. -/
def tightScreen : ScanOut :=
  { fbId := 1, dumbHandle := 1, map := 0, mapLen := 2912, pitch := 364, width := 91, height := 8
    mem := List.replicate 2912 0 }

theorem mapped_tightScreen : Mapped stemFont tightScreen where
  font_width := by decide
  font_height := by decide
  width_pos := by decide
  height_pos := by decide
  pitch_ge := by decide
  mem_length := by
    rw [tightScreen, List.length_replicate]
    decide

/-- The last glyph of the hint reaches past the edge, but its pixels do not. -/
theorem layout_iff_tightScreen : LayoutOk stemFont tightScreen := by
  refine (layout_iff stemFont tightScreen mapped_tightScreen).mpr
    ⟨by decide, InkFits.of_width (by decide), ?_⟩
  intro i ch hget y hy x hx hbit
  have hi : i < 46 := (List.getElem?_eq_some_iff.mp hget).1
  have hy : y < 2 := hy
  have hx : x < 2 := hx
  have hbit := (bit_replicate rfl ch x (by omega)).symm.trans hbit
  have hzero : x = 0 := by
    interval_cases x
    · rfl
    · exact absurd hbit (by decide)
  subst hzero
  left
  show 0 + i * 2 + 0 < 91
  omega

/-! ## Displays that are too small -/

/-- A display of 10 by 12 pixels, narrower than the hint. -/
def narrowScreen : ScanOut :=
  { fbId := 1, dumbHandle := 1, map := 0, mapLen := 480, pitch := 40, width := 10, height := 12
    mem := List.replicate 480 0 }

/-- A display of 10 by 3 pixels, lower than the strings. -/
def shallowScreen : ScanOut :=
  { fbId := 1, dumbHandle := 1, map := 0, mapLen := 120, pitch := 40, width := 10, height := 3
    mem := List.replicate 120 0 }

theorem mapped_narrowScreen : Mapped narrowFont narrowScreen where
  font_width := by decide
  font_height := by decide
  width_pos := by decide
  height_pos := by decide
  pitch_ge := by decide
  mem_length := by
    rw [narrowScreen, List.length_replicate]
    decide

theorem mapped_shallowScreen : Mapped narrowFont shallowScreen where
  font_width := by decide
  font_height := by decide
  width_pos := by decide
  height_pos := by decide
  pitch_ge := by decide
  mem_length := by
    rw [shallowScreen, List.length_replicate]
    decide

/-- The glyph at position 10 of the hint, an `r`, is drawn at the right edge. -/
theorem spilled_mem : ⟨8, 9 * 40, FG⟩ ∈ hintPlots narrowFont 40 10 12 480 := by
  have hnw : NoWrap 40 0 8 (hint.length * narrowFont.width) narrowFont.height :=
    ⟨by decide, by decide, by decide⟩
  have hbit : narrowFont.bit 0x72 0 0 = true :=
    bit_replicate (b := 0xff) rfl 0x72 0 (Nat.succ_pos 31)
  exact (mem_stringPlots hnw).mpr
    ⟨10, 0x72, rfl, 0, by decide, 0, by decide, hbit, by decide, rfl⟩

/-- On one display a pixel of the hint that is meant for line 8 is the first one of line 9,
and on the other the vertical origin of the logo is `1 - 4`. -/
theorem hint_spills_and_origin_underflows :
    Mapped narrowFont narrowScreen ∧ ⟨8, 9 * 40, FG⟩ ∈ hintPlots narrowFont 40 10 12 480 ∧
      ¬ LayoutOk narrowFont narrowScreen ∧
      Mapped narrowFont shallowScreen ∧ ¬ LayoutOk narrowFont shallowScreen ∧
      Vec.uwsub (3 / 2) (Vec.umul narrowFont.height 2) = 2 ^ 64 - 3 := by
  refine ⟨mapped_narrowScreen, spilled_mem, ?_, mapped_shallowScreen, ?_, by decide⟩
  · intro hok
    have hlength : narrowScreen.mem.length = 480 := List.length_replicate
    have hmem := spilled_mem
    rw [← hlength] at hmem
    obtain ⟨-, x, hx, hoff⟩ := hok.hint _ hmem
    have hx : x < 10 := hx
    have hoff : 9 * 40 = 8 * 40 + 4 * x := hoff
    omega
  · intro hok
    exact absurd hok.origin (by decide)

end K1de
