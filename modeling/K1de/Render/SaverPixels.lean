import K1de.Render.Pixels

/-! # Every pixel of the screensaver

`saverColour` says what the screensaver looks like: black, with the logo above the middle of the
display and the hint below it, both in the colour of text. The hint is centred. The logo is not: it
ends in the middle, as the code takes its whole length off where half of it would centre it.
`saver_pixels` says that this is what `render_screensaver` leaves in the buffer, whatever was in it
before, for every display with room for both.

A string is drawn glyph by glyph, and the glyphs lie side by side, so a string is one rectangle
(`draws_drawString`).
-/

namespace K1de

open Fallible Paint Raster

/-! ## What should be on the screen -/

/-- Whether a string at `ox`, `oy` has a pixel at `x`, `y`. -/
def inText (font : Font) (s : List UInt8) (ox oy x y : Nat) : Prop :=
  (ox ≤ x ∧ x < ox + s.length * font.width) ∧ (oy ≤ y ∧ y < oy + font.height) ∧
    font.bit (s.getD ((x - ox) / font.width) 0) ((x - ox) % font.width) (y - oy) = true

instance (font : Font) (s : List UInt8) (ox oy x y : Nat) : Decidable (inText font s ox oy x y) :=
  inferInstanceAs (Decidable (_ ∧ _))

/-- The picture of the screensaver: the logo ends at the middle column, the hint is centred on
it. -/
def saverColour (font : Font) (so : ScanOut) (x y : Nat) : UInt32 :=
  let middleX := so.width.toNat / 2
  let middleY := so.height.toNat / 2
  if inText font logo (middleX - logo.length * font.width) (middleY - 2 * font.height) x y ∨
      inText font hint (middleX - hint.length * font.width / 2) (middleY + font.height) x y then FG
  else 0

/-! ## A string -/

/-- The picture of a string. -/
def textPicture (font : Font) (s : List UInt8) (ox oy : Nat) : Picture UInt32 := fun x y =>
  if inText font s ox oy x y then some FG else none

/-- The glyph of one character of a string. -/
def glyphPicture (font : Font) (ox oy : Nat) (c : UInt8 × Nat) : Picture UInt32 :=
  .patch (ox + c.2 * font.width) oy font.width font.height fun x y =>
    if font.bit c.1 x y then some FG else none

/-- Of the glyphs of a string, only the one that covers the column has the pixel. -/
theorem glyphPicture_eq (font : Font) {s : List UInt8} (ox oy : Nat) {c : UInt8 × Nat}
    (hget : s[c.2]? = some c.1) (x y : Nat) :
    glyphPicture font ox oy c x y =
      if c.2 = (x - ox) / font.width ∧ inText font s ox oy x y then some FG else none := by
  obtain ⟨ch, i⟩ := c
  dsimp only at hget ⊢
  have hpos := font.width_pos
  have hlen : i + 1 ≤ s.length := (List.getElem?_eq_some_iff.mp hget).1
  have hend : (i + 1) * font.width ≤ s.length * font.width := Nat.mul_le_mul_right _ hlen
  rw [Nat.succ_mul] at hend
  unfold glyphPicture Picture.patch
  dsimp only
  split
  · next hin =>
      -- inside the glyph: the column belongs to character `i`, and to no other
      have hi : (x - ox) / font.width = i := (Nat.div_eq_iff hpos).mpr (by omega)
      have hx : (x - ox) % font.width = x - (ox + i * font.width) := by
        have hmod := Nat.div_add_mod' (x - ox) font.width
        rw [hi] at hmod
        omega
      have hch : s.getD i 0 = ch := by
        rw [List.getD_eq_getElem?_getD, hget]
        rfl
      have htext : inText font s ox oy x y ↔
          font.bit ch (x - (ox + i * font.width)) (y - oy) = true := by
        unfold inText
        rw [hi, hx, hch]
        constructor
        · exact fun h => h.2.2
        · exact fun h => ⟨by omega, by omega, h⟩
      simp only [hi, htext, true_and]
  · next hout =>
      rw [if_neg]
      rintro ⟨hi, ⟨hx, hx'⟩, hy, -⟩
      have hi := (Nat.div_eq_iff hpos).mp hi.symm
      omega

/-- The glyphs side by side. -/
theorem layers_glyphPicture (font : Font) (s : List UInt8) (ox oy : Nat) :
    layers (glyphPicture font ox oy) s.zipIdx = textPicture font s ox oy := by
  funext x y
  have hpixel : ∀ c ∈ s.zipIdx, glyphPicture font ox oy c x y =
      if c.2 = (x - ox) / font.width ∧ inText font s ox oy x y then some FG else none :=
    fun c hc => glyphPicture_eq font ox oy (List.mem_zipIdx_iff_getElem?.mp hc) x y
  unfold textPicture
  split
  · next htext =>
      have hi : (x - ox) / font.width < s.length :=
        (Nat.div_lt_iff_lt_mul font.width_pos).mpr (by have := htext.1; omega)
      refine layers_some (fun c hc => ?_) ⟨(s[(x - ox) / font.width], (x - ox) / font.width),
        List.mem_zipIdx_iff_getElem?.mpr (List.getElem?_eq_getElem hi), ?_⟩
      · rw [hpixel c hc]
        split
        · exact Or.inr rfl
        · exact Or.inl rfl
      · rw [hpixel _ (List.mem_zipIdx_iff_getElem?.mpr (List.getElem?_eq_getElem hi)),
          if_pos ⟨rfl, htext⟩]
  · next htext =>
      apply layers_none
      intro c hc
      rw [hpixel c hc, if_neg fun h => htext h.2]

/-- `draw_string` draws a rectangle. -/
theorem draws_drawString {font : Font} (hwidth : font.width ≤ 8) (hheight : font.height ≤ 32)
    {n stride : Nat} (s : List UInt8) (ox oy : Nat)
    (hroom : Room n stride ox oy (s.length * font.width) font.height) :
    (xrgb stride).Draws n (drawString (stride * 4) font s ox oy) (textPicture font s ox oy) := by
  rw [← layers_glyphPicture]
  apply Format.draws_foldlM
  rintro ⟨ch, i⟩ hc
  have hlen : i + 1 ≤ s.length :=
    (List.getElem?_eq_some_iff.mp (List.mem_zipIdx_iff_getElem?.mp hc)).1
  have hend : (i + 1) * font.width ≤ s.length * font.width := Nat.mul_le_mul_right _ hlen
  rw [Nat.succ_mul] at hend
  have hright := hroom.right
  have hsmall := hroom.small
  have hpos := font.width_pos
  have hrow := Room.row_end oy stride font.height_pos
  have hglyph : Room n stride (ox + i * font.width) oy font.width font.height :=
    ⟨by omega, hroom.bottom, hroom.small⟩
  intro buf hbuf
  show blitGlyph (stride * 4) font ch FG (Vec.uadd ox (Vec.umul i font.width)) oy buf = _
  rw [Vec.umul_eq (by omega), Vec.uadd_eq (by omega)]
  exact draws_blitGlyph hwidth hheight hglyph ch FG buf hbuf

/-! ## The screensaver -/

/-- A display with room for the logo and the hint. -/
structure SaverSuits (font : Font) (so : ScanOut) : Prop extends Suits font so where
  hint_width : hint.length * font.width ≤ so.width.toNat
  lines : 4 * font.height ≤ so.height.toNat

/-- The hint over the logo over black. -/
def saverPicture (font : Font) (so : ScanOut) (stride : Nat) : Picture UInt32 :=
  .onTop
    (.onTop
      (textPicture font hint (so.width.toNat / 2 - hint.length * font.width / 2)
        (so.height.toNat / 2 + font.height))
      (textPicture font logo (so.width.toNat / 2 - logo.length * font.width)
        (so.height.toNat / 2 - 2 * font.height)))
    (clearPicture so.mem.length stride so.width.toNat 0)

/-- `render_screensaver` draws it: on such a display no origin wraps, and both strings are inside.
-/
theorem SaverSuits.draws {font : Font} {so : ScanOut} (h : SaverSuits font so) {stride : Nat}
    (hstride : so.pitch.toNat = stride * 4) :
    (xrgb stride).Draws so.mem.length (drawScreensaver font so.pitch so.width so.height)
      (saverPicture font so stride) := by
  have hlogo : logo.length = 4 := rfl
  have hhint : hint.length = 46 := rfl
  have hwidth := h.hint_width
  rw [hhint] at hwidth
  have hlines := h.lines
  have hsize : Vec.usizeSize = 2 ^ 64 := rfl
  have hw := so.width.toNat_lt
  have hh := so.height.toNat_lt
  have hpitch := h.pitch_ge
  have hfont := font.width_pos
  -- the origins do not wrap around
  have hlx : Vec.umul (Vec.umul logo.length font.width) 2 / 2 = logo.length * font.width := by
    rw [hlogo, Vec.umul_eq (a := 4) (by omega), Vec.umul_eq (by omega)]
    omega
  have hly : Vec.uwsub (so.height.toNat / 2) (Vec.umul font.height 2) =
      so.height.toNat / 2 - 2 * font.height := by
    rw [Vec.umul_eq (by omega), Vec.uwsub_eq (by omega) (by omega), Nat.mul_comm]
  have hhx : Vec.umul hint.length font.width = hint.length * font.width := by
    rw [hhint, Vec.umul_eq (by omega)]
  have hhy : Vec.uadd (so.height.toNat / 2) font.height = so.height.toNat / 2 + font.height :=
    Vec.uadd_eq (a := so.height.toNat / 2) (by omega)
  have hblack := draws_clear so.mem.length so.width.toNat (show 0 < stride by omega) 0
  have hlogoText := draws_drawString h.font_width h.font_height logo _ _
    (h.toSuits.rectangle hstride (so.width.toNat / 2 - logo.length * font.width)
      (so.height.toNat / 2 - 2 * font.height) _ _ (by rw [hlogo]; omega) (by omega))
  have hhintText := draws_drawString h.font_width h.font_height hint _ _
    (h.toSuits.rectangle hstride (so.width.toNat / 2 - hint.length * font.width / 2)
      (so.height.toNat / 2 + font.height) _ _ (by rw [hhint]; omega) (by omega))
  intro buf hbuf
  unfold drawScreensaver
  rw [hstride, hlx, hly, hhx, hhy]
  exact hblack.bind (hlogoText.bind hhintText) buf hbuf

/-- Every pixel of the mode is one of the text, or black. -/
theorem SaverSuits.saverPicture_eq {font : Font} {so : ScanOut} (h : SaverSuits font so)
    {stride : Nat} (hstride : so.pitch.toNat = stride * 4) {x y : Nat} (hx : x < so.width.toNat)
    (hy : y < so.height.toNat) :
    saverPicture font so stride x y = some (saverColour font so x y) := by
  have hpitch := h.pitch_ge
  have hmem : so.height.toNat * (stride * 4) ≤ so.mem.length := by
    rw [← hstride, Nat.mul_comm]
    exact h.mem_length
  unfold saverPicture Picture.onTop textPicture saverColour
  rw [clearPicture_eq (by omega) hmem 0 hx hy]
  dsimp only
  split_ifs <;> simp_all

/-- After `render_screensaver` every pixel of the mode has the colour that the screensaver gives it,
whatever was there before, and no access was out of range. -/
theorem saver_pixels (font : Font) (w : World) (so : ScanOut) (hso : w.drm.scanout = some so)
    (hsuits : SaverSuits font so) :
    ∃ w' so', renderScreensaver w font = .ok w' ∧ w'.drm.scanout = some so' ∧
      ∀ x y, x < so.width.toNat → y < so.height.toNat →
        (so'.mem.drop (y * so.pitch.toNat + 4 * x)).take 4 = leBytes (saverColour font so x y) := by
  obtain ⟨stride, hstride⟩ := hsuits.pitch_dvd
  rw [Nat.mul_comm] at hstride
  obtain ⟨mem, hdraw, hpixels⟩ : ∃ mem,
      drawScreensaver font so.pitch so.width so.height so.mem = .ok mem ∧
      ∀ x y, x < so.width.toNat → y < so.height.toNat →
        (mem.drop (y * so.pitch.toNat + 4 * x)).take 4 = leBytes (saverColour font so x y) :=
    ⟨_, hsuits.draws hstride so.mem rfl, fun x y hx hy =>
      hsuits.toSuits.read_pixel hstride hx hy (hsuits.saverPicture_eq hstride hx hy)⟩
  refine ⟨present w mem, { so with mem }, ?_, ?_, hpixels⟩
  · unfold renderScreensaver
    rw [hso]
    dsimp only
    rw [hdraw]
    rfl
  · rw [present_drm, Drm.setMem, hso]
    rfl

/-- A mode of 368 by 32 pixels, which the hint fills from side to side. -/
def saverScreen : ScanOut :=
  { fbId := 1, dumbHandle := 1, map := 0, mapLen := 47104, pitch := 1472, width := 368, height := 32
    mem := List.replicate 47104 0 }

theorem saverSuits_saverScreen : SaverSuits solidFont saverScreen where
  font_width := by decide
  font_height := by decide
  width_ge := by decide
  height_ge := by decide
  pitch_dvd := by decide
  pitch_ge := by decide
  mem_length := by
    rw [saverScreen, List.length_replicate]
    decide
  hint_width := by decide
  lines := by decide

theorem saver_pixels_saverScreen :
    ∃ w : World, w.drm.scanout = some saverScreen ∧
      ∃ w' so', renderScreensaver w solidFont = .ok w' ∧ w'.drm.scanout = some so' ∧
        ∀ x y, x < saverScreen.width.toNat → y < saverScreen.height.toNat →
          (so'.mem.drop (y * saverScreen.pitch.toNat + 4 * x)).take 4 =
            leBytes (saverColour solidFont saverScreen x y) :=
  let w : World :=
    { drm := { connectorId := 1, crtcId := 1, scanout := some saverScreen }
      kernel := { ledger := .empty, log := [] } }
  ⟨w, rfl, saver_pixels solidFont w saverScreen rfl saverSuits_saverScreen⟩

end K1de
