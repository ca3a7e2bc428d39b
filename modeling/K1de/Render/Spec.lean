import K1de.Drm.Spec
import K1de.Render.Model

/-! # What drawing leaves in the buffer

Drawing a terminal is a painting program: it writes the same pixels whatever the
buffer held. So after a `render` the buffer shows the terminal (`OnScreen`), in
the sense that drawing it once more would change nothing. Pixel by pixel, this is the
picture of the terminal (`OnScreen.pixels`, in `K1de.Render.Pixels`).
-/

namespace K1de

open Fallible Paint

/-! ## Drawing paints -/

theorem paints_setPixel (off : Nat) (color : UInt32) :
    Paints (fun buf => setPixel buf off color) :=
  paints_copySlice off (leBytes color)

theorem paints_clearRow (pitch rowBytes : Nat) (color : UInt32) (row : Nat) :
    Paints (fun buf => clearRow pitch rowBytes color buf row) :=
  paints_length fun n => paints_foldlM (fun px => paints_setPixel (row * pitch + px * 4) color)
    (List.range (min rowBytes (min pitch (n - row * pitch)) / 4))

/-- The background: it fails without a pitch, whatever the buffer holds. -/
theorem paints_clear (pitch rowBytes : Nat) (color : UInt32) :
    Paints (clear pitch rowBytes color) := by
  apply Paints.ite
  · exact paints_error _
  · exact paints_length fun n => paints_foldlM (paints_clearRow pitch rowBytes color)
      (List.range ((n + pitch - 1) / pitch))

/-- The break looks at the length of the buffer only. -/
theorem paints_fillCell (pitch : Nat) (color : UInt32) (ox oy w h : Nat) :
    Paints (fillCell pitch color ox oy w h) := by
  apply paints_untilM
  intro y
  apply paints_foldlM
  intro x
  exact paints_setPixel _ color

/-- A pixel of a glyph is set or left, by the font and the length of the buffer. -/
theorem paints_blitPixel (font : Font) (ch : UInt8) (color : UInt32) (rowOff ox y x : Nat) :
    Paints (fun buf => blitPixel font ch color rowOff ox y buf x) := by
  apply Paints.read
  intro set
  let off := Vec.uadd rowOff (Vec.umul (Vec.uadd ox x) 4)
  exact paints_length fun n =>
    Paints.ite (set = true ∧ Vec.uadd off 4 ≤ n) (paints_setPixel off color) paints_id

theorem paints_blitGlyph (pitch : Nat) (font : Font) (ch : UInt8) (color : UInt32) (ox oy : Nat) :
    Paints (blitGlyph pitch font ch color ox oy) := by
  apply paints_untilM
  intro y
  apply paints_foldlM
  intro x
  exact paints_blitPixel font ch color _ ox y x

/-- A cell paints its background, and over it its character. -/
theorem paints_drawCell (pitch : Nat) (font : Font) (cells : List Cell) (cols r c : Nat) :
    Paints (fun buf => drawCell pitch font cells cols r buf c) := by
  apply Paints.read
  intro cell
  apply Paints.bind
  · -- the background
    unfold drawBackground
    cases cell.bg with
    | none => exact paints_id
    | some bg => exact Paints.read fun color => paints_fillCell pitch color _ _ _ _
  · -- the character
    apply Paints.ite
    · exact Paints.read fun fg => paints_blitGlyph pitch font cell.ch fg _ _
    · exact paints_id

/-- So the whole of `render` paints. -/
theorem paints_drawTerminal (font : Font) (t : Terminal) (pitch width : UInt32) :
    Paints (drawTerminal font t pitch width) := by
  apply (paints_clear _ _ _).bind
  apply paints_foldlM
  intro r
  apply paints_foldlM
  intro c
  exact paints_drawCell pitch.toNat font t.cells t.cols r c

/-! ## The buffer on the screen -/

/-- The buffer shows the terminal: drawing it again would change nothing. -/
def OnScreen (font : Font) (t : Terminal) (so : ScanOut) : Prop :=
  drawTerminal font t so.pitch so.width so.mem = .ok so.mem

/-- Presenting a frame changes the buffer and nothing else in the driver. -/
theorem present_drm (w : World) (mem : List UInt8) : (present w mem).drm = w.drm.setMem mem :=
  (Drm.flush_asks _).2.drm_eq

/-- The ways of `Terminal::render`: nothing to draw into, or drawn. -/
theorem render_cases {t t' : Terminal} {w w' : World} {font : Font}
    (h : t.render w font = .ok (t', w')) :
    (w.drm.scanout = none ∧ t' = t ∧ w' = w) ∨
      ∃ so mem, w.drm.scanout = some so ∧ t' = { t with dirty := false } ∧ w' = present w mem ∧
        drawTerminal font t so.pitch so.width so.mem = .ok mem := by
  unfold Terminal.render at h
  cases hso : w.drm.scanout with
  | none =>
      rw [hso] at h
      cases h
      exact Or.inl ⟨rfl, rfl, rfl⟩
  | some so =>
      rw [hso] at h
      obtain ⟨mem, hdraw, hw⟩ := of_bind_ok h
      cases hw
      exact Or.inr ⟨so, mem, rfl, rfl, rfl, hdraw⟩

/-- A draw that returns is presented. -/
theorem render_of_draw {t : Terminal} {w : World} {font : Font} {so : ScanOut}
    {mem : List UInt8} (hso : w.drm.scanout = some so)
    (h : drawTerminal font t so.pitch so.width so.mem = .ok mem) :
    t.render w font = .ok ({ t with dirty := false }, present w mem) := by
  unfold Terminal.render
  rw [hso]
  dsimp only
  rw [h]
  rfl

/-- The screensaver changes the contents of the buffer at most. -/
theorem renderScreensaver_cases {w w' : World} {font : Font}
    (h : renderScreensaver w font = .ok w') : w' = w ∨ ∃ mem, w' = present w mem := by
  unfold renderScreensaver at h
  cases hso : w.drm.scanout with
  | none =>
      rw [hso] at h
      cases h
      exact Or.inl rfl
  | some so =>
      rw [hso] at h
      obtain ⟨mem, -, hw⟩ := of_bind_ok h
      cases hw
      exact Or.inr ⟨mem, rfl⟩

/-- After a `render` the buffer shows the terminal. -/
theorem render_onScreen {t t' : Terminal} {w w' : World} {font : Font} {so : ScanOut}
    (h : t.render w font = .ok (t', w')) (hso : w'.drm.scanout = some so) :
    OnScreen font t' so := by
  rcases render_cases h with ⟨hnone, rfl, rfl⟩ | ⟨old, mem, hold, rfl, rfl, hdraw⟩
  · rw [hnone] at hso
    cases hso
  · rw [present_drm, Drm.setMem, hold] at hso
    cases hso
    -- what paints, paints the same over its own result
    exact (paints_drawTerminal font t old.pitch old.width).again hdraw

/-! ## Glyphs for the smallest cases -/

/-- 256 glyphs with every pixel set. -/
def solidGlyphs : List UInt8 := List.replicate (256 * 32) 0xff

theorem length_solidGlyphs : solidGlyphs.length = 256 * 32 := List.length_replicate

end K1de
