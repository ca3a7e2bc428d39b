import K1de.Render.Font
import K1de.Render.Saver
import K1de.Main.Shell

/-! # The loop never panics

A panic of the program is a fault of the model: an index or a slice out of range, a `Vec` that is
too large, a chunk size of zero. `loop_never_panics` says that no run of the loop has one, for
every behaviour of shell, keyboards and clocks and every failing system call, if the kernel is
honest about its fonts and buffers (`Honours`, `BufferFits`).

Two things are asked of the display that the code does not check. It is at least as high as a
glyph: below that, `fill_cell` may write past the end. And a line of the buffer has at least 8
bytes: the vertical origin of the logo wraps below zero on a low display, and for a pitch of 4 the
wrapped offset passes the check of `blit_glyph`.
-/

namespace K1de

open Fallible Paint

/-! ## Buffers -/

/-- A new dumb buffer for this mode: it is as large as the kernel says and has room for the mode.
That the display is at least a glyph high and a line of the buffer at least 8 bytes long is no
promise of the kernel, but a condition on the display. -/
structure BufferFits (font : Font) (mode : ModeInfo) (cd : CreateDumb) : Prop where
  width_pos : 1 ≤ mode.hdisplay.toNat
  height_ge : font.height ≤ mode.vdisplay.toNat
  pitch_ge : 4 * mode.hdisplay.toNat ≤ cd.pitch.toNat
  pitch_min : 8 ≤ cd.pitch.toNat
  size_ge : cd.pitch.toNat * mode.vdisplay.toNat ≤ cd.size.toNat
  size_le : cd.size.toNat ≤ Vec.isizeMax

/-- The same of a buffer on the screen, with a font that suits it. -/
structure Drawable (font : Font) (so : ScanOut) : Prop extends Mapped font so where
  glyph_le : font.height ≤ so.height.toNat
  pitch_min : 8 ≤ so.pitch.toNat
  mem_le : so.mem.length ≤ Vec.isizeMax

/-- The promise for the buffer that this refresh may install. -/
def AnswersFit (font : Font) (a : Answers) : Prop :=
  ∀ modes mode cd, a.probe.result = .ok (true, modes) → Drm.pickMode modes = some mode →
    a.scanout.createDumb = .ok cd → BufferFits font mode cd

/-- A buffer of a mode in what the kernel has made. -/
theorem BufferFits.drawable {font : Font} (hwidth : font.width ≤ 8) (hheight : font.height ≤ 32)
    {mode : ModeInfo} {cd : CreateDumb} (h : BufferFits font mode cd) {so : ScanOut}
    (hsize : so.size = mode.size) (hpitch : so.pitch = cd.pitch)
    (hmem : so.mem.length = cd.size.toNat) : Drawable font so := by
  have hw : so.width.toNat = mode.hdisplay.toNat := by
    rw [show so.width = mode.hdisplay.toUInt32 from congrArg Mode.width hsize,
      UInt16.toNat_toUInt32]
  have hh : so.height.toNat = mode.vdisplay.toNat := by
    rw [show so.height = mode.vdisplay.toUInt32 from congrArg Mode.height hsize,
      UInt16.toNat_toUInt32]
  have hpos := font.height_pos
  refine ⟨⟨hwidth, hheight, ?_, ?_, ?_, ?_⟩, ?_, ?_, ?_⟩
  · rw [hw]; exact h.width_pos
  · rw [hh]; exact le_trans hpos h.height_ge
  · rw [hw, hpitch]; exact h.pitch_ge
  · rw [hh, hpitch, hmem]; exact h.size_ge
  · rw [hh]; exact h.height_ge
  · rw [hpitch]; exact h.pitch_min
  · rw [hmem]; exact h.size_le

/-- Drawing leaves everything but the contents. -/
theorem Drawable.setMem {font : Font} {so : ScanOut} (h : Drawable font so) {mem : List UInt8}
    (hmem : mem.length = so.mem.length) : Drawable font { so with mem } where
  toMapped :=
    { font_width := h.font_width
      font_height := h.font_height
      width_pos := h.width_pos
      height_pos := h.height_pos
      pitch_ge := h.pitch_ge
      mem_length := by
        show _ ≤ mem.length
        rw [hmem]
        exact h.mem_length }
  glyph_le := h.glyph_le
  pitch_min := h.pitch_min
  mem_le := by
    show mem.length ≤ _
    rw [hmem]
    exact h.mem_le

/-! ## Drawing a terminal -/

/-- The terminal of the buffer's size can be drawn without a panic. -/
theorem Drawable.drawTerminal_ok {font : Font} {so : ScanOut} {t : Terminal}
    (h : Drawable font so) (hinv : Terminal.Inv t) (hgrid : ClampedGrid font so t) :
    ∃ mem, drawTerminal font t so.pitch so.width so.mem = .ok mem := by
  -- no line of the first row of cells is below the display
  have hfits : BackgroundFits font so t := by
    intro y hy hout
    have := h.glyph_le
    omega
  have hcells := (h.cells_inRange_iff hgrid).mpr hfits
  rw [traces_drawTerminal h.font_width h.font_height hinv h.pitch_pos so.width so.mem.length so.mem
    rfl, foldlM_ok_iff paints_put]
  simp only [put_ok_iff]
  show InRange so.mem.length (terminalPlots font t so.pitch.toNat so.width.toNat so.mem.length)
  rw [terminalPlots, inRange_append]
  refine ⟨clearPlots_inRange _ _ _ _, ?_⟩
  simp only [inRange_flatMap, List.mem_range]
  exact hcells

/-! ## Drawing the screensaver -/

/-- A string near enough to the origin is cut off by the checks of `blit_glyph`. -/
theorem stringPlots_inRange {pitch ox oy n : Nat} {font : Font} {s : List UInt8}
    (hnw : NoWrap pitch ox oy (s.length * font.width) font.height) :
    InRange n (stringPlots pitch font s ox oy n) := by
  intro p hp
  obtain ⟨i, ch, -, y, -, x, -, -, hroom, rfl⟩ := (mem_stringPlots hnw).mp hp
  exact hroom

/-- A string whose first line is past the end of the buffer is not drawn at all. -/
theorem stringPlots_nil {pitch ox oy n : Nat} {font : Font} {s : List UInt8}
    (hbreak : Vec.uadd (rowOffset pitch oy 0) 4 > n) : stringPlots pitch font s ox oy n = [] := by
  obtain ⟨k, hk⟩ := Nat.exists_eq_succ_of_ne_zero (Nat.one_le_iff_ne_zero.mp font.height_pos)
  refine List.flatMap_eq_nil_iff.mpr ?_
  intro c _
  rw [glyphPlots, hk, List.range_succ_eq_map, List.takeWhile_cons_of_neg (by simp [hbreak])]
  rfl

section

variable {font : Font} {so : ScanOut} (h : Drawable font so)

include h

/-- Above the top of the display the offset wraps to the end of the address space. -/
theorem Drawable.logo_break (hlow : so.height.toNat / 2 < font.height * 2) :
    Vec.uadd (rowOffset so.pitch.toNat
      (Vec.uwsub (so.height.toNat / 2) (Vec.umul font.height 2)) 0) 4 > so.mem.length := by
  have hheight := h.font_height
  have hpitch := so.pitch.toNat_lt
  have hmin := h.pitch_min
  have hmem := h.mem_le
  have hsize : Vec.usizeSize = 2 ^ 64 := rfl
  have hmax : Vec.isizeMax = 2 ^ 63 - 1 := rfl
  -- `k + 1` lines above the top
  obtain ⟨k, hk⟩ := Nat.exists_eq_add_of_lt hlow
  have horigin : Vec.uwsub (so.height.toNat / 2) (Vec.umul font.height 2) = 2 ^ 64 - (k + 1) := by
    rw [Vec.umul_eq (by omega), Vec.uwsub, hsize, hk, Nat.mod_eq_of_lt (by omega)]
    omega
  have hlines : (k + 1) * so.pitch.toNat ≤ 64 * 2 ^ 32 := Nat.mul_le_mul (by omega) (by omega)
  have hlines' : 1 * so.pitch.toNat ≤ (k + 1) * so.pitch.toNat :=
    Nat.mul_le_mul_right _ (by omega)
  have hrow : rowOffset so.pitch.toNat (2 ^ 64 - (k + 1)) 0 =
      2 ^ 64 - (k + 1) * so.pitch.toNat := by
    have hmul : (2 ^ 64 - (k + 1)) * so.pitch.toNat =
        2 ^ 64 * (so.pitch.toNat - 1) + (2 ^ 64 - (k + 1) * so.pitch.toNat) := by
      rw [Nat.sub_mul]
      omega
    rw [rowOffset, Vec.uadd_eq (by omega), Nat.add_zero, Vec.umul, hsize, hmul,
      Nat.mul_add_mod, Nat.mod_eq_of_lt (by omega)]
  rw [horigin, hrow, Vec.uadd_eq (by omega)]
  omega

/-- The logo stays in the buffer: it is above the display and dropped, or inside. -/
theorem Drawable.logoPlots_inRange : InRange so.mem.length
    (logoPlots font so.pitch.toNat so.width.toNat so.height.toNat so.mem.length) := by
  have hwidth := h.font_width
  have hheight := h.font_height
  have hpitch := h.pitch_ge
  have hlt := so.pitch.toNat_lt
  have hlt' := so.height.toNat_lt
  have hlength : logo.length = 4 := rfl
  have hsize : Vec.usizeSize = 2 ^ 64 := rfl
  rcases Nat.lt_or_ge (so.height.toNat / 2) (font.height * 2) with hlow | hhigh
  · -- the origin wraps, and the first line is past the end
    rw [logoPlots, stringPlots_nil (h.logo_break hlow)]
    exact fun p hp => absurd hp List.not_mem_nil
  · apply stringPlots_inRange
    refine ⟨hlt, ?_, ?_⟩
    · rw [Vec.umul_eq (by omega), Vec.uwsub_eq hhigh (by omega)]
      omega
    · rw [hlength]
      omega

/-- The hint starts below the top, and the checks cut it off at the end. -/
theorem Drawable.hintPlots_inRange : InRange so.mem.length
    (hintPlots font so.pitch.toNat so.width.toNat so.height.toNat so.mem.length) := by
  have hwidth := h.font_width
  have hheight := h.font_height
  have hpitch := h.pitch_ge
  have hlt := so.pitch.toNat_lt
  have hlt' := so.height.toNat_lt
  have hlength : hint.length = 46 := rfl
  have hsize : Vec.usizeSize = 2 ^ 64 := rfl
  apply stringPlots_inRange
  refine ⟨hlt, ?_, ?_⟩
  · rw [Vec.uadd_eq (by omega)]
    omega
  · rw [hlength]
    omega

/-- The screen saver can be drawn without a panic. -/
theorem Drawable.drawScreensaver_ok :
    ∃ mem, drawScreensaver font so.pitch so.width so.height so.mem = .ok mem := by
  rw [traces_drawScreensaver font h.font_width h.font_height h.pitch_pos so.width so.height
    so.mem.length so.mem rfl, foldlM_ok_iff paints_put]
  simp only [put_ok_iff]
  exact inRange_append.mpr ⟨clearPlots_inRange _ _ _ _,
    inRange_append.mpr ⟨h.logoPlots_inRange, h.hintPlots_inRange⟩⟩

end

/-! ## The phases -/

/-- The sizes agree, and what is on the screen can be drawn into. -/
structure Safe (font : Font) (s : State) : Prop where
  geometry : Geometry font s
  drawable : ∀ so, s.world.drm.scanout = some so → Drawable font so

/-- A buffer that is on the screen after a refresh was there before, or is a new one. -/
theorem Drm.Refreshed.buffer_cases {a : Answers} {w w' : World}
    {r : Except IoError (Option Mode)} (h : Drm.Refreshed a w r w') {so : ScanOut}
    (hso : w'.drm.scanout = some so) :
    w.drm.scanout = some so ∨ ∃ modes mode cd, a.probe.result = .ok (true, modes) ∧
      Drm.pickMode modes = some mode ∧ a.scanout.createDumb = .ok cd ∧
      so.size = mode.size ∧ so.pitch = cd.pitch ∧ so.mem.length = cd.size.toNat := by
  cases h with
  | probeFailed _ hw => exact Or.inl (hw.drm_eq ▸ hso)
  | disconnected _ _ hw =>
      rw [hw.drm_eq, Drm.tornDown_scanout] at hso
      cases hso
  | unchanged _ _ _ hw => exact Or.inl (hw.drm_eq ▸ hso)
  | noCrtc _ _ _ _ hw => exact Or.inl (hw.drm_eq ▸ hso)
  | @scanned modes mode _ w₁ _ r hprobe hpick _ _ hw hscan =>
      have hnone : w₁.drm.scanout = none := by
        rw [hw.drm_eq]
        exact Drm.tornDown_scanout _
      -- every error exit leaves the screen empty
      cases hscan with
      | createDumbFailed _ hw' =>
          rw [hw'.drm_eq, hnone] at hso
          cases hso
      | addFbFailed _ _ hw' =>
          rw [hw'.drm_eq, hnone] at hso
          cases hso
      | mapDumbFailed _ _ _ hdrm =>
          rw [hdrm, hnone] at hso
          cases hso
      | mmapFailed _ _ _ hdrm =>
          rw [hdrm, hnone] at hso
          cases hso
      | setCrtcFailed _ _ _ hdrm =>
          rw [hdrm, hnone] at hso
          cases hso
      | installed hcd _ _ _ _ hdrm =>
          rw [hdrm] at hso
          cases hso
          exact Or.inr ⟨modes, mode, _, hprobe, hpick, hcd, rfl, rfl, List.length_replicate⟩

section

variable {font : Font} {s s' : State}

/-- The property looks at the buffer on the screen only. -/
theorem Safe.of_scanout (h : Safe font s) (hgeo : Geometry font s')
    (hscreen : s'.world.drm.scanout = s.world.drm.scanout) : Safe font s' :=
  ⟨hgeo, fun so hso => h.drawable so (hscreen ▸ hso)⟩

/-- A refresh returns, and leaves a buffer that can be drawn into. -/
theorem Safe.refreshPhase (h : Safe font s) (hwidth : font.width ≤ 8) (hheight : font.height ≤ 32)
    {i : Input} (hfits : AnswersFit font i.answers) :
    ∃ s', s.refreshPhase font i = .ok s' ∧ Safe font s' := by
  obtain ⟨s', hs', hgeo⟩ := h.geometry.refreshPhase i
  refine ⟨s', hs', hgeo, ?_⟩
  intro so hso
  rcases refreshPhase_world hs' with ⟨-, hw⟩ | ⟨-, hw⟩
  · rw [hw] at hso
    exact h.drawable so hso
  · rw [hw] at hso
    have hrefreshed := State.refreshed_of_result (rfl : s.refreshResult i = _)
    rcases hrefreshed.buffer_cases hso with hold | ⟨modes, mode, cd, hprobe, hpick, hcd, hnew⟩
    · exact h.drawable so hold
    · exact (hfits modes mode cd hprobe hpick hcd).drawable hwidth hheight hnew.1 hnew.2.1 hnew.2.2

theorem Safe.outputPhase (h : Safe font s) (i : Input) :
    ∃ s', s.outputPhase i = .ok s' ∧ Safe font s' := by
  obtain ⟨s', hs', hgeo⟩ := h.geometry.outputPhase i
  refine ⟨s', hs', h.of_scanout hgeo ?_⟩
  rw [outputPhase_world hs']

/-- The grid that goes with the buffer on the screen. -/
theorem Geometry.clampedGrid (h : Geometry font s) {so : ScanOut}
    (hso : s.world.drm.scanout = some so) {t : Terminal} (ht : s.term = some t) :
    ClampedGrid font so t := by
  obtain ⟨-, t', ht', hcols, hrows⟩ := h.screenSized so hso
  cases ht'.symm.trans ht
  exact ⟨hcols, hrows⟩

/-- The screen saver does not change the length of the buffer. -/
theorem drawScreensaver_length {so : ScanOut} (h : Drawable font so) {mem : List UInt8}
    (hdraw : drawScreensaver font so.pitch so.width so.height so.mem = .ok mem) :
    mem.length = so.mem.length := by
  rw [traces_drawScreensaver font h.font_width h.font_height h.pitch_pos so.width so.height
    so.mem.length so.mem rfl] at hdraw
  exact (paints_foldlM paints_put _).length_eq hdraw

/-- What is drawn has the length of what was there. -/
theorem present_drawable {w : World} {so : ScanOut} (hso : w.drm.scanout = some so)
    (h : Drawable font so) {mem : List UInt8} (hmem : mem.length = so.mem.length) :
    ∀ so', (present w mem).drm.scanout = some so' → Drawable font so' := by
  intro so' hso'
  rw [present_drm, Drm.setMem, hso] at hso'
  cases hso'
  exact h.setMem hmem

/-- The screensaver can be drawn, and then again. -/
theorem Safe.renderScreensaver (h : Safe font s) :
    ∃ w, renderScreensaver s.world font = .ok w ∧
      ∀ so, w.drm.scanout = some so → Drawable font so := by
  unfold K1de.renderScreensaver
  cases hso : s.world.drm.scanout with
  | none => exact ⟨s.world, rfl, h.drawable⟩
  | some so =>
      have hdrawable := h.drawable so hso
      obtain ⟨mem, hmem⟩ := hdrawable.drawScreensaver_ok
      dsimp only
      rw [hmem]
      exact ⟨_, rfl, present_drawable hso hdrawable (drawScreensaver_length hdrawable hmem)⟩

/-- So can the terminal. -/
theorem Safe.render (h : Safe font s) {t : Terminal} (ht : s.term = some t) :
    ∃ t' w, t.render s.world font = .ok (t', w) ∧
      ∀ so, w.drm.scanout = some so → Drawable font so := by
  unfold Terminal.render
  cases hso : s.world.drm.scanout with
  | none => exact ⟨t, s.world, rfl, h.drawable⟩
  | some so =>
      have hdrawable := h.drawable so hso
      obtain ⟨mem, hmem⟩ := hdrawable.drawTerminal_ok (h.geometry.term_inv t ht)
        (h.geometry.clampedGrid hso ht)
      have hlength := (paints_drawTerminal font t so.pitch so.width).length_eq hmem
      dsimp only
      rw [hmem]
      exact ⟨_, _, rfl, present_drawable hso hdrawable hlength⟩

/-- Neither draw panics, and the buffer stays as large as it was. -/
theorem Safe.drawPhase (h : Safe font s) : ∃ s', s.drawPhase font = .ok s' ∧ Safe font s' := by
  suffices hdraw : ∃ s', s.drawPhase font = .ok s' ∧
      ∀ so, s'.world.drm.scanout = some so → Drawable font so by
    obtain ⟨s', hs', hdrawable⟩ := hdraw
    exact ⟨s', hs', h.geometry.drawPhase hs', hdrawable⟩
  unfold State.drawPhase
  split
  · -- asleep: the screen saver is drawn in every iteration
    obtain ⟨w, hw, hdrawable⟩ := h.renderScreensaver
    rw [hw]
    exact ⟨_, rfl, hdrawable⟩
  · split
    · exact ⟨s, rfl, h.drawable⟩
    · next t ht =>
        split
        · -- awake: a marked terminal is drawn
          obtain ⟨t', w, hw, hdrawable⟩ := h.render ht
          rw [hw]
          exact ⟨_, rfl, hdrawable⟩
        · exact ⟨s, rfl, h.drawable⟩

/-! ## Runs -/

/-- No phase panics where the kernel keeps its promise. -/
theorem Safe.step (h : Safe font s) (hwidth : font.width ≤ 8) (hheight : font.height ≤ 32)
    {e : Phase × Input} (hfits : AnswersFit font e.2.answers) :
    ∃ s', step font s e = .ok s' ∧ Safe font s' := by
  obtain ⟨phase, i⟩ := e
  cases phase with
  | refresh => exact h.refreshPhase hwidth hheight hfits
  | rescan =>
      refine ⟨_, rfl, h.of_scanout (h.geometry.rescanPhase i) ?_⟩
      unfold State.rescanPhase
      split <;> rfl
  | reap =>
      refine ⟨_, rfl, h.of_scanout (h.geometry.reapPhase i) ?_⟩
      unfold State.reapPhase
      split <;> rfl
  | output => exact h.outputPhase i
  | keys =>
      refine ⟨_, rfl, h.of_scanout (h.geometry.keysPhase i) ?_⟩
      rw [State.keysPhase_world]
  | idle =>
      refine ⟨_, rfl, h.of_scanout (h.geometry.idlePhase i) ?_⟩
      unfold State.idlePhase
      split <;> rfl
  | draw => exact h.drawPhase

end

/-- On a display of one by two pixels the logo begins one line above the top, and with a pitch of
4 the end of its first pixel wraps to 0, inside the buffer. -/
example : drawScreensaver dotFont 4 1 2 (List.replicate 8 0) = .error .sliceOutOfRange := by
  decide +kernel

end K1de
