import K1de.Render.Trace

/-! # When a render stays inside the buffer

`Terminal::render` for a display of any size, also one smaller than a glyph, where
`main` still gives the terminal one row or one column. The background and the glyphs
are always inside the buffer. `fill_cell` is not: its check looks at the width of the
cell and not at where the cell begins, and below a display lower than a glyph a row may
lie partly in what the kernel added to the buffer. `render_inBounds_iff` is the exact
condition.
-/

namespace K1de

open Fallible Paint

/-! ## The writes of a render -/

def backgroundPlots (pitch : Nat) (font : Font) (cell : Cell) (ox oy n : Nat) : List Plot :=
  match cell.bg with
  | none => []
  | some bg => fillPlots pitch (paletteColour bg) ox oy font.width font.height n

def charPlots (pitch : Nat) (font : Font) (cell : Cell) (ox oy n : Nat) : List Plot :=
  if cell.ch ≠ 0x20 then glyphPlots pitch font cell.ch cell.foreground ox oy n else []

/-- The cell of row `r` and column `c`. -/
def Terminal.cell (t : Terminal) (r c : Nat) : Cell := t.cells.getD (r * t.cols + c) blank

def cellPlots (pitch : Nat) (font : Font) (t : Terminal) (n r c : Nat) : List Plot :=
  let ox := Vec.umul c font.width
  let oy := Vec.umul r font.height
  backgroundPlots pitch font (t.cell r c) ox oy n ++ charPlots pitch font (t.cell r c) ox oy n

def terminalPlots (font : Font) (t : Terminal) (pitch width n : Nat) : List Plot :=
  clearPlots pitch (width * 4) BG n ++
    (List.range t.rows).flatMap fun r => (List.range t.cols).flatMap (cellPlots pitch font t n r)

/-- The writes of a background. A colour that the terminal stores is in the palette. -/
theorem traces_drawBackground {cell : Cell} (hcell : cell.Ok) (pitch : Nat) (font : Font)
    (ox oy n : Nat) :
    Traces Plot.put n (backgroundPlots pitch font cell ox oy n)
      (drawBackground pitch font cell ox oy) := by
  unfold drawBackground backgroundPlots
  cases hbg : cell.bg with
  | none => exact traces_id
  | some bg =>
      intro buf hbuf
      dsimp only
      rw [index_palette hcell.bg_ok hbg, ok_bind]
      exact traces_fillCell pitch (paletteColour bg) ox oy _ _ n buf hbuf

section

variable {font : Font} (hwidth : font.width ≤ 8) (hheight : font.height ≤ 32)

include hwidth hheight

theorem traces_drawChar {cell : Cell} (hcell : cell.Ok) (pitch ox oy n : Nat) :
    Traces Plot.put n (charPlots pitch font cell ox oy n) (drawChar pitch font cell ox oy) := by
  intro buf hbuf
  unfold drawChar charPlots
  split
  · rw [textColor_eq hcell, ok_bind]
    exact traces_blitGlyph hwidth hheight pitch cell.ch cell.foreground ox oy n buf hbuf
  · rfl

/-- The writes of a cell, which is in the grid. -/
theorem traces_drawCell {t : Terminal} (hinv : Terminal.Inv t) (pitch n : Nat) {r c : Nat}
    (hr : r < t.rows) (hc : c < t.cols) :
    Traces Plot.put n (cellPlots pitch font t n r c)
      (fun buf => drawCell pitch font t.cells t.cols r buf c) := by
  have hidx := hinv.index_lt hr hc
  have hget : t.cells[r * t.cols + c]? = some (t.cell r c) := by
    rw [Terminal.cell, List.getD_eq_getElem _ _ hidx, List.getElem?_eq_getElem hidx]
  have hcell : (t.cell r c).Ok := hinv.cells_ok _ (List.mem_of_getElem? hget)
  intro buf hbuf
  dsimp only
  unfold drawCell
  rw [Vec.index_ok hget, ok_bind]
  exact Traces.bind paints_put (traces_drawBackground hcell pitch font _ _ n)
    (traces_drawChar hwidth hheight hcell pitch _ _ n) buf hbuf

/-- The writes of `render`. -/
theorem traces_drawTerminal {t : Terminal} (hinv : Terminal.Inv t) {pitch : UInt32}
    (hpitch : 0 < pitch.toNat) (width : UInt32) (n : Nat) :
    Traces Plot.put n (terminalPlots font t pitch.toNat width.toNat n)
      (drawTerminal font t pitch width) := by
  refine Traces.bind paints_put (traces_clear hpitch _ BG n) ?_
  apply traces_foldlM paints_put
  intro r hr
  apply traces_foldlM paints_put
  intro c hc
  exact traces_drawCell hwidth hheight hinv pitch.toNat n (List.mem_range.mp hr)
    (List.mem_range.mp hc)

end

/-! ## Which of them are inside -/

/-- All writes are inside a buffer of `n` bytes. -/
def InRange (n : Nat) (ps : List Plot) : Prop := ∀ p ∈ ps, p.off + 4 ≤ n

theorem inRange_append {n : Nat} {ps qs : List Plot} :
    InRange n (ps ++ qs) ↔ InRange n ps ∧ InRange n qs :=
  List.forall_mem_append

theorem inRange_flatMap {ι : Type} {n : Nat} {is : List ι} {tr : ι → List Plot} :
    InRange n (is.flatMap tr) ↔ ∀ i ∈ is, InRange n (tr i) := by
  simp only [InRange, List.mem_flatMap]
  grind

/-- The background is cut off at the end of the buffer, pixel by pixel. -/
theorem clearPlots_inRange (pitch rowBytes : Nat) (color : UInt32) (n : Nat) :
    InRange n (clearPlots pitch rowBytes color n) := by
  rw [clearPlots, inRange_flatMap]
  intro row _ p hp
  obtain ⟨px, hpx, rfl⟩ := List.mem_map.mp hp
  have hpx := List.mem_range.mp hpx
  show row * pitch + px * 4 + 4 ≤ n
  omega

/-- A filled cell is inside if the rows that pass the check of `fill_cell` have room up to
the right edge of the cell. -/
theorem fillPlots_inRange_iff {pitch ox oy w h : Nat} (hnw : NoWrap pitch ox oy w h) (hw : 0 < w)
    (color : UInt32) (n : Nat) :
    InRange n (fillPlots pitch color ox oy w h n) ↔
      ∀ y < h, (oy + y) * pitch + w * 4 ≤ n → (oy + y) * pitch + (ox + w) * 4 ≤ n := by
  constructor
  · intro h y hy hroom
    -- the last pixel of the row is the one that can be outside
    have hlast := h _ ((mem_fillPlots hnw color).mpr ⟨y, hy, hroom, w - 1, by omega, rfl⟩)
    dsimp only at hlast
    omega
  · intro h p hp
    obtain ⟨y, hy, hroom, x, hx, rfl⟩ := (mem_fillPlots hnw color).mp hp
    have hend := h y hy hroom
    dsimp only
    omega

/-- `blit_glyph` checks every pixel. -/
theorem charPlots_inRange {pitch ox oy : Nat} {font : Font}
    (hnw : NoWrap pitch ox oy font.width font.height) (cell : Cell) (n : Nat) :
    InRange n (charPlots pitch font cell ox oy n) := by
  intro p hp
  unfold charPlots at hp
  split at hp
  · obtain ⟨y, -, x, -, -, hroom, rfl⟩ := (mem_glyphPlots hnw cell.ch cell.foreground).mp hp
    exact hroom
  · cases hp

/-! ## The grid of a mode -/

/-- A font and a buffer: glyphs of at most 8 by 32 pixels, a mode of any size, and a pitch
and a buffer that are large enough for it. -/
structure Mapped (font : Font) (so : ScanOut) : Prop where
  font_width : font.width ≤ 8
  font_height : font.height ≤ 32
  width_pos : 1 ≤ so.width.toNat
  height_pos : 1 ≤ so.height.toNat
  pitch_ge : 4 * so.width.toNat ≤ so.pitch.toNat
  mem_length : so.pitch.toNat * so.height.toNat ≤ so.mem.length

/-- The grid that `main` gives the terminal: at least one cell. -/
structure ClampedGrid (font : Font) (so : ScanOut) (t : Terminal) : Prop where
  cols_eq : t.cols = max 1 (so.width.toNat / font.width)
  rows_eq : t.rows = max 1 (so.height.toNat / font.height)

/-- All cells but the first end inside the mode. -/
theorem cell_end_le {pixels glyph i : Nat} (hi : i < max 1 (pixels / glyph)) :
    i = 0 ∧ pixels < glyph ∨ i * glyph + glyph ≤ pixels := by
  by_cases h : i < pixels / glyph
  · right
    calc i * glyph + glyph = (i + 1) * glyph := by ring
      _ ≤ pixels / glyph * glyph := Nat.mul_le_mul_right _ h
      _ ≤ pixels := Nat.div_mul_le_self _ _
  · have hzero : i = 0 := by omega
    subst hzero
    rcases Nat.lt_or_ge pixels glyph with hlt | hge
    · exact Or.inl ⟨rfl, hlt⟩
    · right
      omega

section

variable {font : Font} {so : ScanOut} {t : Terminal}

/-- A grid of `u32` sizes has a number of cells that fits a `usize`. -/
theorem ClampedGrid.countFits (hgrid : ClampedGrid font so t) :
    Terminal.CountFits (t.cols, t.rows) := by
  have hc : t.cols < 2 ^ 32 := by
    have hdiv := Nat.div_le_self so.width.toNat font.width
    have hlt := so.width.toNat_lt
    rw [hgrid.cols_eq]
    omega
  have hr : t.rows < 2 ^ 32 := by
    have hdiv := Nat.div_le_self so.height.toNat font.height
    have hlt := so.height.toNat_lt
    rw [hgrid.rows_eq]
    omega
  exact Vec.mul_lt_usizeSize hc hr

variable (h : Mapped font so)

include h

theorem Mapped.pitch_pos : 0 < so.pitch.toNat := by
  have hge := h.pitch_ge
  have hpos := h.width_pos
  omega

/-- A line of the mode has all its pixels in the buffer. -/
theorem Mapped.line_le {y : Nat} (hy : y < so.height.toNat) :
    y * so.pitch.toNat + 4 * so.width.toNat ≤ so.mem.length := by
  have hpitch := h.pitch_ge
  have hmem := h.mem_length
  have hrow : (y + 1) * so.pitch.toNat ≤ so.height.toNat * so.pitch.toNat :=
    Nat.mul_le_mul_right _ hy
  rw [Nat.succ_mul, Nat.mul_comm so.height.toNat] at hrow
  omega

variable (hgrid : ClampedGrid font so t) {r c : Nat} (hr : r < t.rows) (hc : c < t.cols)

include hgrid hr hc

/-- No offset of a cell wraps, not even in the one cell that is larger than the mode. -/
theorem Mapped.noWrap :
    NoWrap so.pitch.toNat (c * font.width) (r * font.height) font.width font.height := by
  have hwidth := h.font_width
  have hheight := h.font_height
  have hpitch := h.pitch_ge
  have hlt := so.pitch.toNat_lt
  have hrows := so.height.toNat_lt
  rw [hgrid.rows_eq] at hr
  rw [hgrid.cols_eq] at hc
  refine ⟨hlt, ?_, ?_⟩
  · rcases cell_end_le hr with ⟨rfl, -⟩ | hend <;> omega
  · rcases cell_end_le hc with ⟨rfl, -⟩ | hend <;> omega

end

/-- Below a display lower than a glyph, every line that has room in the buffer for one
glyph has room for all cells with a background. -/
def BackgroundFits (font : Font) (so : ScanOut) (t : Terminal) : Prop :=
  ∀ y < font.height, so.height.toNat ≤ y →
    y * so.pitch.toNat + font.width * 4 ≤ so.mem.length →
      ∀ c < t.cols, (t.cell 0 c).bg ≠ none →
        y * so.pitch.toNat + (c + 1) * font.width * 4 ≤ so.mem.length

/-- One cell: its glyph is always inside, its background if the condition holds. -/
theorem Mapped.cellPlots_inRange_iff {font : Font} {so : ScanOut} {t : Terminal}
    (h : Mapped font so) (hgrid : ClampedGrid font so t) {r c : Nat} (hr : r < t.rows)
    (hc : c < t.cols) :
    InRange so.mem.length (cellPlots so.pitch.toNat font t so.mem.length r c) ↔
      ((t.cell r c).bg ≠ none → ∀ y < font.height,
        (r * font.height + y) * so.pitch.toNat + font.width * 4 ≤ so.mem.length →
          (r * font.height + y) * so.pitch.toNat + (c + 1) * font.width * 4 ≤ so.mem.length) := by
  have hnw := h.noWrap hgrid hr hc
  have hright := hnw.right
  have hbottom := hnw.bottom
  have hsize : Vec.usizeSize = 2 ^ 64 := rfl
  rw [cellPlots, Vec.umul_eq (a := c) (by omega), Vec.umul_eq (a := r) (by omega), inRange_append,
    and_iff_left (charPlots_inRange hnw _ _), backgroundPlots]
  cases (t.cell r c).bg with
  | none => simp [InRange]
  | some bg =>
      have hmul : (c + 1) * font.width = c * font.width + font.width := by ring
      simp only [fillPlots_inRange_iff hnw font.width_pos, hmul, ne_eq, reduceCtorEq,
        not_false_eq_true, true_imp_iff]

/-- Only lines below the display matter, and only the first row of cells reaches them. -/
theorem Mapped.cells_inRange_iff {font : Font} {so : ScanOut} {t : Terminal}
    (h : Mapped font so) (hgrid : ClampedGrid font so t) :
    (∀ r < t.rows, ∀ c < t.cols,
      InRange so.mem.length (cellPlots so.pitch.toNat font t so.mem.length r c)) ↔
      BackgroundFits font so t := by
  constructor
  · intro hall y hy _ hroom c hc hbg
    have hrows : 0 < t.rows := by
      rw [hgrid.rows_eq]
      omega
    have hcell := (h.cellPlots_inRange_iff hgrid hrows hc).mp (hall 0 hrows c hc) hbg y hy
    rw [Nat.zero_mul, Nat.zero_add] at hcell
    exact hcell hroom
  · intro hfits r hr c hc
    refine (h.cellPlots_inRange_iff hgrid hr hc).mpr ?_
    intro hbg y hy hroom
    rw [hgrid.rows_eq] at hr
    rcases Nat.lt_or_ge (r * font.height + y) so.height.toNat with hin | hout
    · -- a line of the display
      have hline := h.line_le hin
      have hmul : (c + 1) * font.width = c * font.width + font.width := by ring
      rw [hgrid.cols_eq] at hc
      rcases cell_end_le hc with ⟨rfl, -⟩ | hend <;> omega
    · -- a line below it
      rcases cell_end_le hr with ⟨rfl, -⟩ | hend
      · rw [Nat.zero_mul, Nat.zero_add] at hout hroom ⊢
        exact hfits y hy hout hroom c hc hbg
      · omega

/-- For every display, font, pitch and buffer, and every terminal of the size that `main`
computes: `Terminal::render` returns, with every slice inside the buffer, if and only if
the backgrounds fit. -/
theorem render_inBounds_iff (font : Font) (t : Terminal) (w : World) (so : ScanOut)
    (hso : w.drm.scanout = some so) (hmapped : Mapped font so) (ht : Terminal.Reached t)
    (hgrid : ClampedGrid font so t) :
    (∃ r, t.render w font = .ok r) ↔ BackgroundFits font so t := by
  have hinv := ht.inv hgrid.countFits
  have htrace := traces_drawTerminal hmapped.font_width hmapped.font_height hinv
    hmapped.pitch_pos so.width so.mem.length so.mem rfl
  have hrender : (∃ r, t.render w font = .ok r) ↔
      ∃ mem, drawTerminal font t so.pitch so.width so.mem = .ok mem := by
    constructor
    · rintro ⟨r, hr⟩
      rw [Terminal.render, hso] at hr
      obtain ⟨mem, hdraw, -⟩ := of_bind_ok hr
      exact ⟨mem, hdraw⟩
    · rintro ⟨mem, hdraw⟩
      exact ⟨_, render_of_draw hso hdraw⟩
  have hwrites : (∃ mem, drawTerminal font t so.pitch so.width so.mem = .ok mem) ↔
      InRange so.mem.length
        (terminalPlots font t so.pitch.toNat so.width.toNat so.mem.length) := by
    rw [htrace, foldlM_ok_iff paints_put]
    simp only [put_ok_iff]
    rfl
  rw [hrender, hwrites, ← hmapped.cells_inRange_iff hgrid, terminalPlots, inRange_append,
    and_iff_right (clearPlots_inRange _ _ _ _)]
  simp only [inRange_flatMap, List.mem_range]

/-! ## A cell that is not inside -/

/-- A font of one pixel a row. -/
def narrowFont : Font where
  width := 1
  height := 2
  data := solidGlyphs
  width_pos := Nat.le_refl 1
  height_pos := Nat.succ_pos 1
  data_length := length_solidGlyphs

/-- A display of 3 by 1 pixels in a buffer with 4 bytes to spare. -/
def lowScreen : ScanOut :=
  { fbId := 1, dumbHandle := 1, map := 0, mapLen := 16, pitch := 12, width := 3, height := 1
    mem := List.replicate 16 0 }

/-- Two spaces on red. -/
def redCells : Terminal :=
  { cols := 3, rows := 1, cells := [⟨0x20, none, some 1⟩, ⟨0x20, none, some 1⟩, blank]
    cursorRow := 0, cursorCol := 2, esc := .none, dirty := true, csiParams := [41], csiCur := none
    curFg := none, curBg := some 1, bold := false }

theorem reached_redCells : Terminal.Reached redCells :=
  ⟨3, 1, [0x1b, 0x5b, 0x34, 0x31, 0x6d, 0x20, 0x20].map .byte, by decide, by decide, rfl⟩

theorem mapped_lowScreen : Mapped narrowFont lowScreen where
  font_width := by decide
  font_height := by decide
  width_pos := by decide
  height_pos := by decide
  pitch_ge := by decide
  mem_length := by decide

/-- The display of 3 by 1 pixels is on. -/
def lowWorld : World :=
  { drm := { connectorId := 1, crtcId := 1, scanout := some lowScreen }
    kernel := { ledger := .empty, log := [] } }

theorem render_inBounds_iff_lowScreen :
    (∃ r, redCells.render lowWorld narrowFont = .ok r) ↔
      BackgroundFits narrowFont lowScreen redCells :=
  render_inBounds_iff narrowFont redCells lowWorld lowScreen rfl mapped_lowScreen reached_redCells
    ⟨by decide, by decide⟩

/-- The second line of the second cell begins at the end of the buffer. -/
theorem red_cell_out_of_range :
    Mapped narrowFont lowScreen ∧ Terminal.Reached redCells ∧
      ClampedGrid narrowFont lowScreen redCells ∧
      redCells.render lowWorld narrowFont = .error .sliceOutOfRange :=
  ⟨mapped_lowScreen, reached_redCells, ⟨by decide, by decide⟩, rfl⟩

end K1de
