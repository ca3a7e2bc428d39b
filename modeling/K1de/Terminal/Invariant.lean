import K1de.Terminal.Model

/-! # The terminal's representation invariant

`Inv` says what every reachable terminal looks like. The cursor column may equal
`cols`: the wrap after the last column is put off until the next character.

Under `Inv` no checked operation of the model fails, so each function agrees
with a pure one (`newline_ok`, `put_ok`, ...), and the pure ones keep `Inv`. The
run lemma `reachable_inv` puts them together for every sequence of bytes and
resizes whose cell counts do not overflow `usize`.
-/

namespace K1de

open Fallible

/-- A colour is absent or one of the 16. -/
def ColourOk (c : Option UInt8) : Prop := ∀ i, c = some i → i < 16

/-- A cell holds a printable character and palette colours. -/
structure Cell.Ok (c : Cell) : Prop where
  ch_ge : 0x20 ≤ c.ch
  ch_le : c.ch ≤ 0x7e
  fg_ok : ColourOk c.fg
  bg_ok : ColourOk c.bg

theorem colourOk_none : ColourOk none := by
  intro i hi
  cases hi

theorem colourOk_some {c : UInt8} (h : c < 16) : ColourOk (some c) := by
  intro i hi
  cases hi
  exact h

theorem blank_ok : blank.Ok where
  ch_ge := by decide
  ch_le := by decide
  fg_ok := colourOk_none
  bg_ok := colourOk_none

namespace Terminal

structure Inv (t : Terminal) : Prop where
  cols_pos : 1 ≤ t.cols
  rows_pos : 1 ≤ t.rows
  cells_length : t.cells.length = t.cols * t.rows
  /-- the grid was allocated, so sums of cell indices stay far below `2 ^ 64` -/
  cells_fit : cellSize * t.cells.length ≤ Vec.isizeMax
  row_lt : t.cursorRow < t.rows
  col_le : t.cursorCol ≤ t.cols
  curFg_ok : ColourOk t.curFg
  curBg_ok : ColourOk t.curBg
  cells_ok : ∀ c ∈ t.cells, c.Ok

/-! ## What a display shows -/

/-- The part of a terminal that can be seen or that later output depends on:
everything but the parser state and the `dirty` flag. -/
structure Screen where
  cols : Nat
  rows : Nat
  cells : List Cell
  cursorRow : Nat
  cursorCol : Nat
  curFg : Option UInt8
  curBg : Option UInt8
  bold : Bool
deriving DecidableEq, Repr

def screen (t : Terminal) : Screen :=
  { cols := t.cols, rows := t.rows, cells := t.cells, cursorRow := t.cursorRow,
    cursorCol := t.cursorCol, curFg := t.curFg, curBg := t.curBg, bold := t.bold }

/-- The invariant is about the screen only. -/
theorem Inv.of_screen {t t' : Terminal} (h : Inv t) (hs : t'.screen = t.screen) : Inv t' := by
  simp only [screen, Screen.mk.injEq] at hs
  obtain ⟨hcols, hrows, hcells, hrow, hcol, hfg, hbg, -⟩ := hs
  constructor
  · rw [hcols]; exact h.cols_pos
  · rw [hrows]; exact h.rows_pos
  · rw [hcells, hcols, hrows]; exact h.cells_length
  · rw [hcells]; exact h.cells_fit
  · rw [hrow, hrows]; exact h.row_lt
  · rw [hcol, hcols]; exact h.col_le
  · rw [hfg]; exact h.curFg_ok
  · rw [hbg]; exact h.curBg_ok
  · rw [hcells]; exact h.cells_ok

/-- New contents of the same size and a cursor on the grid keep the invariant. -/
theorem Inv.update {t : Terminal} (h : Inv t) {cells : List Cell} {row col : Nat}
    (hlen : cells.length = t.cells.length) (hok : ∀ c ∈ cells, c.Ok)
    (hrow : row < t.rows) (hcol : col ≤ t.cols) :
    Inv { t with cells := cells, cursorRow := row, cursorCol := col } where
  cols_pos := h.cols_pos
  rows_pos := h.rows_pos
  cells_length := hlen.trans h.cells_length
  cells_fit := by
    show cellSize * cells.length ≤ Vec.isizeMax
    rw [hlen]
    exact h.cells_fit
  row_lt := hrow
  col_le := hcol
  curFg_ok := h.curFg_ok
  curBg_ok := h.curBg_ok
  cells_ok := hok

/-- A row lies inside the grid. -/
theorem Inv.rowEnd_le {t : Terminal} (h : Inv t) {r : Nat} (hr : r < t.rows) :
    r * t.cols + t.cols ≤ t.cells.length := by
  have hrow : r + 1 ≤ t.rows := hr
  calc r * t.cols + t.cols = (r + 1) * t.cols := by ring
    _ ≤ t.rows * t.cols := Nat.mul_le_mul_right _ hrow
    _ = t.cells.length := by rw [h.cells_length, Nat.mul_comm]

/-- The index of a cell of the grid is in range. -/
theorem Inv.index_lt {t : Terminal} (h : Inv t) {r c : Nat} (hr : r < t.rows) (hc : c < t.cols) :
    r * t.cols + c < t.cells.length :=
  lt_of_lt_of_le (Nat.add_lt_add_left hc _) (h.rowEnd_le hr)

/-- The row of the cursor lies inside the grid. -/
theorem Inv.row_end_le {t : Terminal} (h : Inv t) :
    t.cursorRow * t.cols + t.cols ≤ t.cells.length :=
  h.rowEnd_le h.row_lt

theorem Inv.cols_le {t : Terminal} (h : Inv t) : t.cols ≤ t.cells.length :=
  le_trans (Nat.le_add_left _ _) h.row_end_le

/-- A filled grid keeps the invariant. -/
theorem Inv.filled {t : Terminal} (h : Inv t) {a b row col : Nat} (hab : a ≤ b)
    (hb : b ≤ t.cells.length) (hrow : row < t.rows) (hcol : col ≤ t.cols) :
    Inv { t with cells := Vec.filled t.cells a b blank, cursorRow := row, cursorCol := col } := by
  apply h.update (Vec.length_filled blank hab hb) _ hrow hcol
  intro c hc
  rcases Vec.mem_filled hc with rfl | hc
  · exact blank_ok
  · exact h.cells_ok c hc

/-! ## New line and output -/

/-- `newline` where nothing fails. -/
def newlined (t : Terminal) : Terminal :=
  if t.cursorRow + 1 ≥ t.rows then
    { t with
      cells := t.cells.drop t.cols ++ List.replicate t.cols blank
      cursorCol := 0 }
  else
    { t with cursorRow := t.cursorRow + 1, cursorCol := 0 }

/-- A new line fails only in a grid with less than a row of cells. -/
theorem newline_ok {t : Terminal} (h : t.cols ≤ t.cells.length) :
    t.newline = .ok t.newlined := by
  unfold newline newlined
  split
  · have hscroll : t.scrollUp = .ok (t.cells.drop t.cols ++ List.replicate t.cols blank) :=
      Vec.scroll_ok blank h
    rw [hscroll]
    rfl
  · rfl

/-- At the last row the grid scrolls: the first row goes, a blank one comes. -/
theorem Inv.newlined {t : Terminal} (h : Inv t) : Inv t.newlined := by
  unfold Terminal.newlined
  split
  · -- the scrolled grid: what is left, and a blank line
    apply h.update _ _ h.row_lt (Nat.zero_le _)
    · have := h.cols_le
      simp only [List.length_append, List.length_drop, List.length_replicate]
      omega
    · intro c hc
      rcases List.mem_append.mp hc with hc | hc
      · exact h.cells_ok c (List.mem_of_mem_drop hc)
      · rw [List.eq_of_mem_replicate hc]
        exact blank_ok
  · exact h.update rfl h.cells_ok (by omega) (Nat.zero_le _)

/-- `wrap` where nothing fails. -/
def wrapped (t : Terminal) : Terminal :=
  if t.cursorCol ≥ t.cols then t.newlined else t

theorem wrap_ok {t : Terminal} (h : t.cols ≤ t.cells.length) : t.wrap = .ok t.wrapped := by
  unfold wrap wrapped
  split
  · exact newline_ok h
  · rfl

/-- The wrap is a new line, or nothing. -/
theorem Inv.wrapped {t : Terminal} (h : Inv t) : Inv t.wrapped := by
  unfold Terminal.wrapped
  split
  · exact h.newlined
  · exact h

theorem newlined_cols (t : Terminal) : t.newlined.cols = t.cols := by
  unfold newlined
  split <;> rfl

theorem newlined_cursorCol (t : Terminal) : t.newlined.cursorCol = 0 := by
  unfold newlined
  split <;> rfl

/-- After the wrap there is room in the row. -/
theorem Inv.wrapped_col_lt {t : Terminal} (h : Inv t) : t.wrapped.cursorCol < t.wrapped.cols := by
  unfold Terminal.wrapped
  split
  · rw [newlined_cols, newlined_cursorCol]
    exact h.cols_pos
  · omega

/-- `put` where nothing fails. -/
def putted (t : Terminal) (ch : UInt8) : Terminal :=
  { t.wrapped with
    cells := t.wrapped.cells.set (t.wrapped.cursorRow * t.wrapped.cols + t.wrapped.cursorCol)
      (t.wrapped.penCell ch)
    cursorCol := t.wrapped.cursorCol + 1 }

/-- After the wrap the cursor is on a cell, so nothing fails. -/
theorem put_ok {t : Terminal} (h : Inv t) (ch : UInt8) : t.put ch = .ok (t.putted ch) := by
  have hidx : t.wrapped.cursorRow * t.wrapped.cols + t.wrapped.cursorCol
      < t.wrapped.cells.length := by
    have h1 := h.wrapped.row_end_le
    have h2 := h.wrapped_col_lt
    omega
  unfold put
  rw [wrap_ok h.cols_le, ok_bind, Vec.setIndex_ok _ hidx]
  rfl

/-- Brightening a palette colour gives a palette colour. -/
theorem bright_lt : ∀ c : UInt8, c < 16 → c ||| 0x8 < 16 := by decide +kernel

/-- What the pen prints is a cell of the palette, bold or not. -/
theorem Inv.penCell_ok {t : Terminal} (h : Inv t) {ch : UInt8} (hlo : 0x20 ≤ ch)
    (hhi : ch ≤ 0x7e) : (t.penCell ch).Ok where
  ch_ge := hlo
  ch_le := hhi
  fg_ok := by
    intro i hi
    simp only [penCell, Option.map_eq_some_iff] at hi
    obtain ⟨c, hc, rfl⟩ := hi
    have hlt : c < 16 := h.curFg_ok c hc
    split
    · exact bright_lt c hlt
    · exact hlt
  bg_ok := h.curBg_ok

/-- So printing keeps the invariant. -/
theorem Inv.putted {t : Terminal} (h : Inv t) {ch : UInt8} (hlo : 0x20 ≤ ch)
    (hhi : ch ≤ 0x7e) : Inv (t.putted ch) := by
  apply h.wrapped.update (by simp) _ h.wrapped.row_lt h.wrapped_col_lt
  intro c hc
  rcases List.mem_or_eq_of_mem_set hc with hc | rfl
  · exact h.wrapped.cells_ok c hc
  · exact h.wrapped.penCell_ok hlo hhi

end Terminal

end K1de
