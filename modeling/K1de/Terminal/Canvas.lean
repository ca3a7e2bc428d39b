import K1de.Lib.Grid
import K1de.Terminal.Sgr

/-! # The terminal as a scanner and a canvas

Two machines that know nothing of each other. The scanner takes bytes and gives out commands
(`Scanner.scan`); it never looks at the screen. The canvas takes commands (`Canvas.draw`); it has
rows and columns instead of a slice of cells, and no command can fail. The terminal is the two
put in series: for every byte and every resize, from any state that satisfies the invariant
(`run_view`).

The canvas says what the code does, oddities included: a line is erased up to the margin, but a
wrap that is pending makes `CSI 1 J` reach into the next row, and `CSI 2 J` moves the cursor.
-/

namespace K1de

open Fallible

/-! ## Commands -/

/-- What the scanner can ask of the canvas. -/
inductive Command where
  | print (ch : UInt8)
  | lineFeed
  | carriageReturn
  | tab
  | back
  | eraseLine (n : UInt32)
  | eraseDisplay (n : UInt32)
  | forward (n : Nat)
  | backward (n : Nat)
  | column (n : Nat)
  | position (row col : Nat)
  | sgr (ps : List UInt32)
deriving DecidableEq, Repr

/-- The command of a byte outside of a sequence. -/
def groundCommand (b : UInt8) : Option Command :=
  if b = 0x0a then some .lineFeed
  else if b = 0x0d then some .carriageReturn
  else if b = 0x09 then some .tab
  else if b = 0x08 ∨ b = 0x7f then some .back
  else if 0x20 ≤ b ∧ b ≤ 0x7e then some (.print b)
  else none

/-- A parameter by index, or `default` if it is absent or `0`. -/
def paramOr (ps : List UInt32) (i : Nat) (default : UInt32) : UInt32 :=
  match ps[i]? with
  | some v => if v = 0 then default else v
  | none => default

/-- The command of a control sequence. -/
def csiCommand (ps : List UInt32) (final : UInt8) : Option Command :=
  if final = 0x4b then some (.eraseLine (paramOr ps 0 0))
  else if final = 0x4a then some (.eraseDisplay (paramOr ps 0 0))
  else if final = 0x43 then some (.forward (paramOr ps 0 1).toNat)
  else if final = 0x44 then some (.backward (paramOr ps 0 1).toNat)
  else if final = 0x47 then some (.column (paramOr ps 0 1).toNat)
  else if final = 0x48 ∨ final = 0x66 then
    some (.position (paramOr ps 0 1).toNat (paramOr ps 1 1).toNat)
  else if final = 0x6d then some (.sgr ps)
  else none

/-! ## The scanner -/

/-- Where the scanner is, and the numbers that it has collected. -/
structure Scanner where
  esc : EscState
  collected : Collected
deriving DecidableEq, Repr

namespace Scanner

/-- The state after a byte that follows `ESC`. -/
def afterEsc (s : Scanner) (b : UInt8) : Scanner :=
  if b = 0x5b then { esc := .csi, collected := { params := [], cur := none } }
  else if b = 0x5d then { s with esc := .osc }
  else if b = 0x50 then { s with esc := .dcs }
  else if b = 0x28 ∨ b = 0x29 ∨ b = 0x2a ∨ b = 0x2b then { s with esc := .charset }
  else { s with esc := .none }

/-- The state after a byte of a string, or of the name of a character set. -/
def swallow (e : EscState) (b : UInt8) : EscState :=
  match e with
  | .osc => if b = 0x07 then .none else if b = 0x1b then .oscEsc else .osc
  | .oscEsc => if b = 0x5c then .none else .osc
  | .dcs => if b = 0x1b then .dcsEsc else .dcs
  | .dcsEsc => if b = 0x5c then .none else .dcs
  | _ => .none

/-- One byte. -/
def scan (s : Scanner) (b : UInt8) : Scanner × Option Command :=
  match s.esc with
  | .none => if b = 0x1b then ({ s with esc := .esc }, none) else (s, groundCommand b)
  | .esc => (s.afterEsc b, none)
  | .csi =>
      if Final b then
        ({ esc := .none, collected := { params := s.collected.all, cur := none } },
          csiCommand s.collected.all b)
      else ({ s with collected := collect s.collected b }, none)
  | .osc | .oscEsc | .dcs | .dcsEsc | .charset => ({ s with esc := swallow s.esc b }, none)

end Scanner

/-! ## The canvas -/

/-- The cell that a pen writes. -/
def Pen.cell (p : Pen) (ch : UInt8) : Cell :=
  { ch, fg := p.fg.map fun c => if p.bold then c ||| 0x8 else c, bg := p.bg }

/-- Cells by row and column, blank outside of the display. -/
structure Canvas where
  cols : Nat
  rows : Nat
  cell : Nat → Nat → Cell
  row : Nat
  col : Nat
  pen : Pen

namespace Canvas

/-- The cells of a region overwritten. -/
def paint (p : Canvas) (region : Nat → Nat → Prop) [∀ r c, Decidable (region r c)] (x : Cell) :
    Canvas :=
  { p with cell := fun r c => if region r c then x else p.cell r c }

def lineFeed (p : Canvas) : Canvas :=
  if p.row + 1 < p.rows then { p with row := p.row + 1, col := 0 }
  else { p with cell := fun r c => p.cell (r + 1) c, col := 0 }

def print (p : Canvas) (ch : UInt8) : Canvas :=
  let p := if p.col < p.cols then p else p.lineFeed
  { p.paint (fun r c => r = p.row ∧ c = p.col) (p.pen.cell ch) with col := p.col + 1 }

/-- The column of the next tab stop, or the right margin. -/
def tabStop (p : Canvas) : Nat := min ((p.col / 8 + 1) * 8) p.cols

/-- A tab writes blanks in the colours of the pen. -/
def tab (p : Canvas) : Canvas :=
  { p.paint (fun r c => r = p.row ∧ p.col ≤ c ∧ c < p.tabStop) (p.pen.cell 0x20) with
    col := p.tabStop }

def eraseLine (p : Canvas) (n : UInt32) : Canvas :=
  if n = 0 then p.paint (fun r c => r = p.row ∧ p.col ≤ c) blank
  else if n = 1 then p.paint (fun r c => r = p.row ∧ c ≤ p.col) blank
  else if n = 2 then p.paint (fun r _ => r = p.row) blank
  else p

def eraseDisplay (p : Canvas) (n : UInt32) : Canvas :=
  if n = 0 then p.paint (fun r c => p.row < r ∨ p.row = r ∧ p.col ≤ c) blank
  else if n = 1 then
    -- with a wrap pending the cursor counts as the first cell of the next row
    p.paint (fun r c => r < p.row ∨ r = p.row ∧ c ≤ p.col ∨
      p.col = p.cols ∧ r = p.row + 1 ∧ c = 0) blank
  else if n = 2 ∨ n = 3 then { p with cell := fun _ _ => blank, row := 0, col := 0 }
  else p

def draw (p : Canvas) : Command → Canvas
  | .print ch => p.print ch
  | .lineFeed => p.lineFeed
  | .carriageReturn => { p with col := 0 }
  | .tab => p.tab
  | .back => { p with col := p.col - 1 }
  | .eraseLine n => p.eraseLine n
  | .eraseDisplay n => p.eraseDisplay n
  | .forward n => { p with col := min (p.col + n) (p.cols - 1) }
  | .backward n => { p with col := p.col - n }
  | .column n => { p with col := min (n - 1) (p.cols - 1) }
  | .position row col =>
      { p with row := min (row - 1) (p.rows - 1), col := min (col - 1) (p.cols - 1) }
  | .sgr ps => { p with pen := (Terminal.sgrWrites ps).apply p.pen }

/-- A new size blanks the canvas. -/
def resize (p : Canvas) (cols rows : Nat) : Canvas :=
  if cols = p.cols ∧ rows = p.rows then p
  else
    { p with
      cols := max cols 1
      rows := max rows 1
      cell := fun _ _ => blank
      row := 0
      col := 0 }

end Canvas

/-- The two machines in series. -/
structure View where
  scanner : Scanner
  canvas : Canvas

def View.step (v : View) : Terminal.Op → View
  | .byte b =>
      { scanner := (v.scanner.scan b).1
        canvas := (v.scanner.scan b).2.elim v.canvas v.canvas.draw }
  | .resize cols rows => { v with canvas := v.canvas.resize cols rows }

namespace Terminal

/-! ## The mapping -/

def scanner (t : Terminal) : Scanner := { esc := t.esc, collected := ⟨t.csiParams, t.csiCur⟩ }

def canvas (t : Terminal) : Canvas :=
  { cols := t.cols
    rows := t.rows
    cell := Grid.read blank t.cols t.cells
    row := t.cursorRow
    col := t.cursorCol
    pen := t.pen }

def view (t : Terminal) : View := { scanner := t.scanner, canvas := t.canvas }

/-- The operation returns, leaves the scanner alone, and the canvas is as given. -/
def Draws (t : Terminal) (r : Except Fault Terminal) (p : Canvas) : Prop :=
  ∃ t', r = .ok t' ∧ t'.scanner = t.scanner ∧ t'.canvas = p

/-! ## Output -/

theorem scanner_newlined (t : Terminal) : t.newlined.scanner = t.scanner := by
  unfold newlined
  split <;> rfl

section

variable {t : Terminal} (h : Inv t)

include h

/-- A new line goes down, or scrolls. -/
theorem canvas_newlined : t.newlined.canvas = t.canvas.lineFeed := by
  have hrow := h.row_lt
  unfold newlined Canvas.lineFeed
  by_cases hlast : t.cursorRow + 1 ≥ t.rows
  · rw [if_pos hlast, if_neg (show ¬ t.canvas.row + 1 < t.canvas.rows from Nat.not_lt.mpr hlast)]
    unfold canvas
    congr 1
    funext r c
    exact Grid.read_scroll h.cols_le
  · rw [if_neg hlast, if_pos (show t.canvas.row + 1 < t.canvas.rows from Nat.not_le.mp hlast)]
    rfl

theorem newline_draws : Draws t t.newline t.canvas.lineFeed :=
  ⟨_, newline_ok h.cols_le, scanner_newlined t, canvas_newlined h⟩

/-- The wrap is the line feed in front of a character without room. -/
theorem canvas_wrapped :
    t.wrapped.canvas = if t.canvas.col < t.canvas.cols then t.canvas else t.canvas.lineFeed := by
  unfold wrapped
  by_cases hfull : t.cursorCol ≥ t.cols
  · rw [if_pos hfull, if_neg (show ¬ t.canvas.col < t.canvas.cols from Nat.not_lt.mpr hfull)]
    exact canvas_newlined h
  · rw [if_neg hfull, if_pos (show t.canvas.col < t.canvas.cols from Nat.not_le.mp hfull)]

/-- One cell is written, with the pen. -/
theorem canvas_putted (ch : UInt8) : (t.putted ch).canvas = t.canvas.print ch := by
  have hcol := h.wrapped_col_lt
  have hin := h.wrapped.index_lt h.wrapped.row_lt hcol
  unfold Canvas.print
  dsimp only
  rw [← canvas_wrapped h]
  unfold canvas Canvas.paint
  congr 1
  funext r c
  exact Grid.read_set hcol hin _

/-- Printing returns, and is what the canvas does. -/
theorem put_draws (ch : UInt8) : Draws t (t.put ch) (t.canvas.print ch) := by
  refine ⟨_, put_ok h ch, ?_, canvas_putted h ch⟩
  show t.wrapped.scanner = t.scanner
  unfold wrapped
  split
  · exact scanner_newlined t
  · rfl

end

/-! ## Tabs -/

end Terminal

namespace Canvas

/-- Blanks up to column `stop`. -/
def tabTo (p : Canvas) (stop : Nat) : Canvas :=
  { p.paint (fun r c => r = p.row ∧ p.col ≤ c ∧ c < stop) (p.pen.cell 0x20) with col := stop }

theorem tabTo_self (p : Canvas) : p.tabTo p.col = p := by
  unfold tabTo paint
  have hcell : (fun r c => if r = p.row ∧ p.col ≤ c ∧ c < p.col then p.pen.cell 0x20
      else p.cell r c) = p.cell := by
    funext r c
    exact if_neg (by omega)
  rw [hcell]

/-- A character that needs no wrap. -/
theorem print_room {p : Canvas} (hcol : p.col < p.cols) (ch : UInt8) :
    p.print ch =
      { p with
        cell := fun r c => if r = p.row ∧ c = p.col then p.pen.cell ch else p.cell r c
        col := p.col + 1 } := by
  unfold print
  dsimp only
  rw [if_pos hcol]
  rfl

/-- The first blank is printed, the others follow. -/
theorem tabTo_print {p : Canvas} {stop : Nat} (hstop : p.col < stop) (hcol : p.col < p.cols) :
    (p.print 0x20).tabTo stop = p.tabTo stop := by
  have hcell : ∀ r c,
      (if r = p.row ∧ p.col + 1 ≤ c ∧ c < stop then p.pen.cell 0x20
        else if r = p.row ∧ c = p.col then p.pen.cell 0x20 else p.cell r c) =
      if r = p.row ∧ p.col ≤ c ∧ c < stop then p.pen.cell 0x20 else p.cell r c := by
    intro r c
    by_cases hfirst : r = p.row ∧ c = p.col
    · rw [if_pos hfirst, ite_self, if_pos (by omega)]
    · rw [if_neg hfirst]
      exact if_congr (by omega) rfl rfl
  rw [print_room hcol]
  exact congrArg (fun cell => { p with cell, col := stop }) (funext₂ hcell)

end Canvas

namespace Terminal

/-- The loop is at its end. -/
theorem tabTo_done {t : Terminal} {next : Nat} (hcol : t.cursorCol ≤ min next t.cols)
    (hstop : ¬ (t.cursorCol < next ∧ t.cursorCol < t.cols)) :
    t.canvas.tabTo (min next t.cols) = t.canvas := by
  have hself : min next t.cols = t.canvas.col := show _ = t.cursorCol by omega
  rw [hself]
  exact t.canvas.tabTo_self

/-- Spaces are printed up to the tab stop, or to the end of the row: a tab does not wrap. -/
theorem tabLoop_draws {t : Terminal} (h : Inv t) {next fuel : Nat}
    (hcol : t.cursorCol ≤ min next t.cols) (hfuel : next - t.cursorCol ≤ fuel) :
    Draws t (tabLoop next fuel t) (t.canvas.tabTo (min next t.cols)) := by
  induction fuel generalizing t with
  | zero =>
      rw [tabTo_done hcol (by omega)]
      exact ⟨t, rfl, rfl, rfl⟩
  | succ fuel ih =>
      unfold tabLoop
      split
      · next hroom =>
          obtain ⟨t₁, hput, hscanner, hcanvas⟩ := put_draws h 0x20
          have hkeeps : Keeps t t₁ := by
            have hsafe : Safe t (t.put 0x20) := put_safe h (by decide) (by decide)
            rw [hput] at hsafe
            exact hsafe
          -- before the last column a space moves the cursor by one, so the fuel suffices
          have hcol₁ := put_cursorCol hroom.2 hput
          have hcols₁ := hkeeps.cols_eq
          obtain ⟨t', ht', hscanner', hcanvas'⟩ := ih hkeeps.inv (by omega) (by omega)
          rw [hput, ok_bind]
          refine ⟨t', ht', hscanner'.trans hscanner, ?_⟩
          rw [hcanvas', hcanvas, hcols₁]
          exact Canvas.tabTo_print (show t.cursorCol < _ by omega) hroom.2
      · next hstop =>
          rw [tabTo_done hcol hstop]
          exact ⟨t, rfl, rfl, rfl⟩

theorem tab_draws {t : Terminal} (h : Inv t) : Draws t t.tab t.canvas.tab := by
  have hcol := h.col_le
  exact tabLoop_draws h (by omega) le_rfl

/-! ## Erasing -/

/-- Clearing a slice clears the region of the same cells. -/
theorem fill_draws {t : Terminal} (h : Inv t) {a b : Nat} (hab : a ≤ b) (hb : b ≤ t.cells.length)
    (region : Nat → Nat → Prop) [∀ r c, Decidable (region r c)]
    (hregion : ∀ r < t.rows, ∀ c < t.cols,
      (a ≤ r * t.cols + c ∧ r * t.cols + c < b) ↔ region r c) :
    Draws t (do
      let cells ← Vec.fill t.cells a b blank
      return { t with cells }) (t.canvas.paint region blank) := by
  rw [Vec.fill_ok blank hab hb]
  refine ⟨_, rfl, rfl, ?_⟩
  unfold canvas Canvas.paint
  congr 1
  funext r c
  show Grid.read blank t.cols (Vec.filled t.cells a b blank) r c =
    if region r c then blank else Grid.read blank t.cols t.cells r c
  rw [Grid.read_filled hab hb]
  by_cases hin : r < t.rows ∧ c < t.cols
  · simp only [hregion r hin.1 c hin.2]
  · -- in the margin everything is blank
    have hmargin : Grid.read blank t.cols t.cells r c = blank := by
      by_cases hc : c < t.cols
      · exact Grid.read_below h.cells_length (by omega)
      · exact Grid.read_margin hc
    rw [hmargin, ite_self, ite_self]

section

variable {t : Terminal} (h : Inv t)

include h

/-- The slices of `CSI K` are the parts of the row that it names. -/
theorem eraseLine_draws : Draws t t.eraseLine (t.canvas.eraseLine (t.csiParam 0 0)) := by
  have hend := h.row_end_le
  have hcol := h.col_le
  have hpos := h.cols_pos
  unfold eraseLine Canvas.eraseLine
  split
  · refine fill_draws h (by omega) hend _ ?_
    intro r _ c hc
    have hlt := Grid.index_lt_iff r t.cursorRow hc hcol
    have hlt' := Grid.index_lt_iff r t.cursorRow hc le_rfl
    show _ ↔ r = t.cursorRow ∧ t.cursorCol ≤ c
    omega
  split
  · rw [Vec.usub_ok hpos, ok_bind]
    refine fill_draws h (by omega) (by omega) _ ?_
    intro r _ c hc
    have hlt := Grid.index_lt_iff r t.cursorRow hc (Nat.zero_le _)
    have hlt' := Grid.index_lt_iff r t.cursorRow hc
      (show min t.cursorCol (t.cols - 1) + 1 ≤ t.cols by omega)
    show _ ↔ r = t.cursorRow ∧ c ≤ t.cursorCol
    omega
  split
  · refine fill_draws h (by omega) hend _ ?_
    intro r _ c hc
    have hlt := Grid.index_lt_iff r t.cursorRow hc (Nat.zero_le _)
    have hlt' := Grid.index_lt_iff r t.cursorRow hc le_rfl
    show _ ↔ r = t.cursorRow
    omega
  · exact ⟨t, rfl, rfl, rfl⟩

/-- The slices of `CSI J` are the parts of the display that it names. With a wrap pending, mode 1
takes one cell of the next row. -/
theorem eraseDisplay_draws : Draws t t.eraseDisplay (t.canvas.eraseDisplay (t.csiParam 0 0)) := by
  have hend := h.row_end_le
  have hcol := h.col_le
  have hpos := h.cols_pos
  unfold eraseDisplay Canvas.eraseDisplay
  split
  · refine fill_draws h (by omega) le_rfl _ ?_
    intro r hr c hc
    have hin := h.index_lt hr hc
    have hlt := Grid.index_lt_iff r t.cursorRow hc hcol
    show _ ↔ t.cursorRow < r ∨ t.cursorRow = r ∧ t.cursorCol ≤ c
    omega
  split
  · rw [Vec.usub_ok (by omega), ok_bind]
    refine fill_draws h (by omega) (by omega) _ ?_
    intro r hr c hc
    have hin := h.index_lt hr hc
    show _ ↔ r < t.cursorRow ∨ r = t.cursorRow ∧ c ≤ t.cursorCol ∨
      t.cursorCol = t.cols ∧ r = t.cursorRow + 1 ∧ c = 0
    -- the slice ends behind the cursor; with a wrap pending that is the first cell of the next row
    rcases Nat.lt_or_ge t.cursorCol t.cols with hroom | hpending
    · have hlt := Grid.index_lt_iff r t.cursorRow hc (Nat.succ_le_of_lt hroom)
      omega
    · have hlt := Grid.index_lt_iff r (t.cursorRow + 1) hc hpos
      rw [Nat.succ_mul] at hlt
      omega
  split
  · rw [Vec.fill_ok blank (Nat.zero_le _) le_rfl]
    refine ⟨_, rfl, rfl, ?_⟩
    unfold canvas
    congr 1
    funext r c
    show Grid.read blank t.cols (Vec.filled t.cells 0 t.cells.length blank) r c = blank
    have hfilled : Vec.filled t.cells 0 t.cells.length blank =
        List.replicate t.cells.length blank := by
      simp [Vec.filled]
    rw [hfilled, Grid.read_replicate]
  · exact ⟨t, rfl, rfl, rfl⟩

/-! ## One byte -/

/-- A control sequence is the command that its final byte names, or none. -/
theorem applyCsi_draws (final : UInt8) :
    Draws t (t.applyCsi final) ((csiCommand t.csiParams final).elim t.canvas t.canvas.draw) := by
  unfold applyCsi csiCommand
  split_ifs
  · exact eraseLine_draws h
  · exact eraseDisplay_draws h
  · -- the motions `C`, `D`, `G` and `H`
    exact ⟨_, rfl, rfl, rfl⟩
  · exact ⟨_, rfl, rfl, rfl⟩
  · exact ⟨_, rfl, rfl, rfl⟩
  · exact ⟨_, rfl, rfl, rfl⟩
  · exact ⟨_, applySgr_eq t, rfl, rfl⟩
  · exact ⟨t, rfl, rfl, rfl⟩

/-- A byte outside of sequences is a command of its own, or none. -/
theorem groundByte_draws {b : UInt8} (hb : b ≠ 0x1b) :
    Draws t (t.groundByte b) ((groundCommand b).elim t.canvas t.canvas.draw) := by
  by_cases hback : b = 0x08 ∨ b = 0x7f
  · rw [groundByte_backspace hback]
    rcases hback with rfl | rfl <;> exact ⟨_, rfl, rfl, rfl⟩
  · unfold groundByte groundCommand
    rw [if_neg hback, if_neg hback, if_neg hb]
    split_ifs
    · exact newline_draws h
    · exact ⟨_, rfl, rfl, rfl⟩
    · exact tab_draws h
    · exact put_draws h b
    · exact ⟨t, rfl, rfl, rfl⟩

end

/-- What a byte does to the two machines, by the state of the scanner. -/
theorem view_step_byte {t : Terminal} {e : EscState} (hesc : t.esc = e) (b : UInt8)
    {s : Scanner} {command : Option Command}
    (hscan : Scanner.scan ⟨e, ⟨t.csiParams, t.csiCur⟩⟩ b = (s, command)) :
    t.view.step (.byte b) = { scanner := s, canvas := command.elim t.canvas t.canvas.draw } := by
  subst hesc
  show View.mk (t.scanner.scan b).1 ((t.scanner.scan b).2.elim t.canvas t.canvas.draw) = _
  rw [show t.scanner.scan b = (s, command) from hscan]

/-- A byte outside of a sequence. -/
theorem ground_view {t : Terminal} (h : Inv t) (hesc : t.esc = .none) (b : UInt8) :
    ∃ t', t.processByte b = .ok t' ∧ t'.view = t.view.step (.byte b) := by
  by_cases hb : b = 0x1b
  · subst hb
    refine ⟨_, processByte_esc hesc, ?_⟩
    rw [view_step_byte hesc _ (if_pos rfl)]
    rfl
  · have hdirty : Inv { t with dirty := true } := h.of_screen rfl
    obtain ⟨t', ht', hscanner, hcanvas⟩ := groundByte_draws hdirty hb
    refine ⟨t', (processByte_ground hesc b).trans ht', ?_⟩
    rw [view_step_byte hesc _ (if_neg hb), view, hscanner, hcanvas, ← hesc]
    rfl

/-- A byte inside of a control sequence. -/
theorem csi_view {t : Terminal} (h : Inv t) (hesc : t.esc = .csi) (b : UInt8) :
    ∃ t', t.processByte b = .ok t' ∧ t'.view = t.view.step (.byte b) := by
  by_cases hb : Final b
  · -- the final byte: the last number joins the parameters, and the command is carried out
    have hcollected : Inv { t with
        dirty := true, csiParams := t.csiParams ++ t.csiCur.toList, csiCur := none } :=
      h.of_screen rfl
    obtain ⟨t', ht', hscanner, hcanvas⟩ := applyCsi_draws hcollected b
    refine ⟨{ t' with esc := .none }, ?_, ?_⟩
    · rw [processByte_final hesc hb, ht', map_ok]
    · have hparams : t'.scanner.collected = ⟨t.csiParams ++ t.csiCur.toList, none⟩ :=
        congrArg Scanner.collected hscanner
      rw [view_step_byte hesc _ (if_pos hb)]
      show View.mk ⟨.none, t'.scanner.collected⟩ t'.canvas = _
      rw [hparams, hcanvas]
      rfl
  · refine ⟨_, (processByte_csi hesc b).trans (csiByte_body _ hb), ?_⟩
    rw [view_step_byte hesc _ (if_neg hb), ← hesc]
    rfl

/-- The byte after `ESC`. -/
theorem esc_view {t : Terminal} (hesc : t.esc = .esc) (b : UInt8) :
    ∃ t', t.processByte b = .ok t' ∧ t'.view = t.view.step (.byte b) := by
  refine ⟨escByte { t with dirty := true } b, ?_, ?_⟩
  · unfold processByte
    dsimp only
    rw [hesc]
  · rw [view_step_byte hesc b rfl, ← hesc]
    unfold escByte Scanner.afterEsc
    split_ifs <;> rfl

/-- Inside of a string a byte moves the scanner only. -/
theorem processByte_swallow {t : Terminal} (hnone : t.esc ≠ .none) (hesc : t.esc ≠ .esc)
    (hcsi : t.esc ≠ .csi) (b : UInt8) :
    t.processByte b = .ok { t with dirty := true, esc := Scanner.swallow t.esc b } := by
  unfold processByte
  dsimp only
  cases he : t.esc with
  | none => exact absurd he hnone
  | esc => exact absurd he hesc
  | csi => exact absurd he hcsi
  | osc | dcs =>
      unfold Scanner.swallow
      split_ifs <;> rfl
  | oscEsc | dcsEsc | charset => rfl

/-- One byte, in any state of the scanner. -/
theorem processByte_view {t : Terminal} (h : Inv t) (b : UInt8) :
    ∃ t', t.processByte b = .ok t' ∧ t'.view = t.view.step (.byte b) := by
  cases hesc : t.esc with
  | none => exact ground_view h hesc b
  | csi => exact csi_view h hesc b
  | esc => exact esc_view hesc b
  | osc | oscEsc | dcs | dcsEsc | charset =>
      refine ⟨_, processByte_swallow (by simp [hesc]) (by simp [hesc]) (by simp [hesc]) b, ?_⟩
      rw [view_step_byte hesc b rfl, hesc]
      rfl

/-! ## Runs -/

/-- A grid of this size can be allocated. -/
def Allocates (size : Nat × Nat) : Prop := CountFits size ∧ ¬ TooLarge size

instance : DecidablePred Allocates := fun _ => inferInstanceAs (Decidable (_ < _ ∧ ¬ _ < _))

/-- A resize to another size starts from an empty canvas, and the scanner goes on where it was. -/
theorem resize_view (t : Terminal) {cols rows : Nat}
    (hsize : Allocates (max cols 1, max rows 1)) :
    ∃ t', t.resize cols rows = .ok t' ∧ t'.view = t.view.step (.resize cols rows) := by
  have hcells : blankCells (max cols 1) (max rows 1) =
      .ok (List.replicate (max cols 1 * max rows 1) blank) := by
    have hsat := blankCells_sat hsize.1
    cases hr : blankCells (max cols 1) (max rows 1) with
    | ok cells =>
        rw [hr] at hsat
        rw [hsat.1]
    | error f =>
        rw [hr] at hsat
        exact absurd hsat.2 hsize.2
  have hstep : t.view.step (.resize cols rows) = ⟨t.scanner, t.canvas.resize cols rows⟩ := rfl
  rw [hstep]
  unfold resize Canvas.resize
  by_cases hsame : cols = t.cols ∧ rows = t.rows
  · rw [if_pos hsame, if_pos (show cols = t.canvas.cols ∧ rows = t.canvas.rows from hsame)]
    exact ⟨t, rfl, rfl⟩
  · rw [if_neg hsame, if_neg (show ¬ (cols = t.canvas.cols ∧ rows = t.canvas.rows) from hsame),
      hcells]
    refine ⟨_, rfl, ?_⟩
    have hblank : Grid.read blank (max cols 1) (List.replicate (max cols 1 * max rows 1) blank) =
        fun _ _ => blank :=
      funext₂ fun r c => Grid.read_replicate _
    unfold view canvas
    rw [hblank]
    rfl

/-- One byte or one resize. -/
theorem step_view {t : Terminal} (h : Inv t) (op : Op)
    (hsize : ∀ cols rows, op = .resize cols rows → Allocates (max cols 1, max rows 1)) :
    ∃ t', t.step op = .ok t' ∧ Inv t' ∧ t'.view = t.view.step op := by
  cases op with
  | byte b =>
      obtain ⟨t', ht', hview⟩ := processByte_view h b
      have hkeeps := processByte_keeps h b
      rw [ht'] at hkeeps
      exact ⟨t', ht', hkeeps.inv, hview⟩
  | resize cols rows =>
      obtain ⟨t', ht', hview⟩ := resize_view t (hsize cols rows rfl)
      have hinv := resize_sat h (hsize cols rows rfl).1
      rw [ht'] at hinv
      exact ⟨t', ht', hinv.1, hview⟩

/-- The terminal is the scanner and the canvas in series: whatever bytes and sizes it is given, it
shows what the canvas shows, and its parser is where the scanner is. -/
theorem run_view (t : Terminal) (h : Inv t) (ops : List Op)
    (hsizes : ∀ cols rows, Op.resize cols rows ∈ ops → Allocates (max cols 1, max rows 1)) :
    ∃ t', run step t ops = .ok t' ∧ t'.view = ops.foldl View.step t.view := by
  induction ops generalizing t with
  | nil => exact ⟨t, rfl, rfl⟩
  | cons op ops ih =>
      obtain ⟨t₁, hstep, hinv, hview⟩ := step_view h op
        (fun cols rows hop => hsizes cols rows (hop ▸ List.mem_cons_self))
      obtain ⟨t', hrun, hview'⟩ := ih t₁ hinv
        (fun cols rows hop => hsizes cols rows (List.mem_cons_of_mem op hop))
      refine ⟨t', ?_, ?_⟩
      · rw [run_cons, hstep, ok_bind, hrun]
      · rw [hview', hview, List.foldl_cons]

theorem run_view_threeByOne :
    ∃ t', run step threeByOne [.byte 0x61, .resize 2 2, .byte 0x1b, .byte 0x5b] = .ok t' ∧
      t'.view = [Op.byte 0x61, .resize 2 2, .byte 0x1b, .byte 0x5b].foldl View.step
        threeByOne.view := by
  refine run_view threeByOne inv_threeByOne _ ?_
  intro cols rows hop
  simp only [List.mem_cons, reduceCtorEq, Op.resize.injEq, false_or, List.not_mem_nil,
    or_false] at hop
  obtain ⟨rfl, rfl⟩ := hop
  decide

end Terminal

end K1de
