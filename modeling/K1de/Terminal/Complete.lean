import K1de.Terminal.Canvas

/-! # Every screen can be drawn

The invariant of the terminal is exact: what satisfies it can be reached by output. From any
terminal at rest, for any screen of its size that satisfies the invariant, there are bytes that
lead there (`exists_feed_screen`): contents and colours of every cell, position of the cursor, a
wrap that is pending or not, colours and bold of the pen.

The bytes go from cell to cell. The cursor is moved with `CSI H`, line feeds and `CSI C` without
parameters, so that no size is too large for a parameter.
-/

namespace K1de

open Fallible

namespace Terminal

/-! ## Bytes that draw -/

/-- From a terminal at rest that shows `p`, the bytes lead to one that shows `p'`. -/
def Types (p : Canvas) (bytes : List UInt8) (p' : Canvas) : Prop :=
  ∀ t : Terminal, Inv t → t.esc = .none → t.canvas = p →
    ∃ t', t.feed bytes = .ok t' ∧ Inv t' ∧ t'.esc = .none ∧ t'.canvas = p'

theorem types_nil (p : Canvas) : Types p [] p :=
  fun t ht hesc hp => ⟨t, rfl, ht, hesc, hp⟩

theorem Types.append {p p' p'' : Canvas} {bytes bytes' : List UInt8} (h : Types p bytes p')
    (h' : Types p' bytes' p'') : Types p (bytes ++ bytes') p'' := by
  intro t ht hesc hp
  obtain ⟨t₁, hfeed, ht₁, hesc₁, hp₁⟩ := h t ht hesc hp
  obtain ⟨t₂, hfeed', ht₂, hesc₂, hp₂⟩ := h' t₁ ht₁ hesc₁ hp₁
  refine ⟨t₂, ?_, ht₂, hesc₂, hp₂⟩
  rw [feed_append, hfeed, ok_bind, hfeed']

/-- A byte outside of a sequence. -/
theorem types_byte (p : Canvas) {b : UInt8} (hb : b ≠ 0x1b) :
    Types p [b] ((groundCommand b).elim p p.draw) := by
  rintro t ht hesc rfl
  obtain ⟨t', ht', hview⟩ := ground_view ht hesc b
  have hkeeps := processByte_keeps ht b
  rw [ht'] at hkeeps
  rw [view_step_byte hesc b (if_neg hb)] at hview
  refine ⟨t', (feed_singleton t b).trans ht', hkeeps.inv, ?_, congrArg View.canvas hview⟩
  exact congrArg (fun v => v.scanner.esc) hview

/-- A control sequence. -/
theorem types_csi (p : Canvas) (ps : List UInt32) (final : UInt8) (hfinal : Final final) :
    Types p (Token.csi ps final hfinal).encode ((csiCommand ps final).elim p p.draw) := by
  rintro t ht hesc rfl
  have hparams : Inv { t with dirty := true, csiParams := ps, csiCur := none, esc := .csi } :=
    ht.of_screen rfl
  obtain ⟨t', ht', -, hcanvas⟩ := applyCsi_draws hparams final
  have hfeed : t.feed (Token.csi ps final hfinal).encode = .ok { t' with esc := .none } := by
    show t.feed ([0x1b, 0x5b] ++ encodeParams ps ++ [final]) = _
    rw [feed_esc_append hesc]
    show Terminal.feed { t with dirty := true, csiParams := [], csiCur := none, esc := .csi } _ = _
    rw [feed_csi_body rfl rfl ps hfinal]
    show _ <$> applyCsi { t with dirty := true, csiParams := ps, csiCur := none, esc := .csi }
      final = _
    rw [ht', map_ok]
  have hkeeps := feed_keeps ht (Token.csi ps final hfinal).encode
  rw [hfeed] at hkeeps
  exact ⟨_, hfeed, hkeeps.inv, rfl, hcanvas⟩

/-! ## Moving the cursor -/

def home : List UInt8 := (Token.csi [] 0x48 (by decide)).encode

def right : List UInt8 := (Token.csi [] 0x43 (by decide)).encode

/-- To the corner, down and to the right. -/
def moveTo (row col : Nat) : List UInt8 :=
  home ++ (List.replicate row 0x0a ++ (List.replicate col right).flatten)

/-- `CSI H` goes to the corner. -/
theorem types_home (p : Canvas) : Types p home { p with row := 0, col := 0 } := by
  have htypes := types_csi p [] 0x48 (by decide)
  have hdraw : p.draw (.position 1 1) = { p with row := 0, col := 0 } := by
    show { p with row := min 0 _, col := min 0 _ } = _
    rw [Nat.zero_min, Nat.zero_min]
  exact hdraw ▸ htypes

/-- Line feeds go down, as long as there are rows. -/
theorem types_down (p : Canvas) (row n : Nat) (hrow : row + n < p.rows) :
    Types { p with row := row, col := 0 } (List.replicate n 0x0a)
      { p with row := row + n, col := 0 } := by
  induction n generalizing row with
  | zero => exact types_nil _
  | succ n ih =>
      have hfeed : Canvas.lineFeed { p with row := row, col := 0 } =
          { p with row := row + 1, col := 0 } := if_pos (show row + 1 < p.rows by omega)
      have hfirst : Types { p with row := row, col := 0 } [0x0a]
          { p with row := row + 1, col := 0 } :=
        hfeed ▸ types_byte _ (b := 0x0a) (by decide)
      have hrest := ih (row + 1) (by omega)
      rw [show row + 1 + n = row + (n + 1) by omega] at hrest
      exact hfirst.append hrest

/-- `CSI C` goes to the right, as long as there are columns. -/
theorem types_right (p : Canvas) (col n : Nat) (hcol : col + n < p.cols) :
    Types { p with col := col } (List.replicate n right).flatten { p with col := col + n } := by
  induction n generalizing col with
  | zero => exact types_nil _
  | succ n ih =>
      have hmin : min (col + 1) (p.cols - 1) = col + 1 := by omega
      have hfirst : Types { p with col := col } right
          { p with col := min (col + 1) (p.cols - 1) } :=
        types_csi { p with col := col } [] 0x43 (by decide)
      have hrest := ih (col + 1) (by omega)
      rw [show col + 1 + n = col + (n + 1) by omega] at hrest
      rw [hmin] at hfirst
      exact hfirst.append hrest

/-- So every place can be reached from everywhere. -/
theorem types_moveTo (p : Canvas) (row col : Nat) (hrow : row < p.rows) (hcol : col < p.cols) :
    Types p (moveTo row col) { p with row := row, col := col } := by
  have hdown := types_down p 0 row (by omega)
  have hright := types_right { p with row := row } 0 col (show 0 + col < p.cols by omega)
  rw [Nat.zero_add] at hdown hright
  exact (types_home p).append (hdown.append hright)

/-! ## Choosing a pen -/

/-- The code of a foreground colour. -/
def fgCode : Option UInt8 → UInt32
  | none => 39
  | some c => if c < 8 then 30 + c.toUInt32 else 82 + c.toUInt32

/-- The code of a background colour. -/
def bgCode : Option UInt8 → UInt32
  | none => 49
  | some c => if c < 8 then 40 + c.toUInt32 else 92 + c.toUInt32

def boldCode (bold : Bool) : UInt32 := if bold then 1 else 22

/-- The codes that choose a pen, whatever it was. -/
def penCodes (p : Pen) : List UInt32 := [boldCode p.bold, fgCode p.fg, bgCode p.bg]

theorem fgCode_lt : ∀ c : UInt8, c < 16 →
    sgr [fgCode (some c)] = { Writes.keep with fg := some (some c) } ∧
      ¬ (fgCode (some c) = 38 ∨ fgCode (some c) = 48) := by
  decide +kernel

theorem bgCode_lt : ∀ c : UInt8, c < 16 →
    sgr [bgCode (some c)] = { Writes.keep with bg := some (some c) } := by
  decide +kernel

/-- The code of a foreground colour writes it and nothing else. -/
theorem sgr_fgCode {fg : Option UInt8} (h : ColourOk fg) (ps : List UInt32) :
    sgr (fgCode fg :: ps) = Writes.andThen { Writes.keep with fg := some fg } (sgr ps) := by
  cases fg with
  | none => exact sgr_append (show Complete [39] by decide) ps
  | some c =>
      obtain ⟨hsgr, hcode⟩ := fgCode_lt c (h c rfl)
      rw [← hsgr, sgr_cons_code hcode, sgr_cons_code hcode]
      rfl

/-- The code of a background colour writes it and nothing else. -/
theorem sgr_bgCode {bg : Option UInt8} (h : ColourOk bg) :
    sgr [bgCode bg] = { Writes.keep with bg := some bg } := by
  cases bg with
  | none => rfl
  | some c => exact bgCode_lt c (h c rfl)

/-- The codes of a pen choose it. -/
theorem apply_penCodes {p : Pen} (hfg : ColourOk p.fg) (hbg : ColourOk p.bg) (q : Pen) :
    (sgrWrites (penCodes p)).apply q = p := by
  have hbold : sgr (penCodes p) =
      Writes.andThen { Writes.keep with bold := some p.bold } (sgr [fgCode p.fg, bgCode p.bg]) := by
    unfold penCodes
    cases p.bold
    · exact sgr_append (show Complete [22] by decide) _
    · exact sgr_append (show Complete [1] by decide) _
  have hwrites : sgrWrites (penCodes p) = sgr (penCodes p) := if_neg (List.cons_ne_nil _ _)
  rw [hwrites, hbold, sgr_fgCode hfg, sgr_bgCode hbg]
  rfl

/-- The bytes that choose a pen. -/
def choose (p : Pen) : List UInt8 := (Token.csi (penCodes p) 0x6d (by decide)).encode

/-- Every pen can be chosen. -/
theorem types_choose (p : Canvas) (pen : Pen) (hfg : ColourOk pen.fg) (hbg : ColourOk pen.bg) :
    Types p (choose pen) { p with pen := pen } := by
  have htypes : Types p (choose pen) { p with pen := (sgrWrites (penCodes pen)).apply p.pen } :=
    types_csi p (penCodes pen) 0x6d (by decide)
  rw [apply_penCodes hfg hbg] at htypes
  exact htypes

/-! ## Drawing cells -/

/-- A pen that writes the colours of the cell. -/
def cellPen (x : Cell) : Pen := { fg := x.fg, bg := x.bg, bold := false }

/-- A pen that is not bold writes the colours that it has. -/
theorem cell_cellPen (x : Cell) : (cellPen x).cell x.ch = x := by
  unfold Pen.cell cellPen
  simp

/-- One cell, wherever the cursor is. -/
def paintCell (row col : Nat) (x : Cell) : List UInt8 :=
  moveTo row col ++ (choose (cellPen x) ++ [x.ch])

theorem groundCommand_print {b : UInt8} (h : 0x20 ≤ b ∧ b ≤ 0x7e) :
    groundCommand b = some (.print b) := by
  have h1 : b ≠ 0x0a := by grind
  have h2 : b ≠ 0x0d := by grind
  have h3 : b ≠ 0x09 := by grind
  have h4 : ¬ (b = 0x08 ∨ b = 0x7f) := by grind
  unfold groundCommand
  rw [if_neg h1, if_neg h2, if_neg h3, if_neg h4, if_pos h]

theorem types_print (p : Canvas) {b : UInt8} (h : 0x20 ≤ b ∧ b ≤ 0x7e) :
    Types p [b] (p.print b) := by
  have hne : b ≠ 0x1b := by grind
  have htypes := types_byte p hne
  rw [groundCommand_print h] at htypes
  exact htypes

/-- One cell is drawn, and the others stay. -/
theorem types_paintCell (p : Canvas) (row col : Nat) (hrow : row < p.rows) (hcol : col < p.cols)
    {x : Cell} (hx : x.Ok) :
    Types p (paintCell row col x)
      { p with
        cell := fun r c => if r = row ∧ c = col then x else p.cell r c
        row := row
        col := col + 1
        pen := cellPen x } := by
  have hmove := types_moveTo p row col hrow hcol
  have hpen := types_choose { p with row := row, col := col } (cellPen x) hx.fg_ok hx.bg_ok
  have hprint := types_print { p with row := row, col := col, pen := cellPen x }
    ⟨hx.ch_ge, hx.ch_le⟩
  rw [Canvas.print_room (by exact hcol), cell_cellPen] at hprint
  exact hmove.append (hpen.append hprint)

/-- The cells of a list of places. -/
def paintCells (f : Nat → Nat → Cell) (places : List (Nat × Nat)) : List UInt8 :=
  places.flatMap fun place => paintCell place.1 place.2 (f place.1 place.2)

/-- The cells of a list of places are drawn, and the others stay. -/
theorem types_paintCells (p : Canvas) {f : Nat → Nat → Cell} (hf : ∀ r c, (f r c).Ok)
    (places : List (Nat × Nat)) (hplaces : ∀ place ∈ places, place.1 < p.rows ∧ place.2 < p.cols) :
    ∃ p', Types p (paintCells f places) p' ∧ p'.cols = p.cols ∧ p'.rows = p.rows ∧
      ∀ r c, p'.cell r c = if (r, c) ∈ places then f r c else p.cell r c := by
  induction places generalizing p with
  | nil => exact ⟨p, types_nil p, rfl, rfl, fun r c => (if_neg List.not_mem_nil).symm⟩
  | cons place places ih =>
      obtain ⟨hrow, hcol⟩ := hplaces place List.mem_cons_self
      have hfirst := types_paintCell p _ _ hrow hcol (hf place.1 place.2)
      obtain ⟨p', hrest, hcols, hrows, hcell⟩ := ih
        { p with
          cell := fun r c => if r = place.1 ∧ c = place.2 then f place.1 place.2 else p.cell r c
          row := place.1
          col := place.2 + 1
          pen := cellPen (f place.1 place.2) }
        (fun place' hplace' => hplaces place' (List.mem_cons_of_mem place hplace'))
      refine ⟨p', hfirst.append hrest, hcols, hrows, ?_⟩
      intro r c
      rw [hcell]
      -- a place that comes again later is painted again, with the same cell
      by_cases hlater : (r, c) ∈ places
      · rw [if_pos hlater, if_pos (List.mem_cons_of_mem place hlater)]
      · rw [if_neg hlater]
        by_cases hnow : r = place.1 ∧ c = place.2
        · obtain ⟨rfl, rfl⟩ := hnow
          rw [if_pos List.mem_cons_self]
          exact if_pos ⟨rfl, rfl⟩
        · have hnot : (r, c) ∉ place :: places := by
            rw [List.mem_cons, not_or]
            refine ⟨?_, hlater⟩
            rintro rfl
            exact hnow ⟨rfl, rfl⟩
          rw [if_neg hnot]
          exact if_neg hnow

/-! ## Drawing a screen -/

/-- The two canvases show the same on the display. -/
structure SameDisplay (p q : Canvas) : Prop where
  cols_eq : p.cols = q.cols
  rows_eq : p.rows = q.rows
  cell_eq : ∀ r < q.rows, ∀ c < q.cols, p.cell r c = q.cell r c
  row_eq : p.row = q.row
  col_eq : p.col = q.col
  pen_eq : p.pen = q.pen

/-- Terminals that show the same have the same screen. -/
theorem SameDisplay.screen_eq {t t' : Terminal} (h : SameDisplay t'.canvas t.canvas) (ht : Inv t)
    (ht' : Inv t') : t'.screen = t.screen := by
  have hcols : t'.cols = t.cols := h.cols_eq
  have hrows : t'.rows = t.rows := h.rows_eq
  have hrow : t'.cursorRow = t.cursorRow := h.row_eq
  have hcol : t'.cursorCol = t.cursorCol := h.col_eq
  have hpen : t'.pen = t.pen := h.pen_eq
  -- the grids have the same size and the same cell at every place
  have hcells : t'.cells = t.cells := by
    have hlen := ht'.cells_length
    have hcell := h.cell_eq
    unfold canvas at hcell
    dsimp only at hcell
    rw [hcols] at hlen hcell
    rw [hrows] at hlen
    exact Grid.eq_of_read hlen ht.cells_length hcell
  unfold screen
  rw [hcols, hrows, hrow, hcol, hcells, show t'.curFg = t.curFg from congrArg Pen.fg hpen,
    show t'.curBg = t.curBg from congrArg Pen.bg hpen,
    show t'.bold = t.bold from congrArg Pen.bold hpen]

/-- Every cell of a terminal, and of the margin around it, can be drawn. -/
theorem canvas_cell_ok {t : Terminal} (h : Inv t) (r c : Nat) : (t.canvas.cell r c).Ok := by
  show (Grid.read blank t.cols t.cells r c).Ok
  unfold Grid.read
  split
  · cases hget : t.cells[r * t.cols + c]? with
    | none => exact blank_ok
    | some x => exact h.cells_ok x (List.mem_of_getElem? hget)
  · exact blank_ok

/-- The cursor is put where it belongs. Past the last column it comes only by writing there. -/
theorem exists_types_cursor (p : Canvas) {target : Terminal} (h : Inv target)
    (hcols : p.cols = target.cols) (hrows : p.rows = target.rows)
    (hcell : ∀ r < target.rows, ∀ c < target.cols, p.cell r c = target.canvas.cell r c) :
    ∃ bytes p', Types p bytes p' ∧ p'.cols = p.cols ∧ p'.rows = p.rows ∧
      (∀ r < target.rows, ∀ c < target.cols, p'.cell r c = target.canvas.cell r c) ∧
      p'.row = target.cursorRow ∧ p'.col = target.cursorCol := by
  have hrow := h.row_lt
  have hpos := h.cols_pos
  rcases Nat.lt_or_ge target.cursorCol target.cols with hcol | hcol
  · exact ⟨_, _, types_moveTo p target.cursorRow target.cursorCol (by omega)
      (by omega), rfl, rfl, hcell, rfl, rfl⟩
  · -- a wrap is pending: the last cell of the row is printed once more
    have hcol' := h.col_le
    refine ⟨_, _, types_paintCell p target.cursorRow (target.cols - 1) (by omega)
      (by omega) (canvas_cell_ok h target.cursorRow (target.cols - 1)), rfl, rfl, ?_, rfl, ?_⟩
    · intro r hr c hc
      dsimp only
      split
      · next hplace =>
          obtain ⟨rfl, rfl⟩ := hplace
          rfl
      · exact hcell r hr c hc
    · show target.cols - 1 + 1 = target.cursorCol
      omega

/-- All places of a grid. -/
def allPlaces (rows cols : Nat) : List (Nat × Nat) :=
  (List.range rows).product (List.range cols)

theorem mem_allPlaces {rows cols r c : Nat} :
    (r, c) ∈ allPlaces rows cols ↔ r < rows ∧ c < cols := by
  rw [allPlaces, List.pair_mem_product, List.mem_range, List.mem_range]

/-- The cells first, then the cursor, then the pen: neither of the later ones disturbs the
earlier. -/
theorem exists_types_screen (p : Canvas) {target : Terminal} (h : Inv target)
    (hcols : p.cols = target.cols) (hrows : p.rows = target.rows) :
    ∃ bytes p', Types p bytes p' ∧ SameDisplay p' target.canvas := by
  obtain ⟨p₁, hcells, hcols₁, hrows₁, hcell₁⟩ := types_paintCells p (f := target.canvas.cell)
    (canvas_cell_ok h) (allPlaces target.rows target.cols) (by
      rintro ⟨r, c⟩ hplace
      rw [hcols, hrows]
      exact mem_allPlaces.mp hplace)
  obtain ⟨bytes, p₂, hcursor, hcols₂, hrows₂, hcell₂, hrow, hcol⟩ := exists_types_cursor p₁ h
    (hcols₁.trans hcols) (hrows₁.trans hrows) (by
      intro r hr c hc
      rw [hcell₁, if_pos (mem_allPlaces.mpr ⟨hr, hc⟩)])
  have hpen := types_choose p₂ target.pen h.curFg_ok h.curBg_ok
  refine ⟨_, _, hcells.append (hcursor.append hpen), ?_, ?_, hcell₂, hrow, hcol, rfl⟩
  · exact (hcols₂.trans hcols₁).trans hcols
  · exact (hrows₂.trans hrows₁).trans hrows

/-- The invariant is exact: for every screen that satisfies it, and from every terminal of its size
at rest, there is output that leads there. -/
theorem exists_feed_screen (t target : Terminal) (ht : Inv t) (hesc : t.esc = .none)
    (htarget : Inv target) (hcols : t.cols = target.cols) (hrows : t.rows = target.rows) :
    ∃ bytes t', t.feed bytes = .ok t' ∧ t'.esc = .none ∧ t'.screen = target.screen := by
  obtain ⟨bytes, p, htypes, hsame⟩ := exists_types_screen t.canvas htarget hcols hrows
  obtain ⟨t', hfeed, ht', hesc', rfl⟩ := htypes t ht hesc rfl
  exact ⟨bytes, t', hfeed, hesc', hsame.screen_eq htarget ht'⟩

/-- A red `ab~` that fills the row, with a wrap pending. -/
def redRow : Terminal :=
  { threeByOne with
    cells := [⟨0x61, some 1, none⟩, ⟨0x62, some 1, none⟩, ⟨0x7e, some 1, none⟩]
    cursorCol := 3
    csiParams := [31]
    curFg := some 1 }

theorem exists_feed_screen_redRow :
    ∃ bytes t', threeByOne.feed bytes = .ok t' ∧ t'.esc = .none ∧ t'.screen = redRow.screen := by
  have hrow : Inv redRow :=
    Reached.inv ⟨3, 1, [0x1b, 0x5b, 0x33, 0x31, 0x6d, 0x61, 0x62, 0x7e].map .byte, by decide,
      by decide, rfl⟩ (by decide)
  exact exists_feed_screen threeByOne redRow inv_threeByOne rfl hrow rfl rfl

end Terminal

end K1de
