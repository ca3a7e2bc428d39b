import K1de.Lib.Text
import K1de.Terminal.Safety
import K1de.Terminal.Tokens

/-! # Plain text on the screen

A text of printable bytes and line feeds, fed to a new terminal, appears as its
layout: split at the line feeds, cut into lines of `cols` characters, the last
`rows` lines on the screen.

The wrap after a full line is put off until the next character, so a full line
followed by a line feed takes no empty line. The proof follows the text one byte
at a time: `Shows` relates the terminal to the lines laid out so far, and a byte
extends both.
-/

namespace K1de

open Fallible

namespace Terminal

/-- A character in the default attributes. -/
def plain (ch : UInt8) : Cell := { ch, fg := none, bg := none }

/-- The terminal is at rest with default colours and shows the end of the lines
`init ++ [last]`, the cursor behind the last character of `last`. -/
structure Shows (t : Terminal) (init : List (List UInt8)) (last : List UInt8) : Prop where
  inv : Inv t
  esc_eq : t.esc = .none
  curFg_eq : t.curFg = none
  curBg_eq : t.curBg = none
  init_le : ∀ l ∈ init, l.length ≤ t.cols
  cells_eq : t.cells = Text.page t.cols t.rows blank plain (init ++ [last])
  row_eq : t.cursorRow = min (init.length + 1) t.rows - 1
  col_eq : t.cursorCol = last.length

section

variable {t : Terminal} {init : List (List UInt8)} {last : List UInt8}

/-- The last line is not longer than the row. -/
theorem Shows.last_le (h : Shows t init last) : last.length ≤ t.cols := by
  rw [← h.col_eq]
  exact h.inv.col_le

theorem Shows.lines_le (h : Shows t init last) : ∀ l ∈ init ++ [last], l.length ≤ t.cols := by
  intro l hl
  rcases List.mem_append.mp hl with hl | hl
  · exact h.init_le l hl
  · rw [List.mem_singleton.mp hl]
    exact h.last_le

/-- What is shown does not depend on the `dirty` flag. -/
theorem Shows.dirty (h : Shows t init last) : Shows { t with dirty := true } init last where
  inv := h.inv.of_screen rfl
  esc_eq := h.esc_eq
  curFg_eq := h.curFg_eq
  curBg_eq := h.curBg_eq
  init_le := h.init_le
  cells_eq := h.cells_eq
  row_eq := h.row_eq
  col_eq := h.col_eq

/-- A new line opens an empty last line. -/
theorem Shows.newlined (h : Shows t init last) : Shows t.newlined (init ++ [last]) [] := by
  have hinv := h.inv.newlined
  have hrow := h.row_eq
  have hrows := h.inv.rows_pos
  unfold Terminal.newlined at hinv ⊢
  split
  · -- the cursor is in the bottom row: the page is full and scrolls
    next hbottom =>
      rw [if_pos hbottom] at hinv
      have hfull : t.rows ≤ (init ++ [last]).length := by
        simp only [List.length_append, List.length_singleton]
        omega
      constructor
      · exact hinv
      · exact h.esc_eq
      · exact h.curFg_eq
      · exact h.curBg_eq
      · exact h.lines_le
      · show t.cells.drop t.cols ++ List.replicate t.cols blank = _
        rw [Text.page_line_scroll h.lines_le hrows hfull, h.cells_eq]
      · show t.cursorRow = min ((init ++ [last]).length + 1) t.rows - 1
        omega
      · rfl
  · -- there is a blank row below
    next hroom =>
      rw [if_neg hroom] at hinv
      have hlen : (init ++ [last]).length < t.rows := by
        simp only [List.length_append, List.length_singleton]
        omega
      constructor
      · exact hinv
      · exact h.esc_eq
      · exact h.curFg_eq
      · exact h.curBg_eq
      · exact h.lines_le
      · show t.cells = _
        rw [Text.page_line_room hlen, h.cells_eq]
      · show t.cursorRow + 1 = _
        simp only [List.length_append, List.length_singleton] at hlen ⊢
        omega
      · rfl

/-- A character where the last line has room. -/
theorem Shows.write (h : Shows t init last) {ch : UInt8} (hlo : 0x20 ≤ ch) (hhi : ch ≤ 0x7e)
    (hroom : last.length < t.cols) : Shows (t.putted ch) init (last ++ [ch]) := by
  have hwrapped : t.wrapped = t := by
    unfold wrapped
    rw [if_neg]
    rw [h.col_eq]
    omega
  have hpen : t.penCell ch = plain ch := by
    simp only [penCell, plain, h.curFg_eq, h.curBg_eq, Option.map_none]
  have hinv := h.inv.putted hlo hhi
  unfold putted at hinv ⊢
  rw [hwrapped] at hinv ⊢
  constructor
  · exact hinv
  · exact h.esc_eq
  · exact h.curFg_eq
  · exact h.curBg_eq
  · exact h.init_le
  · show t.cells.set _ _ = _
    rw [Text.page_write h.init_le hroom h.inv.rows_pos, ← h.cells_eq, h.row_eq, h.col_eq, hpen]
  · exact h.row_eq
  · show t.cursorCol + 1 = _
    rw [h.col_eq, List.length_append, List.length_singleton]

/-- A character where the last line is full goes on a line of its own. -/
theorem Shows.write_full (h : Shows t init last) {ch : UInt8} (hlo : 0x20 ≤ ch) (hhi : ch ≤ 0x7e)
    (hfull : ¬ last.length < t.cols) : Shows (t.putted ch) (init ++ [last]) [ch] := by
  have hwrapped : t.wrapped = t.newlined := by
    unfold wrapped
    rw [if_pos]
    rw [h.col_eq]
    omega
  have hcol : t.newlined.cursorCol < t.newlined.cols := by
    rw [newlined_cursorCol, newlined_cols]
    exact h.inv.cols_pos
  have hagain : t.newlined.wrapped = t.newlined := by
    unfold wrapped
    rw [if_neg (by omega)]
  have hput : t.putted ch = t.newlined.putted ch := by
    unfold putted
    rw [hwrapped, hagain]
  rw [hput]
  apply h.newlined.write hlo hhi
  rw [newlined_cols]
  exact h.inv.cols_pos

end

/-- The bytes of a plain text. -/
def TextByte (b : UInt8) : Prop := b = 0x0a ∨ (0x20 ≤ b ∧ b ≤ 0x7e)

/-- One byte of text extends what is shown as it extends the layout. -/
theorem Shows.processByte {t : Terminal} {s : List UInt8} {init : List (List UInt8)}
    {last : List UInt8} (h : Shows t init last)
    (hlayout : Text.layout 0x0a t.cols s = init ++ [last]) {b : UInt8} (hb : TextByte b) :
    ∃ t' init' last', t.processByte b = .ok t' ∧ t'.cols = t.cols ∧ t'.rows = t.rows ∧
      Shows t' init' last' ∧ Text.layout 0x0a t.cols (s ++ [b]) = init' ++ [last'] := by
  have hcols : 0 < t.cols := h.inv.cols_pos
  obtain ⟨init₀, last₀, hs, -, hlf, hch⟩ := Text.layout_snoc 0x0a hcols s
  obtain ⟨rfl, hlast⟩ := List.append_inj' (hlayout.symm.trans hs) rfl
  cases hlast
  rw [processByte_ground h.esc_eq]
  have hd := h.dirty
  rcases hb with rfl | hb
  · -- line feed
    have hnl : groundByte { t with dirty := true } 0x0a = newline { t with dirty := true } := rfl
    rw [hnl, newline_ok hd.inv.cols_le]
    have hkeep := newline_safe hd.inv
    rw [newline_ok hd.inv.cols_le] at hkeep
    exact ⟨_, _, _, rfl, hkeep.cols_eq, hkeep.rows_eq, hd.newlined, hlf⟩
  · -- a character
    have hne : b ≠ 0x0a := by grind
    rw [groundByte_print hb, put_ok hd.inv]
    have hkeep := put_safe hd.inv hb.1 hb.2
    rw [put_ok hd.inv] at hkeep
    by_cases hroom : last.length < t.cols
    · refine ⟨_, _, _, rfl, hkeep.cols_eq, hkeep.rows_eq, hd.write hb.1 hb.2 hroom, ?_⟩
      rw [hch b hne, if_pos hroom]
    · refine ⟨_, _, _, rfl, hkeep.cols_eq, hkeep.rows_eq, hd.write_full hb.1 hb.2 hroom, ?_⟩
      rw [hch b hne, if_neg hroom]

/-- A whole text: if the terminal shows the layout of `s`, then after the bytes
of `bs` it shows the layout of `s ++ bs`. -/
theorem Shows.feed {t : Terminal} {s bs : List UInt8} {init : List (List UInt8)}
    {last : List UInt8} (h : Shows t init last)
    (hlayout : Text.layout 0x0a t.cols s = init ++ [last]) (hbs : ∀ b ∈ bs, TextByte b) :
    ∃ t' init' last', t.feed bs = .ok t' ∧ t'.cols = t.cols ∧ t'.rows = t.rows ∧
      Shows t' init' last' ∧ Text.layout 0x0a t.cols (s ++ bs) = init' ++ [last'] := by
  induction bs generalizing t s init last with
  | nil => exact ⟨t, init, last, rfl, rfl, rfl, h, by rwa [List.append_nil]⟩
  | cons b bs ih =>
      obtain ⟨t₁, init₁, last₁, hstep, hcols, hrows, h₁, hlayout₁⟩ :=
        h.processByte hlayout (hbs b List.mem_cons_self)
      rw [← hcols] at hlayout₁
      obtain ⟨t', init', last', hfeed, hcols', hrows', h', hlayout'⟩ :=
        ih h₁ hlayout₁ (fun b' hb' => hbs b' (List.mem_cons_of_mem b hb'))
      refine ⟨t', init', last', ?_, hcols'.trans hcols, hrows'.trans hrows, h', ?_⟩
      · rw [feed_cons, hstep, ok_bind, hfeed]
      · rw [← hcols, List.append_cons, hlayout']

/-- A new terminal shows one empty line. -/
theorem shows_new {cols rows : Nat} (hcols : 1 ≤ cols) (hrows : 1 ≤ rows)
    (hfit : cellSize * (cols * rows) ≤ Vec.isizeMax) :
    ∃ t, new cols rows = .ok t ∧ t.cols = cols ∧ t.rows = rows ∧ Shows t [] [] := by
  have hcount : cols * rows % Vec.usizeSize = cols * rows := by
    apply Nat.mod_eq_of_lt
    unfold cellSize Vec.isizeMax at hfit
    unfold Vec.usizeSize
    omega
  have hcells : blankCells cols rows = .ok (List.replicate (cols * rows) blank) := by
    rw [blankCells, hcount, Vec.fromElem_ok blank hfit]
  refine ⟨_, by rw [new, hcells]; rfl, rfl, rfl, ?_⟩
  constructor
  · exact inv_blank hcols hrows rfl hfit rfl rfl colourOk_none colourOk_none
  · rfl
  · rfl
  · rfl
  · intro l hl
    cases hl
  · show List.replicate (cols * rows) blank = _
    have hpage :
        Text.page cols rows blank plain ([] ++ [[]]) = Text.page cols rows blank plain [] :=
      Text.page_line_room hrows
    rw [hpage, Nat.mul_comm cols rows]
    simp [Text.page, Text.visible]
  · show 0 = min (0 + 1) rows - 1
    omega
  · rfl

/-- A text fed to a new terminal appears as its layout: the last `rows` lines in
the default attributes, the cursor behind the last one. -/
theorem feed_text (cols rows : Nat) (s : List UInt8) (hcols : 1 ≤ cols) (hrows : 1 ≤ rows)
    (hfit : cellSize * (cols * rows) ≤ Vec.isizeMax) (hs : ∀ b ∈ s, TextByte b) :
    ∃ t init last, (new cols rows >>= fun t => t.feed s) = .ok t ∧
      Text.layout 0x0a cols s = init ++ [last] ∧
      t.cells = Text.page cols rows blank plain (init ++ [last]) ∧
      t.cursorRow = min (init.length + 1) rows - 1 ∧
      t.cursorCol = last.length := by
  obtain ⟨t₀, hnew, rfl, rfl, h₀⟩ := shows_new hcols hrows hfit
  have hempty : Text.layout 0x0a t₀.cols ([] : List UInt8) = [] ++ [[]] := by
    simp [Text.layout, Text.breakLine_nil]
  obtain ⟨t, init, last, hfeed, hcols', hrows', h, hlayout⟩ := h₀.feed hempty hs
  refine ⟨t, init, last, ?_, hlayout, ?_, ?_, h.col_eq⟩
  · rw [hnew, ok_bind, hfeed]
  · rw [← hcols', ← hrows', h.cells_eq]
  · rw [← hrows', h.row_eq]

/-- `ab`, a line feed and `c` on a screen of two columns and one row. -/
theorem feed_text_two_by_one :
    ∃ t init last, (new 2 1 >>= fun t => t.feed [0x61, 0x62, 0x0a, 0x63]) = .ok t ∧
      Text.layout 0x0a 2 [0x61, 0x62, 0x0a, 0x63] = init ++ [last] ∧
      t.cells = Text.page 2 1 blank plain (init ++ [last]) ∧
      t.cursorRow = min (init.length + 1) 1 - 1 ∧
      t.cursorCol = last.length :=
  feed_text 2 1 _ (by decide) (by decide) (by simp [cellSize, Vec.isizeMax]) (by simp [TextByte])

/-- A grid whose cell count overflows `usize` has no cell for the first character. -/
theorem feed_text_overflow :
    (new (2 ^ 32) (2 ^ 32) >>= fun t => t.feed [0x61]) = .error .indexOutOfBounds := by
  rfl

/-- A full line followed by a line feed takes no empty line. -/
example : Text.layout 0x0a 2 [0x61, 0x62, 0x0a, 0x63] = [[0x61, 0x62], [(0x63 : UInt8)]] := by
  decide

end Terminal

end K1de
