import K1de.Terminal.Reach
import K1de.Terminal.Tokens

/-! # Repainting the screen

What a full-screen program does: for each row, move the cursor to its start with
`ESC [ r ; 1 H` and write its `cols` characters. Whatever the screen showed, the
cursor's position and the order of the rows, the screen then shows the image in
the colours of the current SGR state.

The last column is where this could fail: writing it leaves the cursor behind
the row, and the wrap that is due there is cancelled by the next `CUP`, so the
bottom right cell does not scroll the screen.
-/

namespace K1de

open Fallible Decimal

namespace Terminal

/-! ## The bytes -/

/-- `ESC [ r+1 ; 1 H`. -/
def cup (r : Nat) : List UInt8 := [0x1b, 0x5b] ++ numeral (r + 1) ++ [0x3b, 0x31, 0x48]

/-- One row: the cursor motion and the characters. -/
def paintRow (cols : Nat) (image : Nat → Nat → UInt8) (r : Nat) : List UInt8 :=
  cup r ++ (List.range cols).map (image r)

/-- The rows of `order`, one after the other. -/
def repaint (cols : Nat) (image : Nat → Nat → UInt8) (order : List Nat) : List UInt8 :=
  order.flatMap (paintRow cols image)

theorem repaint_cons (cols : Nat) (image : Nat → Nat → UInt8) (r : Nat) (order : List Nat) :
    repaint cols image (r :: order) = paintRow cols image r ++ repaint cols image order := rfl

/-! ## One row -/

/-- What stays the same during a repaint: the size, the SGR state, a parser at
rest, and the invariant. -/
structure SamePaper (t t' : Terminal) : Prop where
  keeps : Keeps t t'
  esc_eq : t'.esc = .none
  curFg_eq : t'.curFg = t.curFg
  curBg_eq : t'.curBg = t.curBg
  bold_eq : t'.bold = t.bold

theorem SamePaper.refl {t : Terminal} (h : Inv t) (hesc : t.esc = .none) : SamePaper t t where
  keeps := ⟨h, rfl, rfl⟩
  esc_eq := hesc
  curFg_eq := rfl
  curBg_eq := rfl
  bold_eq := rfl

theorem SamePaper.trans {t t' t'' : Terminal} (h : SamePaper t t') (h' : SamePaper t' t'') :
    SamePaper t t'' where
  keeps := h.keeps.trans h'.keeps
  esc_eq := h'.esc_eq
  curFg_eq := h'.curFg_eq.trans h.curFg_eq
  curBg_eq := h'.curBg_eq.trans h.curBg_eq
  bold_eq := h'.bold_eq.trans h.bold_eq

/-- The pen prints the same all the time. -/
theorem SamePaper.penCell {t t' : Terminal} (h : SamePaper t t') (ch : UInt8) :
    t'.penCell ch = t.penCell ch := by
  simp only [Terminal.penCell, h.curFg_eq, h.curBg_eq, h.bold_eq]

/-- The cursor motion, from any position, pending wrap or not. -/
theorem feed_cup {t : Terminal} (hesc : t.esc = .none) {r : Nat} (hr : r + 1 < 2 ^ 32)
    (hrow : r < t.rows) :
    t.feed (cup r) = .ok { t with
      dirty := true
      csiParams := [UInt32.ofNat (r + 1), 1]
      csiCur := none
      cursorRow := r
      cursorCol := 0 } := by
  have hparam : (UInt32.ofNat (r + 1)).toNat = r + 1 := UInt32.toNat_ofNat_of_lt hr
  have hnonzero : UInt32.ofNat (r + 1) ≠ 0 := by
    intro hzero
    rw [hzero] at hparam
    cases hparam
  -- the bytes are a control sequence with two parameters
  have hbytes : cup r = 0x1b :: 0x5b :: (encodeParams [UInt32.ofNat (r + 1), 1] ++ [0x48]) := by
    have hone : numeral ((1 : UInt32).toNat) = [0x31] := by decide
    rw [encodeParams_cons_cons, encodeParams_singleton, hparam, hone]
    simp [cup]
  have hrows : min (r + 1 - 1) (t.rows - 1) = r := by omega
  rw [hbytes, feed_esc_cons hesc]
  show Terminal.feed { t with dirty := true, csiParams := [], csiCur := none, esc := .csi } _ = _
  rw [feed_csi_body rfl rfl _ (by decide)]
  simp only [applyCsi, csiParam, List.nil_append, List.getElem?_cons_zero, List.getElem?_cons_succ,
    if_neg hnonzero, hparam, hrows]
  simp [hesc]

/-- A character before the right margin. -/
theorem feed_char {t : Terminal} (h : Inv t) (hesc : t.esc = .none) (hcol : t.cursorCol < t.cols)
    {ch : UInt8} (hch : 0x20 ≤ ch ∧ ch ≤ 0x7e) :
    ∃ t', t.processByte ch = .ok t' ∧ SamePaper t t' ∧ t'.cursorRow = t.cursorRow ∧
      t'.cursorCol = t.cursorCol + 1 ∧
      t'.cells = t.cells.set (t.cursorRow * t.cols + t.cursorCol) (t.penCell ch) := by
  have hd : Inv { t with dirty := true } := h.of_screen rfl
  have hwrapped : wrapped { t with dirty := true } = { t with dirty := true } := by
    unfold wrapped
    rw [if_neg]
    show ¬ t.cursorCol ≥ t.cols
    omega
  refine ⟨{ t with
    dirty := true
    cells := t.cells.set (t.cursorRow * t.cols + t.cursorCol) (t.penCell ch)
    cursorCol := t.cursorCol + 1 }, ?_, ?_, rfl, rfl, rfl⟩
  · rw [processByte_ground hesc, groundByte_print hch, put_ok hd, putted, hwrapped]
    rfl
  · have hinv := hd.putted hch.1 hch.2
    rw [putted, hwrapped] at hinv
    exact ⟨⟨hinv, rfl, rfl⟩, hesc, rfl, rfl, rfl⟩

/-- Characters up to the right margin overwrite the cells from the cursor on. -/
theorem feed_chars {t : Terminal} (h : Inv t) (hesc : t.esc = .none) {cs : List UInt8}
    (hcs : ∀ ch ∈ cs, 0x20 ≤ ch ∧ ch ≤ 0x7e) (hroom : t.cursorCol + cs.length ≤ t.cols) :
    ∃ t', t.feed cs = .ok t' ∧ SamePaper t t' ∧
      t'.cells = Vec.splice t.cells (t.cursorRow * t.cols + t.cursorCol) (cs.map t.penCell) := by
  induction cs generalizing t with
  | nil => exact ⟨t, rfl, SamePaper.refl h hesc, by rw [List.map_nil, Vec.splice_nil]⟩
  | cons ch cs ih =>
      rw [List.length_cons] at hroom
      obtain ⟨t₁, hstep, hpaper, hrow, hcol, hcells⟩ :=
        feed_char h hesc (by omega) (hcs ch List.mem_cons_self)
      obtain ⟨t', hfeed, hpaper', hcells'⟩ := ih hpaper.keeps.inv hpaper.esc_eq
        (fun ch' hch' => hcs ch' (List.mem_cons_of_mem ch hch'))
        (by rw [hcol, hpaper.keeps.cols_eq]; omega)
      refine ⟨t', ?_, hpaper.trans hpaper', ?_⟩
      · rw [feed_cons, hstep, ok_bind, hfeed]
      · have hidx : t.cursorRow * t.cols + t.cursorCol < t.cells.length := by
          have := h.row_end_le
          omega
        have hpen : cs.map t₁.penCell = cs.map t.penCell :=
          List.map_congr_left fun ch' _ => hpaper.penCell ch'
        rw [hcells', hcells, hrow, hcol, hpaper.keeps.cols_eq, hpen, List.map_cons,
          Vec.splice_cons hidx, Nat.add_assoc]

/-- The image's bytes are printable. -/
def Printable (cols rows : Nat) (image : Nat → Nat → UInt8) : Prop :=
  ∀ r < rows, ∀ c < cols, 0x20 ≤ image r c ∧ image r c ≤ 0x7e

/-- Painting row `r` replaces that row and no other. -/
theorem feed_paintRow {t : Terminal} (h : Inv t) (hesc : t.esc = .none) (hrows : t.rows < 2 ^ 32)
    {image : Nat → Nat → UInt8} (himage : Printable t.cols t.rows image) {r : Nat}
    (hr : r < t.rows) :
    ∃ t', t.feed (paintRow t.cols image r) = .ok t' ∧ SamePaper t t' ∧
      (∀ c < t.cols, t'.cells[r * t.cols + c]? = some (t.penCell (image r c))) ∧
      ∀ r' c, r' ≠ r → c < t.cols → t'.cells[r' * t.cols + c]? = t.cells[r' * t.cols + c]? := by
  -- the cursor motion
  have hmove := feed_cup hesc (r := r) (by omega) hr
  have hmoved : SamePaper t { t with
      dirty := true
      csiParams := [UInt32.ofNat (r + 1), 1]
      csiCur := none
      cursorRow := r
      cursorCol := 0 } := by
    refine ⟨⟨?_, rfl, rfl⟩, hesc, rfl, rfl, rfl⟩
    exact (h.update rfl h.cells_ok hr (Nat.zero_le t.cols)).of_screen rfl
  -- the characters
  have hprintable : ∀ ch ∈ (List.range t.cols).map (image r), 0x20 ≤ ch ∧ ch ≤ 0x7e := by
    intro ch hch
    obtain ⟨c, hc, rfl⟩ := List.mem_map.mp hch
    exact himage r hr c (List.mem_range.mp hc)
  obtain ⟨t', hfeed, hpaper, hcells⟩ := feed_chars hmoved.keeps.inv hmoved.esc_eq hprintable
    (by simp)
  replace hcells : t'.cells = Vec.splice t.cells (r * t.cols)
      (((List.range t.cols).map (image r)).map t.penCell) := hcells
  have hlen : (((List.range t.cols).map (image r)).map t.penCell).length = t.cols := by simp
  have hend := h.rowEnd_le hr
  refine ⟨t', ?_, hmoved.trans hpaper, ?_, ?_⟩
  · rw [paintRow, feed_append, hmove, ok_bind, hfeed]
  · intro c hc
    rw [hcells, Vec.getElem?_splice (by omega), if_pos (by omega), Nat.add_sub_cancel_left]
    simp [hc]
  · intro r' c hne hc
    rw [hcells, Vec.getElem?_splice (by omega), if_neg]
    rintro ⟨hlo, hhi⟩
    rw [hlen] at hhi
    exact hne (Vec.row_unique hc hlo hhi)

/-! ## The whole screen -/

/-- Painting some rows, in the order given, shows them and leaves the others. -/
theorem feed_rows {t : Terminal} (h : Inv t) (hesc : t.esc = .none) (hrows : t.rows < 2 ^ 32)
    {image : Nat → Nat → UInt8} (himage : Printable t.cols t.rows image) {order : List Nat}
    (horder : ∀ r ∈ order, r < t.rows) :
    ∃ t', t.feed (repaint t.cols image order) = .ok t' ∧ SamePaper t t' ∧
      (∀ r ∈ order, ∀ c < t.cols,
        t'.cells[r * t.cols + c]? = some (t.penCell (image r c))) ∧
      ∀ r c, r ∉ order → c < t.cols → t'.cells[r * t.cols + c]? = t.cells[r * t.cols + c]? := by
  induction order generalizing t with
  | nil =>
      refine ⟨t, rfl, SamePaper.refl h hesc, ?_, ?_⟩
      · intro r hr
        cases hr
      · intro r c _ _
        rfl
  | cons r order ih =>
      obtain ⟨t₁, hfeed₁, hpaper₁, hrow₁, hother₁⟩ :=
        feed_paintRow h hesc hrows himage (horder r List.mem_cons_self)
      have hcols : t₁.cols = t.cols := hpaper₁.keeps.cols_eq
      have hrows₁ : t₁.rows = t.rows := hpaper₁.keeps.rows_eq
      obtain ⟨t', hfeed, hpaper, hdone, hother⟩ := ih hpaper₁.keeps.inv hpaper₁.esc_eq
        (by rw [hrows₁]; exact hrows) (by rw [hcols, hrows₁]; exact himage)
        (by rw [hrows₁]; exact fun r' hr' => horder r' (List.mem_cons_of_mem r hr'))
      rw [hcols] at hfeed hdone hother
      refine ⟨t', ?_, hpaper₁.trans hpaper, ?_, ?_⟩
      · rw [repaint_cons, feed_append, hfeed₁, ok_bind, hfeed]
      · intro r' hr' c hc
        by_cases hlater : r' ∈ order
        · rw [hdone r' hlater c hc, hpaper₁.penCell]
        · -- painted now and not touched later
          rcases List.mem_cons.mp hr' with rfl | hr'
          · rw [hother r' c hlater hc, hrow₁ c hc]
          · exact absurd hr' hlater
      · intro r' c hr' hc
        rw [List.mem_cons, not_or] at hr'
        rw [hother r' c hr'.2 hc, hother₁ r' c hr'.1 hc]

/-- A repaint in any order of the rows shows the image, in the current colours,
on every terminal that has been reached and whose cell count fits a `usize`. -/
theorem feed_repaint (t : Terminal) (ht : Reached t) (hfits : CountFits (t.cols, t.rows))
    (hesc : t.esc = .none) (hrows : t.rows < 2 ^ 32) (image : Nat → Nat → UInt8)
    (himage : Printable t.cols t.rows image) (order : List Nat)
    (horder : order.Perm (List.range t.rows)) :
    ∃ t', t.feed (repaint t.cols image order) = .ok t' ∧ t'.esc = .none ∧
      t'.cols = t.cols ∧ t'.rows = t.rows ∧ t'.cells.length = t.cols * t.rows ∧
      ∀ r < t.rows, ∀ c < t.cols,
        t'.cells[r * t.cols + c]? = some (t.penCell (image r c)) := by
  have hmem : ∀ r, r ∈ order ↔ r < t.rows := by
    intro r
    rw [horder.mem_iff, List.mem_range]
  obtain ⟨t', hfeed, hpaper, hdone, -⟩ :=
    feed_rows (ht.inv hfits) hesc hrows himage (fun r hr => (hmem r).mp hr)
  have hcols := hpaper.keeps.cols_eq
  have hrows' := hpaper.keeps.rows_eq
  refine ⟨t', hfeed, hpaper.esc_eq, hcols, hrows', ?_, ?_⟩
  · rw [hpaper.keeps.inv.cells_length, hcols, hrows']
  · intro r hr
    exact hdone r ((hmem r).mpr hr)

/-- A full screen of two rows with the wrap of the last column pending. -/
def fullScreen : Terminal :=
  { cols := 1, rows := 2, cells := [⟨0x61, none, none⟩, ⟨0x62, none, none⟩], cursorRow := 1
    cursorCol := 1, esc := .none, dirty := true, csiParams := [], csiCur := none, curFg := none
    curBg := none, bold := false }

theorem reached_fullScreen : Reached fullScreen :=
  ⟨1, 2, [.byte 0x61, .byte 0x62], by decide, by decide, rfl⟩

theorem feed_repaint_fullScreen :
    ∃ t', fullScreen.feed (repaint 1 (fun r _ => UInt8.ofNat (0x30 + r)) [1, 0]) = .ok t' ∧
      t'.esc = .none ∧ t'.cols = 1 ∧ t'.rows = 2 ∧ t'.cells.length = 1 * 2 ∧
      ∀ r < 2, ∀ c < 1,
        t'.cells[r * 1 + c]? = some (fullScreen.penCell (UInt8.ofNat (0x30 + r))) :=
  feed_repaint fullScreen reached_fullScreen (by decide) rfl (by decide) _
    (show ∀ r < 2, ∀ c < 1, _ by decide) [1, 0] (by decide)

/-- A repaint of a terminal without cells stops at its first character. -/
theorem feed_repaint_no_cells {t : Terminal} (hesc : t.esc = .none) (hcells : t.cells = [])
    (hrows : 0 < t.rows) (hcols : 0 < t.cols) (image : Nat → Nat → UInt8)
    (hchar : 0x20 ≤ image 0 0 ∧ image 0 0 ≤ 0x7e) :
    t.feed (repaint t.cols image (List.range t.rows)) = .error .indexOutOfBounds := by
  have hrange : ∀ n, 0 < n → ∃ rest, List.range n = 0 :: rest := by
    intro n hn
    obtain ⟨k, rfl⟩ := Nat.exists_eq_succ_of_ne_zero hn.ne'
    exact ⟨_, List.range_succ_eq_map⟩
  obtain ⟨order, horder⟩ := hrange t.rows hrows
  obtain ⟨later, hlater⟩ := hrange t.cols hcols
  rw [horder, repaint_cons, paintRow, hlater, List.map_cons, feed_append, feed_append,
    feed_cup hesc (by decide) hrows, ok_bind, feed_cons, processByte_ground (by exact hesc),
    groundByte_print hchar, put, wrap, if_neg (by exact Nat.not_le.mpr hcols), ok_bind]
  simp [Vec.setIndex, hcells]

/-- Such a terminal is what a resize leaves whose cell count overflows `usize`. -/
theorem feed_repaint_overflow :
    (runNew 1 1 [.resize (2 ^ 33) (2 ^ 31)] >>= fun t =>
      t.feed (repaint t.cols (fun _ _ => 0x61) (List.range t.rows))) =
        .error .indexOutOfBounds := by
  have hrun : runNew 1 1 [.resize (2 ^ 33) (2 ^ 31)] = .ok
      { cols := 2 ^ 33, rows := 2 ^ 31, cells := [], cursorRow := 0, cursorCol := 0, esc := .none
        dirty := true, csiParams := [], csiCur := none, curFg := none, curBg := none
        bold := false } := rfl
  rw [hrun, ok_bind]
  exact feed_repaint_no_cells rfl rfl (by decide) (by decide) _ (by decide)

end Terminal

end K1de
