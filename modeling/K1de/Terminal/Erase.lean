import K1de.Terminal.Csi

/-! # Erasing

`CSI J` and `CSI K` fill a slice of the grid. The slices are exact but for one: the end
of `CSI 1 J` is clamped to the end of the grid and not to the end of the row. While a
wrap is pending the cursor stands past the end of its row, and then the first cell of
the next row is erased too (`erasesRight_iff`).
-/

namespace K1de

open Fallible

namespace Terminal

/-- The cells that `CSI n J` is to erase, by their index in row-major order. -/
def displayRegion (t : Terminal) (n : UInt32) (i : Nat) : Prop :=
  if n = 0 then t.cursorRow * t.cols + t.cursorCol ≤ i
  else if n = 1 then i ≤ t.cursorRow * t.cols + min t.cursorCol (t.cols - 1)
  else True

/-- The cells that `CSI n K` is to erase: those of `CSI n J` in the row of the cursor. -/
def lineRegion (t : Terminal) (n : UInt32) (i : Nat) : Prop :=
  t.displayRegion n i ∧ t.cursorRow * t.cols ≤ i ∧ i < t.cursorRow * t.cols + t.cols

/-- The command erases the region and nothing else, keeps the SGR state, and leaves the
cursor at the given place. -/
def ErasesExactly (t : Terminal) (n : UInt32) (final : UInt8) (region : Nat → Prop)
    (cursor : Nat × Nat) : Prop :=
  ∃ t', applyCsi { t with csiParams := [n] } final = .ok t' ∧
    t'.cells.length = t.cells.length ∧
    (∀ i < t.cells.length, (region i → t'.cells[i]? = some blank) ∧
      (¬ region i → t'.cells[i]? = t.cells[i]?)) ∧
    (t'.cursorRow, t'.cursorCol) = cursor ∧
    t'.curFg = t.curFg ∧ t'.curBg = t.curBg ∧ t'.bold = t.bold

/-- All seven commands. -/
structure ErasesRight (t : Terminal) : Prop where
  display : ∀ n ∈ [0, 1],
    ErasesExactly t n 0x4a (t.displayRegion n) (t.cursorRow, t.cursorCol)
  display_all : ∀ n ∈ [2, 3], ErasesExactly t n 0x4a (t.displayRegion n) (0, 0)
  line : ∀ n ∈ [0, 1, 2], ErasesExactly t n 0x4b (t.lineRegion n) (t.cursorRow, t.cursorCol)

/-- A wrap is pending, and the next row begins with something to lose. -/
def Bleeds (t : Terminal) : Prop :=
  t.cursorCol = t.cols ∧ t.cursorRow + 1 < t.rows ∧
    t.cells[(t.cursorRow + 1) * t.cols]? ≠ some blank

instance : DecidablePred Bleeds := fun _ => inferInstanceAs (Decidable (_ ∧ _ ∧ _))

/-- A command that fills the slice `a..b`. Cells of the slice outside of the region do no
harm where they are blank already. -/
theorem erasesExactly_of_fill {t : Terminal} {n : UInt32} {final : UInt8} {region : Nat → Prop}
    {a b row col : Nat} (hab : a ≤ b) (hb : b ≤ t.cells.length)
    (hrun : applyCsi { t with csiParams := [n] } final = (do
      let cells ← Vec.fill t.cells a b blank
      return { t with csiParams := [n], cells, cursorRow := row, cursorCol := col }))
    (hin : ∀ i < t.cells.length, region i → a ≤ i ∧ i < b)
    (hout : ∀ i < t.cells.length, a ≤ i → i < b → region i ∨ t.cells[i]? = some blank) :
    ErasesExactly t n final region (row, col) := by
  rw [Vec.fill_ok blank hab hb] at hrun
  refine ⟨_, hrun, Vec.length_filled blank hab hb, ?_, rfl, rfl, rfl, rfl⟩
  intro i hi
  show (region i → (Vec.filled t.cells a b blank)[i]? = _) ∧
    (¬ region i → (Vec.filled t.cells a b blank)[i]? = _)
  rw [Vec.getElem?_filled blank hab hb]
  constructor
  · intro hregion
    rw [if_pos (hin i hi hregion)]
  · intro hregion
    split
    · next hslice => exact ((hout i hi hslice.1 hslice.2).resolve_left hregion).symm
    · rfl

/-- A command that fills the whole grid. -/
theorem erasesExactly_grid {t : Terminal} {n : UInt32} (hregion : ∀ i, t.displayRegion n i)
    (hrun : applyCsi { t with csiParams := [n] } 0x4a = (do
      let cells ← Vec.fill t.cells 0 t.cells.length blank
      return { t with csiParams := [n], cells, cursorRow := 0, cursorCol := 0 })) :
    ErasesExactly t n 0x4a (t.displayRegion n) (0, 0) := by
  refine erasesExactly_of_fill (Nat.zero_le t.cells.length) le_rfl hrun ?_ ?_
  · intro i hi _
    exact ⟨Nat.zero_le i, hi⟩
  · intro i _ _ _
    exact Or.inl (hregion i)

/-- `CSI 2 J` and `CSI 3 J` erase the whole grid and move the cursor to the corner. -/
theorem erasesExactly_all (t : Terminal) : ∀ n ∈ [2, 3],
    ErasesExactly t n 0x4a (t.displayRegion n) (0, 0) := by
  intro n hn
  rcases List.mem_pair.mp hn with rfl | rfl
  · exact erasesExactly_grid (fun _ => trivial) rfl
  · exact erasesExactly_grid (fun _ => trivial) rfl

section

variable {t : Terminal} (h : Inv t)

include h

/-- `CSI K`. With a wrap pending there is nothing to erase. -/
theorem erasesExactly_lineEnd :
    ErasesExactly t 0 0x4b (t.lineRegion 0) (t.cursorRow, t.cursorCol) := by
  have hcol := h.col_le
  refine erasesExactly_of_fill (a := t.cursorRow * t.cols + t.cursorCol)
    (b := t.cursorRow * t.cols + t.cols) (by omega) h.row_end_le rfl ?_ ?_
  · rintro i - ⟨hregion, -, hlt⟩
    exact ⟨hregion, hlt⟩
  · intro i _ hge hlt
    exact Or.inl ⟨hge, by omega, hlt⟩

/-- `CSI 1 K`. With a wrap pending it is the whole row, as the column is clamped. -/
theorem erasesExactly_lineStart :
    ErasesExactly t 1 0x4b (t.lineRegion 1) (t.cursorRow, t.cursorCol) := by
  have hend := h.row_end_le
  have hpos := h.cols_pos
  refine erasesExactly_of_fill (a := t.cursorRow * t.cols)
    (b := t.cursorRow * t.cols + min t.cursorCol (t.cols - 1) + 1) (by omega) (by omega) ?_ ?_ ?_
  · show (do
      let lastCol ← Vec.usub t.cols 1
      let cells ← Vec.fill t.cells (t.cursorRow * t.cols)
        (t.cursorRow * t.cols + min t.cursorCol lastCol + 1) blank
      return { t with csiParams := [1], cells }) = _
    rw [Vec.usub_ok hpos, ok_bind]
  · rintro i - ⟨hregion, hge, -⟩
    exact ⟨hge, Nat.lt_succ_of_le hregion⟩
  · intro i _ hge hlt
    exact Or.inl ⟨Nat.le_of_lt_succ hlt, hge, by omega⟩

/-- `CSI 2 K`. -/
theorem erasesExactly_wholeLine :
    ErasesExactly t 2 0x4b (t.lineRegion 2) (t.cursorRow, t.cursorCol) := by
  refine erasesExactly_of_fill (a := t.cursorRow * t.cols)
    (b := t.cursorRow * t.cols + t.cols) (Nat.le_add_right _ _) h.row_end_le rfl ?_ ?_
  · rintro i - ⟨-, hrow⟩
    exact hrow
  · intro i _ hge hlt
    exact Or.inl ⟨trivial, hge, hlt⟩

theorem erasesExactly_line : ∀ n ∈ [0, 1, 2],
    ErasesExactly t n 0x4b (t.lineRegion n) (t.cursorRow, t.cursorCol) := by
  intro n hn
  simp only [List.mem_cons, List.not_mem_nil, or_false] at hn
  rcases hn with rfl | rfl | rfl
  · exact erasesExactly_lineEnd h
  · exact erasesExactly_lineStart h
  · exact erasesExactly_wholeLine h

/-- `CSI J`, from the cursor to the end of the grid. -/
theorem erasesExactly_below :
    ErasesExactly t 0 0x4a (t.displayRegion 0) (t.cursorRow, t.cursorCol) := by
  have hend := h.row_end_le
  have hcol := h.col_le
  refine erasesExactly_of_fill (a := t.cursorRow * t.cols + t.cursorCol)
    (b := t.cells.length) (by omega) le_rfl rfl ?_ ?_
  · intro i hi hregion
    exact ⟨hregion, hi⟩
  · intro i _ hge _
    exact Or.inl hge

/-- What `CSI 1 J` does. -/
theorem applyCsi_above :
    applyCsi { t with csiParams := [1] } 0x4a = (do
      let cells ← Vec.fill t.cells 0
        (min (t.cursorRow * t.cols + t.cursorCol) (t.cells.length - 1) + 1) blank
      return { t with csiParams := [1], cells }) := by
  have hlen : 1 ≤ t.cells.length := le_trans h.cols_pos h.cols_le
  show (do
    let lastCell ← Vec.usub t.cells.length 1
    let cells ← Vec.fill t.cells 0 (min (t.cursorRow * t.cols + t.cursorCol) lastCell + 1) blank
    return { t with csiParams := [1], cells }) = _
  rw [Vec.usub_ok hlen, ok_bind]

/-- The cell after the row of the cursor is there only if there is another row. -/
theorem Inv.row_succ_lt (hi : t.cursorRow * t.cols + t.cols < t.cells.length) :
    t.cursorRow + 1 < t.rows := by
  rw [h.cells_length, Nat.mul_comm t.cols, ← Nat.succ_mul] at hi
  exact Nat.lt_of_mul_lt_mul_right hi

/-- `CSI 1 J`, up to the cursor: here the column is not clamped. -/
theorem erasesExactly_above (hbleeds : ¬ Bleeds t) :
    ErasesExactly t 1 0x4a (t.displayRegion 1) (t.cursorRow, t.cursorCol) := by
  have hend := h.row_end_le
  have hcol := h.col_le
  have hpos := h.cols_pos
  refine erasesExactly_of_fill (Nat.zero_le _) (by omega) (applyCsi_above h) ?_ ?_
  · intro i hi hregion
    have hle : i ≤ t.cursorRow * t.cols + min t.cursorCol (t.cols - 1) := hregion
    omega
  · intro i hi _ hlt
    -- the slice ends in the row of the cursor, or one cell behind it
    rcases Nat.lt_or_ge i (t.cursorRow * t.cols + t.cols) with hrow | hrow
    · left
      show i ≤ t.cursorRow * t.cols + min t.cursorCol (t.cols - 1)
      omega
    · -- the first cell of the next row, which is blank
      right
      have hlast : i = t.cursorRow * t.cols + t.cols := by omega
      have hpending : t.cursorCol = t.cols := by omega
      by_contra hblank
      refine hbleeds ⟨hpending, h.row_succ_lt (hlast ▸ hi), ?_⟩
      rw [Nat.succ_mul, ← hlast]
      exact hblank

/-- Where `CSI 1 J` loses a cell of the next row. -/
theorem not_erasesExactly_above (hbleeds : Bleeds t) :
    ¬ ErasesExactly t 1 0x4a (t.displayRegion 1) (t.cursorRow, t.cursorCol) := by
  obtain ⟨hpending, hnext, hcell⟩ := hbleeds
  have hpos := h.cols_pos
  have hi : (t.cursorRow + 1) * t.cols < t.cells.length := by
    rw [h.cells_length, Nat.mul_comm t.cols]
    exact Nat.mul_lt_mul_of_pos_right hnext hpos
  have hidx : (t.cursorRow + 1) * t.cols = t.cursorRow * t.cols + t.cols := by ring
  rintro ⟨t', ht', -, hcells, -⟩
  rw [applyCsi_above h, Vec.fill_ok blank (Nat.zero_le _) (by omega)] at ht'
  cases ht'
  -- the cell is not in the region, but it is filled
  have hkept := (hcells _ hi).2 (by
    intro hregion
    have hle : (t.cursorRow + 1) * t.cols ≤
      t.cursorRow * t.cols + min t.cursorCol (t.cols - 1) := hregion
    omega)
  rw [Vec.getElem?_filled blank (Nat.zero_le _) (by omega), if_pos (by omega)] at hkept
  exact hcell hkept.symm

end

/-- The seven commands erase their regions and nothing else, except where a wrap is
pending and the next row does not begin with a blank. -/
theorem erasesRight_iff (t : Terminal) (h : Reached t) (hfits : CountFits (t.cols, t.rows)) :
    ErasesRight t ↔ ¬ Bleeds t := by
  have hinv := h.inv hfits
  constructor
  · intro hright hbleeds
    exact not_erasesExactly_above hinv hbleeds (hright.display 1 (by simp))
  · intro hbleeds
    refine ⟨?_, erasesExactly_all t, erasesExactly_line hinv⟩
    intro n hn
    rcases List.mem_pair.mp hn with rfl | rfl
    · exact erasesExactly_below hinv
    · exact erasesExactly_above hinv hbleeds

/-- The rows `xy` and `ab`, with a wrap pending in the given row. -/
def twoByTwo (row : Nat) : Terminal :=
  { cols := 2, rows := 2, cells := [0x78, 0x79, 0x61, 0x62].map fun ch => ⟨ch, none, none⟩
    cursorRow := row, cursorCol := 2, esc := .none, dirty := true, csiParams := [], csiCur := none
    curFg := none, curBg := none, bold := false }

/-- With the wrap pending in the last row nothing is lost, in the first row the `a` is. -/
theorem erasesRight_iff_twoByTwo : ErasesRight (twoByTwo 1) ∧ ¬ ErasesRight (twoByTwo 0) :=
  ⟨(erasesRight_iff (twoByTwo 1) ⟨2, 2, [0x78, 0x79, 0x61, 0x62].map .byte, by decide, by decide,
      rfl⟩ (by decide)).mpr (by decide),
    fun h => absurd (by decide) ((erasesRight_iff (twoByTwo 0) ⟨2, 2, [0x0a, 0x61, 0x62, 0x1b, 0x5b,
      0x48, 0x78, 0x79].map .byte, by decide, by decide, rfl⟩ (by decide)).mp h)⟩

/-- `ab` in the second row and `xy` in the first, which leaves a wrap pending: `CSI 1 J`
erases the `a`. -/
theorem erase_above_bleeds :
    shown <$> runNew 2 2 ([0x0a, 0x61, 0x62, 0x1b, 0x5b, 0x48, 0x78, 0x79].map .byte) =
      .ok ([0x78, 0x79, 0x61, 0x62], 2) ∧
    shown <$> runNew 2 2 ([0x0a, 0x61, 0x62, 0x1b, 0x5b, 0x48, 0x78, 0x79, 0x1b, 0x5b, 0x31,
      0x4a].map .byte) = .ok ([0x20, 0x20, 0x20, 0x62], 2) := by
  exact ⟨rfl, rfl⟩

end Terminal

end K1de
