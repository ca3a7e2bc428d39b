import K1de.Terminal.Invariant

/-! # The terminal never faults

Every function of the parser, run from a terminal that satisfies `Inv`, returns
a terminal of the same size that satisfies `Inv` again (`processByte_keeps`).
With `resize_sat` this gives the run lemma `reachable_inv`: the only fault a run
can meet is the allocator's refusal of a grid of more than `isize::MAX` bytes.
-/

namespace K1de

open Fallible

namespace Terminal

/-- The postcondition of every operation on bytes. -/
structure Keeps (t t' : Terminal) : Prop where
  inv : Inv t'
  cols_eq : t'.cols = t.cols
  rows_eq : t'.rows = t.rows

theorem Keeps.trans {t t' t'' : Terminal} (h : Keeps t t') (h' : Keeps t' t'') : Keeps t t'' where
  inv := h'.inv
  cols_eq := h'.cols_eq.trans h.cols_eq
  rows_eq := h'.rows_eq.trans h.rows_eq

theorem Keeps.of_screen {t t' : Terminal} (h : Inv t) (hs : t'.screen = t.screen) : Keeps t t' where
  inv := h.of_screen hs
  cols_eq := congrArg Screen.cols hs
  rows_eq := congrArg Screen.rows hs

/-- No fault, and `Keeps`. -/
def Safe (t : Terminal) (r : Except Fault Terminal) : Prop :=
  Sat r (Keeps t) (fun _ => False)

theorem safe_ok {t t' : Terminal} (h : Keeps t t') : Safe t (.ok t') := h

/-- Steps that are safe compose. -/
theorem Keeps.safe {t t' : Terminal} {r : Except Fault Terminal} (h : Keeps t t')
    (hr : Safe t' r) : Safe t r :=
  sat_mono hr (fun _ h' => h.trans h') (fun _ hf => hf)

/-- A cursor motion on the grid is safe. -/
theorem Inv.keeps_cursor {t : Terminal} (h : Inv t) {row col : Nat} (hrow : row < t.rows)
    (hcol : col ≤ t.cols) : Keeps t { t with cursorRow := row, cursorCol := col } :=
  ⟨h.update rfl h.cells_ok hrow hcol, rfl, rfl⟩

/-! ## Plain output -/

/-- A new line is safe: the grid has a row to scroll out. -/
theorem newline_safe {t : Terminal} (h : Inv t) : Safe t t.newline := by
  rw [newline_ok h.cols_le]
  refine safe_ok ⟨h.newlined, newlined_cols t, ?_⟩
  unfold newlined
  split <;> rfl

theorem wrapped_cols (t : Terminal) : t.wrapped.cols = t.cols := by
  unfold wrapped
  split
  · exact newlined_cols t
  · rfl

theorem wrapped_rows (t : Terminal) : t.wrapped.rows = t.rows := by
  unfold wrapped newlined
  split
  · split <;> rfl
  · rfl

/-- A printable character is safe, also behind the last column. -/
theorem put_safe {t : Terminal} (h : Inv t) {ch : UInt8} (hlo : 0x20 ≤ ch) (hhi : ch ≤ 0x7e) :
    Safe t (t.put ch) := by
  rw [put_ok h]
  exact safe_ok ⟨h.putted hlo hhi, wrapped_cols t, wrapped_rows t⟩

/-- A tab prints spaces. -/
theorem tabLoop_safe {t : Terminal} (h : Inv t) (next fuel : Nat) :
    Safe t (tabLoop next fuel t) := by
  induction fuel generalizing t with
  | zero => exact safe_ok ⟨h, rfl, rfl⟩
  | succ fuel ih =>
      unfold tabLoop
      split
      · apply sat_bind
        refine sat_mono (put_safe h (by decide) (by decide)) (fun t' ht' => ?_) (fun _ hf => hf)
        exact ht'.safe (ih ht'.inv)
      · exact safe_ok ⟨h, rfl, rfl⟩

/-- A character before the right margin moves the cursor by one. -/
theorem put_cursorCol {t t' : Terminal} {ch : UInt8} (hcol : t.cursorCol < t.cols)
    (h : t.put ch = .ok t') : t'.cursorCol = t.cursorCol + 1 := by
  have hwrap : t.wrap = .ok t := by
    unfold wrap
    rw [if_neg (by omega)]
  unfold put at h
  rw [hwrap, ok_bind] at h
  cases hset : Vec.setIndex t.cells (t.cursorRow * t.cols + t.cursorCol) (t.penCell ch) with
  | error f =>
      rw [hset] at h
      cases h
  | ok cells =>
      rw [hset] at h
      cases h
      rfl

/-- The tab loop ends within its fuel: more changes nothing. -/
theorem tabLoop_fuel (next fuel extra : Nat) (t : Terminal) (h : next - t.cursorCol ≤ fuel) :
    tabLoop next (fuel + extra) t = tabLoop next fuel t := by
  induction fuel generalizing t with
  | zero =>
      cases extra with
      | zero => rfl
      | succ extra =>
          unfold tabLoop
          rw [if_neg (by omega)]
  | succ fuel ih =>
      rw [show fuel + 1 + extra = fuel + extra + 1 by omega]
      unfold tabLoop
      split
      · next hcond =>
          cases hput : t.put 0x20 with
          | error f => rfl
          | ok t' =>
              have hcol := put_cursorCol hcond.2 hput
              exact ih t' (by omega)
      · rfl

/-! ## Erasing -/

/-- Filling a part of the grid with blanks is safe. -/
theorem Inv.fill_safe {t : Terminal} (h : Inv t) {a b row col : Nat} (hab : a ≤ b)
    (hb : b ≤ t.cells.length) (hrow : row < t.rows) (hcol : col ≤ t.cols) :
    Safe t (do
      let cells ← Vec.fill t.cells a b blank
      return { t with cells := cells, cursorRow := row, cursorCol := col }) := by
  rw [Vec.fill_ok blank hab hb]
  exact safe_ok ⟨h.filled hab hb hrow hcol, rfl, rfl⟩

/-- The ranges of `CSI K` are in the row of the cursor. -/
theorem eraseLine_safe {t : Terminal} (h : Inv t) : Safe t t.eraseLine := by
  have hend := h.row_end_le
  have hcol := h.col_le
  have hpos := h.cols_pos
  unfold eraseLine
  dsimp only
  split
  · exact h.fill_safe (by omega) hend h.row_lt hcol
  · split
    · -- mode 1: up to the cursor, which may be behind the last column
      rw [Vec.usub_ok hpos, ok_bind]
      exact h.fill_safe (by omega) (by omega) h.row_lt hcol
    · split
      · exact h.fill_safe (by omega) hend h.row_lt hcol
      · exact safe_ok ⟨h, rfl, rfl⟩

/-- The ranges of `CSI J` are in the grid. -/
theorem eraseDisplay_safe {t : Terminal} (h : Inv t) : Safe t t.eraseDisplay := by
  have hend := h.row_end_le
  have hcol := h.col_le
  have hpos := h.cols_pos
  unfold eraseDisplay
  dsimp only
  split
  · exact h.fill_safe (by omega) le_rfl h.row_lt hcol
  · split
    · -- mode 1: up to the cursor, or to the last cell of the grid
      rw [Vec.usub_ok (by omega), ok_bind]
      exact h.fill_safe (Nat.zero_le _) (by omega) h.row_lt hcol
    · split
      · exact h.fill_safe (Nat.zero_le _) le_rfl h.rows_pos (Nat.zero_le _)
      · exact safe_ok ⟨h, rfl, rfl⟩

/-! ## Colours -/

/-- `t'` differs from `t` in the SGR state only, and there only by palette
colours. -/
def SgrOnly (t t' : Terminal) : Prop :=
  ∃ fg bg b, t' = { t with curFg := fg, curBg := bg, bold := b } ∧
    (ColourOk t.curFg → ColourOk fg) ∧ (ColourOk t.curBg → ColourOk bg)

theorem SgrOnly.refl (t : Terminal) : SgrOnly t t :=
  ⟨t.curFg, t.curBg, t.bold, rfl, id, id⟩

theorem SgrOnly.trans {t t' t'' : Terminal} (h : SgrOnly t t') (h' : SgrOnly t' t'') :
    SgrOnly t t'' := by
  obtain ⟨fg, bg, b, rfl, hfg, hbg⟩ := h
  obtain ⟨fg', bg', b', rfl, hfg', hbg'⟩ := h'
  exact ⟨fg', bg', b', rfl, fun hc => hfg' (hfg hc), fun hc => hbg' (hbg hc)⟩

/-- The pen is no matter of the grid. -/
theorem SgrOnly.keeps {t t' : Terminal} (h : Inv t) (hs : SgrOnly t t') : Keeps t t' := by
  obtain ⟨fg, bg, b, rfl, hfg, hbg⟩ := hs
  refine ⟨?_, rfl, rfl⟩
  exact {
    cols_pos := h.cols_pos
    rows_pos := h.rows_pos
    cells_length := h.cells_length
    cells_fit := h.cells_fit
    row_lt := h.row_lt
    col_le := h.col_le
    curFg_ok := hfg h.curFg_ok
    curBg_ok := hbg h.curBg_ok
    cells_ok := h.cells_ok }

/-- The eight colours of a basic code range starting at `lo`. -/
theorem basicColour_lt {p lo : UInt32} (hlo : lo ≤ p) (hhi : p.toNat ≤ lo.toNat + 7) :
    (p - lo).toUInt8.toNat < 8 := by
  rw [UInt32.toNat_toUInt8, UInt32.toNat_sub_of_le _ _ hlo]
  rw [UInt32.le_iff_toNat_le] at hlo
  omega

/-- The codes of one range are the first eight colours of the palette. -/
theorem colourOk_basic {p lo : UInt32} (hlo : lo ≤ p) (hhi : p.toNat ≤ lo.toNat + 7) :
    ColourOk (some (p - lo).toUInt8) := by
  apply colourOk_some
  have := basicColour_lt hlo hhi
  rw [UInt8.lt_iff_toNat_lt]
  exact Nat.lt_trans this (by decide)

/-- The codes of a bright range are the other eight. -/
theorem colourOk_bright {p lo : UInt32} (hlo : lo ≤ p) (hhi : p.toNat ≤ lo.toNat + 7) :
    ColourOk (some ((p - lo).toUInt8 + 8)) := by
  apply colourOk_some
  have h8 := basicColour_lt hlo hhi
  rw [UInt8.lt_iff_toNat_lt, UInt8.toNat_add]
  simp only [UInt8.reduceToNat]
  omega

theorem setColour_sgrOnly (t : Terminal) (targetFg : Bool) {c : UInt8} (hc : c < 16) :
    SgrOnly t (t.setColour targetFg c) := by
  unfold setColour
  split
  · exact ⟨some c, t.curBg, t.bold, rfl, fun _ => colourOk_some hc, id⟩
  · exact ⟨t.curFg, some c, t.bold, rfl, id, fun _ => colourOk_some hc⟩

/-- An extended colour is replaced by one of the palette. -/
theorem extendedColour_sgrOnly (t : Terminal) (i : Nat) (targetFg : Bool) :
    SgrOnly t (t.extendedColour i targetFg).1 := by
  unfold extendedColour
  split
  · split
    · exact setColour_sgrOnly t targetFg (nearest16_lt _)
    · exact SgrOnly.refl t
  · split
    · exact setColour_sgrOnly t targetFg (nearest16_lt _)
    · exact SgrOnly.refl t

theorem SgrOnly.ite {t : Terminal} {c : Prop} [Decidable c] {x y : Terminal × Nat}
    (hx : c → SgrOnly t x.1) (hy : SgrOnly t y.1) : SgrOnly t (if c then x else y).1 := by
  by_cases hc : c
  · rw [if_pos hc]
    exact hx hc
  · rw [if_neg hc]
    exact hy

/-- No parameter of SGR touches anything but the pen, and none sets a colour off the palette. -/
theorem sgrParam_sgrOnly (t : Terminal) (i : Nat) (p : UInt32) :
    SgrOnly t (t.sgrParam i p).1 := by
  unfold sgrParam
  -- one branch per code range, in the order of the source
  refine .ite (fun _ => ?_) (.ite (fun _ => ?_) (.ite (fun _ => ?_) ?_))
  · -- 0, 1 and 22
    exact ⟨none, none, false, rfl, fun _ => colourOk_none, fun _ => colourOk_none⟩
  · exact ⟨t.curFg, t.curBg, true, rfl, id, id⟩
  · exact ⟨t.curFg, t.curBg, false, rfl, id, id⟩
  refine .ite (fun hp => ?_) (.ite (fun _ => ?_) (.ite (fun hp => ?_) (.ite (fun _ => ?_) ?_)))
  · -- 30 to 37, and 39
    exact ⟨_, t.curBg, t.bold, rfl,
      fun _ => colourOk_basic hp.1 (UInt32.le_iff_toNat_le.mp hp.2), id⟩
  · exact ⟨none, t.curBg, t.bold, rfl, fun _ => colourOk_none, id⟩
  · -- 40 to 47, and 49
    exact ⟨t.curFg, _, t.bold, rfl, id,
      fun _ => colourOk_basic hp.1 (UInt32.le_iff_toNat_le.mp hp.2)⟩
  · exact ⟨t.curFg, none, t.bold, rfl, id, fun _ => colourOk_none⟩
  refine .ite (fun hp => ?_) (.ite (fun hp => ?_) (.ite (fun _ => ?_) ?_))
  · -- 90 to 97, 100 to 107, and the groups of 38 and 48
    exact ⟨_, t.curBg, t.bold, rfl,
      fun _ => colourOk_bright hp.1 (UInt32.le_iff_toNat_le.mp hp.2), id⟩
  · exact ⟨t.curFg, _, t.bold, rfl, id,
      fun _ => colourOk_bright hp.1 (UInt32.le_iff_toNat_le.mp hp.2)⟩
  · exact extendedColour_sgrOnly t i _
  · exact SgrOnly.refl t

theorem sgrParam_csiParams (t : Terminal) (i : Nat) (p : UInt32) :
    (t.sgrParam i p).1.csiParams = t.csiParams := by
  obtain ⟨fg, bg, b, heq, -⟩ := sgrParam_sgrOnly t i p
  rw [heq]

/-- The SGR loop ends within its fuel: more changes nothing. -/
theorem sgrLoop_fuel (fuel extra i : Nat) (t : Terminal) (h : t.csiParams.length - i ≤ fuel) :
    sgrLoop (fuel + extra) i t = sgrLoop fuel i t := by
  induction fuel generalizing i t with
  | zero =>
      cases extra with
      | zero => rfl
      | succ extra =>
          unfold sgrLoop
          rw [if_neg (by omega)]
  | succ fuel ih =>
      rw [show fuel + 1 + extra = fuel + extra + 1 by omega]
      unfold sgrLoop
      split
      · next hi =>
          rw [Vec.index_ok (List.getElem?_eq_getElem hi), ok_bind, ok_bind]
          have hparams := sgrParam_csiParams t i t.csiParams[i]
          generalize t.sgrParam i t.csiParams[i] = r at hparams ⊢
          obtain ⟨t', skip⟩ := r
          dsimp only at hparams ⊢
          apply ih
          rw [hparams]
          omega
      · rfl

/-- The loop only indexes parameters it has. -/
theorem sgrLoop_sat (fuel i : Nat) (t : Terminal) :
    Sat (sgrLoop fuel i t) (SgrOnly t) (fun _ => False) := by
  induction fuel generalizing i t with
  | zero => exact SgrOnly.refl t
  | succ fuel ih =>
      unfold sgrLoop
      split
      · next hi =>
          rw [Vec.index_ok (List.getElem?_eq_getElem hi), ok_bind]
          exact sat_mono (ih _ _) (fun _ h => (sgrParam_sgrOnly t i _).trans h) (fun _ hf => hf)
      · exact SgrOnly.refl t

/-- SGR touches nothing but the pen, and never faults: no index into the parameters is out of
range. -/
theorem applySgr_sat (t : Terminal) : Sat t.applySgr (SgrOnly t) (fun _ => False) := by
  unfold applySgr
  split
  · exact ⟨none, none, false, rfl, fun _ => colourOk_none, fun _ => colourOk_none⟩
  · exact sgrLoop_sat _ _ t

/-! ## Control sequences and bytes -/

/-- Every control sequence is safe, whatever its parameters: motions are clamped to the grid. -/
theorem applyCsi_safe {t : Terminal} (h : Inv t) (finalByte : UInt8) :
    Safe t (t.applyCsi finalByte) := by
  have hcol := h.col_le
  have hrows := h.rows_pos
  unfold applyCsi
  split
  · exact eraseLine_safe h
  split
  · exact eraseDisplay_safe h
  split
  · exact safe_ok (h.keeps_cursor h.row_lt (by omega))
  split
  · exact safe_ok (h.keeps_cursor h.row_lt (by omega))
  split
  · exact safe_ok (h.keeps_cursor h.row_lt (by omega))
  split
  · exact safe_ok (h.keeps_cursor (by omega) (by omega))
  split
  · exact sat_mono (applySgr_sat t) (fun _ hs => hs.keeps h) (fun _ hf => hf)
  · exact safe_ok ⟨h, rfl, rfl⟩

/-- Every byte outside of sequences is safe. -/
theorem groundByte_safe {t : Terminal} (h : Inv t) (b : UInt8) : Safe t (t.groundByte b) := by
  have hcol := h.col_le
  unfold groundByte
  split
  · exact newline_safe h
  split
  · exact safe_ok (h.keeps_cursor h.row_lt (Nat.zero_le _))
  split
  · exact tabLoop_safe h _ _
  split
  · split
    · exact safe_ok (h.keeps_cursor h.row_lt (by omega))
    · exact safe_ok ⟨h, rfl, rfl⟩
  split
  · exact safe_ok (Keeps.of_screen h rfl)
  split
  · next hb => exact put_safe h hb.1 hb.2
  · exact safe_ok ⟨h, rfl, rfl⟩

/-- The byte after `ESC` only selects what follows. -/
theorem escByte_screen (t : Terminal) (b : UInt8) : (t.escByte b).screen = t.screen := by
  unfold escByte
  split_ifs <;> rfl

/-- A byte of a control sequence is collected, or ends it. -/
theorem csiByte_safe {t : Terminal} (h : Inv t) (b : UInt8) : Safe t (t.csiByte b) := by
  unfold csiByte
  split
  · exact safe_ok (Keeps.of_screen h rfl)
  split
  · exact safe_ok (Keeps.of_screen h rfl)
  split
  · -- the final byte: collect the last parameter, act, leave the sequence
    have hcollect :
        Keeps t { t with csiParams := t.csiParams ++ t.csiCur.toList, csiCur := none } :=
      Keeps.of_screen h rfl
    apply sat_bind
    refine sat_mono (applyCsi_safe hcollect.inv b) (fun t' ht' => ?_) (fun _ hf => hf)
    exact (hcollect.trans ht').trans (Keeps.of_screen ht'.inv rfl)
  · exact safe_ok ⟨h, rfl, rfl⟩

/-- One byte, in any parser state. -/
theorem processByte_keeps {t : Terminal} (h : Inv t) (b : UInt8) : Safe t (t.processByte b) := by
  have hdirty : Keeps t { t with dirty := true } := Keeps.of_screen h rfl
  unfold processByte
  dsimp only
  split
  · exact hdirty.safe (groundByte_safe hdirty.inv b)
  · exact safe_ok (Keeps.of_screen h (escByte_screen _ b))
  · exact hdirty.safe (csiByte_safe hdirty.inv b)
  · -- strings of a terminal command: they change the parser only
    split_ifs
    all_goals exact safe_ok (Keeps.of_screen h rfl)
  · exact safe_ok (Keeps.of_screen h rfl)
  · split_ifs
    all_goals exact safe_ok (Keeps.of_screen h rfl)
  · exact safe_ok (Keeps.of_screen h rfl)
  · exact safe_ok (Keeps.of_screen h rfl)

/-- A chunk of bytes. -/
theorem feed_keeps {t : Terminal} (h : Inv t) (bytes : List UInt8) : Safe t (t.feed bytes) := by
  apply run_sat (fun _ => True)
  · intro s b hs _
    exact hs.safe (processByte_keeps hs.inv b)
  · exact ⟨h, rfl, rfl⟩
  · intro _ _
    trivial

/-! ## Allocation -/

/-- The cell counts that do not overflow `usize`. -/
def CountFits (size : Nat × Nat) : Prop := size.1 * size.2 < Vec.usizeSize

instance : DecidablePred CountFits := fun _ => inferInstanceAs (Decidable (_ < _))

/-- The grids that the allocator refuses. -/
def TooLarge (size : Nat × Nat) : Prop := Vec.isizeMax < cellSize * (size.1 * size.2)

/-- A grid whose cell count does not overflow has all its cells, or is refused. -/
theorem blankCells_sat {cols rows : Nat} (h : CountFits (cols, rows)) :
    Sat (blankCells cols rows)
      (fun cells => cells = List.replicate (cols * rows) blank ∧
        cellSize * (cols * rows) ≤ Vec.isizeMax)
      (fun f => f = .capacityOverflow ∧ TooLarge (cols, rows)) := by
  have hmod : cols * rows % Vec.usizeSize = cols * rows := Nat.mod_eq_of_lt h
  unfold blankCells Vec.fromElem
  rw [hmod]
  split
  · next hle => exact ⟨rfl, hle⟩
  · next hgt => exact ⟨rfl, Nat.lt_of_not_le hgt⟩

/-- An empty grid of any size satisfies the invariant. -/
theorem inv_blank {t : Terminal} (hcols : 1 ≤ t.cols) (hrows : 1 ≤ t.rows)
    (hcells : t.cells = List.replicate (t.cols * t.rows) blank)
    (hfit : cellSize * (t.cols * t.rows) ≤ Vec.isizeMax)
    (hrow : t.cursorRow = 0) (hcol : t.cursorCol = 0)
    (hfg : ColourOk t.curFg) (hbg : ColourOk t.curBg) : Inv t where
  cols_pos := hcols
  rows_pos := hrows
  cells_length := by rw [hcells, List.length_replicate]
  cells_fit := by rwa [hcells, List.length_replicate]
  row_lt := by omega
  col_le := by omega
  curFg_ok := hfg
  curBg_ok := hbg
  cells_ok := by
    intro c hc
    rw [hcells] at hc
    rw [List.eq_of_mem_replicate hc]
    exact blank_ok

/-- A new terminal satisfies the invariant, unless the allocator refuses it. -/
theorem new_sat {cols rows : Nat} (hcols : 1 ≤ cols) (hrows : 1 ≤ rows)
    (h : CountFits (cols, rows)) :
    Sat (new cols rows) (fun t => Inv t ∧ t.cols = cols ∧ t.rows = rows)
      (fun f => f = .capacityOverflow ∧ TooLarge (cols, rows)) := by
  apply sat_bind
  refine sat_mono (blankCells_sat h) (fun cells hcells => ?_) (fun _ hf => hf)
  exact ⟨inv_blank hcols hrows hcells.1 hcells.2 rfl rfl colourOk_none colourOk_none, rfl, rfl⟩

/-- A resized terminal satisfies the invariant, unless the allocator refuses it. The pen is kept.
-/
theorem resize_sat {t : Terminal} (ht : Inv t) {cols rows : Nat}
    (h : CountFits (max cols 1, max rows 1)) :
    Sat (t.resize cols rows)
      (fun t' => Inv t' ∧ t'.cols = max cols 1 ∧ t'.rows = max rows 1)
      (fun f => f = .capacityOverflow ∧ TooLarge (max cols 1, max rows 1)) := by
  unfold resize
  split
  · next heq =>
      have := ht.cols_pos
      have := ht.rows_pos
      exact ⟨ht, by omega, by omega⟩
  · apply sat_bind
    refine sat_mono (blankCells_sat h) (fun cells hcells => ?_) (fun _ hf => hf)
    exact ⟨inv_blank (le_max_right _ _) (le_max_right _ _) hcells.1 hcells.2 rfl rfl
      ht.curFg_ok ht.curBg_ok, rfl, rfl⟩

/-! ## Runs -/

/-- What `main` does to a terminal. -/
inductive Op where
  | byte (b : UInt8)
  | resize (cols rows : Nat)
deriving DecidableEq, Repr

def step (t : Terminal) : Op → Except Fault Terminal
  | .byte b => t.processByte b
  | .resize cols rows => t.resize cols rows

/-- A run from a new terminal. -/
def runNew (cols rows : Nat) (ops : List Op) : Except Fault Terminal := do
  let t ← new cols rows
  run step t ops

/-- The grid sizes that a run allocates. -/
def sizes (cols rows : Nat) (ops : List Op) : List (Nat × Nat) :=
  (cols, rows) :: ops.filterMap fun
    | .byte _ => none
    | .resize c r => some (max c 1, max r 1)

/-- The run lemma, for any fault predicate that admits the allocator's refusal. -/
theorem runNew_sat {cols rows : Nat} {ops : List Op} {Q : Fault → Prop} (hcols : 1 ≤ cols)
    (hrows : 1 ≤ rows) (hfits : ∀ size ∈ sizes cols rows ops, CountFits size)
    (hQ : ∀ size ∈ sizes cols rows ops, TooLarge size → Q .capacityOverflow) :
    Sat (runNew cols rows ops) Inv Q := by
  have hnew := new_sat hcols hrows (hfits _ List.mem_cons_self)
  apply sat_bind
  refine sat_mono hnew (fun t ht => ?_) (fun f hf => ?_)
  · apply run_sat (fun op => op ∈ ops) _ _ _ ht.1 (fun _ hop => hop)
    intro s op hs hop
    cases op with
    | byte b => exact sat_mono (processByte_keeps hs b) (fun _ hk => hk.inv) (fun _ hf => hf.elim)
    | resize c r =>
        have hmem : (max c 1, max r 1) ∈ sizes cols rows ops := by
          apply List.mem_cons_of_mem
          exact List.mem_filterMap.mpr ⟨_, hop, rfl⟩
        refine sat_mono (resize_sat hs (hfits _ hmem)) (fun _ hk => hk.1) (fun f hf => ?_)
        rw [hf.1]
        exact hQ _ hmem hf.2
  · rw [hf.1]
    exact hQ _ List.mem_cons_self hf.2

/-- Every run whose cell counts fit a `usize` ends in a terminal that satisfies
the invariant, or stops in the allocator at a grid of more than `isize::MAX`
bytes. No index, slice or subtraction of any step fails. -/
theorem reachable_inv (cols rows : Nat) (ops : List Op) (hcols : 1 ≤ cols) (hrows : 1 ≤ rows)
    (hfits : ∀ size ∈ sizes cols rows ops, CountFits size) :
    Sat (runNew cols rows ops) Inv
      (fun f => f = .capacityOverflow ∧ ∃ size ∈ sizes cols rows ops, TooLarge size) :=
  runNew_sat hcols hrows hfits (fun size hmem hlarge => ⟨rfl, size, hmem, hlarge⟩)

theorem reachable_inv_two_by_one :
    Sat (runNew 2 1 [.byte 0x61, .byte 0x62, .byte 0x63, .resize 0 3, .byte 0x0a]) Inv
      (fun f => f = .capacityOverflow ∧
        ∃ size ∈ sizes 2 1 [.byte 0x61, .byte 0x62, .byte 0x63, .resize 0 3, .byte 0x0a],
          TooLarge size) :=
  reachable_inv 2 1 _ (by decide) (by decide) (by decide)

/-- Where the cell count does overflow, the grid is too small for its own size:
`2 ^ 32` columns and rows leave no cell at all, and the next character has no
place. -/
theorem overflowing_resize_faults :
    runNew 1 1 [.resize (2 ^ 32) (2 ^ 32), .byte 0x61] = .error .indexOutOfBounds := by
  rfl

end Terminal

end K1de
