import K1de.Terminal.Safety

/-! # Terminals of any run

`Reached` says that a terminal can come about at all: by any bytes and any resizes,
also by such whose cell count overflows `usize`. A grid that overflowed is too small
for its own size, and a byte may then panic. But the damage does not outlive the
grid: as soon as the size is one that fits, the terminal satisfies `Inv` again
(`Reached.inv`).
-/

namespace K1de

open Fallible

namespace Terminal

/-- The terminals of all runs from a new one. -/
def Reached (t : Terminal) : Prop :=
  ∃ cols rows ops, 1 ≤ cols ∧ 1 ≤ rows ∧ runNew cols rows ops = .ok t

/-! ## What no byte changes -/

/-- The size stays, and palette colours stay palette colours. This needs nothing of
the grid. -/
structure Framed (t t' : Terminal) : Prop where
  cols_eq : t'.cols = t.cols
  rows_eq : t'.rows = t.rows
  curFg_ok : ColourOk t.curFg → ColourOk t'.curFg
  curBg_ok : ColourOk t.curBg → ColourOk t'.curBg

theorem Framed.refl (t : Terminal) : Framed t t := ⟨rfl, rfl, id, id⟩

theorem Framed.trans {t t' t'' : Terminal} (h : Framed t t') (h' : Framed t' t'') :
    Framed t t'' where
  cols_eq := h'.cols_eq.trans h.cols_eq
  rows_eq := h'.rows_eq.trans h.rows_eq
  curFg_ok := fun hfg => h'.curFg_ok (h.curFg_ok hfg)
  curBg_ok := fun hbg => h'.curBg_ok (h.curBg_ok hbg)

/-- Either a fault, or a framed terminal. -/
def Frames (t : Terminal) (r : Except Fault Terminal) : Prop :=
  Sat r (Framed t) (fun _ => True)

/-- The same size and pen. -/
theorem frames_same {t t' : Terminal} (hcols : t'.cols = t.cols) (hrows : t'.rows = t.rows)
    (hfg : t'.curFg = t.curFg) (hbg : t'.curBg = t.curBg) : Frames t (.ok t') := by
  refine ⟨hcols, hrows, ?_, ?_⟩
  · rw [hfg]
    exact id
  · rw [hbg]
    exact id

/-- A computation that may fail, and a terminal made from its result. -/
theorem frames_read {α : Type} {t : Terminal} {r : Except Fault α}
    {f : α → Except Fault Terminal} (h : ∀ a, Frames t (f a)) : Frames t (r >>= f) := by
  cases r with
  | error e => exact trivial
  | ok a => exact h a

/-- Framed steps compose. -/
theorem Frames.bind {t : Terminal} {r : Except Fault Terminal}
    {f : Terminal → Except Fault Terminal} (hr : Frames t r) (hf : ∀ t', Frames t' (f t')) :
    Frames t (r >>= f) := by
  cases r with
  | error e => exact trivial
  | ok t' => exact sat_mono (hf t') (fun _ h => Framed.trans hr h) (fun _ h => h)

theorem Frames.ite {t : Terminal} {c : Prop} [Decidable c] {r r' : Except Fault Terminal}
    (hr : Frames t r) (hr' : Frames t r') : Frames t (if c then r else r') := by
  by_cases hc : c
  · rw [if_pos hc]
    exact hr
  · rw [if_neg hc]
    exact hr'

theorem newline_frames (t : Terminal) : Frames t t.newline := by
  apply Frames.ite
  · exact frames_read fun cells => frames_same rfl rfl rfl rfl
  · exact frames_same rfl rfl rfl rfl

/-- Printing changes cells and the cursor. -/
theorem put_frames (t : Terminal) (ch : UInt8) : Frames t (t.put ch) := by
  have hwrap : Frames t t.wrap := Frames.ite (newline_frames t) (Framed.refl t)
  apply hwrap.bind
  intro t'
  exact frames_read fun cells => frames_same rfl rfl rfl rfl

theorem tabLoop_frames (next fuel : Nat) (t : Terminal) : Frames t (tabLoop next fuel t) := by
  induction fuel generalizing t with
  | zero => exact Framed.refl t
  | succ fuel ih => exact Frames.ite ((put_frames t 0x20).bind ih) (Framed.refl t)

theorem eraseLine_frames (t : Terminal) : Frames t t.eraseLine := by
  apply Frames.ite
  · exact frames_read fun cells => frames_same rfl rfl rfl rfl
  apply Frames.ite
  · exact frames_read fun lastCol => frames_read fun cells => frames_same rfl rfl rfl rfl
  · exact Frames.ite (frames_read fun cells => frames_same rfl rfl rfl rfl) (Framed.refl t)

theorem eraseDisplay_frames (t : Terminal) : Frames t t.eraseDisplay := by
  apply Frames.ite
  · exact frames_read fun cells => frames_same rfl rfl rfl rfl
  apply Frames.ite
  · exact frames_read fun lastCell => frames_read fun cells => frames_same rfl rfl rfl rfl
  · exact Frames.ite (frames_read fun cells => frames_same rfl rfl rfl rfl) (Framed.refl t)

/-- SGR sets palette colours. -/
theorem applySgr_frames (t : Terminal) : Frames t t.applySgr := by
  refine sat_mono (applySgr_sat t) ?_ (fun _ _ => trivial)
  rintro t' ⟨fg, bg, b, rfl, hfg, hbg⟩
  exact ⟨rfl, rfl, hfg, hbg⟩

/-- No control sequence resizes the grid. -/
theorem applyCsi_frames (t : Terminal) (finalByte : UInt8) : Frames t (t.applyCsi finalByte) := by
  apply Frames.ite (eraseLine_frames t)
  apply Frames.ite (eraseDisplay_frames t)
  -- cursor motions
  refine Frames.ite (frames_same rfl rfl rfl rfl) ?_
  refine Frames.ite (frames_same rfl rfl rfl rfl) ?_
  refine Frames.ite (frames_same rfl rfl rfl rfl) ?_
  refine Frames.ite (frames_same rfl rfl rfl rfl) ?_
  exact Frames.ite (applySgr_frames t) (Framed.refl t)

/-- No byte outside of sequences resizes it. -/
theorem groundByte_frames (t : Terminal) (b : UInt8) : Frames t (t.groundByte b) := by
  apply Frames.ite (newline_frames t)
  refine Frames.ite (frames_same rfl rfl rfl rfl) ?_
  apply Frames.ite (tabLoop_frames _ _ t)
  apply Frames.ite
  · exact Frames.ite (frames_same rfl rfl rfl rfl) (Framed.refl t)
  refine Frames.ite (frames_same rfl rfl rfl rfl) ?_
  exact Frames.ite (put_frames t b) (Framed.refl t)

/-- No byte of a control sequence does. -/
theorem csiByte_frames (t : Terminal) (b : UInt8) : Frames t (t.csiByte b) := by
  refine Frames.ite (frames_same rfl rfl rfl rfl) ?_
  refine Frames.ite (frames_same rfl rfl rfl rfl) ?_
  apply Frames.ite
  · -- the final byte acts on the collected parameters
    have hact := applyCsi_frames
      { t with csiParams := t.csiParams ++ t.csiCur.toList, csiCur := none } b
    have hcollect : Frames t (applyCsi
        { t with csiParams := t.csiParams ++ t.csiCur.toList, csiCur := none } b) :=
      sat_mono hact (fun t' h => ⟨h.cols_eq, h.rows_eq, h.curFg_ok, h.curBg_ok⟩) (fun _ h => h)
    apply hcollect.bind
    intro t'
    exact frames_same rfl rfl rfl rfl
  · exact Framed.refl t

/-- One byte, in any parser state and on any grid. -/
theorem processByte_frames (t : Terminal) (b : UInt8) : Frames t (t.processByte b) := by
  have hdirty : ∀ {r}, Frames { t with dirty := true } r → Frames t r := by
    intro r hr
    exact sat_mono hr (fun t' h => ⟨h.cols_eq, h.rows_eq, h.curFg_ok, h.curBg_ok⟩) (fun _ h => h)
  unfold processByte
  dsimp only
  split
  · exact hdirty (groundByte_frames _ b)
  · -- after `ESC`
    have hscreen := escByte_screen { t with dirty := true } b
    exact frames_same (congrArg Screen.cols hscreen) (congrArg Screen.rows hscreen)
      (congrArg Screen.curFg hscreen) (congrArg Screen.curBg hscreen)
  · exact hdirty (csiByte_frames _ b)
  · -- the states that swallow a string
    refine Frames.ite (frames_same rfl rfl rfl rfl) ?_
    exact Frames.ite (frames_same rfl rfl rfl rfl) (frames_same rfl rfl rfl rfl)
  · exact frames_same rfl rfl rfl rfl
  · exact Frames.ite (frames_same rfl rfl rfl rfl) (frames_same rfl rfl rfl rfl)
  · exact frames_same rfl rfl rfl rfl
  · exact frames_same rfl rfl rfl rfl

/-! ## Runs -/

/-- What every run keeps: the invariant wherever the cell count of the present size
fits, and the rest everywhere. -/
structure Sound (t : Terminal) : Prop where
  cols_pos : 1 ≤ t.cols
  rows_pos : 1 ≤ t.rows
  curFg_ok : ColourOk t.curFg
  curBg_ok : ColourOk t.curBg
  inv : CountFits (t.cols, t.rows) → Inv t

/-- A byte keeps the size, so if the cell count fits after it, it did before. -/
theorem Sound.byte {t t' : Terminal} (h : Sound t) {b : UInt8} (ht' : t.processByte b = .ok t') :
    Sound t' := by
  have hframed := processByte_frames t b
  rw [ht'] at hframed
  refine ⟨?_, ?_, hframed.curFg_ok h.curFg_ok, hframed.curBg_ok h.curBg_ok, ?_⟩
  · rw [hframed.cols_eq]
    exact h.cols_pos
  · rw [hframed.rows_eq]
    exact h.rows_pos
  · intro hfits
    rw [hframed.cols_eq, hframed.rows_eq] at hfits
    have hsafe := processByte_keeps (h.inv hfits) b
    rw [ht'] at hsafe
    exact hsafe.inv

/-- A grid that has just been allocated. -/
theorem sound_of_blank {t : Terminal} {cells : List Cell} (hcols : 1 ≤ t.cols)
    (hrows : 1 ≤ t.rows) (hcells : blankCells t.cols t.rows = .ok cells) (heq : t.cells = cells)
    (hrow : t.cursorRow = 0) (hcol : t.cursorCol = 0) (hfg : ColourOk t.curFg)
    (hbg : ColourOk t.curBg) : Sound t := by
  refine ⟨hcols, hrows, hfg, hbg, ?_⟩
  intro hfits
  have hsat := blankCells_sat hfits
  rw [hcells] at hsat
  exact inv_blank hcols hrows (heq.trans hsat.1) hsat.2 hrow hcol hfg hbg

theorem sound_new {t : Terminal} {cols rows : Nat} (hcols : 1 ≤ cols) (hrows : 1 ≤ rows)
    (h : new cols rows = .ok t) : Sound t := by
  obtain ⟨cells, hcells, ht⟩ := of_bind_ok h
  cases ht
  exact sound_of_blank hcols hrows hcells rfl rfl rfl colourOk_none colourOk_none

/-- A resize starts from a new grid, so what the old one was does not matter. -/
theorem Sound.resize {t t' : Terminal} (h : Sound t) {cols rows : Nat}
    (ht' : t.resize cols rows = .ok t') : Sound t' := by
  unfold Terminal.resize at ht'
  split at ht'
  · cases ht'
    exact h
  · obtain ⟨cells, hcells, ht⟩ := of_bind_ok ht'
    cases ht
    exact sound_of_blank (le_max_right _ _) (le_max_right _ _) hcells rfl rfl rfl h.curFg_ok
      h.curBg_ok

theorem Sound.step {t t' : Terminal} (h : Sound t) {op : Op} (ht' : step t op = .ok t') :
    Sound t' := by
  cases op with
  | byte b => exact h.byte ht'
  | resize cols rows => exact h.resize ht'

/-- Every terminal of a run is sound. -/
theorem Reached.sound {t : Terminal} (h : Reached t) : Sound t := by
  obtain ⟨cols, rows, ops, hcols, hrows, hrun⟩ := h
  obtain ⟨t₀, hnew, hrun⟩ := of_bind_ok hrun
  have hsat : Sat (run Terminal.step t₀ ops) Sound (fun _ => True) := by
    apply run_sat (fun _ => True) _ t₀ ops (sound_new hcols hrows hnew) (fun _ _ => trivial)
    intro s op hs _
    cases hstep : Terminal.step s op with
    | error f => trivial
    | ok s' => exact hs.step hstep
  rw [hrun] at hsat
  exact hsat

/-- A terminal whose present cell count fits satisfies the invariant, whatever grids
the run went through. -/
theorem Reached.inv {t : Terminal} (h : Reached t) (hfits : CountFits (t.cols, t.rows)) : Inv t :=
  h.sound.inv hfits

end Terminal

end K1de
