import K1de.Terminal.Safety
import K1de.Main.Spec

/-! # The sizes of screen, terminal and shell

Four pieces of the loop's state have a size: the buffer on the screen, the mode,
the terminal and the shell's window. They are set in different places, and a
refresh can fail after it has taken the old buffer down. `Geometry` says how they
agree; every phase keeps it.
-/

namespace K1de

open Fallible

/-! ## Agreement -/

/-- The columns or rows that fit a length in pixels: at least one. -/
def fit (pixels : UInt32) (glyph : Nat) : Nat := max 1 (pixels.toNat / glyph)

/-- The terminal has the size of the mode. -/
def FitsMode (font : Font) (t : Terminal) (m : Mode) : Prop :=
  t.cols = fit m.width font.width ∧ t.rows = fit m.height font.height

/-- The window size is the terminal's, without truncation. -/
def FitsTerm (p : Pty) (t : Terminal) : Prop :=
  p.winsize.1.toNat = t.cols ∧ p.winsize.2.toNat = t.rows

/-- The shell's window has the size of the terminal. -/
def PtySized (s : State) : Prop :=
  ∀ p, s.pty = some p → ∃ t, s.term = some t ∧ FitsTerm p t

/-- The mode and the terminal have the size of the buffer on the screen. -/
def ScreenSized (font : Font) (s : State) : Prop :=
  ∀ so, s.world.drm.scanout = some so →
    s.mode = some so.size ∧ ∃ t, s.term = some t ∧ FitsMode font t so.size

/-- The invariant: the buffer on the screen has the size of the mode, the terminal
too, and the shell's window that of the terminal. -/
structure Geometry (font : Font) (s : State) : Prop where
  mode_eq : ∀ so, s.world.drm.scanout = some so → s.mode = some so.size
  term_eq : ∀ m, s.mode = some m → ∃ t, s.term = some t ∧ FitsMode font t m
  pty_eq : PtySized s
  term_inv : ∀ t, s.term = some t → Terminal.Inv t

theorem Geometry.screenSized {font : Font} {s : State} (h : Geometry font s) :
    ScreenSized font s := by
  intro so hso
  have hmode := h.mode_eq so hso
  exact ⟨hmode, h.term_eq _ hmode⟩

/-- The invariant looks at the sizes only. -/
theorem Geometry.of_sizes {font : Font} {s s' : State} (h : Geometry font s)
    (hscreen : s'.world.drm.scanout.map ScanOut.size = s.world.drm.scanout.map ScanOut.size)
    (hmode : s'.mode = s.mode) (hterm : Option.Rel Terminal.Keeps s.term s'.term)
    (hpty : ∀ p', s'.pty = some p' → ∃ p, s.pty = some p ∧ p'.winsize = p.winsize) :
    Geometry font s' := by
  have hkeep : ∀ t, s.term = some t → ∃ t', s'.term = some t' ∧ Terminal.Keeps t t' := by
    intro t ht
    rw [ht] at hterm
    generalize s'.term = term' at hterm
    cases hterm with
    | some hk => exact ⟨_, rfl, hk⟩
  constructor
  · intro so' hso'
    rw [hso', Option.map_some] at hscreen
    obtain ⟨so, hso, hsize⟩ := Option.map_eq_some_iff.mp hscreen.symm
    rw [hmode, h.mode_eq so hso, hsize]
  · intro m hm
    rw [hmode] at hm
    obtain ⟨t, ht, hcols, hrows⟩ := h.term_eq m hm
    obtain ⟨t', ht', hk⟩ := hkeep t ht
    exact ⟨t', ht', hk.cols_eq.trans hcols, hk.rows_eq.trans hrows⟩
  · -- a window size was the terminal's before, and both have stayed
    intro p' hp'
    obtain ⟨p, hp, hwin⟩ := hpty p' hp'
    obtain ⟨t, ht, hcols, hrows⟩ := h.pty_eq p hp
    obtain ⟨t', ht', hk⟩ := hkeep t ht
    refine ⟨t', ht', ?_, ?_⟩
    · rw [hwin, hk.cols_eq, hcols]
    · rw [hwin, hk.rows_eq, hrows]
  · intro t' ht'
    rw [ht'] at hterm
    generalize s.term = term at hterm
    cases hterm with
    | some hk => exact hk.inv

/-- An unchanged terminal. -/
theorem Geometry.term_refl {font : Font} {s : State} (h : Geometry font s) :
    Option.Rel Terminal.Keeps s.term s.term := by
  cases ht : s.term with
  | none => exact .none
  | some t => exact .some ⟨h.term_inv t ht, rfl, rfl⟩

/-- A terminal that is marked dirty or clean. -/
theorem Geometry.term_dirty {font : Font} {s : State} (h : Geometry font s) (dirty : Bool) :
    Option.Rel Terminal.Keeps s.term (s.term.map fun t => { t with dirty := dirty }) := by
  cases ht : s.term with
  | none => exact .none
  | some t => exact .some (Terminal.Keeps.of_screen (h.term_inv t ht) rfl)

/-- At the start there is neither buffer nor terminal nor shell. -/
theorem geometry_start (font : Font) (connectorId : UInt32) (kernel : Kernel)
    (dir : Option (List (Option Node))) (drmTime kbTime idleTime : Int) :
    Geometry font (State.start connectorId kernel dir drmTime kbTime idleTime) := by
  constructor
  · intro so hso
    cases hso
  · intro m hm
    cases hm
  · intro p hp
    cases hp
  · intro t ht
    cases ht

/-! ## A new mode -/

theorem fit_pos (pixels : UInt32) (glyph : Nat) : 1 ≤ fit pixels glyph := le_max_left _ _

/-- A length of a mode comes from a `u16`, and what fits it is a `u16` again. -/
theorem fit_le (pixels : UInt16) (glyph : Nat) : fit pixels.toUInt32 glyph ≤ 65535 := by
  have hlt : pixels.toNat < 65536 := pixels.toNat_lt
  have hdiv : pixels.toUInt32.toNat / glyph ≤ pixels.toUInt32.toNat := Nat.div_le_self _ _
  have hpixels : pixels.toUInt32.toNat = pixels.toNat := UInt16.toNat_toUInt32 pixels
  unfold fit
  omega

/-- So the window size is not truncated by its two bytes. -/
theorem toNat_ofNat_fit (pixels : UInt16) (glyph : Nat) :
    (UInt16.ofNat (fit pixels.toUInt32 glyph)).toNat = fit pixels.toUInt32 glyph := by
  have hle := fit_le pixels glyph
  exact UInt16.toNat_ofNat_of_lt (show fit pixels.toUInt32 glyph < 65536 by omega)

/-- A grid of `u16` sizes can be allocated. -/
theorem countFits_of_le {cols rows : Nat} (hcols : cols ≤ 65535) (hrows : rows ≤ 65535) :
    Terminal.CountFits (cols, rows) ∧ ¬ Terminal.TooLarge (cols, rows) := by
  have hmul : cols * rows ≤ 65535 * 65535 := Nat.mul_le_mul hcols hrows
  unfold Terminal.CountFits Terminal.TooLarge cellSize Vec.usizeSize Vec.isizeMax
  dsimp only
  omega

/-- The terminal in the new size: there is always memory for it. -/
theorem sizedTerm_ok {term : Option Terminal} (hterm : ∀ t, term = some t → Terminal.Inv t)
    {cols rows : Nat} (hcols : 1 ≤ cols) (hcols' : cols ≤ 65535) (hrows : 1 ≤ rows)
    (hrows' : rows ≤ 65535) :
    ∃ t, State.sizedTerm term cols rows = .ok t ∧ Terminal.Inv t ∧ t.cols = cols ∧
      t.rows = rows := by
  obtain ⟨hfits, hlarge⟩ := countFits_of_le hcols' hrows'
  have hmax : max cols 1 = cols := by omega
  have hmax' : max rows 1 = rows := by omega
  have hsat : Sat (State.sizedTerm term cols rows)
      (fun t => Terminal.Inv t ∧ t.cols = cols ∧ t.rows = rows) (fun _ => False) := by
    cases term with
    | none =>
        exact sat_mono (Terminal.new_sat hcols hrows hfits) (fun _ ht => ht)
          (fun _ hf => hlarge hf.2)
    | some t =>
        have hfits' : Terminal.CountFits (max cols 1, max rows 1) := by rwa [hmax, hmax']
        have hresize := Terminal.resize_sat (hterm t rfl) hfits'
        rw [hmax, hmax'] at hresize
        exact sat_mono hresize (fun _ ht => ht) (fun _ hf => hlarge hf.2)
  exact exists_ok_of_sat hsat

/-- The shell in the new size has that size. -/
theorem sizedPty_winsize {pty : Option Pty} {cols rows : Nat} {a : SpawnAnswers} {p : Pty}
    (h : State.sizedPty pty cols rows a = some p) :
    p.winsize = (UInt16.ofNat cols, UInt16.ofNat rows) := by
  unfold State.sizedPty at h
  cases pty with
  | some p₀ =>
      cases h
      rfl
  | none =>
      obtain ⟨openpt, grantpt, unlockpt, ptsname, shellExists, child⟩ := a
      -- only if all calls succeed is there a shell, and it was resized
      cases openpt <;> cases grantpt <;> cases unlockpt <;> cases ptsname <;> cases child <;>
        cases h
      rfl

/-- Changing to a mode of `u16` size, with a buffer of that size on the screen. -/
theorem changeMode_ok {font : Font} {s : State} {mode : ModeInfo} (a : SpawnAnswers)
    (hterm : ∀ t, s.term = some t → Terminal.Inv t)
    (hscreen : ∀ so, s.world.drm.scanout = some so → so.size = mode.size) :
    ∃ s', State.changeMode font s mode.size a = .ok s' ∧ Geometry font s' := by
  have hcols := fit_le mode.hdisplay font.width
  have hrows := fit_le mode.vdisplay font.height
  obtain ⟨t, ht, hinv, htcols, htrows⟩ :=
    sizedTerm_ok hterm (fit_pos _ _) hcols (fit_pos _ _) hrows
  have hfitw : max (mode.size.width.toNat / font.width) 1 = fit mode.hdisplay.toUInt32 font.width :=
    Nat.max_comm _ _
  have hfith :
      max (mode.size.height.toNat / font.height) 1 = fit mode.vdisplay.toUInt32 font.height :=
    Nat.max_comm _ _
  unfold State.changeMode
  dsimp only
  rw [hfitw, hfith, ht, ok_bind]
  refine ⟨_, rfl, ?_⟩
  constructor
  · intro so hso
    show some mode.size = some so.size
    rw [hscreen so hso]
  · intro m hm
    cases hm
    exact ⟨_, rfl, htcols, htrows⟩
  · intro p hp
    -- the window is set from the same two numbers as the terminal
    refine ⟨_, rfl, ?_⟩
    have hwin := sizedPty_winsize hp
    constructor
    · rw [hwin]
      exact (toNat_ofNat_fit _ _).trans htcols.symm
    · rw [hwin]
      exact (toNat_ofNat_fit _ _).trans htrows.symm
  · intro t' ht'
    cases ht'
    exact hinv.of_screen rfl

/-! ## The phases -/

section

variable {font : Font} {s : State}

/-- The refresh never panics and keeps the sizes in agreement, whatever it returns. -/
theorem Geometry.refreshPhase (h : Geometry font s) (i : Input) :
    ∃ s', s.refreshPhase font i = .ok s' ∧ Geometry font s' := by
  have hstep := State.refreshPhase_step font s i
  generalize s.refreshPhase font i = r at hstep ⊢
  cases hstep with
  | notDue => exact ⟨s, rfl, h⟩
  | failed _ hr =>
      -- the mode stays, the buffer stays or goes
      refine ⟨_, rfl, ?_, h.term_eq, h.pty_eq, h.term_inv⟩
      intro so hso
      rcases (State.refreshed_of_result hr).of_error with hsame | hnone
      · rw [hsame] at hso
        exact h.mode_eq so hso
      · rw [hnone] at hso
        cases hso
  | gone _ hr =>
      -- the display is gone, and the buffer with it
      refine ⟨_, rfl, ?_, ?_, h.pty_eq, h.term_inv⟩
      · intro so hso
        have hnone := (State.refreshed_of_result hr).of_none
        cases hnone.symm.trans hso
      · intro m hm
        cases hm
  | sameMode _ hr hmode =>
      -- a new buffer may be up, of the mode that the loop has already
      obtain ⟨-, ⟨so, hso, hsize⟩, -⟩ := (State.refreshed_of_result hr).of_mode
      refine ⟨_, rfl, ?_, h.term_eq, h.pty_eq, h.term_inv⟩
      intro so' hso'
      cases hso.symm.trans hso'
      rw [hsize]
      exact hmode
  | newMode _ hr _ =>
      -- terminal and shell are sized to the mode before anything else runs
      obtain ⟨⟨mode, rfl⟩, ⟨so, hso, hsize⟩, -⟩ := (State.refreshed_of_result hr).of_mode
      refine changeMode_ok i.spawn h.term_inv ?_
      intro so' hso'
      cases hso.symm.trans hso'
      exact hsize

theorem Geometry.rescanPhase (h : Geometry font s) (i : Input) :
    Geometry font (s.rescanPhase i) := by
  unfold State.rescanPhase
  split
  · exact h.of_sizes rfl rfl h.term_refl (fun p hp => ⟨p, hp, rfl⟩)
  · exact h

/-- A shell that has exited has no window. -/
theorem Geometry.reapPhase (h : Geometry font s) (i : Input) : Geometry font (s.reapPhase i) := by
  unfold State.reapPhase
  split
  · refine h.of_sizes rfl rfl h.term_refl ?_
    intro p hp
    cases hp
  · exact h

/-- Output never panics in a terminal that keeps its invariant, and does not resize it. -/
theorem Geometry.outputPhase (h : Geometry font s) (i : Input) :
    ∃ s', s.outputPhase i = .ok s' ∧ Geometry font s' := by
  unfold State.outputPhase
  split
  · split
    · next bytes t hpty hread hterm =>
        obtain ⟨t', ht', hk⟩ := exists_ok_of_sat (Terminal.feed_keeps (h.term_inv t hterm) bytes)
        rw [ht', ok_bind]
        refine ⟨_, rfl, h.of_sizes rfl rfl ?_ (fun p hp => ⟨p, hp, rfl⟩)⟩
        rw [hterm]
        exact .some hk
    · exact ⟨s, rfl, h⟩
  · exact ⟨s, rfl, h⟩

/-- A key wakes the screen, which marks the terminal for a redraw, or is sent to the shell. -/
theorem Geometry.typeBytes (h : Geometry font s) (time : Int) (bytes : List UInt8) :
    Geometry font (s.typeBytes time bytes) := by
  unfold State.typeBytes
  split
  · exact h.of_sizes rfl rfl (h.term_dirty true) (fun p hp => ⟨p, hp, rfl⟩)
  · refine h.of_sizes rfl rfl h.term_refl ?_
    intro p' hp'
    obtain ⟨p, hp, rfl⟩ := Option.map_eq_some_iff.mp hp'
    exact ⟨p, hp, rfl⟩

theorem Geometry.keysPhase (h : Geometry font s) (i : Input) : Geometry font (s.keysPhase i) := by
  apply State.keysPhase_inv ?_ ?_ h
  · intro s d hs
    exact hs.of_sizes rfl rfl hs.term_refl (fun p hp => ⟨p, hp, rfl⟩)
  · intro s time bytes hs
    exact hs.typeBytes time bytes

theorem Geometry.idlePhase (h : Geometry font s) (i : Input) : Geometry font (s.idlePhase i) := by
  unfold State.idlePhase
  split
  · exact h.of_sizes rfl rfl h.term_refl (fun p hp => ⟨p, hp, rfl⟩)
  · exact h

theorem setMem_size (d : Drm) (mem : List UInt8) :
    (d.setMem mem).scanout.map ScanOut.size = d.scanout.map ScanOut.size := by
  unfold Drm.setMem
  cases d.scanout <;> rfl

/-- A drawn buffer keeps its size. -/
theorem Geometry.present (h : Geometry font s) (mem : List UInt8) {term : Option Terminal}
    (hterm : Option.Rel Terminal.Keeps s.term term) :
    Geometry font { s with world := present s.world mem, term := term } := by
  refine h.of_sizes ?_ rfl hterm (fun p hp => ⟨p, hp, rfl⟩)
  show (K1de.present s.world mem).drm.scanout.map ScanOut.size = _
  rw [present_drm, setMem_size]

theorem Geometry.drawPhase (h : Geometry font s) {s' : State} (hs : s.drawPhase font = .ok s') :
    Geometry font s' := by
  cases State.drawPhase_step hs with
  | saver _ hr =>
      rcases renderScreensaver_cases hr with rfl | ⟨mem, rfl⟩
      · exact h
      · exact h.present mem h.term_refl
  | noTerm => exact h
  | clean => exact h
  | drawn _ hterm hr =>
      have hinv := h.term_inv _ hterm
      rcases render_cases hr with ⟨-, rfl, rfl⟩ | ⟨so, mem, -, rfl, rfl, -⟩
      · refine h.of_sizes rfl rfl ?_ (fun p hp => ⟨p, hp, rfl⟩)
        rw [hterm]
        exact .some ⟨hinv, rfl, rfl⟩
      · apply h.present mem
        rw [hterm]
        exact .some (Terminal.Keeps.of_screen hinv rfl)

end

/-! ## Runs -/

/-- Every phase keeps the sizes in agreement. -/
theorem Geometry.step {font : Font} {s s' : State} (h : Geometry font s) {e : Phase × Input}
    (hs : step font s e = .ok s') : Geometry font s' := by
  obtain ⟨phase, i⟩ := e
  cases phase with
  | refresh =>
      obtain ⟨s₁, hs₁, h₁⟩ := h.refreshPhase i
      cases hs₁.symm.trans hs
      exact h₁
  | rescan =>
      cases hs
      exact h.rescanPhase i
  | reap =>
      cases hs
      exact h.reapPhase i
  | output =>
      obtain ⟨s₁, hs₁, h₁⟩ := h.outputPhase i
      cases hs₁.symm.trans hs
      exact h₁
  | keys =>
      cases hs
      exact h.keysPhase i
  | idle =>
      cases hs
      exact h.idlePhase i
  | draw => exact h.drawPhase hs

/-- So does a run that returns. -/
theorem Geometry.run {font : Font} {s s' : State} {es : List (Phase × Input)}
    (h : Geometry font s) (hrun : Fallible.run (K1de.step font) s es = .ok s') :
    Geometry font s' := by
  have hkeep : ∀ s e s', Geometry font s → True → K1de.step font s e = .ok s' →
      Geometry font s' :=
    fun _ _ _ hs _ hstep => hs.step hstep
  exact run_keeps (fun _ => True) hkeep h (fun _ _ => trivial) hrun

/-- The invariant holds in every state of a run. -/
theorem geometry_visits (font : Font) (connectorId : UInt32) (kernel : Kernel)
    (dir : Option (List (Option Node))) (drmTime kbTime idleTime : Int)
    (es : List (Phase × Input)) :
    ∀ p ∈ visits (step font) (State.start connectorId kernel dir drmTime kbTime idleTime) es,
      Geometry font p.1 := by
  have hkeep : ∀ s e s', Geometry font s → True → step font s e = .ok s' → Geometry font s' :=
    fun s e s' hs _ hstep => hs.step hstep
  have hstart := geometry_start font connectorId kernel dir drmTime kbTime idleTime
  exact visits_inv hkeep _ es hstart (fun _ _ => trivial)

/-- In every run of the loop: the shell's window has the size of the terminal before
and after every phase; and each refresh returns, and after it the mode and the
terminal have the size of the buffer on the screen. -/
theorem sizes_agree (font : Font) (connectorId : UInt32) (kernel : Kernel)
    (dir : Option (List (Option Node))) (drmTime kbTime idleTime : Int) (inputs : List Input) :
    ∀ p ∈ visits (step font) (State.start connectorId kernel dir drmTime kbTime idleTime)
        (schedule inputs),
      PtySized p.1 ∧ (∀ s', step font p.1 p.2 = .ok s' → PtySized s') ∧
        (p.2.1 = .refresh → ∃ s', step font p.1 p.2 = .ok s' ∧ ScreenSized font s') := by
  intro p hp
  have hgeo := geometry_visits font connectorId kernel dir drmTime kbTime idleTime _ p hp
  refine ⟨hgeo.pty_eq, ?_, ?_⟩
  · intro s' hs'
    exact (hgeo.step hs').pty_eq
  · intro hphase
    obtain ⟨s, phase, i⟩ := p
    cases hphase
    obtain ⟨s', hs', h'⟩ := hgeo.refreshPhase i
    exact ⟨s', hs', h'.screenSized⟩

/-- The first refresh of a run installs a buffer, and the sizes agree with it. -/
theorem sizes_agree_dot :
    (dotStart, (Phase.refresh, quiet 0 (display 1 dotBuffer) (.ok none))) ∈
        visits (step dotFont) dotStart (schedule [quiet 0 (display 1 dotBuffer) (.ok none)]) ∧
      ∃ s', dotStart.refreshPhase dotFont (quiet 0 (display 1 dotBuffer) (.ok none)) = .ok s' ∧
        ScreenSized dotFont s' := by
  have hmem : (dotStart, (Phase.refresh, quiet 0 (display 1 dotBuffer) (.ok none))) ∈
      visits (step dotFont) dotStart (schedule [quiet 0 (display 1 dotBuffer) (.ok none)]) :=
    mem_visits_head _ _ _
  obtain ⟨-, -, hrefresh⟩ := sizes_agree dotFont 1 _ none 0 0 0 _ _ hmem
  exact ⟨hmem, hrefresh rfl⟩

end K1de
