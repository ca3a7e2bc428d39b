import K1de.Terminal.Tokens
import K1de.Main.Spec

/-! # What is on the screen

The loop draws the terminal only when it is marked as dirty. What is on the screen
is what the terminal holds (`Synced`) if every new buffer, which is all zeros, meets
a dirty terminal.

The mark is set where the mode changes, and the mode is compared with the one the
loop has remembered. A refresh that fails inside `scanout_mode` takes the old buffer
down, but the loop keeps the old mode. If the display then comes back in that mode, a
new buffer is installed and nobody draws on it. `screen_shows_terminal` says that
this is the only way in which the screen can fall behind the terminal.
-/

namespace K1de

open Fallible

/-- The buffer on the screen shows the terminal, unless the screensaver is on. -/
def Synced (font : Font) (s : State) : Prop :=
  ∀ so t, s.world.drm.scanout = some so → s.screensaving = false → s.term = some t →
    OnScreen font t so

/-- The same between two draws: what is not on the screen is marked. -/
def Marked (font : Font) (s : State) : Prop :=
  ∀ so t, s.world.drm.scanout = some so → s.screensaving = false → s.term = some t →
    t.dirty = true ∨ OnScreen font t so

/-- A refresh that installs a new buffer finds another mode than the remembered one,
or the screensaver on, or a terminal that is marked anyway. -/
def MarksNewBuffer (s : State) (i : Input) : Prop :=
  s.RefreshDue i → ∀ m, Drm.Installs s.world.drm i.answers m →
    s.mode ≠ some m ∨ s.screensaving = true ∨ ∀ t, s.term = some t → t.dirty = true

/-! ## The phases -/

section

variable {font : Font} {s s' : State}

/-- The property looks at the buffer, the terminal and the screensaver only. -/
theorem Marked.of_eq (h : Marked font s) (hscreen : s'.world.drm.scanout = s.world.drm.scanout)
    (hsaver : s'.screensaving = s.screensaving) (hterm : s'.term = s.term) : Marked font s' := by
  intro so t hso hoff ht
  rw [hscreen] at hso
  rw [hsaver] at hoff
  rw [hterm] at ht
  exact h so t hso hoff ht

/-- Nothing is asked without a buffer. -/
theorem marked_of_no_screen (h : s.world.drm.scanout = none) : Marked font s := by
  intro so t hso _ _
  cases h.symm.trans hso

/-- A marked terminal is fine whatever is on the screen. -/
theorem marked_of_dirty (h : ∀ t, s.term = some t → t.dirty = true) : Marked font s := by
  intro so t _ _ ht
  exact Or.inl (h t ht)

theorem marked_of_screensaving (h : s.screensaving = true) : Marked font s := by
  intro so t _ hoff _
  cases h.symm.trans hoff

theorem Synced.marked (h : Synced font s) : Marked font s := by
  intro so t hso hoff ht
  exact Or.inr (h so t hso hoff ht)

/-- A refresh keeps the property if the buffer that it installs meets a mark. -/
theorem Marked.refreshPhase (h : Marked font s) {i : Input} (hnew : MarksNewBuffer s i)
    (hs : s.refreshPhase font i = .ok s') : Marked font s' := by
  have hstep := State.refreshPhase_step font s i
  rw [hs] at hstep
  generalize hr' : (Except.ok s' : Except Fault State) = r at hstep
  cases hstep with
  | notDue =>
      cases hr'
      exact h
  | failed _ hr =>
      cases hr'
      rcases (State.refreshed_of_result hr).of_error with hsame | hnone
      · -- the old buffer is still up, or was taken down before the error
        exact h.of_eq hsame rfl rfl
      · exact marked_of_no_screen hnone
  | gone _ hr =>
      cases hr'
      exact marked_of_no_screen (State.refreshed_of_result hr).of_none
  | sameMode hdue hr hmode =>
      cases hr'
      obtain ⟨-, -, hsame | hinstalls⟩ := (State.refreshed_of_result hr).of_mode
      · exact h.of_eq hsame rfl rfl
      · -- a new buffer in the remembered mode: the loop does not mark the terminal
        rcases hnew hdue _ hinstalls with hne | hsaver | hdirty
        · exact absurd hmode hne
        · exact marked_of_screensaving hsaver
        · exact marked_of_dirty hdirty
  | newMode _ _ _ =>
      -- the change of mode sets the mark
      obtain ⟨t, pty, cols, rows, -, -, rfl⟩ := State.changeMode_eq hr'.symm
      apply marked_of_dirty
      intro t' ht'
      cases ht'
      rfl

theorem Marked.rescanPhase (h : Marked font s) (i : Input) : Marked font (s.rescanPhase i) := by
  unfold State.rescanPhase
  split
  · exact h.of_eq rfl rfl rfl
  · exact h

theorem Marked.reapPhase (h : Marked font s) (i : Input) : Marked font (s.reapPhase i) := by
  unfold State.reapPhase
  split
  · exact h.of_eq rfl rfl rfl
  · exact h

/-- Output marks the terminal, unless there is none. -/
theorem Marked.outputPhase (h : Marked font s) {i : Input} (hs : s.outputPhase i = .ok s') :
    Marked font s' := by
  cases State.outputPhase_step hs with
  | nothing => exact h
  | noShell => exact h
  | noTerm => exact h
  | fed _ _ hterm hfeed =>
      rcases Terminal.feed_dirty hfeed with rfl | hdirty
      · exact h.of_eq rfl rfl hterm.symm
      · apply marked_of_dirty
        intro t₁ ht₁
        cases ht₁
        exact hdirty

theorem Marked.typeBytes (h : Marked font s) (time : Int) (bytes : List UInt8) :
    Marked font (s.typeBytes time bytes) := by
  unfold State.typeBytes
  split
  · -- the key ends the screensaver, and the terminal is marked
    apply marked_of_dirty
    intro t ht
    obtain ⟨t₀, -, rfl⟩ := Option.map_eq_some_iff.mp ht
    rfl
  · exact h.of_eq rfl rfl rfl

theorem Marked.keysPhase (h : Marked font s) (i : Input) : Marked font (s.keysPhase i) := by
  apply State.keysPhase_inv ?_ ?_ h
  · intro s d hs
    exact hs.of_eq rfl rfl rfl
  · intro s time bytes hs
    exact hs.typeBytes time bytes

theorem Marked.idlePhase (h : Marked font s) (i : Input) : Marked font (s.idlePhase i) := by
  unfold State.idlePhase
  split
  · exact marked_of_screensaving rfl
  · exact h

/-- The draw brings the screen up to date. -/
theorem Marked.drawPhase (h : Marked font s) (hs : s.drawPhase font = .ok s') :
    Synced font s' := by
  intro so t' hso hoff ht'
  cases State.drawPhase_step hs with
  | saver hsaver _ => cases hsaver.symm.trans hoff
  | noTerm hterm => cases hterm.symm.trans ht'
  | clean hterm hdirty =>
      cases hterm.symm.trans ht'
      -- not drawn, as the terminal has no mark: then the screen shows it
      rcases h so _ hso hoff hterm with hmarked | hshown
      · cases hdirty.symm.trans hmarked
      · exact hshown
  | drawn _ _ hr =>
      cases ht'
      exact render_onScreen hr hso

/-! ## Runs -/

/-- What a step is asked to meet: the condition on refreshes. -/
def StepMarks (s : State) (e : Phase × Input) : Prop :=
  e.1 = .refresh → MarksNewBuffer s e.2

/-- Every phase keeps it, the refresh under its condition. -/
theorem Marked.step (h : Marked font s) {e : Phase × Input} (hnew : StepMarks s e)
    (hs : step font s e = .ok s') : Marked font s' := by
  obtain ⟨phase, i⟩ := e
  cases phase with
  | refresh => exact h.refreshPhase (hnew rfl) hs
  | rescan =>
      cases hs
      exact h.rescanPhase i
  | reap =>
      cases hs
      exact h.reapPhase i
  | output => exact h.outputPhase hs
  | keys =>
      cases hs
      exact h.keysPhase i
  | idle =>
      cases hs
      exact h.idlePhase i
  | draw => exact (h.drawPhase hs).marked

end

/-- In every run of the loop whose refreshes meet the condition on new buffers, the
screen shows the terminal at the end of every iteration. -/
theorem screen_shows_terminal (font : Font) (connectorId : UInt32) (kernel : Kernel)
    (dir : Option (List (Option Node))) (drmTime kbTime idleTime : Int) (inputs : List Input)
    (hnew : ∀ p ∈ visits (step font) (State.start connectorId kernel dir drmTime kbTime idleTime)
      (schedule inputs), p.2.1 = .refresh → MarksNewBuffer p.1 p.2.2) :
    ∀ p ∈ visits (step font) (State.start connectorId kernel dir drmTime kbTime idleTime)
        (schedule inputs), p.2.1 = .draw →
      ∀ s', step font p.1 p.2 = .ok s' → Synced font s' := by
  have hkeep : ∀ s e s', Marked font s → StepMarks s e → step font s e = .ok s' →
      Marked font s' := fun s e s' hs hcond hstep => hs.step hcond hstep
  have hstart : Marked font (State.start connectorId kernel dir drmTime kbTime idleTime) :=
    marked_of_no_screen rfl
  have hmarked := visits_inv hkeep _ (schedule inputs) hstart hnew
  intro p hp hdraw s' hs'
  have hp := hmarked p hp
  obtain ⟨s, phase, i⟩ := p
  cases hdraw
  exact hp.drawPhase hs'

/-- The first refresh of a run finds no mode remembered. -/
theorem marksNewBuffer_dot :
    ∀ p ∈ visits (step dotFont) dotStart (schedule [quiet 0 (display 1 dotBuffer) (.ok none)]),
      p.2.1 = .refresh → MarksNewBuffer p.1 p.2.2 := by
  intro p hp hphase
  have hlater : ∀ e ∈ (schedule [quiet 0 (display 1 dotBuffer) (.ok none)]).tail,
      e.1 ≠ .refresh := by decide
  rcases eq_or_mem_of_mem_visits_cons hp with rfl | hrest
  · intro _ m _
    exact Or.inl (Option.some_ne_none m).symm
  · exact absurd hphase (hlater _ hrest)

theorem screen_shows_terminal_dot :
    (∀ p ∈ visits (step dotFont) dotStart (schedule [quiet 0 (display 1 dotBuffer) (.ok none)]),
      p.2.1 = .refresh → MarksNewBuffer p.1 p.2.2) ∧
    ∀ p ∈ visits (step dotFont) dotStart (schedule [quiet 0 (display 1 dotBuffer) (.ok none)]),
      p.2.1 = .draw → ∀ s', step dotFont p.1 p.2 = .ok s' → Synced dotFont s' := by
  refine ⟨marksNewBuffer_dot, ?_⟩
  exact screen_shows_terminal dotFont 1 _ none 0 0 0 _ marksNewBuffer_dot

/-! ## A black screen -/

/-- Whether the screensaver is on, the buffer on the screen, and what it would be after
drawing the terminal. -/
def contents (font : Font) (s : State) :
    Option (Bool × List UInt8 × Except Fault (List UInt8)) := do
  let so ← s.world.drm.scanout
  let t ← s.term
  return (s.screensaving, so.mem, drawTerminal font t so.pitch so.width so.mem)

/-- A screen that a draw would change is behind the terminal. -/
theorem not_synced_of_contents {font : Font} {s : State} {mem mem' : List UInt8}
    (h : contents font s = some (false, mem, .ok mem')) (hne : mem' ≠ mem) :
    ¬ Synced font s := by
  intro hsynced
  unfold contents at h
  cases hso : s.world.drm.scanout with
  | none =>
      rw [hso] at h
      cases h
  | some so =>
      cases ht : s.term with
      | none =>
          rw [hso, ht] at h
          cases h
      | some t =>
          rw [hso, ht] at h
          obtain ⟨hoff, hmem, hdraw⟩ : s.screensaving = false ∧ so.mem = mem ∧
              drawTerminal font t so.pitch so.width so.mem = .ok mem' := by
            simpa using h
          have hshown := hsynced so t hso hoff ht
          rw [OnScreen, hdraw, hmem] at hshown
          exact hne (Except.ok.inj hshown)

/-- A mode, a mode-set that fails, and the first mode again: the terminal is not drawn
into the new buffer. -/
theorem failed_modeset_leaves_black_screen :
    ∃ s, run (step dotFont) dotStart (schedule
        [quiet 0 (display 1 dotBuffer) (.ok none),
          quiet 500000000 (display 2 (.error (.os 12))) (.ok none),
          quiet 1000000000 (display 1 dotBuffer) (.ok none)]) = .ok s ∧ ¬ Synced dotFont s := by
  have hrun : (do
      let s ← run (step dotFont) dotStart (schedule
        [quiet 0 (display 1 dotBuffer) (.ok none),
          quiet 500000000 (display 2 (.error (.os 12))) (.ok none),
          quiet 1000000000 (display 1 dotBuffer) (.ok none)])
      return contents dotFont s) =
      .ok (some (false, [0, 0, 0, 0], .ok [0x14, 0x10, 0x10, 0])) := by
    decide +kernel
  obtain ⟨s, hs, hcontents⟩ := of_bind_ok hrun
  exact ⟨s, hs, not_synced_of_contents (Except.ok.inj hcontents) (by decide)⟩

end K1de
