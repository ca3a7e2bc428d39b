import K1de.Main.Geometry

/-! # The shell behind the display

A shell should be attached whenever a refresh finds a display (`Attached`).

A shell is started only where the mode changes. When it exits, the loop drops it
and says that it is respawning one, but as long as the display keeps its mode no
refresh starts a new one. `shell_attached_iff` says that this is the only way in
which a connected display can be left without a shell, given that starting one
succeeds.
-/

namespace K1de

open Fallible

/-- A shell can be started, whatever its window size. -/
def CanSpawn (a : SpawnAnswers) : Prop :=
  ∀ cols rows, ∃ p, Pty.spawn "/usr/bin/fish" cols rows a = .ok p

/-- The refresh of this iteration, if it finds a display, leaves a shell attached. -/
def Attached (font : Font) (s : State) (i : Input) : Prop :=
  s.RefreshDue i → ∀ m, s.refreshResult i = .ok (some m) →
    ∃ s', s.refreshPhase font i = .ok s' ∧ s'.pty.isSome

/-- When a refresh finds a display, there is still a shell, or the mode is new. -/
def ShellOrNewMode (s : State) (i : Input) : Prop :=
  s.RefreshDue i → ∀ m, s.refreshResult i = .ok (some m) → s.pty.isSome ∨ s.mode ≠ some m

/-! ## One refresh -/

/-- If a shell can be started, there is one after a change of mode. -/
theorem sizedPty_isSome {pty : Option Pty} {a : SpawnAnswers} (ha : CanSpawn a) (cols rows : Nat) :
    (State.sizedPty pty cols rows a).isSome := by
  cases pty with
  | some p => rfl
  | none =>
      obtain ⟨p, hp⟩ := ha (UInt16.ofNat cols) (UInt16.ofNat rows)
      unfold State.sizedPty
      rw [hp]
      rfl

theorem changeMode_pty {font : Font} {s s' : State} {m : Mode} {a : SpawnAnswers}
    (ha : CanSpawn a) (h : s.changeMode font m a = .ok s') : s'.pty.isSome := by
  obtain ⟨t, pty, cols, rows, -, rfl, rfl⟩ := State.changeMode_eq h
  exact sizedPty_isSome ha cols rows

/-- A refresh that finds a display leaves a shell attached, if there was one or if the
mode is new, and only then. -/
theorem RefreshStep.pty_isSome_iff {font : Font} {s s' : State} {i : Input}
    (h : RefreshStep font s i (.ok s')) (hspawn : CanSpawn i.spawn) (hdue : s.RefreshDue i)
    {m : Mode} (hm : s.refreshResult i = .ok (some m)) :
    s'.pty.isSome ↔ s.pty.isSome ∨ s.mode ≠ some m := by
  generalize hs' : (Except.ok s' : Except Fault State) = r at h
  cases h with
  | notDue hdue' => exact absurd hdue hdue'
  | failed _ hr => cases hr.symm.trans hm
  | gone _ hr => cases hr.symm.trans hm
  | sameMode _ hr hmode =>
      -- the shell is left as it was
      cases hr.symm.trans hm
      cases hs'
      constructor
      · intro hpty
        exact Or.inl hpty
      · intro hcond
        rcases hcond with hpty | hne
        · exact hpty
        · exact absurd hmode hne
  | newMode _ hr hmode =>
      -- the shell is resized, or one is started
      cases hr.symm.trans hm
      exact iff_of_true (changeMode_pty hspawn hs'.symm) (Or.inr hmode)

/-- As the refresh returns, whether it leaves a shell can be said of its result. -/
theorem Geometry.attached_iff {font : Font} {s : State} (h : Geometry font s) {i : Input}
    (hspawn : CanSpawn i.spawn) : Attached font s i ↔ ShellOrNewMode s i := by
  obtain ⟨s', hs', -⟩ := h.refreshPhase i
  have hstep : RefreshStep font s i (.ok s') := hs' ▸ State.refreshPhase_step font s i
  constructor
  · intro hattached hdue m hm
    obtain ⟨s₁, hs₁, hpty⟩ := hattached hdue m hm
    cases hs'.symm.trans hs₁
    exact (hstep.pty_isSome_iff hspawn hdue hm).mp hpty
  · intro hcond hdue m hm
    exact ⟨s', hs', (hstep.pty_isSome_iff hspawn hdue hm).mpr (hcond hdue m hm)⟩

/-! ## Runs -/

/-- The inputs of a run's steps. -/
theorem mem_of_mem_schedule {inputs : List Input} {e : Phase × Input}
    (h : e ∈ schedule inputs) : e.2 ∈ inputs := by
  obtain ⟨i, hi, he⟩ := List.mem_flatMap.mp h
  obtain ⟨phase, -, rfl⟩ := List.mem_map.mp he
  exact hi

/-- In every run of the loop in which shells can be started: every refresh that
finds a display leaves a shell attached, if and only if at each of them there is
still a shell or the mode is new. -/
theorem shell_attached_iff (font : Font) (connectorId : UInt32) (kernel : Kernel)
    (dir : Option (List (Option Node))) (drmTime kbTime idleTime : Int) (inputs : List Input)
    (hspawn : ∀ i ∈ inputs, CanSpawn i.spawn) :
    (∀ p ∈ visits (step font) (State.start connectorId kernel dir drmTime kbTime idleTime)
        (schedule inputs), p.2.1 = .refresh → Attached font p.1 p.2.2) ↔
      ∀ p ∈ visits (step font) (State.start connectorId kernel dir drmTime kbTime idleTime)
        (schedule inputs), p.2.1 = .refresh → ShellOrNewMode p.1 p.2.2 := by
  apply forall_congr'
  intro p
  apply forall_congr'
  intro hp
  have hgeo := geometry_visits font connectorId kernel dir drmTime kbTime idleTime _ p hp
  have hi := hspawn p.2.2 (mem_of_mem_schedule (mem_of_mem_visits hp))
  rw [hgeo.attached_iff hi]

/-! ## A shell that is not replaced -/

theorem canSpawn_quiet (now : Int) (answers : Answers) (tryWait : Except IoError (Option Int)) :
    CanSpawn (quiet now answers tryWait).spawn :=
  fun _ _ => ⟨_, rfl⟩

theorem shell_attached_iff_dot :
    (∀ p ∈ visits (step dotFont) dotStart (schedule [quiet 0 (display 1 dotBuffer) (.ok none)]),
      p.2.1 = .refresh → Attached dotFont p.1 p.2.2) ↔
    ∀ p ∈ visits (step dotFont) dotStart (schedule [quiet 0 (display 1 dotBuffer) (.ok none)]),
      p.2.1 = .refresh → ShellOrNewMode p.1 p.2.2 := by
  apply shell_attached_iff
  intro i hi
  rw [List.mem_singleton.mp hi]
  exact canSpawn_quiet _ _ _

/-- A shell is started in the first iteration, and exits in it. The next refresh finds
the display in the same mode, and the loop is left without a shell. -/
theorem exited_shell_not_replaced :
    (do
      let exits := quiet 0 (display 1 dotBuffer) (.ok (some 0))
      let started ← dotStart.refreshPhase dotFont exits
      let s ← run (step dotFont) dotStart (schedule [exits])
      let i := quiet 500000000 (display 1 dotBuffer) (.ok none)
      let s' ← s.refreshPhase dotFont i
      return (started.pty.isSome, decide (s.RefreshDue i), s.refreshResult i, s'.pty)) =
    .ok (true, true, .ok (some { width := 1, height := 1 }), none) := by
  rfl

end K1de
