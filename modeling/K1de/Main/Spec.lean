import K1de.Drm.Spec
import K1de.Render.Spec
import K1de.Main.Model

/-! # What the phases of the loop can do

The invariants of the loop are not proved by looking into the phases. They are
proved from the inversions stated here: every way in which a refresh
(`RefreshStep`), the reading of the shell's output (`OutputStep`) and a draw (`DrawStep`)
can go, what is to be checked for the keyboards (`keysPhase_inv`), and what any phase can
do to the driver (`WorldStep`).
-/

namespace K1de

open Fallible

/-! ## Refreshing -/

/-- What has happened to the driver when `drm.refresh()` has returned. -/
theorem State.refreshed_of_result {s : State} {i : Input} {r : Except IoError (Option Mode)}
    (h : s.refreshResult i = r) : Drm.Refreshed i.answers s.world r (s.refreshed i).world := by
  rw [← h]
  exact Drm.refresh_refreshed i.answers s.world

/-- The ways of a refresh. -/
inductive RefreshStep (font : Font) (s : State) (i : Input) : Except Fault State → Prop where
  | notDue (hdue : ¬ s.RefreshDue i) : RefreshStep font s i (.ok s)
  | failed {e : IoError} (hdue : s.RefreshDue i) (hr : s.refreshResult i = .error e) :
      RefreshStep font s i (.ok (s.refreshed i))
  | gone (hdue : s.RefreshDue i) (hr : s.refreshResult i = .ok none) :
      RefreshStep font s i (.ok { s.refreshed i with mode := none })
  | sameMode {m : Mode} (hdue : s.RefreshDue i) (hr : s.refreshResult i = .ok (some m))
      (hmode : s.mode = some m) : RefreshStep font s i (.ok (s.refreshed i))
  | newMode {m : Mode} (hdue : s.RefreshDue i) (hr : s.refreshResult i = .ok (some m))
      (hmode : s.mode ≠ some m) :
      RefreshStep font s i (State.changeMode font (s.refreshed i) m i.spawn)

theorem State.refreshPhase_step (font : Font) (s : State) (i : Input) :
    RefreshStep font s i (s.refreshPhase font i) := by
  unfold State.refreshPhase
  by_cases hdue : s.RefreshDue i
  · rw [if_pos hdue]
    cases hr : s.refreshResult i with
    | error e => exact .failed hdue hr
    | ok found =>
        cases found with
        | none => exact .gone hdue hr
        | some m =>
            dsimp only
            by_cases hmode : s.mode = some m
            · rw [if_neg (not_not.mpr hmode)]
              exact .sameMode hdue hr hmode
            · rw [if_pos hmode]
              exact .newMode hdue hr hmode
  · rw [if_neg hdue]
    exact .notDue hdue

/-- A change of mode, once the terminal has its new size. -/
theorem State.changeMode_eq {font : Font} {s s' : State} {m : Mode} {a : SpawnAnswers}
    (h : s.changeMode font m a = .ok s') :
    ∃ t pty cols rows, State.sizedTerm s.term cols rows = .ok t ∧
      pty = State.sizedPty s.pty cols rows a ∧
      s' = { s with mode := some m, term := some { t with dirty := true }, pty } := by
  obtain ⟨t, ht, hs'⟩ := of_bind_ok h
  cases hs'
  exact ⟨t, _, _, _, ht, rfl, rfl⟩

/-! ## Output of the shell -/

/-- The output of the shell that is read in this iteration. -/
def Input.output (i : Input) : Option (List UInt8) :=
  if i.ready then
    match i.ptyRead with
    | some (.ok bytes) => some bytes
    | _ => none
  else none

/-- The output phase as one match: it does something only with output, a shell and a terminal. -/
theorem outputPhase_eq (s : State) (i : Input) :
    s.outputPhase i =
      match i.output, s.pty, s.term with
      | some bytes, some _, some t => do
          let t ← t.feed bytes
          return { s with term := some t }
      | _, _, _ => .ok s := by
  unfold State.outputPhase Input.output
  split
  · cases i.ptyRead with
    | none => cases s.pty <;> rfl
    | some read => cases read <;> cases s.pty <;> cases s.term <;> rfl
  · rfl

/-- The ways in which reading the output can return. -/
inductive OutputStep (s : State) (i : Input) : State → Prop where
  | nothing (hread : i.output = none) : OutputStep s i s
  | noShell {bytes : List UInt8} (hread : i.output = some bytes) (hpty : s.pty = none) :
      OutputStep s i s
  | noTerm {bytes : List UInt8} (hread : i.output = some bytes) (hterm : s.term = none) :
      OutputStep s i s
  | fed {bytes : List UInt8} {p : Pty} {t t' : Terminal} (hread : i.output = some bytes)
      (hpty : s.pty = some p) (hterm : s.term = some t) (hfeed : t.feed bytes = .ok t') :
      OutputStep s i { s with term := some t' }

/-- Every return of the output phase is one of these. -/
theorem State.outputPhase_step {s s' : State} {i : Input} (h : s.outputPhase i = .ok s') :
    OutputStep s i s' := by
  have heq := outputPhase_eq s i
  cases hread : i.output with
  | none =>
      rw [h, hread] at heq
      cases heq
      exact .nothing hread
  | some bytes =>
      cases hpty : s.pty with
      | none =>
          rw [h, hread, hpty] at heq
          cases heq
          exact .noShell hread hpty
      | some p =>
          cases hterm : s.term with
          | none =>
              rw [h, hread, hpty, hterm] at heq
              cases heq
              exact .noTerm hread hterm
          | some t =>
              have hfed : s.outputPhase i = t.feed bytes >>= fun t' =>
                  .ok { s with term := some t' } := by
                rw [heq, hread, hpty, hterm]
                rfl
              obtain ⟨t', hfeed, hs'⟩ := of_bind_ok (hfed.symm.trans h)
              cases hs'
              exact .fed hread hpty hterm hfeed

/-! ## Keyboards -/

/-- A property that survives a change of the decoder and typed bytes survives the
keyboards. -/
theorem State.keysPhase_inv {P : State → Prop}
    (hdecoder : ∀ s d, P s → P { s with decoder := d })
    (htype : ∀ s time bytes, P s → P (State.typeBytes s time bytes))
    {s : State} (h : P s) (i : Input) : P (s.keysPhase i) := by
  have hkeyboard : ∀ s k, P s → P (State.readKeyboard i s k) := by
    intro s k hs
    unfold State.readKeyboard
    split
    · exact hs
    · -- a failed read stops nothing; an event without bytes only moves the decoder
      unfold State.handleEvent
      dsimp only
      split
      · exact hdecoder s _ hs
      · exact hdecoder s _ hs
      · exact htype _ _ _ (hdecoder s _ hs)
  unfold State.keysPhase
  split
  · generalize List.range s.keyboards.length = slots
    -- one keyboard after the other
    induction slots generalizing s with
    | nil => exact h
    | cons k slots ih => exact ih (hkeyboard s k h)
  · exact h

/-! ## Drawing -/

/-- The ways in which a draw can return. -/
inductive DrawStep (font : Font) (s : State) : State → Prop where
  | saver {w : World} (hsaver : s.screensaving = true)
      (hr : renderScreensaver s.world font = .ok w) : DrawStep font s { s with world := w }
  | noTerm (hterm : s.term = none) : DrawStep font s s
  | clean {t : Terminal} (hterm : s.term = some t) (hdirty : t.dirty = false) : DrawStep font s s
  | drawn {t t' : Terminal} {w : World} (hsaver : s.screensaving = false)
      (hterm : s.term = some t) (hr : t.render s.world font = .ok (t', w)) :
      DrawStep font s { s with term := some t', world := w }

/-- Every return of a draw is one of these. -/
theorem State.drawPhase_step {font : Font} {s s' : State} (h : s.drawPhase font = .ok s') :
    DrawStep font s s' := by
  unfold State.drawPhase at h
  cases hsaver : s.screensaving with
  | true =>
      rw [if_pos hsaver] at h
      obtain ⟨w, hr, hs'⟩ := of_bind_ok h
      cases hs'
      exact .saver hsaver hr
  | false =>
      -- awake: a terminal is drawn when it is marked
      rw [if_neg (by rw [hsaver]; exact Bool.false_ne_true)] at h
      cases hterm : s.term with
      | none =>
          rw [hterm] at h
          cases h
          exact .noTerm hterm
      | some t =>
          rw [hterm] at h
          dsimp only at h
          cases hdirty : t.dirty with
          | false =>
              rw [if_neg (by rw [hdirty]; exact Bool.false_ne_true)] at h
              cases h
              exact .clean hterm hdirty
          | true =>
              rw [if_pos hdirty] at h
              obtain ⟨r, hr, hs'⟩ := of_bind_ok h
              cases hs'
              exact .drawn hsaver hterm hr

/-! ## The driver -/

theorem State.keysPhase_world (s : State) (i : Input) : (s.keysPhase i).world = s.world := by
  refine State.keysPhase_inv (P := fun s' => s'.world = s.world) ?_ ?_ rfl i
  · intro s₁ d hs₁
    exact hs₁
  · intro s₁ time bytes hs₁
    unfold State.typeBytes
    split <;> exact hs₁

/-- What a phase can do to the driver and the kernel: nothing, a refresh, or a draw. -/
inductive WorldStep (s : State) (e : Phase × Input) : World → Prop where
  | same : WorldStep s e s.world
  | refreshed (hphase : e.1 = .refresh) (hdue : s.RefreshDue e.2) :
      WorldStep s e (s.refreshed e.2).world
  | drawn (hphase : e.1 = .draw) (mem : List UInt8) : WorldStep s e (present s.world mem)

/-- The driver is asked when a refresh is due, and only then. -/
theorem refreshPhase_world {font : Font} {s s' : State} {i : Input}
    (h : s.refreshPhase font i = .ok s') :
    (¬ s.RefreshDue i ∧ s'.world = s.world) ∨
      (s.RefreshDue i ∧ s'.world = (s.refreshed i).world) := by
  have hstep := State.refreshPhase_step font s i
  rw [h] at hstep
  generalize hr' : (Except.ok s' : Except Fault State) = r at hstep
  cases hstep with
  | notDue hdue =>
      cases hr'
      exact Or.inl ⟨hdue, rfl⟩
  | failed hdue =>
      cases hr'
      exact Or.inr ⟨hdue, rfl⟩
  | gone hdue =>
      cases hr'
      exact Or.inr ⟨hdue, rfl⟩
  | sameMode hdue =>
      cases hr'
      exact Or.inr ⟨hdue, rfl⟩
  | newMode hdue =>
      obtain ⟨t, pty, cols, rows, -, -, rfl⟩ := State.changeMode_eq hr'.symm
      exact Or.inr ⟨hdue, rfl⟩

theorem outputPhase_world {s s' : State} {i : Input} (h : s.outputPhase i = .ok s') :
    s'.world = s.world := by
  cases State.outputPhase_step h <;> rfl

/-- A draw presents a frame or leaves the driver alone. -/
theorem drawPhase_world {font : Font} {s s' : State} (h : s.drawPhase font = .ok s') :
    s'.world = s.world ∨ ∃ mem, s'.world = present s.world mem := by
  cases State.drawPhase_step h with
  | saver _ hr => exact renderScreensaver_cases hr
  | noTerm => exact Or.inl rfl
  | clean => exact Or.inl rfl
  | drawn _ _ hr =>
      rcases render_cases hr with ⟨-, -, rfl⟩ | ⟨so, mem, -, -, rfl, -⟩
      · exact Or.inl rfl
      · exact Or.inr ⟨mem, rfl⟩

/-- Every phase does one of these to the driver. -/
theorem step_world {font : Font} {s s' : State} {e : Phase × Input}
    (h : step font s e = .ok s') : WorldStep s e s'.world := by
  obtain ⟨phase, i⟩ := e
  cases phase with
  | refresh =>
      rcases refreshPhase_world h with ⟨-, hw⟩ | ⟨hdue, hw⟩
      · rw [hw]
        exact .same
      · rw [hw]
        exact .refreshed rfl hdue
  | rescan =>
      cases h
      rw [show (s.rescanPhase i).world = s.world by unfold State.rescanPhase; split <;> rfl]
      exact .same
  | reap =>
      cases h
      rw [show (s.reapPhase i).world = s.world by unfold State.reapPhase; split <;> rfl]
      exact .same
  | output =>
      rw [outputPhase_world h]
      exact .same
  | keys =>
      cases h
      rw [s.keysPhase_world i]
      exact .same
  | idle =>
      cases h
      rw [show (s.idlePhase i).world = s.world by unfold State.idlePhase; split <;> rfl]
      exact .same
  | draw =>
      rcases drawPhase_world h with hw | ⟨mem, hw⟩
      · rw [hw]
        exact .same
      · rw [hw]
        exact .drawn rfl mem

/-! ## The list of keyboards -/

theorem State.keysPhase_keyboards (s : State) (i : Input) :
    (s.keysPhase i).keyboards = s.keyboards := by
  refine State.keysPhase_inv (P := fun s' => s'.keyboards = s.keyboards) ?_ ?_ rfl i
  · intro s₁ d hs₁
    exact hs₁
  · intro s₁ time bytes hs₁
    unfold State.typeBytes
    split <;> exact hs₁

theorem refreshPhase_keyboards {font : Font} {s s' : State} {i : Input}
    (h : s.refreshPhase font i = .ok s') : s'.keyboards = s.keyboards := by
  have hstep := State.refreshPhase_step font s i
  rw [h] at hstep
  generalize hr' : (Except.ok s' : Except Fault State) = r at hstep
  cases hstep with
  | newMode =>
      obtain ⟨t, pty, cols, rows, -, -, rfl⟩ := State.changeMode_eq hr'.symm
      rfl
  | _ =>
      cases hr'
      rfl

theorem outputPhase_keyboards {s s' : State} {i : Input} (h : s.outputPhase i = .ok s') :
    s'.keyboards = s.keyboards := by
  cases State.outputPhase_step h <;> rfl

/-- The list is changed by a rescan only. -/
theorem step_keyboards {font : Font} {s s' : State} {e : Phase × Input}
    (h : step font s e = .ok s') :
    s'.keyboards = if e.1 = .rescan then (s.rescanPhase e.2).keyboards else s.keyboards := by
  obtain ⟨phase, i⟩ := e
  cases phase with
  | refresh => exact refreshPhase_keyboards h
  | rescan =>
      cases h
      rfl
  | reap =>
      cases h
      show (s.reapPhase i).keyboards = s.keyboards
      unfold State.reapPhase
      split <;> rfl
  | output => exact outputPhase_keyboards h
  | keys =>
      cases h
      exact s.keysPhase_keyboards i
  | idle =>
      cases h
      show (s.idlePhase i).keyboards = s.keyboards
      unfold State.idlePhase
      split <;> rfl
  | draw => cases State.drawPhase_step h <;> rfl

/-! ## A display of one pixel

The smallest display on which the loop can be run. -/

/-- A font of one pixel. -/
def dotFont : Font where
  width := 1
  height := 1
  data := solidGlyphs
  width_pos := le_refl 1
  height_pos := le_refl 1
  data_length := length_solidGlyphs

/-- A connected display, `width` by one pixels, and what the kernel says to a new dumb
buffer. -/
def display (width : UInt16) (createDumb : Except IoError CreateDumb) : Answers :=
  Drm.connected { hdisplay := width, vdisplay := 1, modeType := 8 }
    { createDumb, addFb := .ok 3, mapDumb := .ok 0, mmap := .ok 4096, setCrtc := .ok () }

/-- A dumb buffer of one pixel. -/
def dotBuffer : Except IoError CreateDumb := .ok { handle := 2, pitch := 4, size := 4 }

/-- An iteration at time `now` in which nothing but the refresh happens; `tryWait` is
what waiting for the shell gives. -/
def quiet (now : Int) (answers : Answers) (tryWait : Except IoError (Option Int)) : Input :=
  { now, answers
    spawn :=
      { openpt := .ok (), grantpt := .ok (), unlockpt := .ok (), ptsname := .ok ()
        shellExists := true, child := .ok () }
    dir := none
    tryWait
    ready := false
    ptyRead := none
    keyRead := fun _ => none
    keyTime := fun _ => now
    idleNow := now }

/-- The state before the first iteration, at time zero and without keyboards. -/
def dotStart : State := State.start 1 { ledger := Ledger.empty, log := [] } none 0 0 0

end K1de
