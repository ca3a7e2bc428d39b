import K1de.Lib.Ticker
import K1de.Drm.Calls
import K1de.Main.Keys

/-! # Refresh interval, rescan interval and idle timeout

The loop keeps three readings of the clock: when the display was last refreshed, when the
keyboards were last scanned, and when a key was last typed. Each belongs to one phase, and the
other phases leave it alone (`step_clocks`).

In every run, refreshes are at least 500 ms apart and rescans at least 2 s, and at the end of an
iteration neither is older than that (`refreshes_and_rescans`). The screensaver is on after an
iteration if and only if in the 600 s before its idle check no key with bytes was typed and the
program was not started (`screensaver_iff`). The last needs a clock that does not go back, which
`Instant` promises; the first two hold for any clock.
-/

namespace K1de

open Fallible Ticker

/-! ## The clocks -/

/-- What the loop knows of the time. -/
structure Clocks where
  refresh : Int
  rescan : Int
  idleSince : Int
  screensaving : Bool
deriving DecidableEq, Repr

def State.clocks (s : State) : Clocks :=
  { refresh := s.lastDrmRefresh
    rescan := s.lastKbScan
    idleSince := s.idleSince
    screensaving := s.screensaving }

/-- A key was typed. -/
def Clocks.touch (c : Clocks) (time : Int) : Clocks :=
  { c with idleSince := time, screensaving := false }

/-- When the keyboards in these slots type something. -/
def touches (i : Input) : State → List Nat → List Int
  | _, [] => []
  | s, k :: ks =>
      (if decoded i s k = [] then [] else [i.keyTime k]) ++
        touches i (State.readKeyboard i s k) ks

/-- When something is typed in this iteration. -/
def keyTimes (s : State) (i : Input) : List Int :=
  if i.ready then touches i s (List.range s.keyboards.length) else []

/-- Whether the keyboards are rescanned in this iteration. -/
def State.RescanDue (s : State) (i : Input) : Prop := i.now - s.lastKbScan ≥ keyboardRescanInterval

instance (s : State) (i : Input) : Decidable (s.RescanDue i) :=
  inferInstanceAs (Decidable (_ ≥ _))

/-- Whether the screensaver comes on in this iteration. -/
def State.IdleDue (s : State) (i : Input) : Prop :=
  s.screensaving = false ∧ i.idleNow - s.idleSince ≥ idleTimeout

instance (s : State) (i : Input) : Decidable (s.IdleDue i) :=
  inferInstanceAs (Decidable (_ ∧ _))

/-- The clocks after a phase. -/
def nextClocks (s : State) (e : Phase × Input) : Clocks :=
  match e.1 with
  | .refresh => if s.RefreshDue e.2 then { s.clocks with refresh := e.2.now } else s.clocks
  | .rescan => if s.RescanDue e.2 then { s.clocks with rescan := e.2.now } else s.clocks
  | .keys => (keyTimes s e.2).foldl Clocks.touch s.clocks
  | .idle => if s.IdleDue e.2 then { s.clocks with screensaving := true } else s.clocks
  | .reap | .output | .draw => s.clocks

/-- The refresh clock is set when a refresh is due, whether the refresh succeeds or not. -/
theorem refreshPhase_clocks {font : Font} {s s' : State} {i : Input}
    (h : s.refreshPhase font i = .ok s') :
    s'.clocks = if s.RefreshDue i then { s.clocks with refresh := i.now } else s.clocks := by
  have hstep := State.refreshPhase_step font s i
  rw [h] at hstep
  generalize hr' : (Except.ok s' : Except Fault State) = r at hstep
  cases hstep with
  | notDue hdue =>
      cases hr'
      rw [if_neg hdue]
  | failed hdue =>
      cases hr'
      rw [if_pos hdue]
      rfl
  | gone hdue =>
      cases hr'
      rw [if_pos hdue]
      rfl
  | sameMode hdue =>
      cases hr'
      rw [if_pos hdue]
      rfl
  | newMode hdue =>
      obtain ⟨t, pty, cols, rows, -, -, rfl⟩ := State.changeMode_eq hr'.symm
      rw [if_pos hdue]
      rfl

/-- A key with bytes sets the idle clock, and ends the screen saver. -/
theorem readKeyboard_clocks (i : Input) (s : State) (k : Nat) :
    (State.readKeyboard i s k).clocks =
      (if decoded i s k = [] then [] else [i.keyTime k]).foldl Clocks.touch s.clocks := by
  unfold decoded
  cases hread : i.keyRead k with
  | none =>
      rw [State.readKeyboard, hread]
      rfl
  | some read =>
      cases read with
      | none =>
          rw [State.readKeyboard, hread]
          rfl
      | some ev =>
          by_cases hbytes : (s.decoder.decode ev).2 = []
          · -- a key without bytes: the code skips the timer
            rw [readKeyboard_nil hread hbytes]
            dsimp only
            rw [if_pos hbytes]
            rfl
          · rw [readKeyboard_bytes hread hbytes]
            dsimp only
            rw [if_neg hbytes, State.typeBytes]
            cases hsaver : s.screensaving
            · simp [State.clocks, Clocks.touch, hsaver]
            · simp [State.clocks, Clocks.touch]

/-- The keyboards set it one after the other. -/
theorem keysPhase_clocks (s : State) (i : Input) :
    (s.keysPhase i).clocks = (keyTimes s i).foldl Clocks.touch s.clocks := by
  unfold State.keysPhase keyTimes
  cases i.ready with
  | false => rfl
  | true =>
      rw [if_pos rfl, if_pos rfl]
      generalize List.range s.keyboards.length = slots
      -- one keyboard after the other
      induction slots generalizing s with
      | nil => rfl
      | cons k slots ih =>
          rw [List.foldl_cons, ih, readKeyboard_clocks, touches, List.foldl_append]

theorem drawPhase_clocks {font : Font} {s s' : State} (h : s.drawPhase font = .ok s') :
    s'.clocks = s.clocks := by
  cases State.drawPhase_step h <;> rfl

theorem outputPhase_clocks {s s' : State} {i : Input} (h : s.outputPhase i = .ok s') :
    s'.clocks = s.clocks := by
  cases State.outputPhase_step h <;> rfl

/-- Each clock belongs to one phase. -/
theorem step_clocks {font : Font} {s s' : State} {e : Phase × Input}
    (h : step font s e = .ok s') : s'.clocks = nextClocks s e := by
  obtain ⟨phase, i⟩ := e
  cases phase with
  | refresh => exact refreshPhase_clocks h
  | rescan =>
      cases h
      show (s.rescanPhase i).clocks = if s.RescanDue i then _ else _
      unfold State.rescanPhase
      by_cases hdue : s.RescanDue i
      · rw [if_pos hdue, if_pos (by exact hdue)]
        rfl
      · rw [if_neg hdue, if_neg (by exact hdue)]
  | reap =>
      cases h
      show (s.reapPhase i).clocks = s.clocks
      unfold State.reapPhase
      split <;> rfl
  | output => exact outputPhase_clocks h
  | keys =>
      cases h
      exact keysPhase_clocks s i
  | idle =>
      cases h
      show (s.idlePhase i).clocks = if s.IdleDue i then _ else _
      unfold State.idlePhase
      by_cases hdue : s.IdleDue i
      · rw [if_pos hdue, if_pos (by exact hdue)]
        rfl
      · rw [if_neg hdue, if_neg (by exact hdue)]
  | draw => exact drawPhase_clocks h

/-- Any number of keys: the last one counts. -/
theorem foldl_touch (c : Clocks) (times : List Int) :
    times.foldl Clocks.touch c =
      { c with
        idleSince := times.getLastD c.idleSince
        screensaving := c.screensaving && times.isEmpty } := by
  induction times generalizing c with
  | nil => simp
  | cons time times ih =>
      rw [List.foldl_cons, ih, List.getLastD_cons]
      simp [Clocks.touch]

/-- The refresh clock shows the last refresh. -/
theorem nextClocks_refresh (s : State) (e : Phase × Input) :
    (nextClocks s e).refresh =
      (if e.1 = .refresh ∧ s.RefreshDue e.2 then [e.2.now] else []).getLastD s.lastDrmRefresh := by
  obtain ⟨phase, i⟩ := e
  cases phase with
  | refresh =>
      unfold nextClocks
      by_cases hdue : s.RefreshDue i <;> simp [hdue, State.clocks]
  | keys =>
      unfold nextClocks
      rw [foldl_touch]
      rfl
  | rescan | idle =>
      unfold nextClocks
      dsimp only
      split <;> rfl
  | reap | output | draw => rfl

/-- The rescan clock shows the last rescan. -/
theorem nextClocks_rescan (s : State) (e : Phase × Input) :
    (nextClocks s e).rescan =
      (if e.1 = .rescan ∧ s.RescanDue e.2 then [e.2.now] else []).getLastD s.lastKbScan := by
  obtain ⟨phase, i⟩ := e
  cases phase with
  | rescan =>
      unfold nextClocks
      by_cases hdue : s.RescanDue i <;> simp [hdue, State.clocks]
  | keys =>
      unfold nextClocks
      rw [foldl_touch]
      rfl
  | refresh | idle =>
      unfold nextClocks
      dsimp only
      split <;> rfl
  | reap | output | draw => rfl

/-- The idle clock shows the last key. -/
theorem nextClocks_idleSince (s : State) (e : Phase × Input) :
    (nextClocks s e).idleSince =
      (if e.1 = .keys then keyTimes s e.2 else []).getLastD s.idleSince := by
  obtain ⟨phase, i⟩ := e
  cases phase with
  | keys =>
      unfold nextClocks
      rw [foldl_touch]
      rfl
  | refresh | rescan | idle =>
      unfold nextClocks
      dsimp only
      split <;> rfl
  | reap | output | draw => rfl

/-! ## Refreshes and rescans -/

/-- A reading that is taken only when it is due. -/
theorem isChain_due {interval last now : Int} {p : Prop} [Decidable p]
    (h : p → interval ≤ now - last) :
    (last :: if p then [now] else []).IsChain (fun a b => a + interval ≤ b) := by
  split
  · next hp =>
      have hdue := h hp
      exact List.isChain_cons_cons.mpr ⟨by omega, List.isChain_singleton _⟩
  · exact List.isChain_singleton _

/-- When the display is refreshed. -/
def refreshTimer (font : Font) : Timer (step font) drmRefreshInterval where
  last s := s.lastDrmRefresh
  readings s e := if e.1 = .refresh ∧ s.RefreshDue e.2 then [e.2.now] else []
  sets s e _ h := (congrArg Clocks.refresh (step_clocks h)).trans (nextClocks_refresh s e)
  due _ _ := isChain_due fun h => h.2

/-- When the keyboards are rescanned. -/
def rescanTimer (font : Font) : Timer (step font) keyboardRescanInterval where
  last s := s.lastKbScan
  readings s e := if e.1 = .rescan ∧ s.RescanDue e.2 then [e.2.now] else []
  sets s e _ h := (congrArg Clocks.rescan (step_clocks h)).trans (nextClocks_rescan s e)
  due _ _ := isChain_due fun h => h.2

/-- When a key is typed. -/
def idleStamp (font : Font) : Stamp (step font) where
  last s := s.idleSince
  readings s e := if e.1 = .keys then keyTimes s e.2 else []
  sets s e _ h := (congrArg Clocks.idleSince (step_clocks h)).trans (nextClocks_idleSince s e)

theorem reading_ne_nil_iff {p : Prop} [Decidable p] {now : Int} :
    (if p then [now] else []) ≠ [] ↔ p := by
  split <;> simp_all

/-- A draw asks nothing of the connector. -/
theorem present_log (w : World) (mem : List UInt8) :
    ∃ rs, (present w mem).kernel.log = w.kernel.log ++ rs ∧ ¬ ∃ r ∈ rs, Drm.IsGetConnector r := by
  have hflush : Drm.Calls (fun r => ¬ Drm.IsGetConnector r) Drm.flush := by
    apply Drm.calls_get_bind
    intro w
    split
    · exact Drm.calls_pure _
    · refine Drm.calls_release ?_ _
      rintro ⟨_, _, _, heq⟩
      cases heq
  obtain ⟨rs, hlog, hrs⟩ := hflush { w with drm := w.drm.setMem mem }
  exact ⟨rs, hlog, fun ⟨r, hr, hget⟩ => hrs r hr hget⟩

/-- The readings of the timer are the refreshes: a step calls `GETCONNECTOR` if and only if it has
a reading. -/
theorem refreshTimer_probes {font : Font} {s s' : State} {e : Phase × Input}
    (h : step font s e = .ok s') :
    ∃ rs, s'.world.kernel.log = s.world.kernel.log ++ rs ∧
      ((∃ r ∈ rs, Drm.IsGetConnector r) ↔ (refreshTimer font).readings s e ≠ []) := by
  have hreadings : (refreshTimer font).readings s e ≠ [] ↔ e.1 = .refresh ∧ s.RefreshDue e.2 :=
    reading_ne_nil_iff
  rw [hreadings]
  by_cases hphase : e.1 = .refresh
  · obtain ⟨phase, i⟩ := e
    cases hphase
    -- the driver logs its first `GETCONNECTOR` before it can fail
    rcases refreshPhase_world h with ⟨hdue, hworld⟩ | ⟨hdue, hworld⟩
    · rw [hworld]
      exact ⟨[], (List.append_nil _).symm, iff_of_false (fun ⟨_, hr, _⟩ => nomatch hr)
        fun hboth => hdue hboth.2⟩
    · obtain ⟨rs, hlog⟩ := Drm.refresh_probes i.answers s.world
      rw [hworld]
      exact ⟨_, hlog, iff_of_true ⟨_, List.mem_cons_self, _, _, _, rfl⟩ ⟨rfl, hdue⟩⟩
  · have hworld := step_world h
    generalize s'.world = w at hworld ⊢
    cases hworld with
    | same =>
        exact ⟨[], (List.append_nil _).symm, iff_of_false (fun ⟨_, hr, _⟩ => nomatch hr)
          fun hboth => hphase hboth.1⟩
    | refreshed hrefresh => exact absurd hrefresh hphase
    | drawn _ mem =>
        obtain ⟨rs, hlog, hnone⟩ := present_log s.world mem
        exact ⟨rs, hlog, iff_of_false hnone fun hboth => hphase hboth.1⟩

/-- The same for the rescans: a step that has a reading merges what a scan finds, and no other
changes the list. -/
theorem rescanTimer_scans {font : Font} {s s' : State} {e : Phase × Input}
    (h : step font s e = .ok s') :
    s'.keyboards =
      if (rescanTimer font).readings s e ≠ [] then
        mergeKeyboards s.keyboards (scanKeyboards e.2.dir)
      else s.keyboards := by
  have hreadings : (rescanTimer font).readings s e ≠ [] ↔ e.1 = .rescan ∧ s.RescanDue e.2 :=
    reading_ne_nil_iff
  rw [step_keyboards h]
  by_cases hphase : e.1 = .rescan
  · rw [if_pos hphase, State.rescanPhase]
    by_cases hdue : s.RescanDue e.2
    · rw [if_pos (by exact hdue), if_pos (hreadings.mpr ⟨hphase, hdue⟩)]
    · rw [if_neg (by exact hdue), if_neg fun hr => hdue (hreadings.mp hr).2]
  · rw [if_neg hphase, if_neg fun hr => hphase (hreadings.mp hr).1]

theorem schedule_snoc (before : List Input) (i : Input) :
    schedule (before ++ [i]) = schedule before ++ Phase.all.map fun phase => (phase, i) := by
  unfold schedule
  rw [List.flatMap_append, List.flatMap_singleton]

/-- After its phase a timer is not older than its interval. -/
theorem fresh_of_due {interval last now : Int} (hpos : 0 < interval) {p : Prop} [Decidable p]
    (h : p ↔ now - last ≥ interval) :
    now - (if p then [now] else []).getLastD last < interval := by
  split
  · show now - now < interval
    omega
  · next hp =>
      have hnot : ¬ now - last ≥ interval := fun hge => hp (h.mpr hge)
      show now - last < interval
      omega

/-- An iteration is its phases one after the other. -/
theorem of_run_iteration {font : Font} {s s' : State} {i : Input} {phases : List Phase}
    {phase : Phase}
    (h : run (step font) s ((phase :: phases).map fun phase => (phase, i)) = .ok s') :
    ∃ s₁, step font s (phase, i) = .ok s₁ ∧
      run (step font) s₁ (phases.map fun phase => (phase, i)) = .ok s' :=
  of_bind_ok h

/-- Phases that do not belong to the stamp. -/
theorem last_run_phases {font : Font} (S : Stamp (step font)) {s s' : State} {i : Input}
    {phases : List Phase}
    (h : run (step font) s (phases.map fun phase => (phase, i)) = .ok s')
    (hquiet : ∀ phase ∈ phases, ∀ s, S.readings s (phase, i) = []) : S.last s' = S.last s := by
  apply S.last_run_quiet h
  intro e he
  obtain ⟨phase, hphase, rfl⟩ := List.mem_map.mp he
  exact hquiet phase hphase

/-- The refresh clock is left alone by the other phases. -/
theorem lastDrmRefresh_run {font : Font} {s s' : State} {i : Input} {phases : List Phase}
    (hphases : .refresh ∉ phases)
    (h : run (step font) s (phases.map fun phase => (phase, i)) = .ok s') :
    s'.lastDrmRefresh = s.lastDrmRefresh := by
  refine last_run_phases (refreshTimer font).toStamp h ?_
  intro phase hphase s
  apply if_neg
  rintro ⟨rfl, -⟩
  exact hphases hphase

/-- The rescan clock is left alone by the other phases. -/
theorem lastKbScan_run {font : Font} {s s' : State} {i : Input} {phases : List Phase}
    (hphases : .rescan ∉ phases)
    (h : run (step font) s (phases.map fun phase => (phase, i)) = .ok s') :
    s'.lastKbScan = s.lastKbScan := by
  refine last_run_phases (rescanTimer font).toStamp h ?_
  intro phase hphase s
  apply if_neg
  rintro ⟨rfl, -⟩
  exact hphases hphase

/-- At the end of an iteration both timers are fresh. -/
theorem iteration_fresh {font : Font} {s s' : State} {i : Input}
    (h : run (step font) s (Phase.all.map fun phase => (phase, i)) = .ok s') :
    i.now - s'.lastDrmRefresh < drmRefreshInterval ∧
      i.now - s'.lastKbScan < keyboardRescanInterval := by
  -- the refresh is the first phase and the rescan the second; no later phase sets their clocks
  obtain ⟨s₁, hs₁, h₁⟩ := of_run_iteration h
  obtain ⟨s₂, hs₂, h₂⟩ := of_run_iteration h₁
  constructor
  · have hset : s₁.lastDrmRefresh = _ := (refreshTimer font).sets s _ s₁ hs₁
    rw [lastDrmRefresh_run (by decide) h₁, hset]
    exact fresh_of_due (by decide) (and_iff_right rfl)
  · have hset : s₂.lastKbScan = _ := (rescanTimer font).sets s₁ _ s₂ hs₂
    rw [lastKbScan_run (by decide) h₂, hset]
    exact fresh_of_due (by decide) (and_iff_right rfl)

/-- In every run, with any clock: refreshes of the display are at least 500 ms apart and rescans of
the keyboards at least 2 s, and at the end of an iteration the last refresh and the last rescan
are less than that before its reading. -/
theorem refreshes_and_rescans (font : Font) (connectorId : UInt32) (kernel : Kernel)
    (dir : Option (List (Option Node))) (drmTime kbTime idleTime : Int) (inputs : List Input) :
    let start := State.start connectorId kernel dir drmTime kbTime idleTime
    ((refreshTimer font).history start (schedule inputs)).IsChain
        (fun a b => a + drmRefreshInterval ≤ b) ∧
      ((rescanTimer font).history start (schedule inputs)).IsChain
        (fun a b => a + keyboardRescanInterval ≤ b) ∧
      ∀ before i after s, inputs = before ++ i :: after →
        run (step font) start (schedule (before ++ [i])) = .ok s →
          i.now - ((refreshTimer font).history start
              (schedule (before ++ [i]))).getLastD (drmTime - drmRefreshInterval) <
            drmRefreshInterval ∧
          i.now - ((rescanTimer font).history start (schedule (before ++ [i]))).getLastD kbTime <
            keyboardRescanInterval := by
  intro start
  refine ⟨((refreshTimer font).spaced start _).tail, ((rescanTimer font).spaced start _).tail, ?_⟩
  intro before i after s _ hrun
  have hrefresh := (refreshTimer font).last_run hrun
  have hrescan := (rescanTimer font).last_run hrun
  rw [schedule_snoc, run_append] at hrun
  obtain ⟨s₀, -, hiter⟩ := of_bind_ok hrun
  obtain ⟨hfresh, hfresh'⟩ := iteration_fresh hiter
  exact ⟨hrefresh ▸ hfresh, hrescan ▸ hfresh'⟩

/-! ## The screensaver -/

/-- If the screensaver is on, the timeout has passed at this reading. -/
def Pending (now : Int) (c : Clocks) : Prop :=
  c.screensaving = true → idleTimeout ≤ now - c.idleSince

/-- Before the idle check every phase keeps it: a key moves the clock, and ends the screen saver. -/
theorem Pending.of_step {font : Font} {s s' : State} {phase : Phase} {i : Input}
    (h : Pending i.idleNow s.clocks) (hphase : phase ≠ .idle)
    (hstep : step font s (phase, i) = .ok s') : Pending i.idleNow s'.clocks := by
  rw [step_clocks hstep]
  cases phase with
  | idle => exact absurd rfl hphase
  | refresh | rescan =>
      unfold nextClocks
      dsimp only
      split <;> exact h
  | keys =>
      show Pending _ ((keyTimes s i).foldl Clocks.touch s.clocks)
      rw [foldl_touch]
      intro hon
      obtain ⟨hsaver, hnone⟩ := Bool.and_eq_true_iff.mp hon
      -- if it is still on, no key was typed
      rw [List.isEmpty_iff.mp hnone]
      exact h hsaver
  | reap | output | draw => exact h

theorem Pending.of_run {font : Font} {s s' : State} {phases : List Phase} {i : Input}
    (h : Pending i.idleNow s.clocks) (hphases : .idle ∉ phases)
    (hrun : run (step font) s (phases.map fun phase => (phase, i)) = .ok s') :
    Pending i.idleNow s'.clocks := by
  induction phases generalizing s with
  | nil =>
      cases hrun
      exact h
  | cons phase phases ih =>
      obtain ⟨s₁, hs₁, hrest⟩ := of_run_iteration hrun
      rw [List.mem_cons, not_or] at hphases
      exact ih (h.of_step (Ne.symm hphases.1) hs₁) hphases.2 hrest

/-- The idle check decides. -/
theorem Pending.idle {s : State} {i : Input} (h : Pending i.idleNow s.clocks) :
    (s.idlePhase i).screensaving = true ↔ idleTimeout ≤ i.idleNow - (s.idlePhase i).idleSince := by
  unfold State.idlePhase
  split
  · next hdue => exact iff_of_true rfl hdue.2
  · next hdue =>
      constructor
      · exact h
      · intro hge
        by_contra hoff
        exact hdue ⟨Bool.eq_false_iff.mpr hoff, hge⟩

/-- After an iteration whose idle check is not before the one that put the screensaver on. -/
theorem iteration_saver {font : Font} {s s' : State} {i : Input} (h : Pending i.idleNow s.clocks)
    (hrun : run (step font) s (Phase.all.map fun phase => (phase, i)) = .ok s') :
    s'.screensaving = true ↔ idleTimeout ≤ i.idleNow - s'.idleSince := by
  have hsplit : Phase.all.map (fun phase => (phase, i)) =
      ([Phase.refresh, .rescan, .reap, .output, .keys].map fun phase => (phase, i)) ++
        [Phase.idle, .draw].map fun phase => (phase, i) := rfl
  rw [hsplit, run_append] at hrun
  obtain ⟨s₁, hs₁, hrun⟩ := of_bind_ok hrun
  obtain ⟨s₂, hidle, hrun⟩ := of_run_iteration hrun
  obtain ⟨s₃, hdraw, hend⟩ := of_run_iteration hrun
  cases hend
  cases hidle
  have hclocks := step_clocks hdraw
  have hsaver : s'.screensaving = (s₁.idlePhase i).screensaving :=
    congrArg Clocks.screensaving hclocks
  have hsince : s'.idleSince = (s₁.idlePhase i).idleSince := congrArg Clocks.idleSince hclocks
  rw [hsaver, hsince]
  exact (h.of_run (by decide) hs₁).idle

/-- The clock of the idle checks does not go back. -/
def IdleClock (inputs : List Input) : Prop := inputs.IsChain fun i j => i.idleNow ≤ j.idleNow

/-- After a run whose idle clock does not go back, the screen saver is on exactly when the last
idle check found the timeout passed. -/
theorem run_saver {font : Font} {start : State} (hstart : start.screensaving = false)
    {inputs : List Input} (hclock : IdleClock inputs) {s : State}
    (hrun : run (step font) start (schedule inputs) = .ok s) :
    match inputs.getLast? with
    | none => s.screensaving = false
    | some i => s.screensaving = true ↔ idleTimeout ≤ i.idleNow - s.idleSince := by
  induction inputs using List.reverseRecOn generalizing s with
  | nil =>
      cases hrun
      exact hstart
  | append_singleton before i ih =>
      rw [schedule_snoc, run_append] at hrun
      obtain ⟨s₀, hs₀, hiter⟩ := of_bind_ok hrun
      rw [List.getLast?_concat]
      apply iteration_saver ?_ hiter
      intro hon
      have hbefore := ih (hclock.left_of_append) hs₀
      -- if it was on before this iteration, an earlier check has put it on
      cases hlast : before.getLast? with
      | none =>
          rw [hlast] at hbefore
          cases hbefore.symm.trans hon
      | some j =>
          rw [hlast] at hbefore
          have hle : j.idleNow ≤ i.idleNow :=
            (List.isChain_append.mp hclock).2.2 j hlast i rfl
          have hge : idleTimeout ≤ j.idleNow - s₀.idleSince := hbefore.mp hon
          show idleTimeout ≤ i.idleNow - s₀.idleSince
          omega

/-- After every iteration the screensaver is on if and only if the last key is at least 600 s before
its idle check. Only a key that has bytes counts, so Escape does not, and the start of the program
counts as a key: there is no screensaver in the first 600 s. -/
theorem screensaver_iff (font : Font) (connectorId : UInt32) (kernel : Kernel)
    (dir : Option (List (Option Node))) (drmTime kbTime idleTime : Int) (before : List Input)
    (i : Input) (hclock : IdleClock (before ++ [i])) (s : State)
    (hrun : run (step font) (State.start connectorId kernel dir drmTime kbTime idleTime)
      (schedule (before ++ [i])) = .ok s) :
    s.screensaving = true ↔
      idleTimeout ≤ i.idleNow - ((idleStamp font).history
        (State.start connectorId kernel dir drmTime kbTime idleTime)
        (schedule (before ++ [i]))).getLastD idleTime := by
  have hsaver := run_saver rfl hclock hrun
  rw [List.getLast?_concat] at hsaver
  have hlast := (idleStamp font).last_run hrun
  exact hlast ▸ hsaver

/-- A display that cannot be probed. -/
def unprobed : Answers :=
  { display 1 dotBuffer with probe := { first := .error (.os 5), second := .error (.os 5) } }

theorem screensaver_iff_quiet :
    ∃ s, run (step dotFont) dotStart
        (schedule ([quiet 0 unprobed (.ok none)] ++ [quiet idleTimeout unprobed (.ok none)])) =
          .ok s ∧
      (s.screensaving = true ↔
        idleTimeout ≤ idleTimeout - ((idleStamp dotFont).history dotStart
          (schedule ([quiet 0 unprobed (.ok none)] ++
            [quiet idleTimeout unprobed (.ok none)]))).getLastD 0) :=
  ⟨_, rfl, screensaver_iff dotFont 1 _ none 0 0 0 _ (quiet idleTimeout unprobed (.ok none))
    (by simp [IdleClock, quiet, idleTimeout]) _ rfl⟩

end K1de
