import K1de.Main.Keys

/-! # The console behind the loop

What the loop is for, without displays, timers, files or redraws: a `Console` has a mode, a
terminal, perhaps a shell, and is awake or asleep. Things happen to it one at a time
(`Console.Event`): a display is found or is gone, the shell exits or prints, a key event is
read, the user has been idle for too long.

`loop_refines_console` says that the loop is this console: in every run its state is what the
console has made of the events so far (`emitted`), whatever the kernel refused in between.
`shell_input` reads off from it what a shell is sent.
-/

namespace K1de

open Fallible

/-! ## The console -/

/-- The terminal without the mark for redrawing. -/
def Terminal.clean (t : Terminal) : Terminal := { t with dirty := false }

structure Console where
  mode : Option Mode
  term : Option Terminal
  shell : Option Pty
  decoder : Decoder
  awake : Bool

namespace Console

inductive Event where
  /-- a display in this mode was found; starting a shell would go as `spawn` says -/
  | display (mode : Mode) (spawn : SpawnAnswers)
  | gone
  | exited
  | output (bytes : List UInt8)
  | key (ev : InputEvent)
  | idle

def initial : Console :=
  { mode := none, term := none, shell := none, decoder := .new, awake := true }

/-- The display has another mode: the terminal and the shell follow it. -/
def follow (font : Font) (c : Console) (m : Mode) (spawn : SpawnAnswers) :
    Except Fault Console := do
  let cols := max (m.width.toNat / font.width) 1
  let rows := max (m.height.toNat / font.height) 1
  let t ← State.sizedTerm c.term cols rows
  return { c with
    mode := some m
    term := some t.clean
    shell := State.sizedPty c.shell cols rows spawn }

/-- The terminal prints what the shell has to say. Without a shell there is no output. -/
def print (c : Console) (bytes : List UInt8) : Except Fault Console :=
  match c.shell, c.term with
  | some _, some t => do
      let t ← t.feed bytes
      return { c with term := some t.clean }
  | _, _ => .ok c

/-- A key that has bytes wakes the console, or goes to the shell. -/
def press (c : Console) (ev : InputEvent) : Console :=
  let c' := { c with decoder := (c.decoder.decode ev).1 }
  if (c.decoder.decode ev).2 = [] then c'
  else if c.awake then { c' with shell := c.shell.map (Pty.write · (c.decoder.decode ev).2) }
  else { c' with awake := true }

def step (font : Font) (c : Console) : Event → Except Fault Console
  | .display m spawn => if c.mode = some m then .ok c else c.follow font m spawn
  | .gone => .ok { c with mode := none }
  | .exited => .ok { c with shell := none }
  | .output bytes => c.print bytes
  | .key ev => .ok (c.press ev)
  | .idle => .ok { c with awake := false }

end Console

/-! ## The loop as a console -/

def State.console (s : State) : Console :=
  { mode := s.mode
    term := s.term.map Terminal.clean
    shell := s.pty
    decoder := s.decoder
    awake := !s.screensaving }

/-- The event that is read from keyboard `k` in this iteration. -/
def Input.event (i : Input) (k : Nat) : Option InputEvent :=
  if i.ready then (i.keyRead k).join else none

open Console in
/-- What happens to the console in one phase of the loop. -/
def emitted (s : State) (e : Phase × Input) : List Event :=
  match e.1 with
  | .refresh =>
      if s.RefreshDue e.2 then
        match s.refreshResult e.2 with
        | .ok (some m) => [.display m e.2.spawn]
        | .ok none => [.gone]
        | .error _ => []
      else []
  | .reap =>
      match e.2.tryWait with
      | .ok (some _) => [.exited]
      | _ => []
  | .output => (e.2.output.map Event.output).toList
  | .keys => ((List.range s.keyboards.length).filterMap e.2.event).map Event.key
  | .idle =>
      if s.screensaving = false ∧ e.2.idleNow - s.idleSince ≥ idleTimeout then [.idle] else []
  | .rescan | .draw => []

/-! ## Redraw marks do not matter -/

/-- The mark makes no difference to what bytes do to a terminal. -/
theorem Terminal.feed_clean (t : Terminal) (bytes : List UInt8) :
    clean <$> t.clean.feed bytes = clean <$> t.feed bytes := by
  cases bytes with
  | nil => rfl
  | cons b bytes => rfl

/-- Nor does it make a difference to a resize. -/
theorem Terminal.resize_clean (t : Terminal) (cols rows : Nat) :
    clean <$> t.clean.resize cols rows = clean <$> t.resize cols rows := by
  unfold Terminal.resize
  show clean <$> (if cols = t.cols ∧ rows = t.rows then _ else _) = _
  split
  · rfl
  · cases blankCells (max cols 1) (max rows 1) <;> rfl

theorem sizedTerm_clean (term : Option Terminal) (cols rows : Nat) :
    Terminal.clean <$> State.sizedTerm (term.map Terminal.clean) cols rows =
      Terminal.clean <$> State.sizedTerm term cols rows := by
  cases term with
  | none => rfl
  | some t => exact Terminal.resize_clean t cols rows

/-- A result that agrees with one that returns, up to the mark. -/
theorem exists_ok_of_clean_eq {r r' : Except Fault Terminal} {t' : Terminal}
    (heq : Terminal.clean <$> r = Terminal.clean <$> r') (h : r' = .ok t') :
    ∃ t, r = .ok t ∧ t.clean = t'.clean := by
  subst h
  cases r with
  | error f => cases heq
  | ok t => exact ⟨t, rfl, Except.ok.inj heq⟩

/-! ## The phases -/

section

variable {font : Font} {s s' : State} {i : Input}

theorem run_one {c : Console} (e : Console.Event) :
    run (Console.step font) c [e] = Console.step font c e := by
  rw [run_cons]
  cases Console.step font c e <;> rfl

/-- A change of mode is seen by the console. -/
theorem follow_console {m : Mode} {a : SpawnAnswers} (h : s.changeMode font m a = .ok s') :
    s.console.follow font m a = .ok s'.console := by
  obtain ⟨t, ht, hs'⟩ := of_bind_ok h
  cases hs'
  obtain ⟨t₁, ht₁, hclean⟩ := exists_ok_of_clean_eq (sizedTerm_clean s.term _ _) ht
  unfold Console.follow
  dsimp only
  rw [show s.console.term = s.term.map Terminal.clean from rfl, ht₁, ok_bind, hclean]
  rfl

/-- The console is told of a display when a probe finds one, of none when it finds none, and of
nothing when the probe fails or is not due. -/
theorem refreshPhase_console (h : s.refreshPhase font i = .ok s') :
    run (Console.step font) s.console (emitted s (.refresh, i)) = .ok s'.console := by
  have hstep := State.refreshPhase_step font s i
  rw [h] at hstep
  unfold emitted
  dsimp only
  generalize hr' : (Except.ok s' : Except Fault State) = r at hstep
  cases hstep with
  | notDue hdue =>
      cases hr'
      rw [if_neg hdue]
      rfl
  | failed hdue hr =>
      cases hr'
      rw [if_pos hdue, hr]
      rfl
  | gone hdue hr =>
      cases hr'
      rw [if_pos hdue, hr]
      rfl
  | @sameMode m hdue hr hmode =>
      cases hr'
      rw [if_pos hdue, hr]
      dsimp only
      rw [run_one, Console.step, if_pos (show s.console.mode = some m from hmode)]
      rfl
  | @newMode m hdue hr hmode =>
      rw [if_pos hdue, hr]
      dsimp only
      rw [run_one, Console.step, if_neg (show s.console.mode ≠ some m from hmode)]
      exact follow_console (s := s.refreshed i) hr'.symm

/-- A child that has ended is an exit, even when the terminal has no shell attached. -/
theorem reapPhase_console :
    run (Console.step font) s.console (emitted s (.reap, i)) = .ok (s.reapPhase i).console := by
  unfold emitted State.reapPhase
  dsimp only
  cases i.tryWait with
  | error e => rfl
  | ok status => cases status <;> rfl

/-- Bytes that are read are printed. Without a shell or a terminal they are dropped on both sides.
-/
theorem outputPhase_console (h : s.outputPhase i = .ok s') :
    run (Console.step font) s.console (emitted s (.output, i)) = .ok s'.console := by
  unfold emitted
  dsimp only
  cases State.outputPhase_step h with
  | nothing hread =>
      rw [hread]
      rfl
  | noShell hread hpty =>
      rw [hread]
      show run (Console.step font) s.console [.output _] = _
      rw [run_one, Console.step, Console.print]
      simp [State.console, hpty]
  | noTerm hread hterm =>
      rw [hread]
      show run (Console.step font) s.console [.output _] = _
      rw [run_one, Console.step, Console.print]
      simp [State.console, hterm]
  | fed hread hpty hterm hfeed =>
      rw [hread]
      show run (Console.step font) s.console [.output _] = _
      rw [run_one, Console.step, Console.print]
      obtain ⟨t₁, ht₁, hclean⟩ := exists_ok_of_clean_eq (Terminal.feed_clean _ _) hfeed
      simp [State.console, hpty, hterm, ht₁, hclean, pure, Except.pure]

/-- What is read from a keyboard is pressed, if it is an event. -/
theorem handleEvent_console (s : State) (read : Option InputEvent) (time : Int) :
    (s.handleEvent read time).console = read.elim s.console s.console.press := by
  cases read with
  | none => rfl
  | some ev =>
      show _ = s.console.press ev
      unfold Console.press
      by_cases hbytes : (s.decoder.decode ev).2 = []
      · rw [handleEvent_nil hbytes, if_pos (by exact hbytes)]
        rfl
      · rw [handleEvent_bytes hbytes, if_neg (by exact hbytes), State.typeBytes]
        cases hsaver : s.screensaving with
        | false => simp [State.console, hsaver]
        | true => cases hterm : s.term <;> simp [State.console, Terminal.clean, hsaver, hterm]

theorem readKeyboard_console (k : Nat) (hready : i.ready = true) :
    (State.readKeyboard i s k).console =
      (i.event k).elim s.console s.console.press := by
  rw [Input.event, if_pos hready, State.readKeyboard]
  cases i.keyRead k with
  | none => rfl
  | some read => exact handleEvent_console s read (i.keyTime k)

/-- The open keyboards are read one by one, and each event is pressed before the next is read. -/
theorem keysPhase_console :
    run (Console.step font) s.console (emitted s (.keys, i)) = .ok (s.keysPhase i).console := by
  unfold emitted State.keysPhase
  dsimp only
  cases hready : i.ready with
  | false =>
      have hnone : i.event = fun _ => none := by
        funext k
        rw [Input.event, hready]
        rfl
      rw [hnone, List.filterMap_none]
      rfl
  | true =>
      rw [if_pos rfl]
      -- the slots are fixed before the first read: reading opens and closes no keyboard
      generalize List.range s.keyboards.length = slots
      induction slots generalizing s with
      | nil => rfl
      | cons k slots ih =>
          have hread := readKeyboard_console (s := s) k hready
          rw [List.foldl_cons, List.filterMap_cons]
          cases hev : i.event k with
          | none =>
              rw [hev] at hread
              dsimp only
              rw [show s.console = (State.readKeyboard i s k).console from hread.symm]
              exact ih
          | some ev =>
              rw [hev] at hread
              dsimp only
              rw [List.map_cons, run_cons, Console.step, ok_bind,
                show s.console.press ev = (State.readKeyboard i s k).console from hread.symm]
              exact ih

/-- The console sleeps from the moment the screen saver starts. -/
theorem idlePhase_console :
    run (Console.step font) s.console (emitted s (.idle, i)) = .ok (s.idlePhase i).console := by
  unfold emitted State.idlePhase
  dsimp only
  split <;> rfl

theorem rescanPhase_console : (s.rescanPhase i).console = s.console := by
  unfold State.rescanPhase
  split <;> rfl

theorem drawPhase_console (h : s.drawPhase font = .ok s') : s'.console = s.console := by
  cases State.drawPhase_step h with
  | saver => rfl
  | noTerm => rfl
  | clean => rfl
  | drawn _ hterm hr =>
      -- drawing clears the redraw mark, which the console does not have
      rcases render_cases hr with ⟨-, rfl, rfl⟩ | ⟨so, mem, -, rfl, rfl, -⟩ <;>
        simp [State.console, hterm, Terminal.clean]

end

/-! ## Runs -/

/-- One phase of the loop is what its events are to the console. -/
theorem step_console {font : Font} {s s' : State} {e : Phase × Input}
    (h : step font s e = .ok s') :
    run (Console.step font) s.console (emitted s e) = .ok s'.console := by
  obtain ⟨phase, i⟩ := e
  cases phase with
  | refresh => exact refreshPhase_console h
  | rescan =>
      cases h
      rw [rescanPhase_console]
      rfl
  | reap =>
      cases h
      exact reapPhase_console
  | output => exact outputPhase_console h
  | keys =>
      cases h
      exact keysPhase_console
  | idle =>
      cases h
      exact idlePhase_console
  | draw =>
      rw [drawPhase_console h]
      rfl

/-- What has happened to the console in a run. -/
def history (font : Font) (s : State) (es : List (Phase × Input)) : List Console.Event :=
  (visits (step font) s es).flatMap fun p => emitted p.1 p.2

/-- A run of the loop is a run of the console over what has happened to it. -/
theorem run_console {font : Font} {s s' : State} {es : List (Phase × Input)}
    (h : run (step font) s es = .ok s') :
    run (Console.step font) s.console (history font s es) = .ok s'.console :=
  run_emits State.console emitted (fun _ _ _ hstep => step_console hstep) h

/-- At every point of every run of the loop, its mode, its terminal up to the redraw mark, its
shell, its modifiers and whether it is awake are what the console has made of the events so
far. -/
theorem loop_refines_console (font : Font) (connectorId : UInt32) (kernel : Kernel)
    (dir : Option (List (Option Node))) (drmTime kbTime idleTime : Int)
    (es : List (Phase × Input)) (s : State)
    (h : run (step font) (State.start connectorId kernel dir drmTime kbTime idleTime) es =
      .ok s) :
    run (Console.step font) Console.initial
        (history font (State.start connectorId kernel dir drmTime kbTime idleTime) es) =
      .ok s.console :=
  run_console h

/-- An iteration in which the first keyboard says that the key `a` has gone down. -/
def typing : Input :=
  { quiet 0 (display 1 dotBuffer) (.ok none) with
    ready := true, keyRead := fun _ => some (some ⟨evKey, 30, 1⟩) }

/-- A shell was started, and has been sent the character. -/
theorem run_typing :
    ∃ s, run (step dotFont) keyboardStart (schedule [typing]) = .ok s ∧
      s.pty = some { program := "/usr/bin/fish", winsize := (1, 1), written := [0x61] } := by
  have hrun : (do
      let s ← run (step dotFont) keyboardStart (schedule [typing])
      return s.pty) =
      .ok (some { program := "/usr/bin/fish", winsize := (1, 1), written := [0x61] }) := by
    decide +kernel
  obtain ⟨s, hs, hpty⟩ := of_bind_ok hrun
  exact ⟨s, hs, Except.ok.inj hpty⟩

theorem loop_refines_console_typing :
    ∃ s, run (step dotFont) keyboardStart (schedule [typing]) = .ok s ∧
      run (Console.step dotFont) Console.initial
        (history dotFont keyboardStart (schedule [typing])) = .ok s.console := by
  obtain ⟨s, hs, -⟩ := run_typing
  exact ⟨s, hs, loop_refines_console dotFont 1 _ _ 0 0 0 _ s hs⟩

/-! ## What a shell is sent -/

namespace Console

/-- What is typed while awake. A key that wakes is not typed. -/
def typedBytes : Decoder → Bool → List Event → List UInt8
  | _, _, [] => []
  | d, awake, .key ev :: es =>
      if (d.decode ev).2 = [] then typedBytes (d.decode ev).1 awake es
      else (if awake then (d.decode ev).2 else []) ++ typedBytes (d.decode ev).1 true es
  | d, _, .idle :: es => typedBytes d false es
  | d, awake, _ :: es => typedBytes d awake es

/-- The shell that a display event leaves: the old one, or a new one that was sent nothing. -/
theorem sizedPty_written {pty : Option Pty} {cols rows : Nat} {a : SpawnAnswers} {p : Pty}
    (h : State.sizedPty pty cols rows a = some p) :
    p.written = (pty.map Pty.written).getD [] := by
  cases pty with
  | some p₀ =>
      cases h
      rfl
  | none =>
      unfold State.sizedPty at h
      obtain ⟨openpt, grantpt, unlockpt, ptsname, shellExists, child⟩ := a
      cases openpt <;> cases grantpt <;> cases unlockpt <;> cases ptsname <;> cases child <;>
        cases h
      rfl

section

variable {font : Font} {c c' : Console}

/-- A key event, in the terms of what is typed. -/
theorem press_typed (c : Console) (ev : InputEvent) (es : List Event) (p : Pty)
    (hp : c.shell = some p) :
    ∃ p', (c.press ev).shell = some p' ∧
      p'.written ++ typedBytes (c.press ev).decoder (c.press ev).awake es =
        p.written ++ typedBytes c.decoder c.awake (.key ev :: es) := by
  rw [typedBytes]
  unfold press
  by_cases hbytes : (c.decoder.decode ev).2 = []
  · rw [if_pos hbytes, if_pos hbytes]
    exact ⟨p, hp, rfl⟩
  · rw [if_neg hbytes, if_neg hbytes]
    cases hawake : c.awake with
    | true => exact ⟨p.write (c.decoder.decode ev).2, by simp [hp], by simp [Pty.write]⟩
    | false => exact ⟨p, hp, rfl⟩

/-- An attached shell was there before and has been sent what the event types, or was started
by the event. -/
theorem step_shell {e : Event} {p' : Pty} (h : step font c e = .ok c')
    (hp' : c'.shell = some p') (es : List Event) :
    (∃ p, c.shell = some p ∧ e ≠ .exited ∧
      p'.written ++ typedBytes c'.decoder c'.awake es =
        p.written ++ typedBytes c.decoder c.awake (e :: es)) ∨
    ∃ m a, e = .display m a ∧ c.shell = none ∧ p'.written = [] ∧
      c'.decoder = c.decoder ∧ c'.awake = c.awake := by
  cases e with
  | display m a =>
      rw [step] at h
      split at h
      · cases h
        exact Or.inl ⟨p', hp', nofun, rfl⟩
      · obtain ⟨t, -, hc'⟩ := of_bind_ok h
        cases hc'
        -- a new mode: an attached shell is told the size and keeps what it was sent
        have hwritten := sizedPty_written hp'
        cases hshell : c.shell with
        | none =>
            rw [hshell] at hwritten
            exact Or.inr ⟨m, a, rfl, rfl, hwritten, rfl, rfl⟩
        | some p =>
            rw [hshell] at hwritten
            refine Or.inl ⟨p, rfl, nofun, ?_⟩
            rw [hwritten]
            rfl
  | gone =>
      cases h
      exact Or.inl ⟨p', hp', nofun, rfl⟩
  | exited =>
      cases h
      cases hp'
  | output bytes =>
      have hkept : c'.shell = c.shell ∧ c'.decoder = c.decoder ∧ c'.awake = c.awake := by
        rw [step, print] at h
        split at h
        · obtain ⟨t, -, hc'⟩ := of_bind_ok h
          cases hc'
          exact ⟨rfl, rfl, rfl⟩
        · cases h
          exact ⟨rfl, rfl, rfl⟩
      obtain ⟨hshell, hdecoder, hawake⟩ := hkept
      refine Or.inl ⟨p', hshell ▸ hp', nofun, ?_⟩
      rw [hdecoder, hawake]
      rfl
  | key ev =>
      cases h
      -- a key starts no shell
      have hsome : ∃ p, c.shell = some p := by
        unfold press at hp'
        split_ifs at hp'
        · exact ⟨p', hp'⟩
        · obtain ⟨p, hp, -⟩ := Option.map_eq_some_iff.mp hp'
          exact ⟨p, hp⟩
        · exact ⟨p', hp'⟩
      obtain ⟨p, hp⟩ := hsome
      obtain ⟨p₁, hp₁, htyped⟩ := press_typed c ev es p hp
      cases hp₁.symm.trans hp'
      exact Or.inl ⟨p, hp, nofun, htyped⟩
  | idle =>
      cases h
      exact Or.inl ⟨p', hp', nofun, rfl⟩

/-- The shell at the end of a run was there at its start, or was started in it. -/
theorem run_shell {es : List Event} {p' : Pty} (h : run (step font) c es = .ok c')
    (hp' : c'.shell = some p') :
    (∃ p, c.shell = some p ∧ (∀ e ∈ es, e ≠ .exited) ∧
      p'.written = p.written ++ typedBytes c.decoder c.awake es) ∨
    ∃ pre m a post c₁, es = pre ++ .display m a :: post ∧ run (step font) c pre = .ok c₁ ∧
      c₁.shell = none ∧ (∀ e ∈ post, e ≠ .exited) ∧
      p'.written = typedBytes c₁.decoder c₁.awake post := by
  induction es generalizing c with
  | nil =>
      cases h
      refine Or.inl ⟨p', hp', fun e he => absurd he List.not_mem_nil, ?_⟩
      rw [typedBytes, List.append_nil]
  | cons e es ih =>
      obtain ⟨c₂, hc₂, hrest⟩ := of_bind_ok h
      -- the induction is on the rest of the run: its shell is the one that this event leaves, or
      -- was started later, and then the first event only makes the part before it longer
      rcases ih hrest with ⟨p₂, hp₂, hstays, hwritten⟩ | ⟨pre, m, a, post, c₁, rfl, hpre, hlater⟩
      · rcases step_shell hc₂ hp₂ es with ⟨p, hp, hne, htyped⟩ | ⟨m, a, rfl, hnone, hempty, hd, hw⟩
        · exact Or.inl ⟨p, hp, List.forall_mem_cons.mpr ⟨hne, hstays⟩, hwritten.trans htyped⟩
        · refine Or.inr ⟨[], m, a, es, c, rfl, rfl, hnone, hstays, ?_⟩
          rw [hwritten, hempty, hd, hw]
          rfl
      · refine Or.inr ⟨e :: pre, m, a, post, c₁, rfl, ?_, hlater⟩
        rw [run_cons, hc₂, ok_bind, hpre]

end

end Console

/-- In every run of the loop, an attached shell was started by one of the display events and has
not exited since, and it has been sent what was typed while awake since then, all of it and
in order. -/
theorem shell_input (font : Font) (connectorId : UInt32) (kernel : Kernel)
    (dir : Option (List (Option Node))) (drmTime kbTime idleTime : Int)
    (es : List (Phase × Input)) (s : State)
    (h : run (step font) (State.start connectorId kernel dir drmTime kbTime idleTime) es = .ok s)
    (p : Pty) (hp : s.pty = some p) :
    ∃ pre m a post c,
      history font (State.start connectorId kernel dir drmTime kbTime idleTime) es =
        pre ++ .display m a :: post ∧
      run (Console.step font) Console.initial pre = .ok c ∧ c.shell = none ∧
      (∀ e ∈ post, e ≠ .exited) ∧ p.written = Console.typedBytes c.decoder c.awake post := by
  have hrun := run_console h
  rcases Console.run_shell hrun hp with ⟨p₀, hp₀, -⟩ | hstarted
  · cases hp₀
  · exact hstarted

theorem shell_input_typing :
    ∃ s p, run (step dotFont) keyboardStart (schedule [typing]) = .ok s ∧ s.pty = some p ∧
      p.written = [0x61] ∧ ∃ pre m a post c,
        history dotFont keyboardStart (schedule [typing]) = pre ++ .display m a :: post ∧
        run (Console.step dotFont) Console.initial pre = .ok c ∧ c.shell = none ∧
        (∀ e ∈ post, e ≠ .exited) ∧ p.written = Console.typedBytes c.decoder c.awake post := by
  obtain ⟨s, hs, hpty⟩ := run_typing
  exact ⟨s, _, hs, hpty, rfl, shell_input dotFont 1 _ _ 0 0 0 _ s hs _ hpty⟩

/-! ## What the user cannot change

Nothing is echoed by the loop itself. What the terminal holds, up to the redraw mark, depends on
the displays found and on the shell alone. -/

namespace Console

/-- The events that the user makes, or does not make. -/
def Event.byUser : Event → Bool
  | .key _ | .idle => true
  | _ => false

/-- The console without what the user has done to it. -/
def mute (c : Console) : Console :=
  { c with
    shell := c.shell.map fun p => { p with written := [] }
    decoder := .new
    awake := true }

/-- Whether a shell is started or resized does not depend on what it was sent. -/
theorem sizedPty_mute (pty : Option Pty) (cols rows : Nat) (a : SpawnAnswers) :
    (State.sizedPty (pty.map fun p => { p with written := [] }) cols rows a).map
        (fun p => { p with written := [] }) =
      (State.sizedPty pty cols rows a).map fun p => { p with written := [] } := by
  cases pty <;> rfl

section

variable {font : Font} {c d : Console} {e : Event}

/-- What the display and the shell do is done alike, whatever the user has done before. -/
theorem step_mute (he : e.byUser = false) :
    mute <$> step font (mute c) e = mute <$> step font c e := by
  cases e with
  | display m a =>
      show mute <$> (if c.mode = some m then _ else _) = mute <$> (if c.mode = some m then _ else _)
      split
      · cases hshell : c.shell <;> simp [mute, hshell]
      · unfold follow
        show mute <$> (State.sizedTerm c.term _ _ >>= _) =
          mute <$> (State.sizedTerm c.term _ _ >>= _)
        cases State.sizedTerm c.term (max (m.width.toNat / font.width) 1)
            (max (m.height.toNat / font.height) 1) with
        | error f => rfl
        | ok t =>
            have hpty := sizedPty_mute c.shell (max (m.width.toNat / font.width) 1)
              (max (m.height.toNat / font.height) 1) a
            simp only [ok_bind, pure, Except.pure, map_ok, mute, hpty]
  | gone => cases hshell : c.shell <;> simp [step, mute, hshell]
  | exited => rfl
  | output bytes =>
      unfold step print
      cases hshell : c.shell with
      | none => simp [mute, hshell]
      | some p =>
          cases hterm : c.term with
          | none => simp [mute, hshell, hterm]
          | some t =>
              simp only [mute, hshell, hterm, Option.map_some]
              cases t.feed bytes <;> rfl
  | key ev => cases he
  | idle => cases he

/-- What the user does goes through, and cannot be seen without looking at the user. -/
theorem step_byUser (font : Font) (c : Console) (he : e.byUser = true) :
    ∃ c', step font c e = .ok c' ∧ mute c' = mute c := by
  cases e with
  | key ev =>
      refine ⟨_, rfl, ?_⟩
      unfold press
      split_ifs
      · rfl
      · cases hshell : c.shell <;> simp [mute, hshell, Pty.write]
      · rfl
  | idle => exact ⟨_, rfl, rfl⟩
  | _ => cases he

/-- Consoles that agree but for the user stay so, with the user's events or without. -/
theorem run_mute (font : Font) (hcd : mute c = mute d) (es : List Event) :
    mute <$> run (step font) c es =
      mute <$> run (step font) d (es.filter fun e => !e.byUser) := by
  induction es generalizing c d with
  | nil => exact congrArg Except.ok hcd
  | cons e es ih =>
      cases he : e.byUser with
      | true =>
          obtain ⟨c', hc', hmute⟩ := step_byUser font c he
          rw [List.filter_cons_of_neg (by simp [he]), run_cons, hc', ok_bind]
          exact ih (hmute.trans hcd)
      | false =>
          -- not by the user: both consoles take the step, and fail alike or go on alike
          have hstep : mute <$> step font c e = mute <$> step font d e := by
            rw [← step_mute he, hcd, step_mute he]
          rw [List.filter_cons_of_pos (by simp [he]), run_cons, run_cons]
          cases hc : step font c e with
          | error f =>
              cases hd : step font d e with
              | error f' =>
                  rw [hc, hd] at hstep
                  cases hstep
                  rfl
              | ok d' =>
                  rw [hc, hd] at hstep
                  cases hstep
          | ok c' =>
              cases hd : step font d e with
              | error f' =>
                  rw [hc, hd] at hstep
                  cases hstep
              | ok d' =>
                  rw [hc, hd] at hstep
                  exact ih (Except.ok.inj hstep)

end

end Console

/-- Two runs that differ in what the user does, and in what it does not touch: the terminals hold
the same, and the mode is the same. -/
theorem terminal_ignores_keys (font : Font) (start start' : State) (es es' : List (Phase × Input))
    (s s' : State) (hstart : start.console.mute = start'.console.mute)
    (h : run (step font) start es = .ok s) (h' : run (step font) start' es' = .ok s')
    (hhistory : (history font start es).filter (fun e => !e.byUser) =
      (history font start' es').filter fun e => !e.byUser) :
    s.term.map Terminal.clean = s'.term.map Terminal.clean ∧ s.mode = s'.mode := by
  have hrun := run_console h
  have hrun' := run_console h'
  have hmute := Console.run_mute font hstart (history font start es)
  have hmute' := Console.run_mute font (Eq.refl (Console.mute start'.console))
    (history font start' es')
  rw [hhistory, ← hmute'] at hmute
  have heq : s.console.mute = s'.console.mute := by
    rw [hrun, hrun'] at hmute
    exact Except.ok.inj hmute
  exact ⟨congrArg Console.term heq, congrArg Console.mode heq⟩

/-- A state with a shell. -/
def shellStart : State :=
  { keyboardStart with pty := some { program := "/bin/sh", winsize := (1, 1), written := [] } }

/-- With the key and without it the shell is sent something else. -/
theorem terminal_ignores_keys_typing :
    ∃ s, run (step dotFont) shellStart [(.keys, typing)] = .ok s ∧ s.pty ≠ shellStart.pty ∧
      s.term.map Terminal.clean = shellStart.term.map Terminal.clean ∧
      s.mode = shellStart.mode :=
  ⟨_, rfl, by decide, terminal_ignores_keys dotFont shellStart shellStart [(.keys, typing)] [] _ _
    rfl rfl rfl rfl⟩

end K1de
