import K1de.Input.Typing
import K1de.Main.Console
import K1de.Terminal.Tokens

/-! # The streams between loop and shell

Two byte streams connect the loop to its shell. Neither shows how the loop goes about them.

* What the shell prints is read in pieces of any size, between displays, keys and redraws.
  `output_chunks`: only the bytes count. Two runs whose events are the same when adjacent pieces of
  output are put together leave the console in the same state.
* What the shell is sent is made of whole strokes (`shell_sent_strokes`), however the keyboards are
  read and whatever wakes the display: no escape sequence of a key is ever cut in two or mixed with
  another key, and no other bytes are sent.
-/

namespace K1de

open Fallible
open scoped Computability

namespace Console

/-! ## Output in pieces -/

/-- Output in front of events, put together with what follows. -/
def joinOutput (bytes : List UInt8) (es : List Event) : List Event :=
  if bytes = [] then es
  else
    match es with
    | .output more :: es => .output (bytes ++ more) :: es
    | es => .output bytes :: es

/-- The events with adjacent pieces of output put together, and empty ones left out. -/
def joinOutputs : List Event → List Event
  | [] => []
  | .output bytes :: es => joinOutput bytes (joinOutputs es)
  | e :: es => e :: joinOutputs es

/-- The terminal carries no mark. -/
def Unmarked (c : Console) : Prop := ∀ t, c.term = some t → t.clean = t

/-- With a shell and a terminal the bytes are fed, and the mark is dropped. -/
theorem print_attached {c : Console} {p : Pty} {t : Terminal} (hshell : c.shell = some p)
    (hterm : c.term = some t) (bytes : List UInt8) :
    c.print bytes = (fun t => { c with term := some t }) <$> (Terminal.clean <$> t.feed bytes) := by
  unfold print
  rw [hshell, hterm]
  dsimp only
  cases t.feed bytes <;> rfl

/-- Without one of them the bytes are lost. -/
theorem print_detached {c : Console} (h : c.shell = none ∨ c.term = none) (bytes : List UInt8) :
    c.print bytes = .ok c := by
  unfold print
  rcases h with h | h <;> rw [h]
  cases c.shell <;> rfl

theorem print_nil {c : Console} (h : c.Unmarked) : c.print [] = .ok c := by
  cases hshell : c.shell with
  | none => exact print_detached (.inl hshell) []
  | some p =>
      cases hterm : c.term with
      | none => exact print_detached (.inr hterm) []
      | some t =>
          rw [print_attached hshell hterm]
          show Except.ok { c with term := some t.clean } = .ok c
          rw [h t hterm, ← hterm]

/-- Printing two pieces is printing both at once. -/
theorem print_append (c : Console) (bytes more : List UInt8) :
    c.print (bytes ++ more) = c.print bytes >>= fun c => c.print more := by
  cases hshell : c.shell with
  | none => rw [print_detached (.inl hshell), print_detached (.inl hshell), ok_bind,
      print_detached (.inl hshell)]
  | some p =>
      cases hterm : c.term with
      | none => rw [print_detached (.inr hterm), print_detached (.inr hterm), ok_bind,
          print_detached (.inr hterm)]
      | some t =>
          rw [print_attached hshell hterm, print_attached hshell hterm, Terminal.feed_append]
          cases t.feed bytes with
          | error f => rfl
          | ok t₁ =>
              -- the second piece is fed to the terminal without its mark
              have hmore := print_attached (c := { c with term := some t₁.clean }) hshell rfl more
              rw [ok_bind, map_ok, map_ok, ok_bind, hmore, Terminal.feed_clean]

/-- The console never sets a mark. -/
theorem Unmarked.step {font : Font} {c c' : Console} {e : Event} (h : c.Unmarked)
    (hstep : Console.step font c e = .ok c') : c'.Unmarked := by
  cases e with
  | display m a =>
      rw [Console.step] at hstep
      split at hstep
      · cases hstep
        exact h
      · obtain ⟨t, -, hc'⟩ := of_bind_ok hstep
        cases hc'
        rintro t' ⟨⟩
        rfl
  | output bytes =>
      rw [Console.step, print] at hstep
      split at hstep
      · obtain ⟨t, -, hc'⟩ := of_bind_ok hstep
        cases hc'
        rintro t' ⟨⟩
        rfl
      · cases hstep
        exact h
  | key ev =>
      cases hstep
      unfold press
      split_ifs <;> exact h
  | gone | exited | idle =>
      cases hstep
      exact h

/-- A piece of output can be joined to the next one. -/
theorem run_joinOutput (font : Font) {c : Console} (h : c.Unmarked) (bytes : List UInt8)
    (es : List Event) :
    run (Console.step font) c (joinOutput bytes es) =
      run (Console.step font) c (.output bytes :: es) := by
  unfold joinOutput
  split
  · next hnil =>
      rw [run_cons, hnil]
      show _ = c.print [] >>= _
      rw [print_nil h, ok_bind]
  · split
    · next more es =>
        rw [run_cons, run_cons]
        show (c.print (bytes ++ more) >>= _) = (c.print bytes >>= _)
        rw [print_append]
        cases c.print bytes <;> rfl
    · rfl

/-- Joining all adjacent pieces of output changes no run. -/
theorem run_joinOutputs (font : Font) {c : Console} (h : c.Unmarked) (es : List Event) :
    run (Console.step font) c (joinOutputs es) = run (Console.step font) c es := by
  induction es generalizing c with
  | nil => rfl
  | cons e es ih =>
      -- the rest of the events can be joined after this one, whatever it is
      have hrest : run (Console.step font) c (e :: joinOutputs es) =
          run (Console.step font) c (e :: es) := by
        rw [run_cons, run_cons]
        cases hstep : Console.step font c e with
        | error f => rfl
        | ok c' => exact ih (h.step hstep)
      cases e with
      | output bytes => exact (run_joinOutput font h bytes _).trans hrest
      | _ => exact hrest

end Console

theorem State.console_unmarked (s : State) : s.console.Unmarked := by
  intro t ht
  obtain ⟨t₀, -, rfl⟩ := Option.map_eq_some_iff.mp ht
  rfl

/-- Runs that differ in how the output of the shell is cut into pieces, and in everything that is
not an event of the console, leave the same mode, terminal, shell and modifiers. -/
theorem output_chunks (font : Font) (start start' : State) (es es' : List (Phase × Input))
    (s s' : State) (hstart : start.console = start'.console)
    (h : run (step font) start es = .ok s) (h' : run (step font) start' es' = .ok s')
    (hjoin : Console.joinOutputs (history font start es) =
      Console.joinOutputs (history font start' es')) :
    s.console = s'.console := by
  have hrun := run_console h
  have hrun' := run_console h'
  -- both histories are joined, and then they are the same list
  rw [← Console.run_joinOutputs font start.console_unmarked] at hrun
  rw [← Console.run_joinOutputs font start'.console_unmarked, ← hstart] at hrun'
  have hsame : Except.ok s.console = Except.ok s'.console :=
    hrun.symm.trans ((congrArg (run (Console.step font) start.console) hjoin).trans hrun')
  exact Except.ok.inj hsame

/-- An iteration in which the shell has this to say. -/
def printing (bytes : List UInt8) : Input :=
  { quiet 0 (display 1 dotBuffer) (.ok none) with ready := true, ptyRead := some (.ok bytes) }

theorem run_printing :
    ∃ s s', run (step dotFont) dotStart (schedule [printing [0x61, 0x62]]) = .ok s ∧
      run (step dotFont) dotStart (schedule [printing [0x61], printing [0x62]]) = .ok s' := by
  have hrun : (do
      let s ← run (step dotFont) dotStart (schedule [printing [0x61, 0x62]])
      let s' ← run (step dotFont) dotStart (schedule [printing [0x61], printing [0x62]])
      return (s.pty.isSome, s'.pty.isSome)) = .ok (true, true) := by
    decide +kernel
  obtain ⟨s, hs, hrest⟩ := of_bind_ok hrun
  obtain ⟨s', hs', -⟩ := of_bind_ok hrest
  exact ⟨s, s', hs, hs'⟩

set_option maxRecDepth 4000 in
/-- Two bytes, at once and one by one. -/
theorem output_chunks_twoBytes :
    ∃ s s', run (step dotFont) dotStart (schedule [printing [0x61, 0x62]]) = .ok s ∧
      run (step dotFont) dotStart (schedule [printing [0x61], printing [0x62]]) = .ok s' ∧
      s.console = s'.console := by
  obtain ⟨s, s', hs, hs'⟩ := run_printing
  refine ⟨s, s', hs, hs', ?_⟩
  exact output_chunks dotFont dotStart dotStart (schedule [printing [0x61, 0x62]])
    (schedule [printing [0x61], printing [0x62]]) s s' rfl hs hs' rfl

/-! ## Input in strokes -/

/-- What is typed is made of whole strokes: the decoder never cuts one. -/
theorem Console.typedBytes_mem (d : Decoder) (awake : Bool) (es : List Event) :
    typedBytes d awake es ∈ strokes∗ := by
  induction es generalizing d awake with
  | nil => exact Language.nil_mem_kstar _
  | cons e es ih =>
      cases e with
      | key ev =>
          rw [typedBytes]
          split
          · exact ih _ _
          · next hbytes =>
              split
              · exact append_mem_strokes ((decode_mem_strokes d ev).resolve_left hbytes) (ih _ _)
              · exact ih _ _
      | _ => exact ih _ _

/-- In every run of the loop, an attached shell has been sent strokes and nothing else. -/
theorem shell_sent_strokes (font : Font) (connectorId : UInt32) (kernel : Kernel)
    (dir : Option (List (Option Node))) (drmTime kbTime idleTime : Int)
    (es : List (Phase × Input)) (s : State)
    (h : run (step font) (State.start connectorId kernel dir drmTime kbTime idleTime) es = .ok s)
    (p : Pty) (hp : s.pty = some p) : p.written ∈ strokes∗ := by
  have hrun := run_console h
  rcases Console.run_shell hrun hp with ⟨p₀, hp₀, -⟩ | ⟨-, -, -, post, c, -, -, -, -, hwritten⟩
  · cases hp₀
  · rw [hwritten]
    exact Console.typedBytes_mem _ _ _

theorem shell_sent_strokes_typing :
    ∃ s p, run (step dotFont) keyboardStart (schedule [typing]) = .ok s ∧ s.pty = some p ∧
      p.written ∈ strokes∗ := by
  obtain ⟨s, hs, hpty⟩ := run_typing
  exact ⟨s, _, hs, hpty, shell_sent_strokes dotFont 1 _ _ 0 0 0 _ s hs _ hpty⟩

end K1de
