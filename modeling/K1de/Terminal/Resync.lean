import K1de.Terminal.Complete

/-! # Out of any escape sequence

Output that is not meant for a terminal, or that is cut off, can leave the parser anywhere: in a
control sequence, or in a string that swallows all that follows. The parser's state is a finite
automaton (`escapeAutomaton`), whatever is on the screen, so the question which bytes bring it back
to the ground state from everywhere has an answer. Two bytes are not enough: the terminator `ESC \`,
which ends a string, is missed where an `ESC` came last. Three are, and they are a terminator with
a byte in front that is not an `ESC` (`resync_iff`).

So no output wedges the terminal (`recovers_screen`): from every state, the parser's included, there
is output that leads to any screen of the terminal's size.
-/

namespace K1de

open Fallible

/-! ## The parser as an automaton -/

/-- The parser's next state, whatever has been collected. -/
def EscState.next (e : EscState) (b : UInt8) : EscState :=
  (Scanner.scan ⟨e, ⟨[], Option.none⟩⟩ b).1.esc

/-- Where the parser goes does not depend on the parameters. -/
theorem scan_esc (s : Scanner) (b : UInt8) : (s.scan b).1.esc = s.esc.next b := by
  obtain ⟨e, collected⟩ := s
  unfold EscState.next Scanner.scan
  cases e with
  | none =>
      dsimp only
      split <;> rfl
  | esc =>
      show (Scanner.afterEsc _ b).esc = (Scanner.afterEsc _ b).esc
      unfold Scanner.afterEsc
      split_ifs <;> rfl
  | csi =>
      dsimp only
      split <;> rfl
  | osc | oscEsc | dcs | dcsEsc | charset => rfl

def escapeAutomaton : DFA UInt8 EscState where
  step := EscState.next
  start := .none
  accept := {.none}

/-- The parser of a terminal goes its way whatever the screen does. -/
theorem Terminal.feed_automaton {t : Terminal} (h : Terminal.Inv t) (bytes : List UInt8) :
    ∃ t', t.feed bytes = .ok t' ∧ t'.esc = escapeAutomaton.evalFrom t.esc bytes := by
  induction bytes generalizing t with
  | nil => exact ⟨t, rfl, rfl⟩
  | cons b bytes ih =>
      -- the scanner of the view is the parser, and it does not see the canvas
      obtain ⟨t₁, ht₁, hview⟩ := Terminal.processByte_view h b
      have hkeeps := Terminal.processByte_keeps h b
      rw [ht₁] at hkeeps
      have hesc : t₁.esc = t.esc.next b := by
        have hscanner : t₁.scanner = (t.scanner.scan b).1 := congrArg View.scanner hview
        exact (congrArg Scanner.esc hscanner).trans (scan_esc t.scanner b)
      obtain ⟨t', ht', hesc'⟩ := ih hkeeps.inv
      refine ⟨t', ?_, ?_⟩
      · show run Terminal.processByte t (b :: bytes) = _
        rw [run_cons, ht₁, ok_bind]
        exact ht'
      · rw [hesc', hesc]
        rfl

/-! ## Words that resynchronise -/

/-- The bytes lead to the ground state from everywhere. -/
def Resyncs (bytes : List UInt8) : Prop := ∀ e : EscState, escapeAutomaton.evalFrom e bytes = .none

/-- Inside a string only `ESC` is remembered. -/
theorem next_escaped {e : EscState} {b : UInt8} (h : e.next b = .oscEsc ∨ e.next b = .dcsEsc) :
    b = 0x1b := by
  revert h
  unfold EscState.next Scanner.scan
  cases e with
  | none | csi =>
      dsimp only
      split <;> simp_all
  | esc =>
      show (Scanner.afterEsc _ b).esc = _ ∨ (Scanner.afterEsc _ b).esc = _ → _
      unfold Scanner.afterEsc
      split_ifs <;> simp
  | osc | oscEsc | dcs | dcsEsc =>
      dsimp only [Scanner.swallow]
      split_ifs <;> simp_all
  | charset => rintro (h | h) <;> cases h

/-- A terminator ends what it finds, unless an `ESC` came last in a string. -/
theorem terminator_resyncs {e : EscState} (hosc : e ≠ .oscEsc) (hdcs : e ≠ .dcsEsc) :
    escapeAutomaton.evalFrom e [0x1b, 0x5c] = .none := by
  cases e with
  | oscEsc => exact absurd rfl hosc
  | dcsEsc => exact absurd rfl hdcs
  | none | esc | csi | osc | dcs | charset => decide

/-- Any byte but `ESC`, and then the terminator: the byte takes a remembered `ESC` away. -/
theorem resyncs_of_terminator {b : UInt8} (hb : b ≠ 0x1b) : Resyncs [b, 0x1b, 0x5c] := by
  intro e
  show escapeAutomaton.evalFrom (e.next b) [0x1b, 0x5c] = .none
  apply terminator_resyncs
  · exact fun h => hb (next_escaped (.inl h))
  · exact fun h => hb (next_escaped (.inr h))

/-- No byte alone ends a device control string, -/
theorem next_dcs_ne (b : UInt8) : EscState.dcs.next b ≠ .none := by
  show (if b = 0x1b then EscState.dcsEsc else .dcs) ≠ .none
  split <;> exact nofun

/-- and of two bytes only the terminator does. -/
theorem terminator_of_dcs {b c : UInt8} (h : (EscState.dcs.next b).next c = .none) :
    b = 0x1b ∧ c = 0x5c := by
  by_cases hb : b = 0x1b
  · subst hb
    have hc : (if c = 0x5c then EscState.none else .dcs) = .none := h
    by_contra hne
    rw [if_neg fun hc => hne ⟨rfl, hc⟩] at hc
    cases hc
  · have hdcs : EscState.dcs.next b = .dcs := if_neg hb
    rw [hdcs] at h
    exact absurd h (next_dcs_ne c)

/-- An `ESC` that is already there spoils a terminator that follows at once. -/
theorem terminator_of_resyncs {bytes : List UInt8} (hlen : bytes.length ≤ 3)
    (hdcs : escapeAutomaton.evalFrom .dcs bytes = .none)
    (hdcsEsc : escapeAutomaton.evalFrom .dcsEsc bytes = .none) :
    ∃ b, b ≠ 0x1b ∧ bytes = [b, 0x1b, 0x5c] := by
  match bytes, hlen with
  | [], _ => cases hdcs
  | [a], _ => exact absurd hdcs (next_dcs_ne a)
  | [a, b], _ =>
      obtain ⟨rfl, rfl⟩ := terminator_of_dcs hdcs
      cases hdcsEsc
  | [a, b, c], _ =>
      by_cases ha : a = 0x1b
      · subst ha
        obtain ⟨rfl, rfl⟩ := terminator_of_dcs hdcsEsc
        cases hdcs
      · have hfirst : EscState.dcs.next a = .dcs := if_neg ha
        have hrest : ((EscState.dcs.next a).next b).next c = .none := hdcs
        rw [hfirst] at hrest
        obtain ⟨rfl, rfl⟩ := terminator_of_dcs hrest
        exact ⟨a, ha, rfl⟩

/-- Among the byte strings of up to three bytes, those that bring every terminal back to the ground
state are the terminators with a byte in front that is not an `ESC`. -/
theorem resync_iff (bytes : List UInt8) (hlen : bytes.length ≤ 3) :
    (∀ t : Terminal, Terminal.Inv t → ∃ t', t.feed bytes = .ok t' ∧ t'.esc = .none) ↔
      ∃ b, b ≠ 0x1b ∧ bytes = [b, 0x1b, 0x5c] := by
  constructor
  · intro h
    have hstate : ∀ e : EscState, escapeAutomaton.evalFrom e bytes = .none := by
      intro e
      have hinv : Terminal.Inv { Terminal.threeByOne with esc := e } :=
        Terminal.inv_threeByOne.of_screen rfl
      obtain ⟨t', ht', hesc⟩ := Terminal.feed_automaton hinv bytes
      obtain ⟨t'', ht'', hnone⟩ := h _ hinv
      cases ht'.symm.trans ht''
      exact hesc.symm.trans hnone
    exact terminator_of_resyncs hlen (hstate .dcs) (hstate .dcsEsc)
  · rintro ⟨b, hb, rfl⟩ t ht
    obtain ⟨t', ht', hesc⟩ := Terminal.feed_automaton ht [b, 0x1b, 0x5c]
    exact ⟨t', ht', hesc.trans (resyncs_of_terminator hb t.esc)⟩

theorem resync_iff_cancel :
    (∀ t : Terminal, Terminal.Inv t → ∃ t', t.feed [0x18, 0x1b, 0x5c] = .ok t' ∧ t'.esc = .none) ↔
      ∃ b : UInt8, b ≠ 0x1b ∧ [0x18, 0x1b, 0x5c] = [b, 0x1b, 0x5c] :=
  resync_iff [0x18, 0x1b, 0x5c] (le_refl 3)

/-! ## No output wedges the terminal -/

/-- Whatever a terminal has been fed, and wherever that has left its parser, there is output after
which it shows any given screen of its size. -/
theorem recovers_screen (t target : Terminal) (ht : Terminal.Inv t) (htarget : Terminal.Inv target)
    (hcols : t.cols = target.cols) (hrows : t.rows = target.rows) :
    ∃ bytes t', t.feed bytes = .ok t' ∧ t'.esc = .none ∧ t'.screen = target.screen := by
  -- a cancel in front of the terminator prints nothing
  obtain ⟨t₁, ht₁, hesc₁⟩ := Terminal.feed_automaton ht [0x18, 0x1b, 0x5c]
  have hkeeps := Terminal.feed_keeps ht [0x18, 0x1b, 0x5c]
  rw [ht₁] at hkeeps
  have hground : t₁.esc = .none := hesc₁.trans (resyncs_of_terminator (by decide) t.esc)
  obtain ⟨bytes, p, htypes, hsame⟩ := Terminal.exists_types_screen t₁.canvas htarget
    (hkeeps.cols_eq.trans hcols) (hkeeps.rows_eq.trans hrows)
  obtain ⟨t', hfeed, ht', hesc', rfl⟩ := htypes t₁ hkeeps.inv hground rfl
  refine ⟨[0x18, 0x1b, 0x5c] ++ bytes, t', ?_, hesc', hsame.screen_eq htarget ht'⟩
  rw [Terminal.feed_append, ht₁, ok_bind, hfeed]

end K1de
