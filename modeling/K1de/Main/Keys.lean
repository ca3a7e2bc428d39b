import K1de.Main.Spec

/-! # Keys that wake and keys that are typed

A key press should wake the display and reset the idle timer, and while the display is awake
what the decoder makes of it should go to the shell (`Handled`).

The loop skips an event for which the decoder has no bytes. So a press of a modifier, of
Escape or of a function key does neither (`keys_handled_iff`): `Types` are the keys for which
there are bytes, whatever the modifiers.
-/

namespace K1de

open Fallible

/-! ## Keys with bytes -/

/-- The key stands for an escape sequence or for a character. -/
def Types (code : UInt16) : Prop :=
  (sequenceTable.lookup code).isSome ∨ (baseChar code).isSome

instance (code : UInt16) : Decidable (Types code) :=
  inferInstanceAs (Decidable (_ ∨ _))

/-- A key that goes down, or repeats. -/
def InputEvent.IsPress (ev : InputEvent) : Prop := ev.evType = evKey ∧ ev.value ≠ 0

/-- No escape sequence of the table is empty. -/
theorem sequence_ne_nil {code : UInt16} {seq : List UInt8}
    (h : sequenceTable.lookup code = some seq) : seq ≠ [] := by
  have hall : ∀ p ∈ sequenceTable, p.2 ≠ [] := by decide
  obtain ⟨l₁, l₂, heq, -⟩ := List.lookup_eq_some_iff.mp h
  exact hall (code, seq) (by rw [heq]; simp)

/-- A key without sequence and character has no bytes, every other key has some. -/
theorem keyBytes_eq_nil_iff (d : Decoder) (code : UInt16) :
    d.keyBytes code = [] ↔ ¬ Types code := by
  unfold Decoder.keyBytes Types
  cases hseq : sequenceTable.lookup code with
  | some seq => simp [sequence_ne_nil hseq]
  | none =>
      cases baseChar code with
      | none => simp
      | some chars =>
          dsimp only
          generalize (if d.shift then chars.2 else chars.1) = ch
          split <;> simp

/-- Whether a press has bytes does not depend on the modifiers. -/
theorem decode_eq_nil_iff {ev : InputEvent} (hpress : ev.IsPress) (d : Decoder) :
    (d.decode ev).2 = [] ↔ ¬ Types ev.code := by
  obtain ⟨htype, hvalue⟩ := hpress
  unfold Decoder.decode
  rw [if_neg (not_not.mpr htype)]
  dsimp only
  split
  · rename_i hshift
    -- a modifier only changes the decoder, and is in neither table
    rcases hshift with hcode | hcode <;> rw [hcode] <;> exact iff_of_true rfl (by decide)
  · split
    · rename_i hctrl
      rcases hctrl with hcode | hcode <;> rw [hcode] <;> exact iff_of_true rfl (by decide)
    · rw [if_neg (by simp [hvalue])]
      exact keyBytes_eq_nil_iff d ev.code

/-! ## One event -/

/-- What should become of a press that is read from keyboard `k` in state `s`. -/
def Handled (s : State) (i : Input) (k : Nat) (ev : InputEvent) : Prop :=
  let s' := State.readKeyboard i s k
  s'.screensaving = false ∧ s'.idleSince = i.keyTime k ∧
    s'.pty = if s.screensaving then s.pty else s.pty.map (Pty.write · (s.decoder.decode ev).2)

theorem write_nil (pty : Option Pty) : pty.map (Pty.write · []) = pty := by
  cases pty <;> simp [Pty.write]

/-- An event without bytes changes nothing but the modifiers. -/
theorem handleEvent_nil {s : State} {ev : InputEvent} (hbytes : (s.decoder.decode ev).2 = [])
    (time : Int) :
    s.handleEvent (some ev) time = { s with decoder := (s.decoder.decode ev).1 } := by
  unfold State.handleEvent
  dsimp only [Decoder.readEvent]
  rw [hbytes]

/-- An event with bytes is typed. -/
theorem handleEvent_bytes {s : State} {ev : InputEvent} (hbytes : (s.decoder.decode ev).2 ≠ [])
    (time : Int) :
    s.handleEvent (some ev) time =
      State.typeBytes { s with decoder := (s.decoder.decode ev).1 } time
        (s.decoder.decode ev).2 := by
  unfold State.handleEvent
  dsimp only [Decoder.readEvent]
  cases hdecode : (s.decoder.decode ev).2 with
  | nil => exact absurd hdecode hbytes
  | cons b bs => rfl

section

variable {s : State} {i : Input} {k : Nat} {ev : InputEvent}
  (hread : i.keyRead k = some (some ev))

include hread

theorem readKeyboard_nil (hbytes : (s.decoder.decode ev).2 = []) :
    State.readKeyboard i s k = { s with decoder := (s.decoder.decode ev).1 } := by
  rw [State.readKeyboard, hread]
  exact handleEvent_nil hbytes (i.keyTime k)

theorem readKeyboard_bytes (hbytes : (s.decoder.decode ev).2 ≠ []) :
    State.readKeyboard i s k =
      State.typeBytes { s with decoder := (s.decoder.decode ev).1 } (i.keyTime k)
        (s.decoder.decode ev).2 := by
  rw [State.readKeyboard, hread]
  exact handleEvent_bytes hbytes (i.keyTime k)

/-- Nothing but the bytes of the event goes to the shell, and that only if the display is
awake. -/
theorem readKeyboard_pty :
    (State.readKeyboard i s k).pty =
      if s.screensaving then s.pty else s.pty.map (Pty.write · (s.decoder.decode ev).2) := by
  by_cases hbytes : (s.decoder.decode ev).2 = []
  · rw [readKeyboard_nil hread hbytes, hbytes, write_nil, ite_self]
  · rw [readKeyboard_bytes hread hbytes, State.typeBytes]
    cases s.screensaving <;> rfl

/-- A press is handled if its key has bytes. Otherwise it is only where there was nothing
to do: the display is awake, and the timer stands at this very moment. -/
theorem handled_iff (hpress : ev.IsPress) :
    Handled s i k ev ↔
      Types ev.code ∨ s.screensaving = false ∧ s.idleSince = i.keyTime k := by
  have hnil := decode_eq_nil_iff hpress s.decoder
  unfold Handled
  dsimp only
  rw [readKeyboard_pty hread]
  by_cases hbytes : (s.decoder.decode ev).2 = []
  · -- without bytes the loop goes on to the next keyboard, and the timer is not reset
    rw [readKeyboard_nil hread hbytes]
    simp [hnil.mp hbytes]
  · have htypes : Types ev.code := not_not.mp fun h => hbytes (hnil.mpr h)
    rw [readKeyboard_bytes hread hbytes, State.typeBytes]
    cases s.screensaving <;> simp [htypes]

end

/-! ## One iteration -/

/-- What the decoder makes of what keyboard `k` has to say in state `s`. -/
def decoded (i : Input) (s : State) (k : Nat) : List UInt8 :=
  match i.keyRead k with
  | some (some ev) => (s.decoder.decode ev).2
  | _ => []

/-- The bytes of the events that are read while the display is awake, in the order in which
they are read. -/
def typed (i : Input) : State → List Nat → List UInt8
  | _, [] => []
  | s, k :: ks =>
      (if s.screensaving then [] else decoded i s k) ++ typed i (State.readKeyboard i s k) ks

/-- The shell is sent these bytes and no others. -/
def InOrder (s : State) (i : Input) : Prop :=
  (s.keysPhase i).pty =
    s.pty.map (Pty.write · (if i.ready then typed i s (List.range s.keyboards.length) else []))

/-- A read sends the shell what was decoded, or nothing to a display that sleeps. -/
theorem readKeyboard_pty_eq (i : Input) (s : State) (k : Nat) :
    (State.readKeyboard i s k).pty =
      s.pty.map (Pty.write · (if s.screensaving then [] else decoded i s k)) := by
  unfold decoded
  cases hread : i.keyRead k with
  | none =>
      rw [ite_self, write_nil, State.readKeyboard, hread]
  | some read =>
      cases read with
      | none =>
          rw [ite_self, write_nil, State.readKeyboard, hread]
          rfl
      | some ev =>
          rw [readKeyboard_pty hread]
          cases s.screensaving with
          | true => exact (write_nil s.pty).symm
          | false => rfl

/-- The shell is sent what is typed in the iteration, slot by slot. -/
theorem keysPhase_inOrder (s : State) (i : Input) : InOrder s i := by
  unfold InOrder State.keysPhase
  cases i.ready with
  | false => exact (write_nil s.pty).symm
  | true =>
      rw [if_pos rfl, if_pos rfl]
      generalize List.range s.keyboards.length = slots
      -- one keyboard after the other
      induction slots generalizing s with
      | nil => exact (write_nil s.pty).symm
      | cons k slots ih =>
          rw [List.foldl_cons, ih, readKeyboard_pty_eq, Option.map_map]
          congr 1
          funext p
          -- two writes in a row are one write of both
          simp [Pty.write, typed]

/-! ## Runs -/

/-- In iteration `i` of the run the event `ev` is read from keyboard `k`, in state `s`: the
keyboards before it have been read. -/
def Reads (font : Font) (start : State) (inputs : List Input) (s : State) (i : Input) (k : Nat)
    (ev : InputEvent) : Prop :=
  i.ready = true ∧ i.keyRead k = some (some ev) ∧
    ∃ s₀, (s₀, Phase.keys, i) ∈ visits (step font) start (schedule inputs) ∧
      k < s₀.keyboards.length ∧ s = (List.range k).foldl (State.readKeyboard i) s₀

/-- In every run of the loop: every key press wakes the display or is typed, in the order in
which they are read, and resets the idle timer, if and only if every key that is pressed has
bytes, or is pressed while the display is awake and the timer stands at that moment. -/
theorem keys_handled_iff (font : Font) (connectorId : UInt32) (kernel : Kernel)
    (dir : Option (List (Option Node))) (drmTime kbTime idleTime : Int) (inputs : List Input) :
    ((∀ s i k ev, Reads font (State.start connectorId kernel dir drmTime kbTime idleTime) inputs
        s i k ev → ev.IsPress → Handled s i k ev) ∧
      ∀ p ∈ visits (step font) (State.start connectorId kernel dir drmTime kbTime idleTime)
        (schedule inputs), p.2.1 = .keys → InOrder p.1 p.2.2) ↔
      ∀ s i k ev, Reads font (State.start connectorId kernel dir drmTime kbTime idleTime) inputs
        s i k ev → ev.IsPress →
          Types ev.code ∨ s.screensaving = false ∧ s.idleSince = i.keyTime k := by
  constructor
  · rintro ⟨hhandled, -⟩ s i k ev hreads hpress
    exact (handled_iff hreads.2.1 hpress).mp (hhandled s i k ev hreads hpress)
  · intro hcond
    refine ⟨?_, fun p _ _ => keysPhase_inOrder p.1 p.2.2⟩
    intro s i k ev hreads hpress
    exact (handled_iff hreads.2.1 hpress).mpr (hcond s i k ev hreads hpress)

/-! ## A key that does not wake -/

/-- The state before the first iteration, with one keyboard. -/
def keyboardStart : State :=
  State.start 1 { ledger := Ledger.empty, log := [] }
    (some [some { name := "event0", path := "/dev/input/event0", file := some 1
                  keyBits := some (Vector.replicate 96 0xff) }]) 0 0 0

/-- Ten minutes have passed. -/
def sleepy : Input := quiet 600000000000 (display 1 dotBuffer) (.ok none)

/-- Escape is pressed. -/
def escapePress : InputEvent := ⟨evKey, 1, 1⟩

/-- The next iteration, a tenth of a second later. -/
def pressed : Input :=
  { quiet 600100000000 (display 1 dotBuffer) (.ok none) with
    ready := true, keyRead := fun _ => some (some escapePress) }

/-- The screensaver stays, and the timer too. -/
theorem escape_does_not_wake :
    ∃ s, Reads dotFont keyboardStart [sleepy, pressed] s pressed 0 escapePress ∧
      escapePress.IsPress ∧ s.screensaving = true ∧
      (State.readKeyboard pressed s 0).screensaving = true ∧
      (State.readKeyboard pressed s 0).idleSince = 0 := by
  have hrun : ∃ s, run (step dotFont) keyboardStart (schedule [sleepy] ++
      [(.refresh, pressed), (.rescan, pressed), (.reap, pressed), (.output, pressed)]) = .ok s ∧
      s.keyboards.length = 1 ∧ s.screensaving = true ∧
      (State.readKeyboard pressed s 0).screensaving = true ∧
      (State.readKeyboard pressed s 0).idleSince = 0 :=
    ⟨_, rfl, rfl, rfl, rfl, rfl⟩
  obtain ⟨s, hs, hlength, hstate⟩ := hrun
  refine ⟨s, ⟨rfl, rfl, s, ?_, by omega, rfl⟩, ⟨rfl, by decide⟩, hstate⟩
  exact mem_visits_iff.mpr ⟨_, [(.idle, pressed), (.draw, pressed)], rfl, hs⟩

end K1de
