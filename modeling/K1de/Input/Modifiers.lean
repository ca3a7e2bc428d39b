import K1de.Input.Model

/-! # Modifier tracking

One `Decoder` follows the modifier keys of all keyboards. It keeps one flag for
shift and one for ctrl, which every event of such a key overwrites: a press or a
repeat sets it, a release clears it. With two keys of a kind held, the release
of one clears the flag while the other is still down.

`tracks_iff` says that this is the only way in which the flags and the keys can
differ.
-/

namespace K1de

/-! ## Keys and hands -/

inductive KeyAction where
  | press
  | repeated
  | release
deriving DecidableEq, Repr

def KeyAction.value : KeyAction → Int32
  | .press => 1
  | .repeated => 2
  | .release => 0

/-- A key event of one of several keyboards. -/
structure KeyEvent (κ : Type) where
  keyboard : κ
  code : UInt16
  action : KeyAction
deriving DecidableEq, Repr

variable {κ : Type}

/-- The physical key. -/
def KeyEvent.key (e : KeyEvent κ) : κ × UInt16 := (e.keyboard, e.code)

/-- The event that the kernel reports. -/
def KeyEvent.raw (e : KeyEvent κ) : InputEvent :=
  { evType := evKey, code := e.code, value := e.action.value }

section

variable [DecidableEq κ]

/-- The keys held after an event. -/
def holding (held : Finset (κ × UInt16)) (e : KeyEvent κ) : Finset (κ × UInt16) :=
  match e.action with
  | .press => insert e.key held
  | .repeated => held
  | .release => held.erase e.key

/-- The event of one key leaves the others. -/
theorem mem_holding_of_ne {held : Finset (κ × UInt16)} {e : KeyEvent κ} {key : κ × UInt16}
    (hne : key ≠ e.key) : key ∈ holding held e ↔ key ∈ held := by
  unfold holding
  cases e.action with
  | press => simp [hne]
  | repeated => rfl
  | release => simp [hne]

/-- A key goes down only when it is up, and repeats or goes up only when it is
down. -/
def Feasible (held : Finset (κ × UInt16)) (e : KeyEvent κ) : Prop :=
  match e.action with
  | .press => e.key ∉ held
  | .repeated | .release => e.key ∈ held

/-- Every event of the sequence is feasible when it happens. -/
def WellFormed : Finset (κ × UInt16) → List (KeyEvent κ) → Prop
  | _, [] => True
  | held, e :: es => Feasible held e ∧ WellFormed (holding held e) es

/-- The keys held after a sequence. -/
def heldAfter (held : Finset (κ × UInt16)) (es : List (KeyEvent κ)) : Finset (κ × UInt16) :=
  es.foldl holding held

end

/-- The decoder after a sequence. -/
def decodeAll (d : Decoder) (es : List (KeyEvent κ)) : Decoder :=
  es.foldl (fun d e => (d.decode e.raw).1) d

/-! ## The two modifiers -/

inductive Modifier where
  | shift
  | ctrl
deriving DecidableEq, Repr

namespace Modifier

/-- The key codes of a modifier. -/
def codes : Modifier → List UInt16
  | .shift => [42, 54]
  | .ctrl => [29, 97]

def flag (m : Modifier) (d : Decoder) : Bool :=
  match m with
  | .shift => d.shift
  | .ctrl => d.ctrl

/-- At least one key of the modifier is held. -/
def Held (m : Modifier) (held : Finset (κ × UInt16)) : Prop :=
  ∃ key ∈ held, key.2 ∈ m.codes

/-- An event of one of the modifier's keys. -/
def owns (m : Modifier) (e : KeyEvent κ) : Bool := e.code ∈ m.codes

/-- What an event does to the flag. -/
theorem flag_decode (m : Modifier) (d : Decoder) (e : KeyEvent κ) :
    m.flag (d.decode e.raw).1 =
      if m.owns e then decide (e.action ≠ .release) else m.flag d := by
  obtain ⟨keyboard, code, action⟩ := e
  have hvalue : (decide (action.value ≠ 0)) = decide (action ≠ .release) := by
    cases action <;> decide
  unfold Decoder.decode KeyEvent.raw
  dsimp only
  rw [if_neg (by simp), hvalue]
  by_cases hshift : code = 42 ∨ code = 54
  · rw [if_pos hshift]
    rcases hshift with rfl | rfl <;> cases m <;> simp [flag, owns, codes]
  · rw [if_neg hshift]
    by_cases hctrl : code = 29 ∨ code = 97
    · rw [if_pos hctrl]
      rcases hctrl with rfl | rfl <;> cases m <;> simp [flag, owns, codes]
    · -- any other key leaves both flags alone
      rw [if_neg hctrl]
      have hother : m.owns (κ := κ) ⟨keyboard, code, action⟩ = false := by
        cases m <;> simp_all [owns, codes]
      rw [hother]
      split <;> rfl

/-- After a sequence the flag shows whether the last event of the modifier's keys
was a release. -/
theorem flag_decodeAll (m : Modifier) (d : Decoder) (es : List (KeyEvent κ)) :
    m.flag (decodeAll d es) =
      match (es.filter m.owns).getLast? with
      | some e => decide (e.action ≠ .release)
      | none => m.flag d := by
  induction es generalizing d with
  | nil => rfl
  | cons e es ih =>
      have hstep : decodeAll d (e :: es) = decodeAll (d.decode e.raw).1 es := rfl
      rw [hstep, ih, flag_decode]
      by_cases hown : m.owns e = true
      · rw [if_pos hown, List.filter_cons_of_pos hown, List.getLast?_cons]
        cases (es.filter m.owns).getLast? <;> rfl
      · rw [if_neg hown, List.filter_cons_of_neg hown]

section

variable [DecidableEq κ]

instance (m : Modifier) (held : Finset (κ × UInt16)) : Decidable (m.Held held) :=
  inferInstanceAs (Decidable (∃ key ∈ held, key.2 ∈ m.codes))

/-- An event of another key changes nothing for the modifier. -/
theorem held_holding_of_not_owns {m : Modifier} {held : Finset (κ × UInt16)} {e : KeyEvent κ}
    (hown : m.owns e = false) : m.Held (holding held e) ↔ m.Held held := by
  have hcode : e.code ∉ m.codes := by simpa [owns] using hown
  have hkeep : ∀ key : κ × UInt16, key.2 ∈ m.codes → (key ∈ holding held e ↔ key ∈ held) := by
    intro key hkey
    apply mem_holding_of_ne
    rintro rfl
    exact hcode hkey
  constructor
  · rintro ⟨key, hmem, hkey⟩
    exact ⟨key, (hkeep key hkey).mp hmem, hkey⟩
  · rintro ⟨key, hmem, hkey⟩
    exact ⟨key, (hkeep key hkey).mpr hmem, hkey⟩

/-- A set flag is right: one step. -/
theorem held_of_flag_decode {m : Modifier} {d : Decoder} {held : Finset (κ × UInt16)}
    {e : KeyEvent κ} (he : Feasible held e) (h : m.flag d = true → m.Held held)
    (hflag : m.flag (d.decode e.raw).1 = true) : m.Held (holding held e) := by
  rw [flag_decode] at hflag
  by_cases hown : m.owns e = true
  · -- a press or a repeat of one of its keys, which is then held
    rw [if_pos hown] at hflag
    have hcode : e.key.2 ∈ m.codes := by simpa [owns, KeyEvent.key] using hown
    refine ⟨e.key, ?_, hcode⟩
    unfold holding
    unfold Feasible at he
    cases haction : e.action with
    | press => exact Finset.mem_insert_self _ _
    | repeated =>
        rw [haction] at he
        exact he
    | release =>
        rw [haction] at hflag
        cases hflag
  · rw [if_neg hown] at hflag
    exact (held_holding_of_not_owns (by simpa using hown)).mpr (h hflag)

/-- A set flag is right: a whole sequence. -/
theorem held_of_flag {m : Modifier} {d : Decoder} {held : Finset (κ × UInt16)}
    {es : List (KeyEvent κ)} (hes : WellFormed held es) (h : m.flag d = true → m.Held held)
    (hflag : m.flag (decodeAll d es) = true) : m.Held (heldAfter held es) := by
  induction es generalizing d held with
  | nil => exact h hflag
  | cons e es ih => exact ih hes.2 (held_of_flag_decode hes.1 h) hflag

/-- A key that is held was pressed. -/
theorem exists_owns_of_held {m : Modifier} {held : Finset (κ × UInt16)} {es : List (KeyEvent κ)}
    (hnone : es.filter m.owns = []) (h : m.Held (heldAfter held es)) : m.Held held := by
  induction es generalizing held with
  | nil => exact h
  | cons e es ih =>
      have hown : m.owns e = false := by
        by_contra hown
        rw [List.filter_cons_of_pos (by simpa using hown)] at hnone
        cases hnone
      rw [List.filter_cons_of_neg (by simp [hown])] at hnone
      exact (held_holding_of_not_owns hown).mp (ih hnone h)

/-- The last event of the modifier's keys is a release, and yet one of them is
held. -/
def Masked (m : Modifier) (es : List (KeyEvent κ)) : Prop :=
  (∃ e, (es.filter m.owns).getLast? = some e ∧ e.action = .release) ∧ m.Held (heldAfter ∅ es)

/-- The flag of one modifier is right exactly when it is not masked. -/
theorem flag_iff_held {es : List (KeyEvent κ)} (hes : WellFormed ∅ es) (m : Modifier) :
    (m.flag (decodeAll .new es) = true ↔ m.Held (heldAfter ∅ es)) ↔ ¬ m.Masked es := by
  have hnew : m.flag .new = false := by cases m <;> rfl
  have hright : m.flag (decodeAll .new es) = true → m.Held (heldAfter ∅ es) :=
    held_of_flag hes (by simp [hnew])
  have hflag := m.flag_decodeAll .new es
  unfold Masked
  cases hlast : (es.filter m.owns).getLast? with
  | none =>
      -- no event of its keys: nothing is held
      have hnone := List.getLast?_eq_none_iff.mp hlast
      have hfree : ¬ m.Held (heldAfter ∅ es) := by
        intro hheld
        obtain ⟨key, hkey, -⟩ := exists_owns_of_held hnone hheld
        cases hkey
      rw [hlast] at hflag
      simp [hfree, hflag, hnew]
  | some e =>
      rw [hlast] at hflag
      by_cases hrelease : e.action = .release
      · -- the flag is clear, which is wrong if another key is held
        simp [hflag, hrelease]
      · have hset : m.flag (decodeAll .new es) = true := by simp [hflag, hrelease]
        simp [hset, hright hset, hrelease]

end

end Modifier

/-! ## The decoder -/

variable [DecidableEq κ]

/-- The decoder that knows which keys are held. -/
def physical (held : Finset (κ × UInt16)) : Decoder :=
  { shift := decide (Modifier.shift.Held held), ctrl := decide (Modifier.ctrl.Held held) }

/-- After a sequence the decoder is the one that knows which keys are held, and so
decodes every later event as that one does. -/
def Tracks (es : List (KeyEvent κ)) : Prop :=
  decodeAll .new es = physical (heldAfter ∅ es) ∧
    ∀ ev, ((decodeAll .new es).decode ev).2 = ((physical (heldAfter ∅ es)).decode ev).2

/-- The decoder follows the modifier keys of all keyboards through a sequence
exactly when for neither modifier the last event was a release that left another
of its keys held. -/
theorem tracks_iff (es : List (KeyEvent κ)) (hes : WellFormed ∅ es) :
    Tracks es ↔ ¬ Modifier.shift.Masked es ∧ ¬ Modifier.ctrl.Masked es := by
  rw [← Modifier.flag_iff_held hes, ← Modifier.flag_iff_held hes]
  have hphysical : decodeAll .new es = physical (heldAfter ∅ es) ↔
      (Modifier.shift.flag (decodeAll .new es) = true ↔ Modifier.shift.Held (heldAfter ∅ es)) ∧
      (Modifier.ctrl.flag (decodeAll .new es) = true ↔ Modifier.ctrl.Held (heldAfter ∅ es)) := by
    generalize decodeAll .new es = d
    obtain ⟨shift, ctrl⟩ := d
    have hdecide : ∀ (b : Bool) (p : Prop) [Decidable p], b = decide p ↔ (b = true ↔ p) := by
      intro b p _
      rw [Bool.eq_iff_iff, decide_eq_true_iff]
    rw [physical, Decoder.mk.injEq, hdecide, hdecide]
    rfl
  rw [← hphysical]
  constructor
  · intro h
    exact h.1
  · intro h
    refine ⟨h, ?_⟩
    intro ev
    rw [h]

/-- Both shift keys of one keyboard go down, and the first comes up. -/
def rollover : List (KeyEvent Unit) :=
  [⟨(), 42, .press⟩, ⟨(), 54, .press⟩, ⟨(), 42, .release⟩]

theorem tracks_iff_rollover :
    WellFormed ∅ rollover ∧
      (Tracks rollover ↔ ¬ Modifier.shift.Masked rollover ∧ ¬ Modifier.ctrl.Masked rollover) := by
  have hwf : WellFormed ∅ rollover := by
    simp [WellFormed, rollover, Feasible, holding, KeyEvent.key]
  exact ⟨hwf, tracks_iff rollover hwf⟩

/-- The right shift key is still held, and the key `A` types a small letter. -/
theorem rollover_not_tracked :
    WellFormed ∅ rollover ∧ ((), 54) ∈ heldAfter ∅ rollover ∧
      (decodeAll .new rollover).shift = false ∧
      ((decodeAll .new rollover).decode ⟨evKey, 30, 1⟩).2 = [0x61] := by
  refine ⟨?_, ?_, rfl, rfl⟩
  · simp [WellFormed, rollover, Feasible, holding, KeyEvent.key]
  · simp [heldAfter, rollover, holding, KeyEvent.key]

end K1de
