import K1de.Drm.Protocol

/-! # Opening and dropping the driver

`Drm::open` and the `Drop` of `Drm`. The card outlives the driver: what is left behind when the
driver is gone is the card's (`Card`).

A driver that cannot find a connector is dropped inside `open`. After the driver is dropped the
kernel keeps nothing of what was recorded, and what remains is what has leaked before
(`drop_empty_iff`).
-/

namespace K1de

open Effect Protocol

/-- What the kernel keeps for the program, and whether the program is the card's master. -/
structure Card where
  kernel : Kernel
  master : Bool

/-- A card that nobody has used. -/
def Card.fresh : Card := { kernel := { ledger := Ledger.empty, log := [] }, master := false }

/-- The calls so far, from a fresh card, were lawful and have left these objects. -/
def Card.Lawful (c : Card) : Prop :=
  Trace K1de.Lawful Ledger.empty c.kernel.log c.kernel.ledger

theorem fresh_lawful : Card.fresh.Lawful := .nil _

/-- The calls of `Drm::open`. -/
structure OpenAnswers where
  file : Except IoError Unit
  setMaster : Except IoError Unit
  find : FindAnswers

namespace Drm

/-- `Drop`: the buffer on the screen is given back, and the card's master is given up. -/
def drop (d : Drm) (c : Card) : Card :=
  { kernel := (exec teardownScanout { drm := d, kernel := c.kernel }).2.kernel
    master := false }

/-- `Drm::open`. That `SET_MASTER` fails is not looked at. -/
def openCard (a : OpenAnswers) (c : Card) : Except IoError Drm × Card :=
  match a.file with
  | .error e => (.error e, c)
  | .ok () =>
      let c := { c with master := c.master || a.setMaster.isOk }
      let start : Drm := { connectorId := 0, crtcId := 0, scanout := none }
      match exec (findConnector a.find) { drm := start, kernel := c.kernel } with
      | (.ok connectorId, w) => (.ok { w.drm with connectorId }, { c with kernel := w.kernel })
      | (.error e, w) => (.error e, drop w.drm { c with kernel := w.kernel })

/-! ## Dropping -/

/-- What dropping a driver leaves of the objects. -/
theorem drop_ledger (w : World) (master : Bool) :
    (drop w.drm { kernel := w.kernel, master }).kernel.ledger = (tornDown w).kernel.ledger := by
  have hpost : Post teardownScanout w (fun _ w' => w'.kernel.ledger = (tornDown w).kernel.ledger)
      (fun _ w' => w'.kernel.ledger = (tornDown w).kernel.ledger) :=
    post_teardownScanout fun _ hw' => hw'.ledger_eq
  exact (post_iff_rel
    (R := fun _ (w' : World) => w'.kernel.ledger = (tornDown w).kernel.ledger)).mp hpost

/-- Dropping a driver gives back only what is live. -/
theorem drop_lawful {w : World} (hw : Owns w) (master : Bool)
    (h : Trace Lawful Ledger.empty w.kernel.log w.kernel.ledger) :
    (drop w.drm { kernel := w.kernel, master }).Lawful :=
  (teardownScanout_obeys w hw).1.trace h

/-- A list that is empty without one of its elements has no other. -/
theorem erase_eq_nil {α : Type} [BEq α] [LawfulBEq α] {xs : List α} {x : α} (hx : x ∈ xs)
    (h : xs.erase x = []) : xs = [x] := by
  have hperm := List.perm_cons_erase hx
  rw [h] at hperm
  exact List.perm_singleton.mp hperm

/-- Nothing is left if and only if the kernel held what was recorded and nothing else. -/
theorem drop_empty_iff {w : World} (hw : Owns w) (master : Bool) :
    (drop w.drm { kernel := w.kernel, master }).kernel.ledger = Ledger.empty ↔ Exact w := by
  rw [drop_ledger]
  constructor
  · intro hempty
    unfold tornDown at hempty
    unfold Exact
    cases hso : w.drm.scanout with
    | none =>
        rw [hso] at hempty
        exact hempty
    | some so =>
        rw [hso] at hempty
        -- the three objects were live, so erasing them left nothing only if they were all there was
        obtain ⟨hhandle, hfb, hmap⟩ := hw so hso
        simp only [Ledger.dropHandle, Ledger.dropFb, Ledger.dropMap, Ledger.empty,
          Ledger.mk.injEq] at hempty
        obtain ⟨hhandles, hfbs, hmaps⟩ := hempty
        rw [owned, ← erase_eq_nil hhandle hhandles, ← erase_eq_nil hfb hfbs,
          ← erase_eq_nil hmap hmaps]
  · intro hexact
    exact hexact.tornDown

/-! ## Opening -/

/-- A driver that could be opened has shown nothing yet, and has made lawful calls. -/
theorem openCard_ok {a : OpenAnswers} {d : Drm} {c : Card}
    (h : openCard a Card.fresh = (.ok d, c)) :
    d.crtcId = 0 ∧ d.scanout = none ∧ c.kernel.ledger = Ledger.empty ∧ c.Lawful := by
  unfold openCard at h
  split at h
  · cases h
  · have hsame := findConnector_same a.find
      { drm := { connectorId := 0, crtcId := 0, scanout := none }, kernel := Card.fresh.kernel }
    have hobeys := findConnector_obeys a.find
      { drm := { connectorId := 0, crtcId := 0, scanout := none }, kernel := Card.fresh.kernel }
      (owns_of_none rfl)
    dsimp only at h
    split at h
    · next connectorId w hexec =>
        rw [hexec] at hsame hobeys
        cases h
        refine ⟨?_, ?_, hsame.ledger_eq, hobeys.1.trace fresh_lawful⟩
        · rw [hsame.drm_eq]
        · rw [hsame.drm_eq]
    · cases h

/-- A driver that could not be opened leaves nothing behind. -/
theorem openCard_error {a : OpenAnswers} {e : IoError} {c : Card}
    (h : openCard a Card.fresh = (.error e, c)) :
    c.kernel.ledger = Ledger.empty ∧ c.Lawful ∧ c.master = false := by
  unfold openCard at h
  split at h
  · cases h
    exact ⟨rfl, fresh_lawful, rfl⟩
  · have hsame := findConnector_same a.find
      { drm := { connectorId := 0, crtcId := 0, scanout := none }, kernel := Card.fresh.kernel }
    have hobeys := findConnector_obeys a.find
      { drm := { connectorId := 0, crtcId := 0, scanout := none }, kernel := Card.fresh.kernel }
      (owns_of_none rfl)
    dsimp only at h
    split at h
    · cases h
    · next e' w hexec =>
        rw [hexec] at hsame hobeys
        cases h
        -- the driver is dropped with nothing recorded and nothing live
        have hnone : w.drm.scanout = none := by rw [hsame.drm_eq]
        have hexact : Exact w := by
          unfold Exact
          rw [hnone, hsame.ledger_eq]
          rfl
        refine ⟨(drop_empty_iff hobeys.2 _).mpr hexact, ?_, rfl⟩
        exact drop_lawful hobeys.2 _ (hobeys.1.trace fresh_lawful)

end Drm

end K1de
