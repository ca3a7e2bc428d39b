import K1de.Lib.Fallible
import K1de.Drm.Spec

/-! # The driver's kernel objects

After a `refresh` the kernel should hold exactly the framebuffer, the dumb
buffer and the mapping of the buffer on the screen, and nothing when there is
none (`Exact`).

`scanout_mode` does not give its objects back on every error exit: a failed
`MAP_DUMB` leaves the framebuffer and the handle behind, a failed `mmap` the
framebuffer, a failed `SETCRTC` all three. `ledger_exact_iff` says that these are the
only leaks.
-/

namespace K1de

open Effect Fallible

namespace Drm

/-- The objects of a buffer on the screen. -/
def owned : Option ScanOut → Ledger
  | none => Ledger.empty
  | some so =>
      { handles := [so.dumbHandle], fbs := [so.fbId], maps := [(so.map, so.mapLen)] }

/-- The kernel holds what the driver has recorded, and nothing else. -/
def Exact (w : World) : Prop := w.kernel.ledger = owned w.drm.scanout

/-- What only asks keeps the account. -/
theorem Exact.of_same {w w' : World} (h : Exact w) (hw : World.Same w w') : Exact w' := by
  unfold Exact
  rw [hw.drm_eq, hw.ledger_eq]
  exact h

/-- Where the account is right, taking the buffer down leaves nothing: what is given back is all
there is. -/
theorem Exact.tornDown {w : World} (h : Exact w) : (tornDown w).kernel.ledger = Ledger.empty := by
  unfold Exact at h
  unfold Drm.tornDown
  cases hso : w.drm.scanout with
  | none =>
      rw [hso] at h
      exact h
  | some so =>
      rw [hso] at h
      simp [h, owned, Ledger.dropHandle, Ledger.dropFb, Ledger.dropMap, Ledger.empty]

/-! ## When a refresh leaks -/

/-- With these answers `refresh` gets as far as `scanout_mode`: the connector is
connected and has modes, the chosen one is not on the screen, and there is a
CRTC for it. -/
def Attempts (d : Drm) (a : Answers) : Prop :=
  ∃ modes mode crtcId, a.probe.result = .ok (true, modes) ∧ pickMode modes = some mode ∧
    d.shows mode.size = false ∧ a.resolve.result = .ok crtcId

/-- Where `refresh` has made a dumb buffer and a framebuffer, the kernel refuses
neither the offset to map, nor the mapping, nor the CRTC. -/
def NoLeak (w : World) (a : Answers) : Prop :=
  Attempts w.drm a →
    ∀ cd fb, a.scanout.createDumb = .ok cd → a.scanout.addFb = .ok fb →
      (∃ offset, a.scanout.mapDumb = .ok offset) ∧ (∃ map, a.scanout.mmap = .ok map) ∧
        a.scanout.setCrtc = .ok ()

/-- `scanout_mode` from a world without objects. -/
theorem Scanned.exact_iff {mode : ModeInfo} {a : ScanoutAnswers} {w w' : World}
    {r : Except IoError Unit} (h : Scanned mode a w r w') (hso : w.drm.scanout = none)
    (hledger : w.kernel.ledger = Ledger.empty) :
    Exact w' ↔ ∀ cd fb, a.createDumb = .ok cd → a.addFb = .ok fb →
      (∃ offset, a.mapDumb = .ok offset) ∧ (∃ map, a.mmap = .ok map) ∧ a.setCrtc = .ok () := by
  have hexact : Exact w := by
    unfold Exact
    rw [hso, hledger]
    rfl
  -- an error exit with objects left is not exact, as nothing is recorded
  have hleft : w'.drm = w.drm → w'.kernel.ledger ≠ Ledger.empty → ¬ Exact w' := by
    intro hdrm hne hex
    unfold Exact at hex
    rw [hdrm, hso] at hex
    exact hne hex
  cases h with
  | createDumbFailed hcd hw =>
      refine iff_of_true (hexact.of_same hw) ?_
      intro cd fb hcd'
      rw [hcd] at hcd'
      cases hcd'
  | addFbFailed hcd hfb hw =>
      refine iff_of_true (hexact.of_same hw) ?_
      intro cd fb _ hfb'
      rw [hfb] at hfb'
      cases hfb'
  | mapDumbFailed hcd hfb hmd hdrm hl =>
      refine iff_of_false (hleft hdrm ?_) ?_
      · simp [hl, hledger, Ledger.addFb, Ledger.addHandle, Ledger.empty]
      · intro hall
        obtain ⟨⟨offset, hoffset⟩, -, -⟩ := hall _ _ hcd hfb
        rw [hmd] at hoffset
        cases hoffset
  | mmapFailed hcd hfb hmap hdrm hl =>
      refine iff_of_false (hleft hdrm ?_) ?_
      · simp [hl, hledger, Ledger.addFb, Ledger.empty]
      · intro hall
        obtain ⟨-, ⟨map, hmap'⟩, -⟩ := hall _ _ hcd hfb
        rw [hmap] at hmap'
        cases hmap'
  | setCrtcFailed hcd hfb hset hdrm hl =>
      refine iff_of_false (hleft hdrm ?_) ?_
      · simp [hl, hledger, Ledger.addMap, Ledger.addFb, Ledger.addHandle, Ledger.empty]
      · intro hall
        obtain ⟨-, -, hset'⟩ := hall _ _ hcd hfb
        rw [hset] at hset'
        cases hset'
  | installed hcd hfb hmd hmap hset hdrm hl =>
      -- the only way without an error: all three objects are there, and recorded
      refine iff_of_true ?_ ?_
      · unfold Exact
        rw [hdrm, hl, hledger]
        rfl
      · intro _ _ _ _
        exact ⟨⟨_, hmd⟩, ⟨_, hmap⟩, hset⟩

/-- One refresh from an exact world. -/
theorem Refreshed.exact_iff {a : Answers} {w w' : World} {r : Except IoError (Option Mode)}
    (h : Refreshed a w r w') (hw : Exact w) : Exact w' ↔ NoLeak w a := by
  cases h with
  | probeFailed hprobe hsame =>
      refine iff_of_true (hw.of_same hsame) ?_
      rintro ⟨modes, mode, crtcId, hprobe', -⟩
      rw [hprobe] at hprobe'
      cases hprobe'
  | disconnected hprobe hnone hsame =>
      refine iff_of_true ?_ ?_
      · unfold Exact
        rw [hsame.drm_eq, hsame.ledger_eq, tornDown_scanout, hw.tornDown]
        rfl
      · rintro ⟨modes, mode, crtcId, hprobe', hpick, -⟩
        rw [hprobe] at hprobe'
        cases hprobe'
        rcases hnone with hnone | hnone
        · cases hnone
        · rw [hnone] at hpick
          cases hpick
  -- the three ways that end before `scanout_mode` are no attempts
  | unchanged hprobe hpick hshows hsame =>
      refine iff_of_true (hw.of_same hsame) ?_
      rintro ⟨modes, mode, crtcId, hprobe', hpick', hshows', -⟩
      rw [hprobe] at hprobe'
      cases hprobe'
      rw [hpick] at hpick'
      cases hpick'
      rw [hshows] at hshows'
      cases hshows'
  | noCrtc hprobe hpick hshows hcrtc hsame =>
      refine iff_of_true (hw.of_same hsame) ?_
      rintro ⟨modes, mode, crtcId, -, -, -, hcrtc'⟩
      rw [hcrtc] at hcrtc'
      cases hcrtc'
  | @scanned modes mode crtcId w₁ _ r hprobe hpick hshows hcrtc hsame hscan =>
      -- the old buffer has been taken down, so `scanout_mode` starts from nothing
      have hcrtcExact : Exact { w with drm := { w.drm with crtcId := crtcId } } := hw
      have hso : w₁.drm.scanout = none := by
        rw [hsame.drm_eq]
        exact tornDown_scanout _
      have hledger : w₁.kernel.ledger = Ledger.empty := by
        rw [hsame.ledger_eq]
        exact hcrtcExact.tornDown
      rw [hscan.exact_iff hso hledger]
      constructor
      · intro hall _
        exact hall
      · intro hall
        exact hall ⟨modes, mode, crtcId, hprobe, hpick, hshows, hcrtc⟩

/-! ## Runs -/

/-- The world after a refresh, whatever it returned. -/
def afterRefresh (w : World) (a : Answers) : World := (exec (refresh a) w).2

/-- A refresh as a step of a run. It never panics. -/
def refreshStep (w : World) (a : Answers) : Except Empty World := .ok (afterRefresh w a)

/-- In a run of refreshes from an exact world, the kernel holds exactly the
recorded objects after every refresh if and only if no refresh of the run is
refused a `MAP_DUMB`, `mmap` or `SETCRTC`. -/
theorem ledger_exact_iff (w : World) (hw : Exact w) (as : List Answers) :
    (∀ p ∈ visits refreshStep w as, Exact (afterRefresh p.1 p.2)) ↔
      ∀ p ∈ visits refreshStep w as, NoLeak p.1 p.2 := by
  have hgood : ∀ w a, Exact w → (Exact (afterRefresh w a) ↔ NoLeak w a) :=
    fun w a hw => (refresh_refreshed a w).exact_iff hw
  have hkeep : ∀ w a w', Exact w → Exact (afterRefresh w a) → refreshStep w a = .ok w' →
      Exact w' := by
    intro w a w' _ hafter hstep
    cases hstep
    exact hafter
  exact visits_iff hgood hkeep w as hw

/-! ## The leaks -/

/-- A connected display of 640 by 480; the last three calls are answered as given. -/
def answering (mapDumb : Except IoError UInt64) (mmap : Except IoError Nat)
    (setCrtc : Except IoError Unit) : Answers :=
  connected { hdisplay := 640, vdisplay := 480, modeType := 8 }
    { createDumb := .ok { handle := 2, pitch := 2560, size := 1228800 }, addFb := .ok 3
      mapDumb, mmap, setCrtc }

theorem ledger_exact_iff_opened :
    (∀ p ∈ visits refreshStep opened [answering (.ok 0) (.ok 4096) (.ok ())],
      Exact (afterRefresh p.1 p.2)) ↔
    ∀ p ∈ visits refreshStep opened [answering (.ok 0) (.ok 4096) (.ok ())], NoLeak p.1 p.2 :=
  ledger_exact_iff opened rfl _

/-- What the driver has recorded and what the kernel holds. -/
def books (w : World) : Option ScanOut × Ledger := (w.drm.scanout, w.kernel.ledger)

/-- The three error exits that leave objects behind, with nothing recorded. -/
theorem failed_refresh_leaks :
    books (afterRefresh opened (answering (.error (.os 22)) (.ok 4096) (.ok ()))) =
      (none, { handles := [2], fbs := [3], maps := [] }) ∧
    books (afterRefresh opened (answering (.ok 0) (.error (.os 12)) (.ok ()))) =
      (none, { handles := [], fbs := [3], maps := [] }) ∧
    books (afterRefresh opened (answering (.ok 0) (.ok 4096) (.error (.os 22)))) =
      (none, { handles := [2], fbs := [3], maps := [(4096, 1228800)] }) := by
  refine ⟨rfl, rfl, rfl⟩

end Drm

end K1de
