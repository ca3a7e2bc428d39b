import K1de.Drm.Calls

/-! # What a refresh reports

`main` sizes the terminal by the mode that `refresh` returns. `refresh_reports` says that
this is the size of the buffer on the screen and of the mode that should have been picked
(`Picked`), that after `Ok(None)` nothing is on the screen, and after an error what was
there before or nothing. A refresh that finds the mode it already shows asks twice and
does nothing else.
-/

namespace K1de

open Effect

/-! ## Picking a mode -/

def ModeInfo.Preferred (m : ModeInfo) : Prop := m.modeType &&& modeTypePreferred ≠ 0

/-- The number of pixels, as a number without a width. -/
def ModeInfo.pixels (m : ModeInfo) : Nat := m.hdisplay.toNat * m.vdisplay.toNat

/-- The mode to pick: the first preferred one, or a largest one if none is preferred. -/
inductive Picked (modes : List ModeInfo) (m : ModeInfo) : Prop where
  | preferred {pre post : List ModeInfo} (hsplit : modes = pre ++ m :: post)
      (hpreferred : m.Preferred) (hfirst : ∀ m' ∈ pre, ¬ m'.Preferred)
  | largest (hmem : m ∈ modes) (hnone : ∀ m' ∈ modes, ¬ m'.Preferred)
      (hmax : ∀ m' ∈ modes, m'.pixels ≤ m.pixels)

namespace Drm

/-- The product of `pick_mode` does not overflow. -/
theorem toNat_area (m : ModeInfo) : (ModeInfo.area m).toNat = m.pixels := by
  have hw := m.hdisplay.toNat_lt
  have hh := m.vdisplay.toNat_lt
  have hlt : m.hdisplay.toNat * m.vdisplay.toNat < 2 ^ 16 * 2 ^ 16 := Nat.mul_lt_mul'' hw hh
  rw [ModeInfo.area, UInt32.toNat_mul, UInt16.toNat_toUInt32, UInt16.toNat_toUInt32]
  exact Nat.mod_eq_of_lt hlt

/-- A running maximum is among the elements and not below any of them. -/
theorem maxByKey_spec {α : Type} {key : α → UInt32} {xs : List α} {m : α}
    (h : maxByKey key xs = some m) : m ∈ xs ∧ ∀ y ∈ xs, key y ≤ key m := by
  cases xs with
  | nil => cases h
  | cons x xs =>
      obtain rfl := Option.some.inj h
      clear h
      induction xs generalizing x with
      | nil => simp
      | cons y ys ih =>
          rw [List.foldl_cons]
          by_cases hgt : key x > key y
          · -- the best one so far stays
            rw [if_pos hgt]
            obtain ⟨hmem, hmax⟩ := ih x
            have hx := hmax x List.mem_cons_self
            constructor
            · exact List.cons_subset_cons x (List.subset_cons_self y ys) hmem
            · rintro z (_ | ⟨_, _ | ⟨_, hz⟩⟩)
              · exact hx
              · exact UInt32.le_trans (UInt32.le_of_lt hgt) hx
              · exact hmax z (List.mem_cons_of_mem x hz)
          · rw [if_neg hgt]
            obtain ⟨hmem, hmax⟩ := ih y
            have hy := hmax y List.mem_cons_self
            constructor
            · exact List.mem_cons_of_mem x hmem
            · rintro z (_ | ⟨_, hz⟩)
              · exact UInt32.le_trans (UInt32.not_lt.mp hgt) hy
              · exact hmax z hz

/-- `pick_mode` picks as it should. -/
theorem pickMode_picked {modes : List ModeInfo} {m : ModeInfo} (h : pickMode modes = some m) :
    Picked modes m := by
  unfold pickMode at h
  cases hfind : modes.find? fun m => m.modeType &&& modeTypePreferred ≠ 0 with
  | some m' =>
      rw [hfind] at h
      cases h
      obtain ⟨hpreferred, pre, post, hsplit, hpre⟩ := List.find?_eq_some_iff_append.mp hfind
      refine .preferred hsplit (by simpa [ModeInfo.Preferred] using hpreferred) ?_
      intro m' hm'
      simpa [ModeInfo.Preferred] using hpre m' hm'
  | none =>
      -- no mode is preferred: the largest product of width and height, which does not wrap
      rw [hfind, Option.none_or] at h
      obtain ⟨hmem, hmax⟩ := maxByKey_spec h
      refine .largest hmem ?_ ?_
      · intro m' hm'
        simpa [ModeInfo.Preferred] using List.find?_eq_none.mp hfind m' hm'
      · intro m' hm'
        rw [← toNat_area, ← toNat_area]
        exact UInt32.le_iff_toNat_le.mp (hmax m' hm')

/-! ## Refreshing -/

/-- A buffer of this size is on the screen. -/
theorem shows_iff {d : Drm} {size : Mode} :
    d.shows size = true ↔ ∃ so, d.scanout = some so ∧ so.size = size := by
  constructor
  · exact size_of_shows
  · rintro ⟨so, hso, rfl⟩
    rw [shows, hso]
    simp [ScanOut.size]

/-- The mode that is returned was picked from the list that the probe gave. -/
theorem Refreshed.picked {a : Answers} {w w' : World} {m : Mode}
    (h : Refreshed a w (.ok (some m)) w') :
    ∃ modes mode, a.probe.result = .ok (true, modes) ∧ pickMode modes = some mode ∧
      mode.size = m := by
  generalize hr : (Except.ok (some m) : Except IoError (Option Mode)) = r at h
  cases h with
  | probeFailed => cases hr
  | disconnected => cases hr
  | unchanged hprobe hpick =>
      cases hr
      exact ⟨_, _, hprobe, hpick, rfl⟩
  | noCrtc => cases hr
  | @scanned modes mode _ _ _ r hprobe hpick =>
      cases r with
      | error e => cases hr
      | ok u =>
          cases hr
          exact ⟨modes, mode, hprobe, hpick, rfl⟩

/-- A refresh that finds what it already shows ends after the probe. -/
theorem exec_refresh_unchanged {a : Answers} {w w' : World} {modes : List ModeInfo}
    {mode : ModeInfo}
    (hprobe : exec (probeConnector w.drm.connectorId a.probe) w = (.ok (true, modes), w'))
    (hpick : pickMode modes = some mode) (hshows : w'.drm.shows mode.size = true) :
    exec (refresh a) w = (.ok (some mode.size), w') := by
  have hmodes : modes ≠ [] := by
    rintro rfl
    cases hpick
  have hget : (pickMode modes).get (pickMode_isSome hmodes) = mode := by
    simp only [hpick, Option.get_some]
  unfold refresh
  rw [exec_get_bind, exec_bind_ok hprobe]
  dsimp only
  rw [dif_neg (not_or.mpr ⟨Bool.noConfusion, hmodes⟩), hget, showMode, exec_get_bind]
  dsimp only
  rw [if_pos hshows]
  rfl

/-- A refresh returns the size of the buffer it leaves on the screen, which is the size of
the mode to pick. It returns none only with an empty screen, and after an error the old
buffer is on the screen or none. If the mode to pick is on the screen, it only probes. -/
theorem refresh_reports (a : Answers) (w : World) :
    (∀ m, (exec (refresh a) w).1 = .ok (some m) →
      (∃ so, (exec (refresh a) w).2.drm.scanout = some so ∧ so.width = m.width ∧
        so.height = m.height) ∧
      ∃ modes mode, (exec (probeConnector w.drm.connectorId a.probe) w).1 = .ok (true, modes) ∧
        Picked modes mode ∧ mode.size = m) ∧
    ((exec (refresh a) w).1 = .ok none → (exec (refresh a) w).2.drm.scanout = none) ∧
    (∀ e, (exec (refresh a) w).1 = .error e →
      (exec (refresh a) w).2.drm.scanout = w.drm.scanout ∨
        (exec (refresh a) w).2.drm.scanout = none) ∧
    (∀ modes mode so, (exec (probeConnector w.drm.connectorId a.probe) w).1 = .ok (true, modes) →
      pickMode modes = some mode → w.drm.scanout = some so → so.size = mode.size →
      (exec (refresh a) w).1 = .ok (some mode.size) ∧ (exec (refresh a) w).2.drm = w.drm ∧
      ∃ rs, (exec (refresh a) w).2.kernel.log = w.kernel.log ++ rs ∧
        ∀ r ∈ rs, IsGetConnector r) := by
  have hrefreshed := refresh_refreshed a w
  obtain ⟨hresult, hsame⟩ := probeConnector_asks w.drm.connectorId a.probe w
  refine ⟨?_, ?_, ?_, ?_⟩
  · intro m hm
    rw [hm] at hrefreshed
    obtain ⟨-, ⟨so, hso, rfl⟩, -⟩ := hrefreshed.of_mode
    obtain ⟨modes, mode, hprobe, hpick, hsize⟩ := hrefreshed.picked
    refine ⟨⟨so, hso, rfl, rfl⟩, modes, mode, ?_, pickMode_picked hpick, hsize⟩
    rw [hresult, hprobe]
  · intro hnone
    rw [hnone] at hrefreshed
    exact hrefreshed.of_none
  · intro e he
    rw [he] at hrefreshed
    exact hrefreshed.of_error
  · intro modes mode so hprobe hpick hso hsize
    -- the mode is on the screen before the probe, and so it is after it
    rcases hexec : exec (probeConnector w.drm.connectorId a.probe) w with ⟨r, w'⟩
    rw [hexec] at hprobe hsame
    have hshows : w'.drm.shows mode.size = true := by
      rw [hsame.drm_eq]
      exact shows_iff.mpr ⟨so, hso, hsize⟩
    rw [exec_refresh_unchanged (hexec.trans (congrArg (·, w') hprobe)) hpick hshows]
    refine ⟨rfl, hsame.drm_eq, ?_⟩
    have hlog := probeConnector_calls (P := IsGetConnector) (fun _ _ _ => ⟨_, _, _, rfl⟩)
      w.drm.connectorId a.probe w
    rw [hexec] at hlog
    exact hlog

end Drm

end K1de
