import K1de.Input.Hotplug
import K1de.Main.Timers

/-! # The keyboards over a run

The list of keyboards only grows, at its end (`keyboards_grow`). So the place of a keyboard in it,
by which the answers of `poll` are found, means the same device from the moment it is listed on.

`keyboard_found` is what the rescan timer is for: a keyboard that is plugged in is read after the
first iteration that is two seconds later than the last rescan, and ever after. Other keyboards may
come and go meanwhile. What is asked is that its path has not been that of another keyboard before:
the list keeps those.
-/

namespace K1de

open Fallible Ticker

/-- A scan that finds this keyboard, where no two entries of the directory have one path. -/
structure Finds (kb : Keyboard) (dir : Option (List (Option Node))) : Prop where
  paths_nodup : ((scanKeyboards dir).map Keyboard.path).Nodup
  found : kb ∈ scanKeyboards dir

/-- An entry at the path of this keyboard is its own. -/
def NotStale (kb : Keyboard) (ks : List Keyboard) : Prop := ∀ k ∈ ks, k.path = kb.path → k = kb

/-! ## Merging -/

/-- A rescan appends. -/
theorem mergeKeyboards_append (ks fresh : List Keyboard) : ks <+: mergeKeyboards ks fresh := by
  induction fresh generalizing ks with
  | nil => exact List.prefix_rfl
  | cons kb fresh ih =>
      refine List.IsPrefix.trans ?_ (ih _)
      show ks <+: if _ then ks else ks ++ [kb]
      split
      · exact List.prefix_rfl
      · exact List.prefix_append _ _

/-- A rescan that finds the keyboard leaves it in the list: it is appended, or was there already.
-/
theorem Finds.mem_merge {kb : Keyboard} {dir : Option (List (Option Node))} (h : Finds kb dir)
    {ks : List Keyboard} (hks : NotStale kb ks) : kb ∈ mergeKeyboards ks (scanKeyboards dir) := by
  rw [Hotplug.mem_mergeKeyboards h.paths_nodup]
  by_cases hpath : kb.path ∈ ks.map Keyboard.path
  · obtain ⟨k, hk, hkpath⟩ := List.mem_map.mp hpath
    rw [← hks k hk hkpath]
    exact Or.inl hk
  · exact Or.inr ⟨h.found, hpath⟩

/-- After a rescan that finds the keyboard, its path is still its own. -/
theorem Finds.notStale_merge {kb : Keyboard} {dir : Option (List (Option Node))}
    (h : Finds kb dir) {ks : List Keyboard} (hks : NotStale kb ks) :
    NotStale kb (mergeKeyboards ks (scanKeyboards dir)) := by
  intro k hk hpath
  rw [Hotplug.mem_mergeKeyboards h.paths_nodup] at hk
  rcases hk with hk | ⟨hk, -⟩
  · exact hks k hk hpath
  · exact List.inj_on_of_nodup_map h.paths_nodup hk h.found hpath

/-! ## Steps -/

theorem rescanPhase_keyboards (s : State) (i : Input) :
    (s.rescanPhase i).keyboards =
      if s.RescanDue i then mergeKeyboards s.keyboards (scanKeyboards i.dir) else s.keyboards := by
  unfold State.rescanPhase
  by_cases hdue : s.RescanDue i
  · rw [if_pos hdue, if_pos (by exact hdue)]
  · rw [if_neg hdue, if_neg (by exact hdue)]

/-- The rescan is the only phase that changes the list, and it appends. -/
theorem step_keyboards_grow {font : Font} {s s' : State} {e : Phase × Input}
    (h : step font s e = .ok s') : s.keyboards <+: s'.keyboards := by
  rw [step_keyboards h]
  split
  · rw [rescanPhase_keyboards]
    split
    · exact mergeKeyboards_append _ _
    · exact List.prefix_rfl
  · exact List.prefix_rfl

/-- Between any two points of a run, the earlier list is the beginning of the later one. -/
theorem keyboards_grow {font : Font} {s s' : State} {es : List (Phase × Input)}
    (h : run (step font) s es = .ok s') : s.keyboards <+: s'.keyboards := by
  have hkeep : ∀ (s₁ : State) (e : Phase × Input) (s₂ : State), s.keyboards <+: s₁.keyboards →
      True → step font s₁ e = .ok s₂ → s.keyboards <+: s₂.keyboards :=
    fun _ _ _ hs₁ _ hstep => hs₁.trans (step_keyboards_grow hstep)
  exact run_keeps (fun _ => True) hkeep List.prefix_rfl (fun _ _ => trivial) h

/-- No phase puts another keyboard at its path, as every scan finds it there. -/
theorem NotStale.step {font : Font} {kb : Keyboard} {s s' : State} {e : Phase × Input}
    (h : NotStale kb s.keyboards) (he : Finds kb e.2.dir) (hstep : K1de.step font s e = .ok s') :
    NotStale kb s'.keyboards := by
  rw [step_keyboards hstep]
  split
  · rw [rescanPhase_keyboards]
    split
    · exact he.notStale_merge h
    · exact h
  · exact h

theorem NotStale.run {font : Font} {kb : Keyboard} {s s' : State} {es : List (Phase × Input)}
    (h : NotStale kb s.keyboards) (hes : ∀ e ∈ es, Finds kb e.2.dir)
    (hrun : Fallible.run (K1de.step font) s es = .ok s') : NotStale kb s'.keyboards := by
  have hkeep : ∀ (s₁ : State) (e : Phase × Input) (s₂ : State), NotStale kb s₁.keyboards →
      Finds kb e.2.dir → K1de.step font s₁ e = .ok s₂ → NotStale kb s₂.keyboards :=
    fun _ _ _ hs₁ he hstep => hs₁.step he hstep
  exact run_keeps (fun e : Phase × Input => Finds kb e.2.dir) hkeep h hes hrun

/-- An iteration rescans, or leaves the rescan to the next ones. -/
theorem iteration_finds {font : Font} {kb : Keyboard} {s s' : State} {i : Input}
    (hs : NotStale kb s.keyboards) (hi : Finds kb i.dir)
    (hrun : run (step font) s (Phase.all.map fun phase => (phase, i)) = .ok s') :
    kb ∈ s'.keyboards ∨
      i.now - s.lastKbScan < keyboardRescanInterval ∧ s'.lastKbScan = s.lastKbScan := by
  obtain ⟨s₁, hs₁, h₁⟩ := of_run_iteration hrun
  obtain ⟨s₂, hs₂, h₂⟩ := of_run_iteration h₁
  have hkeyboards : s₁.keyboards = s.keyboards := step_keyboards hs₁
  have hlast : s₁.lastKbScan = s.lastKbScan := (rescanTimer font).sets s _ s₁ hs₁
  -- the refresh before it moves neither the list nor the clock of the rescan
  by_cases hdue : s₁.RescanDue i
  · left
    have hmem : kb ∈ s₂.keyboards := by
      rw [step_keyboards hs₂, if_pos rfl, rescanPhase_keyboards, if_pos hdue, hkeyboards]
      exact hi.mem_merge hs
    exact (keyboards_grow h₂).subset hmem
  · right
    have hset : s₂.lastKbScan = _ := (rescanTimer font).sets s₁ _ s₂ hs₂
    have hquiet : (rescanTimer font).readings s₁ (.rescan, i) = [] := if_neg fun h => hdue h.2
    rw [hquiet] at hset
    have hend := lastKbScan_run (by decide) h₂
    unfold State.RescanDue at hdue
    exact ⟨by omega, hend.trans (hset.trans hlast)⟩

/-- A keyboard that every scan finds from now on is in the list after an iteration that is a rescan
interval later, at a place that it keeps. -/
theorem keyboard_found (font : Font) (kb : Keyboard) (s s' : State) (inputs : List Input)
    (hstale : NotStale kb s.keyboards) (hinputs : ∀ i ∈ inputs, Finds kb i.dir)
    (hclock : ∃ i ∈ inputs, i.now - s.lastKbScan ≥ keyboardRescanInterval)
    (hrun : run (step font) s (schedule inputs) = .ok s') :
    ∃ k : Nat, ∀ es s'', run (step font) s' es = .ok s'' → s''.keyboards[k]? = some kb := by
  have hkeep : ∀ (s : State) (i : Input) (s' : State), NotStale kb s.keyboards → Finds kb i.dir →
      run (step font) s (Phase.all.map fun phase => (phase, i)) = .ok s' →
      NotStale kb s'.keyboards ∧ (kb ∈ s.keyboards → kb ∈ s'.keyboards) := by
    intro s i s' hs hi hrun
    refine ⟨hs.run ?_ hrun, fun hmem => (keyboards_grow hrun).subset hmem⟩
    intro e he
    obtain ⟨phase, -, rfl⟩ := List.mem_map.mp he
    exact hi
  have hmem : kb ∈ s'.keyboards := by
    rw [schedule, run_flatMap] at hrun
    refine reaches_of_due (fun i : Input => Finds kb i.dir) hkeep ?_ hstale hinputs
      (.inr hclock) hrun
    exact fun s i s' hs hi hrun => iteration_finds hs hi hrun
  -- the list grows at its end, so the place is kept
  obtain ⟨k, hk⟩ := List.mem_iff_getElem?.mp hmem
  refine ⟨k, fun es s'' hrun' => ?_⟩
  obtain ⟨more, hmore⟩ := keyboards_grow hrun'
  rw [← hmore, List.getElem?_append_left (List.getElem?_eq_some_iff.mp hk).1, hk]

/-- An iteration two seconds after the start, with a keyboard at `/dev/input/event0`. -/
def pluggedIn : Input :=
  { quiet keyboardRescanInterval unprobed (.ok none) with dir := some [Hotplug.event0 1] }

theorem keyboard_found_event0 :
    ∃ s', run (step dotFont) dotStart (schedule [pluggedIn]) = .ok s' ∧
      ∃ k : Nat, ∀ es s'', run (step dotFont) s' es = .ok s'' →
        s''.keyboards[k]? = some { path := "/dev/input/event0", file := 1 } := by
  refine ⟨_, rfl, ?_⟩
  refine keyboard_found dotFont { path := "/dev/input/event0", file := 1 } dotStart _ [pluggedIn]
    (fun k hk => absurd hk List.not_mem_nil) ?_ ⟨_, List.mem_singleton_self _, le_rfl⟩ rfl
  intro i hi
  rw [List.mem_singleton.mp hi]
  exact ⟨List.nodup_singleton _, List.mem_singleton_self _⟩

end K1de
