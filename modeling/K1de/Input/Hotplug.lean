import K1de.Lib.Fallible
import K1de.Input.Model

/-! # Keyboard hot-plug

Devices come and go under `/dev/input/event*`, and `main` rescans the directory
now and then. Every keyboard that is present at a rescan should then be read
through exactly one open file (`AllRead`).

The list is merged by path and never pruned. When a keyboard is unplugged its
entry stays, and a keyboard that later appears at the same path is taken for the
old one: it is not opened, and what it types is lost. `hotplug_iff` says that
this is the only way in which a keyboard can be missed.

Every device instance has one path, `pathOf`; a path may belong to many.
-/

namespace K1de

open Fallible

/-! ## Devices and rescans -/

structure Hotplug where
  /-- the keyboards that are plugged in -/
  present : List Nat
  /-- the list of `main` -/
  keyboards : List Keyboard
deriving DecidableEq, Repr

inductive HotplugEvent where
  | plug (id : Nat)
  | unplug (id : Nat)
  /-- with what reading the directory gives -/
  | rescan (dir : Option (List (Option Node)))

namespace Hotplug

def after (s : Hotplug) : HotplugEvent → Hotplug
  | .plug id => { s with present := id :: s.present }
  | .unplug id => { s with present := s.present.erase id }
  | .rescan dir => { s with keyboards := mergeKeyboards s.keyboards (scanKeyboards dir) }

/-- An event as a step of a run. -/
def step (s : Hotplug) (e : HotplugEvent) : Except Empty Hotplug := .ok (s.after e)

/-- `main` at its start, with what the first scan finds. -/
def start (present : List Nat) (dir : Option (List (Option Node))) : Hotplug :=
  { present, keyboards := scanKeyboards dir }

/-- Each keyboard that is present is read through exactly one entry. -/
def AllRead (s : Hotplug) : Prop :=
  ∀ id ∈ s.present, s.keyboards.countP (fun k => k.file = id) = 1

section

variable (pathOf : Nat → String)

/-- The entry of a device. -/
def entry (id : Nat) : Keyboard := { path := pathOf id, file := id }

/-- The scan opens every keyboard that is present, in some order. -/
def Scans (dir : Option (List (Option Node))) (present : List Nat) : Prop :=
  (scanKeyboards dir).Perm (present.map (entry pathOf))

/-- Keyboards that are present at one time have different paths, and a rescan
opens all of them. -/
def Feasible (s : Hotplug) : HotplugEvent → Prop
  | .plug id => pathOf id ∉ s.present.map pathOf
  | .unplug _ => True
  | .rescan dir => Scans pathOf dir s.present

/-- At a rescan, an entry at the path of a keyboard that is present refers to that
keyboard. -/
def NoReuse (s : Hotplug) : HotplugEvent → Prop
  | .rescan _ => ∀ id ∈ s.present, ∀ k ∈ s.keyboards, k.path = pathOf id → k.file = id
  | _ => True

/-- What holds in every state: distinct paths, and an entry keeps the path of its
device. -/
structure Inv (s : Hotplug) : Prop where
  present_nodup : (s.present.map pathOf).Nodup
  paths_nodup : (s.keyboards.map Keyboard.path).Nodup
  path_eq : ∀ k ∈ s.keyboards, k.path = pathOf k.file

end

/-! ## Merging -/

/-- One keyboard of the scan. -/
def mergeOne (ks : List Keyboard) (kb : Keyboard) : List Keyboard :=
  if ks.any fun k => k.path = kb.path then ks else ks ++ [kb]

theorem mergeKeyboards_cons (ks : List Keyboard) (kb : Keyboard) (fresh : List Keyboard) :
    mergeKeyboards ks (kb :: fresh) = mergeKeyboards (mergeOne ks kb) fresh := rfl

/-- A keyboard of the scan is taken if no entry has its path. -/
theorem mem_mergeOne {ks : List Keyboard} {kb k : Keyboard} :
    k ∈ mergeOne ks kb ↔ k ∈ ks ∨ (k = kb ∧ kb.path ∉ ks.map Keyboard.path) := by
  unfold mergeOne
  have hany : (ks.any fun k => k.path = kb.path) = true ↔ kb.path ∈ ks.map Keyboard.path := by
    simp
  split
  · next h =>
      rw [hany] at h
      simp [h]
  · next h =>
      rw [hany] at h
      simp only [List.mem_append, List.mem_singleton, h, not_false_eq_true, and_true]

/-- No path is listed twice. -/
theorem mergeOne_paths_nodup {ks : List Keyboard} (kb : Keyboard)
    (h : (ks.map Keyboard.path).Nodup) : ((mergeOne ks kb).map Keyboard.path).Nodup := by
  unfold mergeOne
  split
  · exact h
  · next hnew =>
      have hnot : kb.path ∉ ks.map Keyboard.path := by simpa using hnew
      rw [List.map_append, List.map_singleton, ← List.concat_eq_append]
      exact h.concat hnot

/-- Nor after a whole scan. -/
theorem mergeKeyboards_paths_nodup {ks : List Keyboard} (fresh : List Keyboard)
    (h : (ks.map Keyboard.path).Nodup) :
    ((mergeKeyboards ks fresh).map Keyboard.path).Nodup := by
  induction fresh generalizing ks with
  | nil => exact h
  | cons kb fresh ih =>
      rw [mergeKeyboards_cons]
      exact ih (mergeOne_paths_nodup kb h)

/-- The entries after a rescan: the old ones, and the found ones at new paths. -/
theorem mem_mergeKeyboards {ks fresh : List Keyboard} {k : Keyboard}
    (hfresh : (fresh.map Keyboard.path).Nodup) :
    k ∈ mergeKeyboards ks fresh ↔ k ∈ ks ∨ (k ∈ fresh ∧ k.path ∉ ks.map Keyboard.path) := by
  induction fresh generalizing ks with
  | nil => simp [mergeKeyboards]
  | cons kb fresh ih =>
      rw [List.map_cons, List.nodup_cons] at hfresh
      rw [mergeKeyboards_cons, ih hfresh.2, mem_mergeOne]
      -- a later keyboard of the scan has another path than `kb`
      have hpath : k ∈ fresh → (k.path ∉ (mergeOne ks kb).map Keyboard.path ↔
          k.path ∉ ks.map Keyboard.path) := by
        intro hk
        have hne : k.path ≠ kb.path := by
          intro heq
          exact hfresh.1 (heq ▸ List.mem_map_of_mem hk)
        unfold mergeOne
        split
        · rfl
        · simp [hne]
      constructor
      · rintro ((hk | ⟨rfl, hnew⟩) | ⟨hk, hnew⟩)
        · exact Or.inl hk
        · exact Or.inr ⟨List.mem_cons_self, hnew⟩
        · exact Or.inr ⟨List.mem_cons_of_mem _ hk, (hpath hk).mp hnew⟩
      · rintro (hk | ⟨hk, hnew⟩)
        · exact Or.inl (Or.inl hk)
        · rcases List.mem_cons.mp hk with rfl | hk
          · exact Or.inl (Or.inr ⟨rfl, hnew⟩)
          · exact Or.inr ⟨hk, (hpath hk).mpr hnew⟩

/-! ## Steps -/

section

variable {pathOf : Nat → String}

/-- The paths of a scan are those of the devices that are present. -/
theorem scan_paths {dir : Option (List (Option Node))} {present : List Nat}
    (h : Scans pathOf dir present) :
    ((scanKeyboards dir).map Keyboard.path).Perm (present.map pathOf) := by
  have hmap := h.map Keyboard.path
  rwa [List.map_map] at hmap

/-- A scan finds the devices that are present, each at its path. -/
theorem mem_scan {dir : Option (List (Option Node))} {present : List Nat}
    (h : Scans pathOf dir present) (k : Keyboard) :
    k ∈ scanKeyboards dir ↔ ∃ id ∈ present, entry pathOf id = k := by
  rw [List.Perm.mem_iff h, List.mem_map]

/-- The list of the first scan. -/
theorem inv_start {dir : Option (List (Option Node))} {present : List Nat}
    (hpresent : (present.map pathOf).Nodup) (hscan : Scans pathOf dir present) :
    Inv pathOf (start present dir) where
  present_nodup := hpresent
  paths_nodup := (scan_paths hscan).nodup_iff.mpr hpresent
  path_eq := by
    intro k hk
    obtain ⟨id, -, rfl⟩ := (mem_scan hscan k).mp hk
    rfl

/-- Plugs and unplugs do not touch the list, and a rescan adds entries at new paths. -/
theorem Inv.after {s : Hotplug} (h : Inv pathOf s) {e : HotplugEvent}
    (he : Feasible pathOf s e) : Inv pathOf (s.after e) := by
  cases e with
  | plug id => exact ⟨List.nodup_cons.mpr ⟨he, h.present_nodup⟩, h.paths_nodup, h.path_eq⟩
  | unplug id =>
      refine ⟨?_, h.paths_nodup, h.path_eq⟩
      exact h.present_nodup.sublist (List.erase_sublist.map pathOf)
  | rescan dir =>
      refine ⟨h.present_nodup, mergeKeyboards_paths_nodup _ h.paths_nodup, ?_⟩
      intro k hk
      replace hk : k ∈ mergeKeyboards s.keyboards (scanKeyboards dir) := hk
      rw [mem_mergeKeyboards ((scan_paths he).nodup_iff.mpr h.present_nodup)] at hk
      rcases hk with hk | ⟨hk, -⟩
      · exact h.path_eq k hk
      · obtain ⟨id, -, rfl⟩ := (mem_scan he k).mp hk
        rfl

/-- An entry is at most once in the list, so being read once is being read. -/
theorem Inv.count_eq_one_iff {s : Hotplug} (h : Inv pathOf s) (id : Nat) :
    s.keyboards.countP (fun k => k.file = id) = 1 ↔ entry pathOf id ∈ s.keyboards := by
  have hcount : s.keyboards.countP (fun k => k.file = id) =
      s.keyboards.count (entry pathOf id) := by
    rw [List.count]
    apply List.countP_congr
    intro k hk
    have hpath := h.path_eq k hk
    obtain ⟨path, file⟩ := k
    simp only [decide_eq_true_eq, beq_iff_eq, entry, Keyboard.mk.injEq] at hpath ⊢
    constructor
    · rintro rfl
      exact ⟨hpath, rfl⟩
    · exact And.right
  rw [hcount]
  have hnodup : s.keyboards.Nodup := List.Nodup.of_map Keyboard.path h.paths_nodup
  rw [hnodup.count]
  split <;> simp_all

/-- One rescan reads every keyboard exactly when no path is reused. -/
theorem Inv.allRead_iff {s : Hotplug} (h : Inv pathOf s) {dir : Option (List (Option Node))}
    (hscan : Feasible pathOf s (.rescan dir)) :
    AllRead (s.after (.rescan dir)) ↔ NoReuse pathOf s (.rescan dir) := by
  have hfresh := (scan_paths hscan).nodup_iff.mpr h.present_nodup
  have hafter : Inv pathOf (s.after (.rescan dir)) := h.after hscan
  have hmem : ∀ id ∈ s.present, (entry pathOf id ∈ (s.after (.rescan dir)).keyboards ↔
      ∀ k ∈ s.keyboards, k.path = pathOf id → k.file = id) := by
    intro id hid
    show entry pathOf id ∈ mergeKeyboards s.keyboards (scanKeyboards dir) ↔ _
    rw [mem_mergeKeyboards hfresh]
    have hfound : entry pathOf id ∈ scanKeyboards dir := (mem_scan hscan _).mpr ⟨id, hid, rfl⟩
    constructor
    · rintro (hold | ⟨-, hnew⟩) k hk hpath
      · -- the old entry at this path is the device's own
        have hsame : k = entry pathOf id :=
          List.inj_on_of_nodup_map h.paths_nodup hk hold hpath
        rw [hsame]
        rfl
      · -- there is no old entry at this path
        exact absurd (List.mem_map.mpr ⟨k, hk, hpath⟩) hnew
    · intro hown
      by_cases hpath : (entry pathOf id).path ∈ s.keyboards.map Keyboard.path
      · -- the path is taken, by the device itself
        obtain ⟨k, hk, hkpath⟩ := List.mem_map.mp hpath
        have hsame : k = entry pathOf id := by
          rw [entry, ← hown k hk hkpath, ← h.path_eq k hk]
        exact Or.inl (hsame ▸ hk)
      · exact Or.inr ⟨hfound, hpath⟩
  -- the list has at most one entry for a device, so a device is read once if it has one
  constructor
  · intro hall id hid
    exact (hmem id hid).mp ((hafter.count_eq_one_iff id).mp (hall id hid))
  · intro hno id hid
    exact (hafter.count_eq_one_iff id).mpr ((hmem id hid).mpr (hno id hid))

end

/-! ## Runs -/

/-- After a rescan every keyboard is read. -/
def Read (s : Hotplug) (e : HotplugEvent) : Prop :=
  match e with
  | .rescan _ => AllRead (s.after e)
  | _ => True

/-- For every history of plugs, unplugs and rescans: after each rescan every
keyboard that is present is read through exactly one entry, if and only if at no
rescan a path is found again with another device. -/
theorem hotplug_iff (pathOf : Nat → String) (present : List Nat)
    (dir : Option (List (Option Node))) (es : List HotplugEvent)
    (hpresent : (present.map pathOf).Nodup) (hscan : Scans pathOf dir present)
    (hes : ∀ p ∈ visits step (start present dir) es, Feasible pathOf p.1 p.2) :
    (∀ p ∈ visits step (start present dir) es, Read p.1 p.2) ↔
      ∀ p ∈ visits step (start present dir) es, NoReuse pathOf p.1 p.2 := by
  have hkeep : ∀ s e s', Inv pathOf s → Feasible pathOf s e → step s e = .ok s' →
      Inv pathOf s' := by
    intro s e s' hs he hstep
    cases hstep
    exact hs.after he
  have hinv := visits_inv hkeep _ es (inv_start hpresent hscan) hes
  apply forall_congr'
  rintro ⟨s, e⟩
  apply forall_congr'
  intro hp
  cases e with
  -- only a rescan promises anything
  | plug id => exact Iff.rfl
  | unplug id => exact Iff.rfl
  | rescan dir => exact (hinv _ hp).allRead_iff (hes _ hp)

/-! ## A keyboard that is missed -/

/-- The entry of a keyboard at `/dev/input/event0`. -/
def event0 (id : Nat) : Option Node :=
  some { name := "event0", path := "/dev/input/event0", file := some id
         keyBits := some (Vector.replicate 96 0xff) }

/-- One keyboard is pulled out and another one plugged in. -/
def swap : List HotplugEvent := [.unplug 1, .plug 2, .rescan (some [event0 2])]

theorem hotplug_iff_swap :
    (∀ p ∈ visits step (start [1] (some [event0 1])) swap, Read p.1 p.2) ↔
      ∀ p ∈ visits step (start [1] (some [event0 1])) swap,
        NoReuse (fun _ => "/dev/input/event0") p.1 p.2 := by
  apply hotplug_iff
  · decide
  · exact List.Perm.of_eq rfl
  · intro p hp
    simp only [swap, visits, step, after, start, List.mem_cons, List.not_mem_nil, or_false] at hp
    rcases hp with rfl | rfl | rfl
    · trivial
    · simp [Feasible]
    · exact List.Perm.of_eq rfl

/-- The new keyboard has the path of the old one and gets no entry. -/
theorem swapped_keyboard_not_read :
    run step (start [1] (some [event0 1])) swap =
      .ok { present := [2], keyboards := [{ path := "/dev/input/event0", file := 1 }] } := by
  rfl

end Hotplug

end K1de
