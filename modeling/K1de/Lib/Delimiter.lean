import Mathlib

/-! # Finding the end of a delimited string

A string ends at a single terminator, or at a pair of an escape and a closing symbol
that stand next to each other. A matcher with two states, one for "the last symbol was
the escape", is enough to find the first of these ends, provided that it stays in the
second state on another escape and looks for single terminators there too. The matcher
here does neither: after an escape, any symbol but the closing one takes it back to the
first state. `finds_iff` says on which strings it is right nevertheless: the number of
escapes right before the first end has to have the right parity.
-/

/-- The symbols that end a string. -/
structure Delims (α : Type) where
  esc : α
  close : α
  single : α → Bool
  esc_ne_close : esc ≠ close
  single_esc : single esc = false
  single_close : single close = false

namespace Delims

/-! ## Ends -/

section

variable {α : Type} (d : Delims α)

/-- A string that has just come to an end. -/
def Ends (bs : List α) : Prop :=
  (∃ front b, bs = front ++ [b] ∧ d.single b = true) ∨ ∃ front, bs = front ++ [d.esc, d.close]

/-- A string that has not come to an end so far. -/
def Unended (bs : List α) : Prop := ∀ front, front <+: bs → ¬ d.Ends front

variable {d}

/-- A string that has not ended had not ended before. -/
theorem Unended.front {bs front : List α} (h : d.Unended bs) (hfront : front <+: bs) :
    d.Unended front :=
  fun front' hfront' => h front' (hfront'.trans hfront)

/-- The empty string has no end in it. -/
theorem not_ends_nil : ¬ d.Ends [] := by
  rintro (⟨front, b, h, -⟩ | ⟨front, h⟩)
  · simp at h
  · simp at h

theorem unended_nil : d.Unended [] := by
  intro front hfront
  rw [List.prefix_nil.mp hfront]
  exact not_ends_nil

/-- The end at the last symbol: a single terminator, or the closing symbol right after an escape.
-/
theorem ends_snoc {bs : List α} {b : α} :
    d.Ends (bs ++ [b]) ↔ d.single b = true ∨ b = d.close ∧ ∃ front, bs = front ++ [d.esc] := by
  constructor
  · rintro (⟨front, b', h, hb'⟩ | ⟨front, h⟩)
    · obtain ⟨rfl, rfl⟩ := List.append_inj' h rfl |>.imp id List.singleton_inj.mp
      exact Or.inl hb'
    · rw [show front ++ [d.esc, d.close] = (front ++ [d.esc]) ++ [d.close] by simp] at h
      obtain ⟨rfl, rfl⟩ := List.append_inj' h rfl |>.imp id List.singleton_inj.mp
      exact Or.inr ⟨rfl, front, rfl⟩
  · rintro (h | ⟨rfl, front, rfl⟩)
    · exact Or.inl ⟨bs, b, rfl, h⟩
    · exact Or.inr ⟨front, by simp⟩

/-- The end by the last symbols, which can be looked at. -/
theorem ends_iff {bs : List α} :
    d.Ends bs ↔ bs.getLast?.any d.single = true ∨ [d.esc, d.close] <:+ bs := by
  refine or_congr ?_ (exists_congr fun front => eq_comm)
  rw [Option.any_eq_true]
  constructor
  · rintro ⟨front, b, rfl, hb⟩
    exact ⟨b, List.getLast?_concat, hb⟩
  · rintro ⟨b, hlast, hb⟩
    obtain ⟨front, rfl⟩ := List.getLast?_eq_some_iff.mp hlast
    exact ⟨front, b, rfl, hb⟩

/-- Nothing before the last symbol has ended. -/
theorem unended_of_proper {front : List α} {b : α}
    (h : ∀ u, u <+: front ++ [b] → u ≠ front ++ [b] → ¬ d.Ends u) : d.Unended front := by
  intro u hu
  apply h u (hu.trans (List.prefix_append front [b]))
  intro heq
  have hlen := hu.length_le
  rw [heq, List.length_append, List.length_singleton] at hlen
  omega

/-- One symbol further without an end. -/
theorem unended_snoc {front : List α} {b : α} (h : d.Unended front)
    (hends : ¬ d.Ends (front ++ [b])) : d.Unended (front ++ [b]) := by
  intro u hu
  rcases List.prefix_concat_iff.mp hu with rfl | hu
  · exact hends
  · exact h u hu

end

/-! ## The matcher -/

variable {α : Type} [DecidableEq α] (d : Delims α)

/-- The number of escapes at the end. -/
def escapes (bs : List α) : Nat := (bs.reverse.takeWhile (· = d.esc)).length

theorem escapes_snoc_esc (bs : List α) : d.escapes (bs ++ [d.esc]) = d.escapes bs + 1 := by
  simp [escapes]

theorem escapes_snoc {b : α} (hb : b ≠ d.esc) (bs : List α) : d.escapes (bs ++ [b]) = 0 := by
  simp [escapes, hb]

/-- With an escape to count, the last symbol is one. -/
theorem ends_with_esc_of_escapes {bs : List α} (h : d.escapes bs ≠ 0) :
    ∃ front, bs = front ++ [d.esc] := by
  rcases List.eq_nil_or_concat' bs with rfl | ⟨front, b, rfl⟩
  · exact absurd rfl h
  · by_cases hb : b = d.esc
    · exact ⟨front, by rw [hb]⟩
    · exact absurd (d.escapes_snoc hb front) h

inductive Mode where
  | inside
  /-- right after an escape -/
  | escaped
  | closed
deriving DecidableEq, Repr

def step : Mode → α → Mode
  | .inside, b => if d.single b then .closed else if b = d.esc then .escaped else .inside
  | .escaped, b => if b = d.close then .closed else .inside
  | .closed, _ => .closed

def mode (bs : List α) : Mode := bs.foldl d.step .inside

theorem mode_snoc (bs : List α) (b : α) : d.mode (bs ++ [b]) = d.step (d.mode bs) b := by
  rw [mode, List.foldl_append]
  rfl

variable {d}

/-- Before the first end the matcher counts escapes modulo two. -/
theorem mode_of_unended {bs : List α} (h : d.Unended bs) :
    d.mode bs = if Even (d.escapes bs) then .inside else .escaped := by
  induction bs using List.reverseRecOn with
  | nil => rfl
  | append_singleton bs b ih =>
      have hbs := ih (h.front (List.prefix_append bs [b]))
      have hends : ¬ d.Ends (bs ++ [b]) := h _ (List.prefix_refl _)
      rw [ends_snoc, not_or] at hends
      rw [mode_snoc, hbs]
      by_cases hb : b = d.esc
      · -- one escape more
        subst hb
        rw [escapes_snoc_esc]
        by_cases heven : Even (d.escapes bs)
        · rw [if_pos heven, if_neg (Nat.not_even_iff_odd.mpr heven.add_one)]
          simp [step, d.single_esc]
        · rw [if_neg heven, if_pos (Nat.not_even_iff_odd.mp heven).add_one]
          simp [step, d.esc_ne_close]
      · rw [escapes_snoc d hb, if_pos Even.zero]
        by_cases heven : Even (d.escapes bs)
        · rw [if_pos heven]
          simp [step, hends.1, hb]
        · -- `b` follows an escape, so it is not the closing symbol
          rw [if_neg heven]
          have hesc : d.escapes bs ≠ 0 := fun h => heven (by rw [h]; exact Even.zero)
          have hclose : b ≠ d.close := by
            intro hclose
            exact hends.2 ⟨hclose, d.ends_with_esc_of_escapes hesc⟩
          simp [step, hclose]

/-- Before the first end the matcher does not close. -/
theorem mode_ne_closed {bs : List α} (h : d.Unended bs) : d.mode bs ≠ .closed := by
  rw [mode_of_unended h]
  split <;> decide

variable (d)

/-- The matcher is right up to the first end: it closes there and not before. -/
def Finds (bs : List α) : Prop :=
  ∀ front, front <+: bs → (∀ u, u <+: front → u ≠ front → ¬ d.Ends u) →
    (d.mode front = .closed ↔ d.Ends front)

/-- The parity of the escapes right before the first end: odd at a pair, whose escape is
the last of them, and even at a single terminator. -/
def Clean (bs : List α) : Prop :=
  ∀ front b, front ++ [b] <+: bs → d.Unended front → d.Ends (front ++ [b]) →
    if b = d.close then Odd (d.escapes front) else Even (d.escapes front)

/-! All of this can be decided, as a string has finitely many beginnings. -/

instance : DecidablePred d.Ends := fun _ => decidable_of_iff _ ends_iff.symm

instance : DecidablePred d.Unended := fun bs =>
  decidable_of_iff (∀ front ∈ bs.inits, ¬ d.Ends front) (by simp [Unended])

instance : DecidablePred d.Clean := fun bs =>
  decidable_of_iff (∀ front ∈ bs.inits, ∀ b ∈ bs, front ++ [b] <+: bs → d.Unended front →
      d.Ends (front ++ [b]) → if b = d.close then Odd (d.escapes front) else Even (d.escapes front))
    ⟨fun h front b hinit =>
        have hfront : front <+: bs := (List.prefix_append _ _).trans hinit
        h front ((List.mem_inits _ _).mpr hfront) b (hinit.subset (by simp)) hinit,
      fun h front _ b _ => h front b⟩

variable {d}

/-- At the first end. -/
theorem closes_iff {front : List α} {b : α} (h : d.Unended front) (hends : d.Ends (front ++ [b])) :
    d.mode (front ++ [b]) = .closed ↔
      if b = d.close then Odd (d.escapes front) else Even (d.escapes front) := by
  rw [mode_snoc, mode_of_unended h]
  -- the two kinds of ends, and the two states of the matcher at each
  by_cases hclose : b = d.close
  · subst hclose
    rw [if_pos rfl, ← Nat.not_even_iff_odd]
    by_cases heven : Even (d.escapes front)
    · rw [if_pos heven]
      simp [step, d.single_close, heven, d.esc_ne_close.symm]
    · rw [if_neg heven]
      simp [step, heven]
  · have hsingle : d.single b = true := (ends_snoc.mp hends).resolve_right fun h => hclose h.1
    rw [if_neg hclose]
    by_cases heven : Even (d.escapes front)
    · rw [if_pos heven]
      simp [step, hsingle, heven]
    · rw [if_neg heven]
      simp [step, hclose, heven]

/-- The matcher finds the first end exactly if the parity is right there. -/
theorem finds_iff (bs : List α) : d.Finds bs ↔ d.Clean bs := by
  constructor
  · intro hfinds front b hinit hunended hends
    -- the matcher is right at the first end, where it looks at the parity
    rw [← closes_iff hunended hends, hfinds _ hinit]
    · exact hends
    · intro u hu hne
      rcases List.prefix_concat_iff.mp hu with rfl | hu
      · exact absurd rfl hne
      · exact hunended u hu
  · intro hclean front hinit hproper
    rcases List.eq_nil_or_concat' front with rfl | ⟨front, b, rfl⟩
    · exact iff_of_false (mode_ne_closed unended_nil) not_ends_nil
    · -- the matcher has not closed before the last symbol
      have hunended := unended_of_proper hproper
      by_cases hends : d.Ends (front ++ [b])
      · refine iff_of_true ?_ hends
        exact (closes_iff hunended hends).mpr (hclean front b hinit hunended hends)
      · exact iff_of_false (mode_ne_closed (unended_snoc hunended hends)) hends

end Delims
