import K1de.Lib.Fallible

/-! # Stamps and timers

A stamp is a part of a machine's state that holds a reading of a clock: some steps put readings of
their own into it, the others leave it alone. So after a run it holds the last reading that was
put there (`Stamp.last_run`).

A timer is a stamp that gets a new reading only when an interval has passed since the one that it
holds. Then any two readings of a run are at least the interval apart (`Timer.spaced`).

What a timer is for is stated by `reaches_of_due`: if a round of the machine that finds the timer
due reaches a goal, and a round that does not leaves the timer alone, then the goal is reached by
the time the interval has passed on the clock.
-/

namespace Ticker

open Fallible

universe u

variable {σ : Type u} {ε φ : Type*}

/-- A stamp, and the readings that a step puts into it, in order. -/
structure Stamp (step : σ → ε → Except φ σ) where
  last : σ → Int
  readings : σ → ε → List Int
  sets : ∀ s e s', step s e = .ok s' → last s' = (readings s e).getLastD (last s)

namespace Stamp

variable {step : σ → ε → Except φ σ} (S : Stamp step)

/-- The readings of a run. -/
def history (s : σ) (es : List ε) : List Int :=
  (visits step s es).flatMap fun p => S.readings p.1 p.2

theorem history_cons_ok {s s' : σ} {e : ε} (h : step s e = .ok s') (es : List ε) :
    S.history s (e :: es) = S.readings s e ++ S.history s' es := by
  rw [history, visits_cons_ok h, List.flatMap_cons]
  rfl

theorem history_cons_error {s : σ} {e : ε} {f : φ} (h : step s e = .error f) (es : List ε) :
    S.history s (e :: es) = S.readings s e := by
  rw [history, visits_cons_error h, List.flatMap_singleton]

/-- After a run the stamp holds the last reading of it. -/
theorem last_run {s s' : σ} {es : List ε} (h : run step s es = .ok s') :
    S.last s' = (S.history s es).getLastD (S.last s) := by
  induction es generalizing s with
  | nil =>
      cases h
      rfl
  | cons e es ih =>
      obtain ⟨s₁, hs₁, hrest⟩ := of_bind_ok h
      rw [ih hrest, S.history_cons_ok hs₁, S.sets s e s₁ hs₁]
      simp only [List.getLastD_eq_getLast?, List.getLast?_append]
      cases (S.history s₁ es).getLast? <;> rfl

/-- Steps without readings leave the stamp alone. -/
theorem last_run_quiet {s s' : σ} {es : List ε} (h : run step s es = .ok s')
    (hquiet : ∀ e ∈ es, ∀ s, S.readings s e = []) : S.last s' = S.last s := by
  have hnil : S.history s es = [] := by
    refine List.flatMap_eq_nil_iff.mpr ?_
    intro p hp
    exact hquiet p.2 (mem_of_mem_visits hp) p.1
  rw [S.last_run h, hnil]
  rfl

end Stamp

/-- A stamp whose readings are an interval apart. -/
structure Timer (step : σ → ε → Except φ σ) (interval : Int) extends Stamp step where
  due : ∀ s e, (last s :: readings s e).IsChain (fun a b => a + interval ≤ b)

/-- A chain that goes on from its last element. -/
theorem isChain_cons_append {R : Int → Int → Prop} {a : Int} {xs ys : List Int}
    (hxs : (a :: xs).IsChain R) (hys : (xs.getLastD a :: ys).IsChain R) :
    (a :: (xs ++ ys)).IsChain R := by
  induction xs generalizing a with
  | nil => exact hys
  | cons x xs ih =>
      rw [List.isChain_cons_cons] at hxs
      rw [List.cons_append, List.isChain_cons_cons]
      refine ⟨hxs.1, ih hxs.2 ?_⟩
      rw [List.getLastD_cons] at hys
      exact hys

/-- The readings of a run, and the one before it, are at least the interval apart. -/
theorem Timer.spaced {step : σ → ε → Except φ σ} {interval : Int} (T : Timer step interval) (s : σ)
    (es : List ε) :
    (T.last s :: T.history s es).IsChain (fun a b => a + interval ≤ b) := by
  induction es generalizing s with
  | nil => exact List.isChain_singleton _
  | cons e es ih =>
      cases hr : step s e with
      | error f =>
          rw [T.history_cons_error hr]
          exact T.due s e
      | ok s' =>
          rw [T.history_cons_ok hr]
          -- after the step the stamp is the last of its readings, where the rest goes on
          apply isChain_cons_append (T.due s e)
          rw [← T.sets s e s' hr]
          exact ih s'

/-- The goal is reached, and kept, by a run with a round that is an interval after the last reading.
It need not be that round which reaches it: an earlier one may have been due already. -/
theorem reaches_of_due {ι : Type*} {round : σ → ι → Except φ σ} {last : σ → Int} {now : ι → Int}
    {interval : Int} {Inv Goal : σ → Prop} (admissible : ι → Prop)
    (hkeep : ∀ s i s', Inv s → admissible i → round s i = .ok s' → Inv s' ∧ (Goal s → Goal s'))
    (hdue : ∀ s i s', Inv s → admissible i → round s i = .ok s' →
      Goal s' ∨ now i - last s < interval ∧ last s' = last s)
    {s s' : σ} {is : List ι} (hs : Inv s) (his : ∀ i ∈ is, admissible i)
    (h : Goal s ∨ ∃ i ∈ is, now i - last s ≥ interval) (hrun : run round s is = .ok s') :
    Goal s' := by
  induction is generalizing s with
  | nil =>
      cases hrun
      rcases h with h | ⟨i, hi, -⟩
      · exact h
      · cases hi
  | cons i is ih =>
      obtain ⟨s₁, hs₁, hrest⟩ := of_bind_ok hrun
      have hi := his i List.mem_cons_self
      obtain ⟨hinv, hgoal⟩ := hkeep s i s₁ hs hi hs₁
      refine ih hinv (fun j hj => his j (List.mem_cons_of_mem i hj)) ?_ hrest
      rcases h with h | ⟨j, hj, hj'⟩
      · exact Or.inl (hgoal h)
      · rcases hdue s i s₁ hs hi hs₁ with hreached | ⟨hnot, hlast⟩
        · exact Or.inl hreached
        · -- not in this round, so in a later one, as the timer has not moved
          rcases List.mem_cons.mp hj with rfl | hj
          · omega
          · exact Or.inr ⟨j, hj, hlast ▸ hj'⟩

end Ticker
