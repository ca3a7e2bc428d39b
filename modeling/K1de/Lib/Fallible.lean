import Mathlib

/-! # Fallible programs and their runs

A fallible program is a value of `Except φ α`: it returns an `α` or stops with
a fault of type `φ`. This file has the two notions every proof about such
programs needs:

* `Sat r P Q`, the postcondition judgement: if `r` returns, its value satisfies
  `P`; if it stops, its fault satisfies `Q`;
* `run step s es`, the machine that feeds the events `es` to `step` one by one
  and stops at the first fault, with its invariant rule and its simulation rule,
  and `visits step s es`, the steps that such a run takes.
-/

namespace Fallible

universe u

variable {σ α β : Type u} {ε φ : Type*}

/-! ## Computation rules -/

@[simp] theorem ok_bind (a : α) (f : α → Except φ β) : (Except.ok a >>= f) = f a := rfl

@[simp] theorem error_bind (e : φ) (f : α → Except φ β) :
    ((Except.error e : Except φ α) >>= f) = .error e := rfl

/-- A sequence that returns has a first part that returns. -/
theorem of_bind_ok {r : Except φ α} {f : α → Except φ β} {b : β} (h : r >>= f = .ok b) :
    ∃ a, r = .ok a ∧ f a = .ok b := by
  cases r with
  | error e => cases h
  | ok a => exact ⟨a, rfl, h⟩

@[simp] theorem map_ok (a : α) (f : α → β) : f <$> (Except.ok a : Except φ α) = .ok (f a) := rfl

/-! ## Postconditions -/

/-- `P` holds of the result if there is one, `Q` of the fault if there is none. -/
def Sat (r : Except φ α) (P : α → Prop) (Q : φ → Prop) : Prop :=
  match r with
  | .ok a => P a
  | .error e => Q e

@[simp] theorem sat_ok {a : α} {P : α → Prop} {Q : φ → Prop} :
    Sat (.ok a) P Q ↔ P a := Iff.rfl

@[simp] theorem sat_error {e : φ} {P : α → Prop} {Q : φ → Prop} :
    Sat (.error e) P Q ↔ Q e := Iff.rfl

/-- Sequencing: the first part establishes what the second part needs. -/
theorem sat_bind {r : Except φ α} {f : α → Except φ β} {P : β → Prop} {Q : φ → Prop}
    (h : Sat r (fun a => Sat (f a) P Q) Q) : Sat (r >>= f) P Q := by
  cases r with
  | ok a => exact h
  | error e => exact h

/-- Weakening of both postconditions. -/
theorem sat_mono {r : Except φ α} {P P' : α → Prop} {Q Q' : φ → Prop}
    (h : Sat r P Q) (hP : ∀ a, P a → P' a) (hQ : ∀ e, Q e → Q' e) : Sat r P' Q' := by
  cases r with
  | ok a => exact hP a h
  | error e => exact hQ e h

/-- A program without admissible faults returns. -/
theorem exists_ok_of_sat {r : Except φ α} {P : α → Prop}
    (h : Sat r P (fun _ => False)) : ∃ a, r = .ok a ∧ P a := by
  cases r with
  | ok a => exact ⟨a, rfl, h⟩
  | error e => exact h.elim

/-! ## Runs -/

/-- Feeds the events to `step` in order, stopping at the first fault. -/
def run (step : σ → ε → Except φ σ) : σ → List ε → Except φ σ
  | s, [] => .ok s
  | s, e :: es => step s e >>= fun s' => run step s' es

variable {step : σ → ε → Except φ σ}

@[simp] theorem run_nil (s : σ) : run step s [] = .ok s := rfl

@[simp] theorem run_cons (s : σ) (e : ε) (es : List ε) :
    run step s (e :: es) = step s e >>= fun s' => run step s' es := rfl

/-- A run over two lists is a run over the second from where the first has ended. -/
theorem run_append (s : σ) (es fs : List ε) :
    run step s (es ++ fs) = run step s es >>= fun s' => run step s' fs := by
  induction es generalizing s with
  | nil => rfl
  | cons e es ih =>
      rw [List.cons_append, run_cons, run_cons]
      cases step s e with
      | ok s' => exact ih s'
      | error f => rfl

/-- A run over encoded events is a run of the machine that takes one encoded
event per step. -/
theorem run_flatMap {ι : Type*} (enc : ι → List ε) (s : σ) (is : List ι) :
    run step s (is.flatMap enc) = run (fun s i => run step s (enc i)) s is := by
  induction is generalizing s with
  | nil => rfl
  | cons i is ih =>
      rw [List.flatMap_cons, run_append, run_cons]
      cases run step s (enc i) with
      | ok s' => exact ih s'
      | error f => rfl

/-- Invariant induction over a run: if every admissible event takes `Inv` to
`Inv` or to a fault in `Q`, so does every run over admissible events. -/
theorem run_sat {Inv : σ → Prop} {Q : φ → Prop} (admissible : ε → Prop)
    (hstep : ∀ s e, Inv s → admissible e → Sat (step s e) Inv Q)
    (s : σ) (es : List ε) (hs : Inv s) (hes : ∀ e ∈ es, admissible e) :
    Sat (run step s es) Inv Q := by
  induction es generalizing s with
  | nil => exact hs
  | cons e es ih =>
      rw [run_cons]
      apply sat_bind
      have he : Sat (step s e) Inv Q := hstep s e hs (hes e List.mem_cons_self)
      refine sat_mono he (fun s' hs' => ?_) (fun _ hf => hf)
      exact ih s' hs' (fun e' he' => hes e' (List.mem_cons_of_mem e he'))

/-- The same for a run that returns: only the steps that return count. -/
theorem run_keeps {Inv : σ → Prop} (admissible : ε → Prop)
    (hstep : ∀ s e s', Inv s → admissible e → step s e = .ok s' → Inv s')
    {s s' : σ} {es : List ε} (hs : Inv s) (hes : ∀ e ∈ es, admissible e)
    (hrun : run step s es = .ok s') : Inv s' := by
  induction es generalizing s with
  | nil =>
      cases hrun
      exact hs
  | cons e es ih =>
      obtain ⟨s₁, hs₁, hrest⟩ := of_bind_ok hrun
      have hinv : Inv s₁ := hstep s e s₁ hs (hes e List.mem_cons_self) hs₁
      exact ih hinv (fun e' he' => hes e' (List.mem_cons_of_mem e he')) hrest

/-- The steps of a run up to the first fault: each event with the state it meets. -/
def visits (step : σ → ε → Except φ σ) : σ → List ε → List (σ × ε)
  | _, [] => []
  | s, e :: es => (s, e) ::
      match step s e with
      | .ok s' => visits step s' es
      | .error _ => []

theorem visits_cons_ok {s s' : σ} {e : ε} (h : step s e = .ok s') (es : List ε) :
    visits step s (e :: es) = (s, e) :: visits step s' es := by
  rw [visits, h]

theorem visits_cons_error {s : σ} {e : ε} {f : φ} (h : step s e = .error f) (es : List ε) :
    visits step s (e :: es) = [(s, e)] := by
  rw [visits, h]

/-- The steps of a run: an event of it, and the state after the events before. -/
theorem mem_visits_iff {s : σ} {es : List ε} {p : σ × ε} :
    p ∈ visits step s es ↔ ∃ pre post, es = pre ++ p.2 :: post ∧ run step s pre = .ok p.1 := by
  induction es generalizing s with
  | nil =>
      constructor
      · intro hp
        cases hp
      · rintro ⟨pre, post, heq, -⟩
        cases pre <;> cases heq
  | cons e es ih =>
      constructor
      · intro hp
        cases hr : step s e with
        | error f =>
            rw [visits_cons_error hr, List.mem_singleton] at hp
            exact ⟨[], es, by rw [hp]; rfl, by rw [hp]; rfl⟩
        | ok s' =>
            rw [visits_cons_ok hr] at hp
            rcases List.mem_cons.mp hp with rfl | hp
            · exact ⟨[], es, rfl, rfl⟩
            · obtain ⟨pre, post, heq, hrun⟩ := ih.mp hp
              refine ⟨e :: pre, post, by rw [heq]; rfl, ?_⟩
              rw [run_cons, hr, ok_bind]
              exact hrun
      · rintro ⟨pre, post, heq, hrun⟩
        cases pre with
        | nil =>
            cases heq
            cases hrun
            cases hr : step p.1 p.2 with
            | error f =>
                rw [visits_cons_error hr]
                exact List.mem_singleton_self p
            | ok s' =>
                rw [visits_cons_ok hr]
                exact List.mem_cons_self
        | cons e' pre =>
            cases heq
            obtain ⟨s', hr, hrun⟩ := of_bind_ok hrun
            rw [visits_cons_ok hr]
            exact List.mem_cons_of_mem _ (ih.mpr ⟨pre, post, rfl, hrun⟩)

/-- The events of the steps are events of the run. -/
theorem mem_of_mem_visits {s : σ} {es : List ε} {p : σ × ε} (hp : p ∈ visits step s es) :
    p.2 ∈ es := by
  obtain ⟨pre, post, rfl, -⟩ := mem_visits_iff.mp hp
  exact List.mem_append_right pre List.mem_cons_self

theorem mem_visits_head (s : σ) (e : ε) (es : List ε) : (s, e) ∈ visits step s (e :: es) :=
  mem_visits_iff.mpr ⟨[], es, rfl, rfl⟩

/-- The first step, or one for a later event. -/
theorem eq_or_mem_of_mem_visits_cons {s : σ} {e : ε} {es : List ε} {p : σ × ε}
    (hp : p ∈ visits step s (e :: es)) : p = (s, e) ∨ p.2 ∈ es := by
  obtain ⟨pre, post, heq, hrun⟩ := mem_visits_iff.mp hp
  cases pre with
  | nil =>
      cases heq
      cases hrun
      exact Or.inl rfl
  | cons e' pre =>
      cases heq
      exact Or.inr (List.mem_append_right pre List.mem_cons_self)

/-- A run that returns has a step for every event. -/
theorem flatMap_visits {κ : Type*} {s s' : σ} {es : List ε} (h : run step s es = .ok s')
    (f : ε → List κ) : (visits step s es).flatMap (fun v => f v.2) = es.flatMap f := by
  induction es generalizing s with
  | nil => rfl
  | cons e es ih =>
      obtain ⟨s₁, hs₁, hrest⟩ := of_bind_ok h
      rw [visits_cons_ok hs₁, List.flatMap_cons, List.flatMap_cons, ih hrest]

/-- A run that returns, and what follows it. -/
theorem visits_append {s s₁ : σ} {es : List ε} (h : run step s es = .ok s₁) (fs : List ε) :
    visits step s (es ++ fs) = visits step s es ++ visits step s₁ fs := by
  induction es generalizing s with
  | nil =>
      cases h
      rfl
  | cons e es ih =>
      obtain ⟨s₂, hs₂, hrest⟩ := of_bind_ok h
      rw [List.cons_append, visits_cons_ok hs₂, visits_cons_ok hs₂, ih hrest, List.cons_append]

/-- Invariant induction over the steps of a run that all satisfy `C`. -/
theorem visits_inv {Inv : σ → Prop} {C : σ → ε → Prop}
    (hstep : ∀ s e s', Inv s → C s e → step s e = .ok s' → Inv s')
    (s : σ) (es : List ε) (hs : Inv s) (hC : ∀ p ∈ visits step s es, C p.1 p.2) :
    ∀ p ∈ visits step s es, Inv p.1 := by
  induction es generalizing s with
  | nil =>
      intro p hp
      cases hp
  | cons e es ih =>
      -- a step that faults is the last one, and `Inv` holds before it
      cases hr : step s e with
      | error f =>
          rw [visits_cons_error hr] at hC ⊢
          intro p hp
          rw [List.mem_singleton.mp hp]
          exact hs
      | ok s' =>
          rw [visits_cons_ok hr] at hC ⊢
          have hs' : Inv s' := hstep s e s' hs (hC (s, e) List.mem_cons_self) hr
          intro p hp
          rcases List.mem_cons.mp hp with rfl | hp
          · exact hs
          · exact ih s' hs' (fun q hq => hC q (List.mem_cons_of_mem _ hq)) p hp

/-- If from `Inv` states a step is good exactly when it satisfies `C`, and good
steps keep `Inv`, then all steps of a run are good exactly when they all satisfy
`C`. -/
theorem visits_iff {Inv : σ → Prop} {Good C : σ → ε → Prop}
    (hgood : ∀ s e, Inv s → (Good s e ↔ C s e))
    (hstep : ∀ s e s', Inv s → Good s e → step s e = .ok s' → Inv s')
    (s : σ) (es : List ε) (hs : Inv s) :
    (∀ p ∈ visits step s es, Good p.1 p.2) ↔ ∀ p ∈ visits step s es, C p.1 p.2 := by
  constructor
  · intro h p hp
    exact (hgood p.1 p.2 (visits_inv hstep s es hs h p hp)).mp (h p hp)
  · intro h p hp
    have hinv := visits_inv (fun s e s' hi hC => hstep s e s' hi ((hgood s e hi).mpr hC)) s es hs h
    exact (hgood p.1 p.2 (hinv p hp)).mpr (h p hp)

/-- Refinement of runs: if `abs` maps every step from a `Good` state to a step of
the abstract machine, and steps keep `Good`, then it maps runs to runs. Faults
are part of the outcome, so the two machines also fail together. -/
theorem run_refines {τ : Type u} {astep : τ → ε → Except φ τ} (abs : σ → τ) (Good : σ → Prop)
    (hstep : ∀ s e, Good s → abs <$> step s e = astep (abs s) e)
    (hgood : ∀ s e, Good s → Sat (step s e) Good (fun _ => True))
    (s : σ) (es : List ε) (hs : Good s) :
    abs <$> run step s es = run astep (abs s) es := by
  induction es generalizing s with
  | nil => rfl
  | cons e es ih =>
      have habs := hstep s e hs
      have hkeep := hgood s e hs
      rw [run_cons, run_cons, ← habs]
      cases hr : step s e with
      | error f => rfl
      | ok s' =>
          rw [hr] at hkeep
          exact ih s' hkeep

/-- Refinement with events of its own: if every step that returns is matched by a run of the
abstract machine over the events that it emits, none or many, so is every run. -/
theorem run_emits {τ : Type*} {κ ψ : Type*} {astep : τ → κ → Except ψ τ} (abs : σ → τ)
    (emit : σ → ε → List κ)
    (hstep : ∀ s e s', step s e = .ok s' → run astep (abs s) (emit s e) = .ok (abs s'))
    {s s' : σ} {es : List ε} (h : run step s es = .ok s') :
    run astep (abs s) ((visits step s es).flatMap fun p => emit p.1 p.2) = .ok (abs s') := by
  induction es generalizing s with
  | nil =>
      cases h
      rfl
  | cons e es ih =>
      obtain ⟨s₁, hs₁, hrest⟩ := of_bind_ok h
      rw [visits_cons_ok hs₁, List.flatMap_cons, run_append, hstep s e s₁ hs₁, ok_bind]
      exact ih hrest

/-- The same for a machine on the same states whose steps are runs of a finer one: the faults agree
as well. -/
theorem run_expand {κ : Type*} {fine : σ → κ → Except φ σ} (emit : σ → ε → List κ)
    (hstep : ∀ s e, step s e = run fine s (emit s e)) (s : σ) (es : List ε) :
    run step s es = run fine s ((visits step s es).flatMap fun p => emit p.1 p.2) := by
  induction es generalizing s with
  | nil => rfl
  | cons e es ih =>
      cases hs : step s e with
      | error f =>
          rw [visits_cons_error hs, run_cons, hs, List.flatMap_singleton, ← hstep s e, hs]
          rfl
      | ok s' =>
          rw [visits_cons_ok hs, List.flatMap_cons, run_append, ← hstep s e, run_cons, hs, ok_bind,
            ok_bind]
          exact ih s'

/-- Where every step is a run of another machine, the steps of that machine are those of the runs,
one after the other. -/
theorem visits_emits {τ : Type*} {κ ψ : Type*} {astep : τ → κ → Except ψ τ} (abs : σ → τ)
    (emit : σ → ε → List κ)
    (hstep : ∀ s e s', step s e = .ok s' → run astep (abs s) (emit s e) = .ok (abs s'))
    {s s' : σ} {es : List ε} (h : run step s es = .ok s') :
    visits astep (abs s) ((visits step s es).flatMap fun p => emit p.1 p.2) =
      (visits step s es).flatMap fun p => visits astep (abs p.1) (emit p.1 p.2) := by
  induction es generalizing s with
  | nil => rfl
  | cons e es ih =>
      obtain ⟨s₁, hs₁, hrest⟩ := of_bind_ok h
      rw [visits_cons_ok hs₁, List.flatMap_cons, List.flatMap_cons,
        visits_append (hstep s e s₁ hs₁), ih hrest]

end Fallible
