import Mathlib

/-! # Programs that keep their state when they fail

A program of type `Prog σ ε α` changes a state of type `σ` and returns an `α` or
fails with an `ε`; a failure does not undo what was done before it. `Post p s P Q`
is its postcondition judgement: run from `s`, a result and the state it is
returned in satisfy `P`, an error and the state it is raised in satisfy `Q`.
-/

namespace Effect

/-- A program over a state `σ` with errors `ε`. -/
abbrev Prog (σ ε : Type) := ExceptT ε (StateM σ)

variable {σ ε α β : Type}

/-- Runs a program from a state. -/
def exec (p : Prog σ ε α) (s : σ) : Except ε α × σ := p s

/-- Runs a program and returns its outcome, a failure too. -/
def attempt (p : Prog σ ε α) : Prog σ ε (Except ε α) := fun s => (.ok (exec p s).1, (exec p s).2)

/-! ## Computation rules -/

/-- After a result the second program runs in the state that the first has left. -/
theorem exec_bind_ok {p : Prog σ ε α} {f : α → Prog σ ε β} {s s' : σ} {a : α}
    (h : exec p s = (.ok a, s')) : exec (p >>= f) s = exec (f a) s' := by
  have hp : p s = (.ok a, s') := h
  show (StateT.bind p (ExceptT.bindCont f)) s = exec (f a) s'
  simp only [StateT.bind]
  rw [hp]
  rfl

/-- After a failure it does not run, and what was done stays done. -/
theorem exec_bind_error {p : Prog σ ε α} {f : α → Prog σ ε β} {s s' : σ} {e : ε}
    (h : exec p s = (.error e, s')) : exec (p >>= f) s = (.error e, s') := by
  have hp : p s = (.error e, s') := h
  show (StateT.bind p (ExceptT.bindCont f)) s = (.error e, s')
  simp only [StateT.bind]
  rw [hp]
  rfl

theorem exec_get_bind (f : σ → Prog σ ε β) (s : σ) : exec (get >>= f) s = exec (f s) s := rfl

/-! ## Postconditions -/

def Post (p : Prog σ ε α) (s : σ) (P : α → σ → Prop) (Q : ε → σ → Prop) : Prop :=
  match exec p s with
  | (.ok a, s') => P a s'
  | (.error e, s') => Q e s'

section

variable {p : Prog σ ε α} {s s' : σ} {P P' : α → σ → Prop} {Q Q' : ε → σ → Prop}

theorem post_of_ok {a : α} (h : exec p s = (.ok a, s')) : Post p s P Q ↔ P a s' := by
  rw [Post, h]

theorem post_of_error {e : ε} (h : exec p s = (.error e, s')) : Post p s P Q ↔ Q e s' := by
  rw [Post, h]

theorem post_pure {a : α} (h : P a s) : Post (pure a : Prog σ ε α) s P Q := h

theorem post_get {P : σ → σ → Prop} (h : P s s) : Post (get : Prog σ ε σ) s P Q := h

theorem post_modify {P : PUnit → σ → Prop} {f : σ → σ} (h : P ⟨⟩ (f s)) :
    Post (modify f : Prog σ ε PUnit) s P Q := h

/-- Sequencing: the first part establishes what the second part needs. -/
theorem post_bind {f : α → Prog σ ε β} {P : β → σ → Prop}
    (h : Post p s (fun a s' => Post (f a) s' P Q) Q) : Post (p >>= f) s P Q := by
  rcases hp : exec p s with ⟨r, s'⟩
  cases r with
  | ok a =>
      rw [Post, exec_bind_ok hp]
      exact (post_of_ok hp).mp h
  | error e =>
      rw [Post, exec_bind_error hp]
      exact (post_of_error hp).mp h

/-- Weakening of both postconditions. -/
theorem post_mono (h : Post p s P Q) (hP : ∀ a s', P a s' → P' a s')
    (hQ : ∀ e s', Q e s' → Q' e s') : Post p s P' Q' := by
  rcases hp : exec p s with ⟨r, s'⟩
  cases r with
  | ok a => exact (post_of_ok hp).mpr (hP a s' ((post_of_ok hp).mp h))
  | error e => exact (post_of_error hp).mpr (hQ e s' ((post_of_error hp).mp h))

/-- A relation on outcomes, as a postcondition. -/
theorem post_iff_rel {R : Except ε α → σ → Prop} :
    Post p s (fun a s' => R (.ok a) s') (fun e s' => R (.error e) s') ↔
      R (exec p s).1 (exec p s).2 := by
  rcases hp : exec p s with ⟨r, s'⟩
  cases r with
  | ok a => exact post_of_ok hp
  | error e => exact post_of_error hp

end

end Effect
