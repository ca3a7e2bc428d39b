import K1de.Lib.Effect

/-! # Programs that obey a protocol

A program talks to another party through calls, and the other party keeps objects. Which calls
are allowed, and what they do to the objects, is a labelled transition system
(`Interface.allowed`); every call is logged. `Trace` is a run of the transition system.

`Obeys I Inv p` says of a program that, started where `Inv` holds, it makes only allowed calls,
each in the state of the objects that the calls before have left, and ends where `Inv` holds.
There is a rule for each way of putting programs together, so a program obeys the protocol if its
calls do.
-/

namespace Protocol

open Effect

/-- A run of a labelled transition system. -/
inductive Trace {τ κ : Type} (allowed : τ → κ → τ → Prop) : τ → List κ → τ → Prop where
  | nil (t : τ) : Trace allowed t [] t
  | cons {t t' t'' : τ} {k : κ} {ks : List κ} (hk : allowed t k t')
      (hks : Trace allowed t' ks t'') : Trace allowed t (k :: ks) t''

section

variable {τ κ : Type} {allowed : τ → κ → τ → Prop} {t t' t'' : τ} {k : κ} {ks ks' : List κ}

/-- Two runs, the second from where the first has ended. -/
theorem Trace.append (h : Trace allowed t ks t') (h' : Trace allowed t' ks' t'') :
    Trace allowed t (ks ++ ks') t'' := by
  induction h with
  | nil => exact h'
  | cons hk _ ih => exact .cons hk (ih h')

theorem Trace.single (h : allowed t k t') : Trace allowed t [k] t' :=
  .cons h (.nil t')

/-- Calls that leave the objects alone, in any number and order. -/
theorem Trace.idle (h : ∀ k ∈ ks, allowed t k t) : Trace allowed t ks t := by
  induction ks with
  | nil => exact .nil t
  | cons k ks ih =>
      obtain ⟨hk, hks⟩ := List.forall_mem_cons.mp h
      exact .cons hk (ih hks)

end

/-- The calls that a program can make: the objects that the other party keeps, the log, and which
calls are allowed. -/
structure Interface (σ τ κ : Type) where
  objects : σ → τ
  log : σ → List κ
  allowed : τ → κ → τ → Prop

section

variable {σ τ κ ε α β : Type} {I : Interface σ τ κ} {s s' s'' : σ}

/-- From `s` to `s'` there were only allowed calls. -/
def Follows (I : Interface σ τ κ) (s s' : σ) : Prop :=
  ∃ ks, I.log s' = I.log s ++ ks ∧ Trace I.allowed (I.objects s) ks (I.objects s')

theorem Follows.refl (s : σ) : Follows I s s := ⟨[], (List.append_nil _).symm, .nil _⟩

/-- Allowed calls after allowed calls. -/
theorem Follows.trans (h : Follows I s s') (h' : Follows I s' s'') : Follows I s s'' := by
  obtain ⟨ks, hlog, htrace⟩ := h
  obtain ⟨ks', hlog', htrace'⟩ := h'
  refine ⟨ks ++ ks', ?_, htrace.append htrace'⟩
  rw [hlog', hlog, List.append_assoc]

/-- A step without calls. -/
theorem Follows.of_eq (hlog : I.log s' = I.log s) (hobjects : I.objects s' = I.objects s) :
    Follows I s s' := by
  refine ⟨[], ?_, ?_⟩
  · rw [hlog, List.append_nil]
  · rw [hobjects]
    exact .nil _

/-- A single call. -/
theorem Follows.call {k : κ} (hlog : I.log s' = I.log s ++ [k])
    (h : I.allowed (I.objects s) k (I.objects s')) : Follows I s s' :=
  ⟨[k], hlog, .single h⟩

/-- A whole history, from the first call on. -/
theorem Follows.trace {t : τ} (h : Follows I s s')
    (hs : Trace I.allowed t (I.log s) (I.objects s)) :
    Trace I.allowed t (I.log s') (I.objects s') := by
  obtain ⟨ks, hlog, htrace⟩ := h
  rw [hlog]
  exact hs.append htrace

def Obeys (I : Interface σ τ κ) (Inv : σ → Prop) (p : Prog σ ε α) : Prop :=
  ∀ s, Inv s → Follows I s (exec p s).2 ∧ Inv (exec p s).2

variable {Inv : σ → Prop}

theorem obeys_pure (a : α) : Obeys I Inv (pure a : Prog σ ε α) :=
  fun s hs => ⟨Follows.refl s, hs⟩

/-- In a sequence the second program starts where the first has ended, so each keeps to the protocol
from the objects that it finds. -/
theorem Obeys.bind {p : Prog σ ε α} {f : α → Prog σ ε β} (hp : Obeys I Inv p)
    (hf : ∀ a, Obeys I Inv (f a)) : Obeys I Inv (p >>= f) := by
  intro s hs
  obtain ⟨hfollows, hinv⟩ := hp s hs
  rcases hexec : exec p s with ⟨r, s'⟩
  rw [hexec] at hfollows hinv
  cases r with
  | error e =>
      rw [exec_bind_error hexec]
      exact ⟨hfollows, hinv⟩
  | ok a =>
      rw [exec_bind_ok hexec]
      obtain ⟨hfollows', hinv'⟩ := hf a s' hinv
      exact ⟨hfollows.trans hfollows', hinv'⟩

/-- A program that looks at the state. -/
theorem obeys_get_bind {f : σ → Prog σ ε β} (hf : ∀ s, Obeys I Inv (f s)) :
    Obeys I Inv (get >>= f) :=
  fun s hs => hf s s hs

/-- A change of the program's own state. -/
theorem obeys_modify {f : σ → σ} (hlog : ∀ s, I.log (f s) = I.log s)
    (hobjects : ∀ s, I.objects (f s) = I.objects s) (hinv : ∀ s, Inv s → Inv (f s)) :
    Obeys I Inv (modify f : Prog σ ε PUnit) :=
  fun s hs => ⟨Follows.of_eq (hlog s) (hobjects s), hinv s hs⟩

end

end Protocol
