import K1de.Lib.Fallible

/-! # Queues along a run

A machine whose steps take from the front of a queue and put behind its end. What one step does to
the queue is an equation of lists: what waited and what arrives is what is served and what waits
then. `run_conserves` says the same of a whole run, so nothing is lost, doubled or overtaken, and
`run_serves` that nothing waits longer than its place in the queue, if no step leaves a queue
untouched in which something waits.
-/

namespace Queue

open Fallible

variable {σ ε φ α : Type*} {step : σ → ε → Except φ σ} {queue : σ → List α}
  {arrive serve : σ → ε → List α} {Good : σ → ε → Prop}

/-- Over a run: what waited and what has arrived since is what was served, in this order, and what
waits now. -/
theorem run_conserves
    (hstep : ∀ s e s', Good s e → step s e = .ok s' →
      queue s ++ arrive s e = serve s e ++ queue s')
    {s s' : σ} {es : List ε} (hgood : ∀ v ∈ visits step s es, Good v.1 v.2)
    (h : run step s es = .ok s') :
    queue s ++ (visits step s es).flatMap (fun v => arrive v.1 v.2) =
      (visits step s es).flatMap (fun v => serve v.1 v.2) ++ queue s' := by
  induction es generalizing s with
  | nil =>
      cases h
      exact List.append_nil _
  | cons e es ih =>
      obtain ⟨s₁, hs₁, hrest⟩ := of_bind_ok h
      rw [visits_cons_ok hs₁] at hgood ⊢
      rw [List.flatMap_cons, List.flatMap_cons, ← List.append_assoc,
        hstep s e s₁ (hgood _ List.mem_cons_self) hs₁, List.append_assoc, List.append_assoc,
        ih (fun v hv => hgood v (List.mem_cons_of_mem _ hv)) hrest]

/-- What waits first is served first: a beginning of the queue of length `n` within `n` steps,
whatever arrives. -/
theorem run_serves
    (hstep : ∀ s e s', Good s e → step s e = .ok s' →
      queue s ++ arrive s e = serve s e ++ queue s')
    (hserve : ∀ s e s', Good s e → step s e = .ok s' → queue s ≠ [] → serve s e ≠ [])
    {s s' : σ} {es : List ε} (hgood : ∀ v ∈ visits step s es, Good v.1 v.2)
    (h : run step s es = .ok s') {w : List α} (hw : w <+: queue s)
    (hlen : w.length ≤ es.length) :
    w <+: (visits step s es).flatMap fun v => serve v.1 v.2 := by
  induction es generalizing s w with
  | nil =>
      rw [List.eq_nil_of_length_eq_zero (Nat.le_zero.mp hlen)]
      exact List.nil_prefix
  | cons e es ih =>
      obtain ⟨s₁, hs₁, hrest⟩ := of_bind_ok h
      rw [visits_cons_ok hs₁] at hgood ⊢
      have hhead := hgood _ List.mem_cons_self
      have hqueue := hstep s e s₁ hhead hs₁
      have hw' : w <+: serve s e ++ queue s₁ := hqueue ▸ hw.trans (List.prefix_append _ _)
      rw [List.flatMap_cons]
      rcases List.prefix_or_prefix_of_prefix hw' (List.prefix_append _ _) with hshort | ⟨v, rfl⟩
      · exact hshort.trans (List.prefix_append _ _)
      · -- what is left of `w` waits at the front, and is shorter
        have hv : v <+: queue s₁ := (List.prefix_append_right_inj _).mp hw'
        refine (List.prefix_append_right_inj _).mpr
          (ih (fun v hv => hgood v (List.mem_cons_of_mem _ hv)) hrest hv ?_)
        rw [List.length_append, List.length_cons] at hlen
        by_cases hempty : queue s = []
        · -- nothing waited, so `w` is empty and there is nothing left to serve
          rw [hempty, List.prefix_nil, List.append_eq_nil_iff] at hw
          rw [hw.2]
          exact Nat.zero_le _
        · have hpos := List.length_pos_iff.mpr (hserve s e s₁ hhead hs₁ hempty)
          omega

end Queue
