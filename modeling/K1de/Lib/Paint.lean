import K1de.Lib.Vec

/-! # Painting a buffer

A painting program writes elements into a buffer. `Paints f` says that what `f`
writes where, and whether it fails, depends on the length of the buffer alone,
not on what is in it. Such programs compose, and painting twice is painting once
(`Paints.again`).

`Traces put n ws f` says which writes: on buffers of `n` elements `f` does those of
the list `ws`, one after the other. A trace that is all in range is a program that
does not fail (`Paint.foldlM_ok_iff`).
-/

namespace Paint

open Fallible

variable {α ι φ : Type}

/-! ## Overlays -/

/-- The buffer with the elements that `m` names put over its own. -/
def overlay (m : Nat → Option α) (buf : List α) : List α :=
  buf.mapIdx fun i x => (m i).getD x

@[simp] theorem length_overlay (m : Nat → Option α) (buf : List α) :
    (overlay m buf).length = buf.length := by
  simp [overlay]

/-- An overlay position by position. -/
theorem getElem?_overlay (m : Nat → Option α) (buf : List α) (i : Nat) :
    (overlay m buf)[i]? = buf[i]?.map fun x => (m i).getD x := by
  simp [overlay]

theorem overlay_none (buf : List α) : overlay (fun _ => none) buf = buf := by
  apply List.ext_getElem?
  intro i
  rw [getElem?_overlay]
  simp

/-- Of two overlays the later one wins. -/
theorem overlay_overlay (m n : Nat → Option α) (buf : List α) :
    overlay n (overlay m buf) = overlay (fun i => (n i).or (m i)) buf := by
  apply List.ext_getElem?
  intro i
  rw [getElem?_overlay, getElem?_overlay, getElem?_overlay, Option.map_map]
  congr 1
  funext x
  cases n i <;> rfl

/-- The same overlay twice is the overlay. -/
theorem overlay_again (m : Nat → Option α) (buf : List α) :
    overlay m (overlay m buf) = overlay m buf := by
  rw [overlay_overlay]
  congr 1
  funext i
  cases m i <;> rfl

/-- A run of writes is an overlay. -/
theorem splice_eq_overlay {v w : List α} {i : Nat} (h : i + w.length ≤ v.length) :
    Vec.splice v i w =
      overlay (fun j => if i ≤ j ∧ j < i + w.length then w[j - i]? else none) v := by
  apply List.ext_getElem?
  intro j
  rw [Vec.getElem?_splice h, getElem?_overlay]
  by_cases hj : i ≤ j ∧ j < i + w.length
  · have hw : j - i < w.length := by omega
    have hv : j < v.length := by omega
    simp [hj, hw, hv]
  · simp [hj]

/-! ## Painting programs -/

/-- For buffers of one length `f` always puts down the same overlay, or always
fails in the same way. -/
def Paints (f : List α → Except φ (List α)) : Prop :=
  ∀ n, (∃ m, ∀ buf, buf.length = n → f buf = .ok (overlay m buf)) ∨
    ∃ e, ∀ buf, buf.length = n → f buf = .error e

section

variable {f g : List α → Except φ (List α)}

/-- Painting keeps the length of the buffer. -/
theorem Paints.length_eq (h : Paints f) {buf buf' : List α} (hf : f buf = .ok buf') :
    buf'.length = buf.length := by
  rcases h buf.length with ⟨m, hm⟩ | ⟨e, he⟩
  · rw [hm buf rfl] at hf
    cases hf
    exact length_overlay m buf
  · rw [he buf rfl] at hf
    cases hf

/-- Painting again changes nothing. -/
theorem Paints.again (h : Paints f) {buf buf' : List α} (hf : f buf = .ok buf') :
    f buf' = .ok buf' := by
  have hlen := h.length_eq hf
  rcases h buf.length with ⟨m, hm⟩ | ⟨e, he⟩
  · rw [hm buf rfl] at hf
    cases hf
    rw [hm _ hlen, overlay_again]
  · rw [he buf rfl] at hf
    cases hf

theorem paints_id : Paints (fun buf : List α => (.ok buf : Except φ (List α))) := by
  intro n
  refine Or.inl ⟨fun _ => none, ?_⟩
  intro buf _
  rw [overlay_none]

theorem paints_error (e : φ) : Paints (fun _ : List α => (.error e : Except φ (List α))) :=
  fun _ => Or.inr ⟨e, fun _ _ => rfl⟩

/-- One program after the other: the second finds a buffer of the same length. -/
theorem Paints.bind (hf : Paints f) (hg : Paints g) : Paints fun buf => f buf >>= g := by
  intro n
  rcases hf n with ⟨m, hm⟩ | ⟨e, he⟩
  · rcases hg n with ⟨m', hm'⟩ | ⟨e', he'⟩
    · refine Or.inl ⟨fun i => (m' i).or (m i), ?_⟩
      intro buf hlen
      dsimp only
      rw [hm buf hlen, ok_bind, hm' _ (by rw [length_overlay, hlen]), overlay_overlay]
    · refine Or.inr ⟨e', ?_⟩
      intro buf hlen
      dsimp only
      rw [hm buf hlen, ok_bind, he' _ (by rw [length_overlay, hlen])]
  · refine Or.inr ⟨e, ?_⟩
    intro buf hlen
    dsimp only
    rw [he buf hlen, error_bind]

/-- A program that looks at the length of the buffer. -/
theorem paints_length {F : Nat → List α → Except φ (List α)} (h : ∀ n, Paints (F n)) :
    Paints fun buf => F buf.length buf := by
  intro n
  rcases h n n with ⟨m, hm⟩ | ⟨e, he⟩
  · refine Or.inl ⟨m, ?_⟩
    rintro buf rfl
    exact hm buf rfl
  · refine Or.inr ⟨e, ?_⟩
    rintro buf rfl
    exact he buf rfl

/-- A choice that does not depend on the buffer. -/
theorem Paints.ite (c : Prop) [Decidable c] (hf : Paints f) (hg : Paints g) :
    Paints fun buf => if c then f buf else g buf := by
  by_cases hc : c
  · simpa only [if_pos hc] using hf
  · simpa only [if_neg hc] using hg

/-- A value computed without the buffer, and a program that uses it. -/
theorem Paints.read {β : Type} {r : Except φ β} {k : β → List α → Except φ (List α)}
    (hk : ∀ b, Paints (k b)) : Paints fun buf => r >>= fun b => k b buf := by
  cases r with
  | ok b => exact hk b
  | error e => exact paints_error e

/-- A loop. -/
theorem paints_foldlM {body : List α → ι → Except φ (List α)} (h : ∀ i, Paints (body · i))
    (is : List ι) : Paints fun buf => is.foldlM body buf := by
  induction is with
  | nil => exact paints_id
  | cons i is ih => exact (h i).bind ih

/-- A loop that breaks where `stop`, which looks at the length only, says so. -/
def untilM (stop : Nat → ι → Bool) (body : List α → ι → Except φ (List α)) :
    List ι → List α → Except φ (List α)
  | [], buf => .ok buf
  | i :: is, buf => if stop buf.length i then .ok buf else body buf i >>= untilM stop body is

/-- A loop with a break. -/
theorem paints_untilM {stop : Nat → ι → Bool} {body : List α → ι → Except φ (List α)}
    (h : ∀ i, Paints (body · i)) (is : List ι) : Paints (untilM stop body is) := by
  induction is with
  | nil => exact paints_id
  | cons i is ih =>
      exact paints_length fun n => Paints.ite (stop n i = true) paints_id ((h i).bind ih)

end

/-- Copying a slice paints: it is in range or not, whatever the buffer holds. -/
theorem paints_copySlice (i : Nat) (w : List α) :
    Paints fun buf => Vec.copySlice buf i w := by
  intro n
  by_cases h : i + w.length ≤ n
  · refine Or.inl ⟨fun j => if i ≤ j ∧ j < i + w.length then w[j - i]? else none, ?_⟩
    rintro buf rfl
    dsimp only
    rw [Vec.copySlice, if_pos h, splice_eq_overlay h]
  · refine Or.inr ⟨.sliceOutOfRange, ?_⟩
    rintro buf rfl
    dsimp only
    rw [Vec.copySlice, if_neg h]

/-- It succeeds where there is room. -/
theorem copySlice_ok_iff {v w : List α} {i : Nat} :
    (∃ v', Vec.copySlice v i w = .ok v') ↔ i + w.length ≤ v.length := by
  unfold Vec.copySlice
  split <;> simp_all

/-! ## Traces -/

section

variable {ω : Type} {put : List α → ω → Except φ (List α)} {n : Nat} {ws ws' : List ω}
  {f g : List α → Except φ (List α)}

/-- On buffers of `n` elements `f` does the writes of `ws`. -/
def Traces (put : List α → ω → Except φ (List α)) (n : Nat) (ws : List ω)
    (f : List α → Except φ (List α)) : Prop :=
  ∀ buf, buf.length = n → f buf = ws.foldlM put buf

theorem traces_id : Traces put n [] (fun buf => .ok buf) :=
  fun _ _ => rfl

theorem traces_put (w : ω) : Traces put n [w] (put · w) := by
  intro buf _
  show put buf w = put buf w >>= pure
  rw [bind_pure]

/-- A loop that makes one write in each turn. -/
theorem traces_map (w : ι → ω) (is : List ι) :
    Traces put n (is.map w) fun buf => is.foldlM (fun buf i => put buf (w i)) buf := by
  intro buf _
  rw [List.foldlM_map]

/-- Whether a painting program fails is a question of the length. -/
theorem Paints.ok_iff (h : Paints f) {a b : List α} (hlen : a.length = b.length) :
    (∃ r, f a = .ok r) ↔ ∃ r, f b = .ok r := by
  rcases h b.length with ⟨m, hm⟩ | ⟨e, he⟩
  · rw [hm a hlen, hm b rfl]
    exact ⟨fun _ => ⟨_, rfl⟩, fun _ => ⟨_, rfl⟩⟩
  · rw [he a hlen, he b rfl]

variable (hput : ∀ w, Paints (put · w))

include hput

/-- The writes of one program after the other. -/
theorem Traces.bind (hf : Traces put n ws f) (hg : Traces put n ws' g) :
    Traces put n (ws ++ ws') fun buf => f buf >>= g := by
  intro buf hbuf
  dsimp only
  rw [List.foldlM_append, hf buf hbuf]
  cases h : ws.foldlM put buf with
  | error e => rfl
  | ok buf' =>
      -- the writes of the first program leave a buffer of the same length
      have hlen : buf'.length = buf.length := (paints_foldlM hput ws).length_eq h
      exact hg buf' (hlen.trans hbuf)

/-- The writes of a loop, turn by turn. -/
theorem traces_foldlM {body : List α → ι → Except φ (List α)} {tr : ι → List ω} {is : List ι}
    (h : ∀ i ∈ is, Traces put n (tr i) (body · i)) :
    Traces put n (is.flatMap tr) fun buf => is.foldlM body buf := by
  induction is with
  | nil => exact traces_id
  | cons i is ih =>
      rw [List.flatMap_cons]
      exact Traces.bind hput (h i List.mem_cons_self)
        (ih fun j hj => h j (List.mem_cons_of_mem i hj))

/-- The turns before the break. -/
theorem traces_untilM {stop : Nat → ι → Bool} {body : List α → ι → Except φ (List α)}
    {tr : ι → List ω} {is : List ι} (h : ∀ i ∈ is, Traces put n (tr i) (body · i)) :
    Traces put n ((is.takeWhile fun i => !stop n i).flatMap tr) (untilM stop body is) := by
  induction is with
  | nil => exact traces_id
  | cons i is ih =>
      intro buf hbuf
      rw [untilM, hbuf]
      cases hstop : stop n i with
      | true =>
          rw [if_pos rfl, List.takeWhile_cons_of_neg (by simp [hstop])]
          rfl
      | false =>
          have hrest := ih fun j hj => h j (List.mem_cons_of_mem i hj)
          have hbind := Traces.bind hput (h i List.mem_cons_self) hrest buf hbuf
          rw [List.takeWhile_cons_of_pos (by simp [hstop])]
          exact hbind

/-- A run of writes fails if and only if one of them does. -/
theorem foldlM_ok_iff (ws : List ω) (buf : List α) :
    (∃ r, ws.foldlM put buf = .ok r) ↔ ∀ w ∈ ws, ∃ r, put buf w = .ok r := by
  induction ws generalizing buf with
  | nil => simp [pure, Except.pure]
  | cons w ws ih =>
      rw [List.foldlM_cons, List.forall_mem_cons]
      cases h : put buf w with
      | error e => simp [error_bind]
      | ok buf' =>
          -- the first write leaves the length as it is
          have hlen : buf'.length = buf.length := (hput w).length_eq h
          rw [ok_bind, ih]
          have hsame : ∀ w', (∃ r, put buf' w' = .ok r) ↔ ∃ r, put buf w' = .ok r :=
            fun w' => (hput w').ok_iff hlen
          simp [hsame]

end

/-- The turns that a loop over `0..n` makes before a condition fails that, once it
fails, fails for the rest. -/
theorem mem_takeWhile_range {p : Nat → Bool} {n : Nat}
    (hp : ∀ i j, i ≤ j → j < n → p j = true → p i = true) {i : Nat} :
    i ∈ (List.range n).takeWhile p ↔ i < n ∧ p i = true := by
  constructor
  · intro hi
    exact ⟨List.mem_range.mp ((List.takeWhile_sublist p).mem hi), List.mem_takeWhile_imp hi⟩
  · rintro ⟨hi, hpi⟩
    have hsplit : List.range n =
        List.range (i + 1) ++ (List.range (n - (i + 1))).map (i + 1 + ·) := by
      rw [← List.range_add]
      congr 1
      omega
    have hall : ∀ j ∈ List.range (i + 1), p j = true := by
      intro j hj
      have hj := List.mem_range.mp hj
      exact hp j i (by omega) hi hpi
    rw [hsplit, List.takeWhile_append_of_pos hall]
    exact List.mem_append_left _ (List.mem_range.mpr (Nat.lt_succ_self i))

end Paint
