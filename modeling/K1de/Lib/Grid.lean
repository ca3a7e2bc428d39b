import K1de.Lib.Vec

/-! # Grids stored row by row

A grid of `cols` columns is stored in a list, one row after the other. `read` gives the place of a
row and a column; around the stored places lies an endless margin of a default element. With the
margin in the picture, clearing and scrolling have simple descriptions: a slice that is cleared is
a region of the default element, and to scroll is to look one row further down.
-/

namespace Grid

variable {α : Type}

/-- The element at row `r` and column `c`, and `x` where nothing is stored. -/
def read (x : α) (cols : Nat) (v : List α) (r c : Nat) : α :=
  if c < cols then v[r * cols + c]?.getD x else x

section

variable {cols : Nat} {v : List α} {x : α} {r c : Nat}

theorem read_inside (hc : c < cols) : read x cols v r c = v[r * cols + c]?.getD x := if_pos hc

theorem read_margin (hc : ¬ c < cols) : read x cols v r c = x := if_neg hc

/-- Below the last row there is nothing. -/
theorem read_below {rows : Nat} (hlen : v.length = cols * rows) (hr : rows ≤ r) :
    read x cols v r c = x := by
  have hrows : cols * rows ≤ r * cols := by
    rw [Nat.mul_comm]
    exact Nat.mul_le_mul_right _ hr
  unfold read
  split
  · rw [List.getElem?_eq_none (by omega)]
    rfl
  · rfl

/-- Row-major order is lexicographic, also up to the end of a row. -/
theorem index_lt_iff (r r₀ : Nat) {c₀ : Nat} (hc : c < cols) (hc₀ : c₀ ≤ cols) :
    r * cols + c < r₀ * cols + c₀ ↔ r < r₀ ∨ r = r₀ ∧ c < c₀ := by
  rcases Nat.lt_trichotomy r r₀ with hr | rfl | hr
  · have hrows : (r + 1) * cols ≤ r₀ * cols := Nat.mul_le_mul_right _ hr
    rw [Nat.succ_mul] at hrows
    omega
  · omega
  · have hrows : (r₀ + 1) * cols ≤ r * cols := Nat.mul_le_mul_right _ hr
    rw [Nat.succ_mul] at hrows
    omega

/-- Different places have different indices. -/
theorem index_inj {r₀ c₀ : Nat} (hc : c < cols) (hc₀ : c₀ < cols) :
    r₀ * cols + c₀ = r * cols + c ↔ r = r₀ ∧ c = c₀ := by
  have hlt := index_lt_iff r r₀ hc hc₀.le
  have hgt := index_lt_iff r₀ r hc₀ hc.le
  omega

/-- Writing one place. -/
theorem read_set {r₀ c₀ : Nat} (hc₀ : c₀ < cols) (hin : r₀ * cols + c₀ < v.length) (y : α) :
    read x cols (v.set (r₀ * cols + c₀) y) r c =
      if r = r₀ ∧ c = c₀ then y else read x cols v r c := by
  by_cases hc : c < cols
  · rw [read_inside hc, read_inside hc, List.getElem?_set]
    simp only [index_inj hc hc₀, if_pos hin]
    split <;> rfl
  · rw [read_margin hc, read_margin hc, if_neg (by omega)]

/-- Clearing a slice. -/
theorem read_filled {a b : Nat} (hab : a ≤ b) (hb : b ≤ v.length) :
    read x cols (Vec.filled v a b x) r c =
      if a ≤ r * cols + c ∧ r * cols + c < b then x else read x cols v r c := by
  by_cases hc : c < cols
  · rw [read_inside hc, read_inside hc, Vec.getElem?_filled x hab hb]
    split <;> rfl
  · rw [read_margin hc, read_margin hc, ite_self]

/-- Scrolling by one row. -/
theorem read_scroll (hlen : cols ≤ v.length) :
    read x cols (v.drop cols ++ List.replicate cols x) r c = read x cols v (r + 1) c := by
  by_cases hc : c < cols
  · rw [read_inside hc, read_inside hc, List.getElem?_append, List.length_drop,
      show (r + 1) * cols + c = cols + (r * cols + c) by ring]
    split
    · rw [List.getElem?_drop]
    · -- the new row, and the margin below it
      have hnone : v[cols + (r * cols + c)]? = none := List.getElem?_eq_none (by omega)
      rw [hnone, List.getElem?_replicate]
      split <;> rfl
  · rw [read_margin hc, read_margin hc]

/-- A grid of the default element cannot be told from the margin. -/
theorem read_replicate (n : Nat) : read x cols (List.replicate n x) r c = x := by
  unfold read
  split
  · rw [List.getElem?_replicate]
    split <;> rfl
  · rfl

/-- The stored places determine the list. -/
theorem eq_of_read {rows : Nat} {w : List α} (hv : v.length = cols * rows)
    (hw : w.length = cols * rows)
    (h : ∀ r < rows, ∀ c < cols, read x cols v r c = read x cols w r c) : v = w := by
  apply List.ext_getElem (hv.trans hw.symm)
  intro i hi hi'
  -- every index is that of a place
  have hcols : 0 < cols := Nat.pos_of_mul_pos_right (hv ▸ Nat.zero_lt_of_lt hi)
  have hc : i % cols < cols := Nat.mod_lt i hcols
  have hr : i / cols < rows := by
    apply Nat.div_lt_of_lt_mul
    omega
  have hplace := h (i / cols) hr (i % cols) hc
  rw [read_inside hc, read_inside hc, Nat.div_add_mod', List.getElem?_eq_getElem hi,
    List.getElem?_eq_getElem hi'] at hplace
  exact hplace

end

end Grid
