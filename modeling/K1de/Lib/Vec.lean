import K1de.Lib.Fallible

/-! # Checked operations on vectors

The operations of a Rust `Vec<T>` that can panic, on lists: each one checks its
bounds as the standard library does and returns a `Fault` where Rust panics.
`usize` is 64 bits wide. A subtraction that would go below zero is a fault too
(`usub`): the debug profile panics there and the release profile wraps, and
neither is ever meant.
-/

open Fallible

/-- What stops a Rust program. -/
inductive Fault where
  /-- an index at or past the length -/
  | indexOutOfBounds
  /-- a slice whose start is past its end, or whose end is past the length -/
  | sliceOutOfRange
  /-- an unsigned subtraction below zero -/
  | subtractionUnderflow
  /-- a `Vec` of more than `isize::MAX` bytes -/
  | capacityOverflow
  /-- `chunks_mut(0)` -/
  | zeroChunkSize
deriving DecidableEq, Repr

namespace Vec

variable {α : Type}

/-- The number of values of a `usize`. -/
def usizeSize : Nat := 2 ^ 64

/-- `isize::MAX`, the largest number of bytes an allocation may have. -/
def isizeMax : Nat := 2 ^ 63 - 1

/-! ## Operations -/

/-- `vec![x; n]` for elements of `size` bytes. -/
def fromElem (size : Nat) (x : α) (n : Nat) : Except Fault (List α) :=
  if size * n ≤ isizeMax then .ok (List.replicate n x) else .error .capacityOverflow

/-- `v[i]`. -/
def index (v : List α) (i : Nat) : Except Fault α :=
  match v[i]? with
  | some x => .ok x
  | none => .error .indexOutOfBounds

/-- `v[i] = x`. -/
def setIndex (v : List α) (i : Nat) (x : α) : Except Fault (List α) :=
  if i < v.length then .ok (v.set i x) else .error .indexOutOfBounds

/-- `v` with the positions `a..b` overwritten by `x`. -/
def filled (v : List α) (a b : Nat) (x : α) : List α :=
  v.take a ++ List.replicate (b - a) x ++ v.drop b

/-- `v[a..b].fill(x)`. -/
def fill (v : List α) (a b : Nat) (x : α) : Except Fault (List α) :=
  if a ≤ b ∧ b ≤ v.length then .ok (filled v a b x) else .error .sliceOutOfRange

/-- `v.copy_within(src.., 0)`: the tail moves to the front, what it does not
overwrite stays. -/
def copyToFront (v : List α) (src : Nat) : Except Fault (List α) :=
  if src ≤ v.length then .ok (v.drop src ++ v.drop (v.length - src))
  else .error .sliceOutOfRange

/-- `a - b` on `usize`. -/
def usub (a b : Nat) : Except Fault Nat :=
  if b ≤ a then .ok (a - b) else .error .subtractionUnderflow

/-- `a + b` on `usize`, wrapping. -/
def uadd (a b : Nat) : Nat := (a + b) % usizeSize

/-- `a * b` on `usize`, wrapping. -/
def umul (a b : Nat) : Nat := a * b % usizeSize

/-- `a - b` on `usize` where it is meant to wrap, or does so unnoticed. -/
def uwsub (a b : Nat) : Nat := (a + usizeSize - b) % usizeSize

/-! ## When they return, and what -/

theorem fromElem_ok {size n : Nat} (x : α) (h : size * n ≤ isizeMax) :
    fromElem size x n = .ok (List.replicate n x) := by
  simp [fromElem, h]

theorem index_ok {v : List α} {i : Nat} {x : α} (h : v[i]? = some x) :
    index v i = .ok x := by
  simp [index, h]

theorem setIndex_ok {v : List α} {i : Nat} (x : α) (h : i < v.length) :
    setIndex v i x = .ok (v.set i x) := by
  simp [setIndex, h]

theorem fill_ok {v : List α} {a b : Nat} (x : α) (hab : a ≤ b) (hb : b ≤ v.length) :
    fill v a b x = .ok (filled v a b x) := by
  simp [fill, hab, hb]

theorem usub_ok {a b : Nat} (h : b ≤ a) : usub a b = .ok (a - b) := by
  simp [usub, h]

theorem uadd_eq {a b : Nat} (h : a + b < usizeSize) : uadd a b = a + b := Nat.mod_eq_of_lt h

theorem umul_eq {a b : Nat} (h : a * b < usizeSize) : umul a b = a * b := Nat.mod_eq_of_lt h

/-- The product of two `u32` fits a `usize`. -/
theorem mul_lt_usizeSize {a b : Nat} (ha : a < 2 ^ 32) (hb : b < 2 ^ 32) : a * b < usizeSize := by
  calc a * b < 2 ^ 32 * 2 ^ 32 := Nat.mul_lt_mul'' ha hb
    _ = usizeSize := rfl

/-- Where it does not go below zero the subtraction does not wrap. -/
theorem uwsub_eq {a b : Nat} (h : b ≤ a) (ha : a < usizeSize) : uwsub a b = a - b := by
  have hsum : a + usizeSize - b = a - b + usizeSize := by omega
  rw [uwsub, hsum, Nat.add_mod_right, Nat.mod_eq_of_lt (by omega)]

/-- Filling keeps the length. -/
theorem length_filled {v : List α} {a b : Nat} (x : α) (hab : a ≤ b) (hb : b ≤ v.length) :
    (filled v a b x).length = v.length := by
  simp only [filled, List.length_append, List.length_take, List.length_replicate,
    List.length_drop]
  omega

/-- Every element of a filled vector is the filler or was there before. -/
theorem mem_filled {v : List α} {a b : Nat} {x y : α} (h : y ∈ filled v a b x) :
    y = x ∨ y ∈ v := by
  simp only [filled, List.mem_append, List.mem_replicate] at h
  rcases h with (h | h) | h
  · exact Or.inr (List.mem_of_mem_take h)
  · exact Or.inl h.2
  · exact Or.inr (List.mem_of_mem_drop h)

/-! ## Runs of writes -/

/-- `v` with the elements of `w` written over it from position `i` on. -/
def splice (v : List α) (i : Nat) (w : List α) : List α :=
  v.take i ++ w ++ v.drop (i + w.length)

/-- `v[i..i + w.len()].copy_from_slice(w)`. -/
def copySlice (v : List α) (i : Nat) (w : List α) : Except Fault (List α) :=
  if i + w.length ≤ v.length then .ok (splice v i w) else .error .sliceOutOfRange

theorem splice_nil (v : List α) (i : Nat) : splice v i [] = v := by
  simp [splice]

/-- One write more at the front of a run of writes. -/
theorem splice_cons {v : List α} {i : Nat} (h : i < v.length) (x : α) (w : List α) :
    splice v i (x :: w) = splice (v.set i x) (i + 1) w := by
  have htake : (v.set i x).take (i + 1) = v.take i ++ [x] := by
    rw [List.take_add_one, List.take_set_of_le (le_refl i), List.getElem?_set_self h]
    rfl
  have hdrop : (v.set i x).drop (i + 1 + w.length) = v.drop (i + 1 + w.length) :=
    List.drop_set_of_lt (by omega)
  rw [splice, splice, htake, hdrop, List.length_cons, List.append_assoc, List.append_assoc,
    List.append_assoc, List.singleton_append, Nat.add_assoc, Nat.add_comm 1 w.length]
  rfl

/-- A run of writes position by position. -/
theorem getElem?_splice {v w : List α} {i : Nat} (h : i + w.length ≤ v.length) (j : Nat) :
    (splice v i w)[j]? = if i ≤ j ∧ j < i + w.length then w[j - i]? else v[j]? := by
  have hti : (v.take i).length = i := by
    rw [List.length_take]
    omega
  unfold splice
  rw [List.append_assoc, List.getElem?_append, hti]
  by_cases h1 : j < i
  · -- before them
    rw [if_pos h1, if_neg (by omega), List.getElem?_take_of_lt h1]
  · rw [if_neg h1, List.getElem?_append]
    by_cases h2 : j < i + w.length
    · rw [if_pos (by omega), if_pos (by omega)]
    · -- after them
      rw [if_neg (by omega), if_neg (by omega), List.getElem?_drop]
      congr 1
      omega

/-- A filled vector position by position. -/
theorem getElem?_filled {v : List α} {a b : Nat} (x : α) (hab : a ≤ b) (hb : b ≤ v.length)
    (j : Nat) : (filled v a b x)[j]? = if a ≤ j ∧ j < b then some x else v[j]? := by
  have hsplice : filled v a b x = splice v a (List.replicate (b - a) x) := by
    rw [filled, splice, List.length_replicate, Nat.add_sub_cancel' hab]
  rw [hsplice, getElem?_splice (by simp; omega), List.length_replicate, Nat.add_sub_cancel' hab]
  split
  · rw [List.getElem?_replicate, if_pos (by omega)]
  · rfl

/-- In row-major order, position `(r, c)` lies in row `r'` only if `r = r'`. -/
theorem row_unique {w r r' c : Nat} (hc : c < w) (hlo : r' * w ≤ r * w + c)
    (hhi : r * w + c < r' * w + w) : r = r' := by
  rcases Nat.lt_trichotomy r r' with h | h | h
  · have := Nat.mul_le_mul_right w h
    rw [Nat.succ_mul] at this
    omega
  · exact h
  · have := Nat.mul_le_mul_right w h
    rw [Nat.succ_mul] at this
    omega

/-- Moving the tail to the front and filling the freed end is a scroll. -/
theorem scroll_ok {v : List α} {n : Nat} (x : α) (h : n ≤ v.length) :
    (do
      let w ← copyToFront v n
      let last ← usub w.length n
      fill w last w.length x) = .ok (v.drop n ++ List.replicate n x) := by
  have hlen : (v.drop n ++ v.drop (v.length - n)).length = v.length := by
    simp only [List.length_append, List.length_drop]
    omega
  rw [copyToFront, if_pos h, ok_bind, hlen, usub_ok h, ok_bind,
    fill_ok x (by omega) (by omega)]
  congr 1
  -- what the copy has left at the end is overwritten
  have htake : (v.drop n ++ v.drop (v.length - n)).take (v.length - n) = v.drop n := by
    rw [List.take_append_of_le_length (by simp), List.take_of_length_le (by simp)]
  have hdrop : (v.drop n ++ v.drop (v.length - n)).drop v.length = [] := by
    rw [List.drop_eq_nil_iff, hlen]
  rw [filled, htake, hdrop, List.append_nil]
  congr 2
  omega

end Vec
