import Mathlib

/-! # Wrapped text on a page

The lines that a text takes on a page of a given width, and the page that shows
the last of them.

* `layout sep w s` splits the text `s` at `sep` and cuts every segment into
  lines of `w` characters;
* `page w h blank f lines` is the row-major grid of the last `h` lines.

Both are described character by character (`layout_snoc`, `page_line_room`,
`page_line_scroll`, `page_write`), so that a machine that prints a text can be
followed one step at a time.
-/

namespace Text

variable {α β : Type*}

/-! ## Layout -/

/-- How many lines of width `w` a segment of `n` characters takes. -/
def lineCount (w n : Nat) : Nat := max 1 ((n + w - 1) / w)

/-- Cuts a segment into lines of `w` characters. -/
def breakLine (w : Nat) (seg : List α) : List (List α) :=
  (List.range (lineCount w seg.length)).map fun i => (seg.drop (i * w)).take w

/-- The lines of a text. -/
def layout [BEq α] (sep : α) (w : Nat) (s : List α) : List (List α) :=
  (s.splitOn sep).flatMap (breakLine w)

/-- The number of lines by its bounds: the last line has something on it, or is the only one. -/
theorem lineCount_eq {w n k : Nat} (hw : 0 < w) (hle : n ≤ (k + 1) * w)
    (hlt : k = 0 ∨ k * w < n) : lineCount w n = k + 1 := by
  have hmul : (k + 1) * w = k * w + w := Nat.succ_mul k w
  unfold lineCount
  rcases hlt with rfl | hlt
  · have hdiv : (n + w - 1) / w < 2 := by
      rw [Nat.div_lt_iff_lt_mul hw]
      omega
    omega
  · have hdiv : (n + w - 1) / w = k + 1 := by
      apply Nat.div_eq_of_lt_le
      · omega
      · rw [Nat.succ_mul]
        omega
    omega

/-- There is such a number. One more character takes a new line when the lines are full. -/
theorem exists_lineCount {w : Nat} (hw : 0 < w) (n : Nat) :
    ∃ k, n ≤ (k + 1) * w ∧ (k = 0 ∨ k * w < n) := by
  induction n with
  | zero => exact ⟨0, Nat.zero_le _, Or.inl rfl⟩
  | succ n ih =>
      obtain ⟨k, hle, hlt⟩ := ih
      by_cases hfull : n = (k + 1) * w
      · refine ⟨k + 1, ?_, Or.inr (by omega)⟩
        rw [Nat.succ_mul (k + 1)]
        omega
      · exact ⟨k, by omega, by omega⟩

/-- One more character goes on the last line if that has room, and on a line of
its own if it is full. -/
theorem breakLine_snoc {w : Nat} (hw : 0 < w) (seg : List α) :
    ∃ init last, breakLine w seg = init ++ [last] ∧ last.length ≤ w ∧
      ∀ x, breakLine w (seg ++ [x]) =
        if last.length < w then init ++ [last ++ [x]] else init ++ [last] ++ [[x]] := by
  obtain ⟨k, hle, hlt⟩ := exists_lineCount hw seg.length
  have hstart : k * w ≤ seg.length := by
    rcases hlt with rfl | hlt
    · omega
    · omega
  have hmul : (k + 1) * w = k * w + w := Nat.succ_mul k w
  -- the lines before the last one do not see the new character
  have hinit : ∀ x, ∀ i < k, ((seg ++ [x]).drop (i * w)).take w = (seg.drop (i * w)).take w := by
    intro x i hi
    have hend : (i + 1) * w ≤ k * w := Nat.mul_le_mul_right w hi
    rw [Nat.succ_mul] at hend
    rw [List.drop_append_of_le_length (by omega), List.take_append_of_le_length]
    rw [List.length_drop]
    omega
  have hmap : ∀ x, (List.range k).map (fun i => ((seg ++ [x]).drop (i * w)).take w) =
      (List.range k).map (fun i => (seg.drop (i * w)).take w) := by
    intro x
    apply List.map_congr_left
    intro i hi
    exact hinit x i (List.mem_range.mp hi)
  have hlast : (seg.drop (k * w)).length = seg.length - k * w := List.length_drop
  refine ⟨(List.range k).map fun i => (seg.drop (i * w)).take w, seg.drop (k * w), ?_, ?_, ?_⟩
  · rw [breakLine, lineCount_eq hw hle hlt, List.range_succ, List.map_append, List.map_singleton,
      List.take_of_length_le (by omega)]
  · omega
  · intro x
    have hlen : (seg ++ [x]).length = seg.length + 1 := by simp
    split
    · -- there is room: as many lines as before
      rw [breakLine, lineCount_eq (k := k) hw (by omega) (by omega), List.range_succ,
        List.map_append, List.map_singleton, hmap, List.drop_append_of_le_length hstart,
        List.take_of_length_le (by simp; omega)]
    · -- the last line is full: one line more
      have hfull : seg.length = (k + 1) * w := by omega
      rw [breakLine, lineCount_eq (k := k + 1) hw (by rw [Nat.succ_mul (k + 1)]; omega)
          (Or.inr (by omega)), List.range_succ, List.range_succ, List.map_append, List.map_append,
        List.map_singleton, List.map_singleton, hmap, List.drop_append_of_le_length hstart,
        List.take_append_of_le_length (by omega), List.take_of_length_le (by omega), ← hfull,
        List.drop_left, List.take_of_length_le (by simp; omega)]

/-- Splitting one character further: a separator opens an empty segment, any
other character extends the last one. -/
theorem splitOn_snoc [DecidableEq α] (sep : α) (s : List α) :
    ∃ init last, s.splitOn sep = init ++ [last] ∧
      (s ++ [sep]).splitOn sep = init ++ [last] ++ [[]] ∧
      ∀ x, x ≠ sep → (s ++ [x]).splitOn sep = init ++ [last ++ [x]] := by
  induction s with
  | nil =>
      refine ⟨[], [], rfl, ?_, ?_⟩
      · simp [List.splitOn, List.splitOnP_cons_eq_if_modifyHead]
      · intro x hx
        simp [List.splitOn, List.splitOnP_cons_eq_if_modifyHead, hx]
  | cons c s ih =>
      obtain ⟨init, last, hs, hsep, hx⟩ := ih
      simp only [List.splitOn] at hs hsep hx ⊢
      -- a separator in front adds an empty segment, any other character goes to the first one
      by_cases hc : c = sep
      · refine ⟨[] :: init, last, ?_, ?_, ?_⟩
        · simp [List.splitOnP_cons_eq_if_modifyHead, hc, hs]
        · simp [List.splitOnP_cons_eq_if_modifyHead, hc, hsep]
        · intro x hne
          simp [List.splitOnP_cons_eq_if_modifyHead, hc, hx x hne]
      · cases init with
        | nil =>
            refine ⟨[], c :: last, ?_, ?_, ?_⟩
            · simp [List.splitOnP_cons_eq_if_modifyHead, hc, hs]
            · simp [List.splitOnP_cons_eq_if_modifyHead, hc, hsep]
            · intro x hne
              simp [List.splitOnP_cons_eq_if_modifyHead, hc, hx x hne]
        | cons i is =>
            refine ⟨(c :: i) :: is, last, ?_, ?_, ?_⟩
            · simp [List.splitOnP_cons_eq_if_modifyHead, hc, hs]
            · simp [List.splitOnP_cons_eq_if_modifyHead, hc, hsep]
            · intro x hne
              simp [List.splitOnP_cons_eq_if_modifyHead, hc, hx x hne]

/-- An empty segment has one line. -/
theorem breakLine_nil (w : Nat) : breakLine w ([] : List α) = [[]] := by
  have hcount : lineCount w 0 = 1 := by
    unfold lineCount
    have : (0 + w - 1) / w ≤ 1 := Nat.div_le_of_le_mul (by omega)
    omega
  simp [breakLine, hcount]

/-- The layout of a text, one character further. -/
theorem layout_snoc [DecidableEq α] (sep : α) {w : Nat} (hw : 0 < w) (s : List α) :
    ∃ init last, layout sep w s = init ++ [last] ∧ last.length ≤ w ∧
      layout sep w (s ++ [sep]) = init ++ [last] ++ [[]] ∧
      ∀ x, x ≠ sep → layout sep w (s ++ [x]) =
        if last.length < w then init ++ [last ++ [x]] else init ++ [last] ++ [[x]] := by
  obtain ⟨segs, seg, hs, hsep, hx⟩ := splitOn_snoc sep s
  obtain ⟨init, last, hseg, hlen, hsnoc⟩ := breakLine_snoc hw seg
  refine ⟨segs.flatMap (breakLine w) ++ init, last, ?_, hlen, ?_, ?_⟩
  · simp [layout, hs, hseg]
  · simp [layout, hsep, hseg, breakLine_nil]
  · intro x hne
    rw [layout, hx x hne, List.flatMap_append, List.flatMap_singleton, hsnoc x]
    split
    · simp
    · simp

/-! ## Pages -/

/-- A line as a row of the page. -/
def row (w : Nat) (blank : β) (f : α → β) (line : List α) : List β :=
  (line.map f).rightpad w blank

/-- The last `h` of the lines. -/
def visible (h : Nat) (lines : List (List α)) : List (List α) :=
  lines.drop (lines.length - h)

/-- The grid of `h` rows of width `w` that shows the last `h` lines, row by row,
with blank rows below when there are fewer. -/
def page (w h : Nat) (blank : β) (f : α → β) (lines : List (List α)) : List β :=
  ((visible h lines).map (row w blank f)).flatten ++
    List.replicate ((h - lines.length) * w) blank

section

variable {w h : Nat} {blank : β} {f : α → β}

/-- A row is as wide as the page. -/
theorem length_row {line : List α} (hline : line.length ≤ w) :
    (row w blank f line).length = w := by
  simp only [row, List.rightpad, List.length_append, List.length_map, List.length_replicate]
  omega

theorem row_nil : row w blank f [] = List.replicate w blank := by
  simp [row, List.rightpad]

/-- Writing the next position of a row that has room. -/
theorem row_snoc {line : List α} (hroom : line.length < w) (x : α) :
    row w blank f (line ++ [x]) = (row w blank f line).set line.length (f x) := by
  obtain ⟨k, hk⟩ : ∃ k, w - line.length = k + 1 := ⟨w - line.length - 1, by omega⟩
  have hk' : w - (line.length + 1) = k := by omega
  simp [row, List.rightpad, hk, hk', List.replicate_succ]

/-- So the rows of some lines take that many times the width. -/
theorem length_rows {lines : List (List α)} (hlines : ∀ l ∈ lines, l.length ≤ w) :
    ((lines.map (row w blank f)).flatten).length = lines.length * w := by
  induction lines with
  | nil => simp
  | cons l lines ih =>
      have hl : (row w blank f l).length = w := length_row (hlines l List.mem_cons_self)
      have hrest := ih (fun l' hl' => hlines l' (List.mem_cons_of_mem l hl'))
      rw [List.map_cons, List.flatten_cons, List.length_append, hl, hrest, List.length_cons,
        Nat.succ_mul]
      omega

/-- No more lines are visible than the page has rows. -/
theorem length_visible (h : Nat) (lines : List (List α)) :
    (visible h lines).length = min lines.length h := by
  rw [visible, List.length_drop]
  omega

/-- The last line is visible, and so are the ones before it in a page of one row
less. -/
theorem visible_snoc (hh : 0 < h) (init : List (List α)) (last : List α) :
    visible h (init ++ [last]) = visible (h - 1) init ++ [last] := by
  have hdrop : init.length + 1 - h = init.length - (h - 1) := by omega
  rw [visible, visible, List.length_append, List.length_singleton, hdrop,
    List.drop_append_of_le_length (by omega)]

/-- Where there is a blank row left, a new line changes nothing on the page. -/
theorem page_line_room {lines : List (List α)} (hroom : lines.length < h) :
    page w h blank f (lines ++ [[]]) = page w h blank f lines := by
  obtain ⟨k, hk⟩ : ∃ k, h - lines.length = k + 1 := ⟨h - lines.length - 1, by omega⟩
  have hk' : h - (lines.length + 1) = k := by omega
  have hdrop : lines.length - h = 0 := by omega
  have hdrop' : lines.length + 1 - h = 0 := by omega
  simp [page, visible, row_nil, hk, hk', hdrop, hdrop', Nat.succ_mul, Nat.add_comm (k * w) w]

/-- On a full page a new line scrolls the rows up by one. -/
theorem page_line_scroll {lines : List (List α)} (hlines : ∀ l ∈ lines, l.length ≤ w)
    (hh : 0 < h) (hfull : h ≤ lines.length) :
    page w h blank f (lines ++ [[]]) =
      (page w h blank f lines).drop w ++ List.replicate w blank := by
  have hzero : h - lines.length = 0 := by omega
  have hzero' : h - (lines ++ [[]]).length = 0 := by
    rw [List.length_append]
    omega
  -- the first visible row is the one that goes
  obtain ⟨l, rest, hvis⟩ : ∃ l rest, visible h lines = l :: rest := by
    cases hv : visible h lines with
    | nil =>
        have hlen := length_visible h lines
        rw [hv, List.length_nil] at hlen
        omega
    | cons l rest => exact ⟨l, rest, rfl⟩
  have hl : l.length ≤ w := by
    apply hlines
    have hmem : l ∈ visible h lines := by
      rw [hvis]
      exact List.mem_cons_self
    exact List.mem_of_mem_drop hmem
  have hrest : visible (h - 1) lines = rest := by
    have htail : (visible h lines).tail = visible (h - 1) lines := by
      rw [visible, visible, List.tail_drop]
      congr 1
      omega
    rw [← htail, hvis]
    rfl
  rw [page, page, hzero, hzero', visible_snoc hh, hrest, hvis, Nat.zero_mul, List.replicate_zero,
    List.append_nil, List.append_nil, List.map_append, List.flatten_append, List.map_singleton,
    List.flatten_singleton, List.map_cons, List.flatten_cons, List.drop_left' (length_row hl),
    row_nil]

/-- Writing the next character of the last line. -/
theorem page_write {init : List (List α)} {last : List α}
    (hlines : ∀ l ∈ init, l.length ≤ w) (hroom : last.length < w) (hh : 0 < h) (x : α) :
    page w h blank f (init ++ [last ++ [x]]) =
      (page w h blank f (init ++ [last])).set
        ((min (init.length + 1) h - 1) * w + last.length) (f x) := by
  -- the rows above the last line
  have hvis : ((visible (h - 1) init).map (row w blank f)).flatten.length =
      (min (init.length + 1) h - 1) * w := by
    rw [length_rows, length_visible]
    · congr 1
      omega
    · intro l hl
      exact hlines l (List.mem_of_mem_drop hl)
  have hlast : (row w blank f last).length = w := length_row (Nat.le_of_lt hroom)
  rw [page, page, visible_snoc hh, visible_snoc hh, List.map_append, List.map_append,
    List.flatten_append, List.flatten_append, List.append_assoc, List.append_assoc,
    List.set_append_right _ _ (by omega), hvis, Nat.add_sub_cancel_left,
    List.set_append_left _ _ (by simpa [hlast] using hroom)]
  simp [row_snoc hroom]

end

end Text
