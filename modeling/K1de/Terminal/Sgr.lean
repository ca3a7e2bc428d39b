import K1de.Terminal.Csi

/-! # Colours and bold

`apply_sgr` walks over the parameters with an index, looks ahead at the groups of the
extended colours and skips them. Here the same is said without an index: a reader
takes the parameters one by one and remembers what it expects next (`Reader`), and what
has been read amounts to a set of attributes to write (`Writes`). `applySgr_eq` connects
the two. A list that ends where the reader expects a code composes with any list after
it (`applySgr_append`).
-/

namespace K1de

open Fallible

/-! ## Pens -/

/-- The state that SGR sets. -/
structure Pen where
  fg : Option UInt8
  bg : Option UInt8
  bold : Bool
deriving DecidableEq, Repr

/-- The attributes that a command sets, each to a value that does not depend on what it
was. -/
structure Writes where
  fg : Option (Option UInt8)
  bg : Option (Option UInt8)
  bold : Option Bool
deriving DecidableEq, Repr

namespace Writes

def keep : Writes := ⟨none, none, none⟩

def reset : Writes := ⟨some none, some none, some false⟩

/-- The foreground (`38`) or the background (`48`) colour. -/
def colour (targetFg : Bool) (c : UInt8) : Writes :=
  if targetFg then { keep with fg := some (some c) } else { keep with bg := some (some c) }

def apply (w : Writes) (p : Pen) : Pen :=
  { fg := w.fg.getD p.fg, bg := w.bg.getD p.bg, bold := w.bold.getD p.bold }

/-- One command after the other: the last one to write an attribute decides. -/
def andThen (w v : Writes) : Writes :=
  { fg := v.fg.or w.fg, bg := v.bg.or w.bg, bold := v.bold.or w.bold }

/-- Writing one after the other is writing the composition. -/
theorem apply_andThen (w v : Writes) (p : Pen) : (w.andThen v).apply p = v.apply (w.apply p) := by
  obtain ⟨fg, bg, bold⟩ := v
  cases fg <;> cases bg <;> cases bold <;> rfl

theorem keep_andThen (w : Writes) : keep.andThen w = w := by
  simp [andThen, keep]

theorem andThen_keep (w : Writes) : w.andThen keep = w := rfl

/-- Writes are a monoid. -/
theorem andThen_assoc (u v w : Writes) : (u.andThen v).andThen w = u.andThen (v.andThen w) := by
  simp [andThen, Option.or_assoc]

end Writes

/-! ## Reading parameters -/

/-- What the next parameter is. -/
inductive Expect where
  | code
  /-- the form of an extended colour, after `38` or `48` -/
  | form (targetFg : Bool)
  /-- the index of a palette colour, after `38;5` -/
  | index (targetFg : Bool)
  /-- a component of a direct colour, after `38;2` -/
  | red (targetFg : Bool)
  | green (targetFg : Bool) (r : UInt32)
  | blue (targetFg : Bool) (r g : UInt32)
deriving DecidableEq, Repr

/-- The codes of one parameter. -/
def sgrCode (p : UInt32) : Writes :=
  if p = 0 then .reset
  else if p = 1 then { Writes.keep with bold := some true }
  else if p = 22 then { Writes.keep with bold := some false }
  else if 30 ≤ p ∧ p ≤ 37 then .colour true (p - 30).toUInt8
  else if p = 39 then { Writes.keep with fg := some none }
  else if 40 ≤ p ∧ p ≤ 47 then .colour false (p - 40).toUInt8
  else if p = 49 then { Writes.keep with bg := some none }
  else if 90 ≤ p ∧ p ≤ 97 then .colour true ((p - 90).toUInt8 + 8)
  else if 100 ≤ p ∧ p ≤ 107 then .colour false ((p - 100).toUInt8 + 8)
  else .keep

/-- The closest palette colour to an index, and to three components. -/
def indexed (targetFg : Bool) (idx : UInt32) : Writes :=
  .colour targetFg (nearest16 (ansi256ToRgb idx.toUInt8))

def direct (targetFg : Bool) (r g b : UInt32) : Writes :=
  .colour targetFg (nearest16 (rgb r.toUInt8 g.toUInt8 b.toUInt8))

/-- What has been read. -/
structure Reader where
  expect : Expect
  writes : Writes
deriving DecidableEq, Repr

namespace Reader

def start : Reader := ⟨.code, .keep⟩

def readCode (r : Reader) (p : UInt32) : Reader :=
  if p = 38 ∨ p = 48 then { r with expect := .form (p = 38) }
  else ⟨.code, r.writes.andThen (sgrCode p)⟩

def read (r : Reader) (p : UInt32) : Reader :=
  match r.expect with
  | .code => r.readCode p
  | .form targetFg =>
      if p = 5 then { r with expect := .index targetFg }
      else if p = 2 then { r with expect := .red targetFg }
      else
        -- another form is not skipped: it is read as a code
        r.readCode p
  | .index targetFg => ⟨.code, r.writes.andThen (indexed targetFg p)⟩
  | .red targetFg => { r with expect := .green targetFg p }
  | .green targetFg red => { r with expect := .blue targetFg red p }
  | .blue targetFg red green => ⟨.code, r.writes.andThen (direct targetFg red green p)⟩

/-- The end of the list: components that are missing count as zero. -/
def finish (r : Reader) : Writes :=
  match r.expect with
  | .code | .form _ | .index _ => r.writes
  | .red targetFg => r.writes.andThen (direct targetFg 0 0 0)
  | .green targetFg red => r.writes.andThen (direct targetFg red 0 0)
  | .blue targetFg red green => r.writes.andThen (direct targetFg red green 0)

def readAll (r : Reader) (ps : List UInt32) : Reader := ps.foldl read r

theorem readAll_cons (r : Reader) (p : UInt32) (ps : List UInt32) :
    r.readAll (p :: ps) = (r.read p).readAll ps := rfl

theorem readAll_append (r : Reader) (ps qs : List UInt32) :
    r.readAll (ps ++ qs) = (r.readAll ps).readAll qs := List.foldl_append

/-- The reader after earlier writes. -/
def after (w : Writes) (r : Reader) : Reader := { r with writes := w.andThen r.writes }

/-- Reading a code does not look at what was written before. -/
theorem readCode_after (w : Writes) (r : Reader) (p : UInt32) :
    (after w r).readCode p = after w (r.readCode p) := by
  unfold readCode
  split
  · rfl
  · simp [after, Writes.andThen_assoc]

/-- Nor does reading a parameter, in any state of the reader. -/
theorem read_after (w : Writes) (r : Reader) (p : UInt32) :
    (after w r).read p = after w (r.read p) := by
  obtain ⟨expect, v⟩ := r
  cases expect with
  | code => exact readCode_after w _ p
  | form targetFg =>
      show (if p = 5 then _ else if p = 2 then _ else (after w ⟨.form targetFg, v⟩).readCode p) =
        after w (if p = 5 then _ else if p = 2 then _ else readCode ⟨.form targetFg, v⟩ p)
      rw [readCode_after, apply_ite (after w), apply_ite (after w)]
      rfl
  | index targetFg => simp [read, after, Writes.andThen_assoc]
  | red targetFg => rfl
  | green targetFg red => rfl
  | blue targetFg red green => simp [read, after, Writes.andThen_assoc]

theorem readAll_after (w : Writes) (r : Reader) (ps : List UInt32) :
    (after w r).readAll ps = after w (r.readAll ps) := by
  induction ps generalizing r with
  | nil => rfl
  | cons p ps ih => rw [readAll_cons, read_after, ih, readAll_cons]

theorem finish_after (w : Writes) (r : Reader) : (after w r).finish = w.andThen r.finish := by
  obtain ⟨expect, v⟩ := r
  cases expect <;> simp [finish, after, Writes.andThen_assoc]

end Reader

/-- What a list of parameters writes. -/
def sgr (ps : List UInt32) : Writes := (Reader.start.readAll ps).finish

/-- The list does not end inside the group of an extended colour: after it the loop
expects a code, not one more parameter of a group. -/
def Complete (ps : List UInt32) : Prop := (Reader.start.readAll ps).expect = .code

instance : DecidablePred Complete := fun _ => inferInstanceAs (Decidable (_ = _))

/-- Reading on after a group that is complete. -/
theorem finish_readAll_code (w : Writes) (ps : List UInt32) :
    (Reader.readAll ⟨.code, w⟩ ps).finish = w.andThen (sgr ps) := by
  have hafter : (⟨.code, w⟩ : Reader) = Reader.after w Reader.start := by
    rw [Reader.after, Reader.start, Writes.andThen_keep]
  rw [hafter, Reader.readAll_after, Reader.finish_after]
  rfl

/-- Lists compose where the first one is complete. -/
theorem sgr_append {ps : List UInt32} (h : Complete ps) (qs : List UInt32) :
    sgr (ps ++ qs) = (sgr ps).andThen (sgr qs) := by
  have hcode : Reader.start.readAll ps = ⟨.code, sgr ps⟩ := by
    have hexpect : (Reader.start.readAll ps).expect = .code := h
    unfold sgr
    generalize Reader.start.readAll ps = r at hexpect
    obtain ⟨expect, v⟩ := r
    cases hexpect
    rfl
  rw [sgr, Reader.readAll_append, hcode, finish_readAll_code]

/-! ## The loop -/

/-- A code that is not the start of a group. -/
theorem sgr_cons_code {p : UInt32} (hp : ¬ (p = 38 ∨ p = 48)) (ps : List UInt32) :
    sgr (p :: ps) = (sgrCode p).andThen (sgr ps) := by
  rw [sgr, Reader.readAll_cons]
  show (Reader.readAll (Reader.readCode Reader.start p) ps).finish = _
  rw [Reader.readCode, if_neg hp, finish_readAll_code]
  exact congrArg (Writes.andThen · (sgr ps)) (Writes.keep_andThen (sgrCode p))

section

variable {p : UInt32} (hp : p = 38 ∨ p = 48)

include hp

/-- After `38` or `48` a form is expected. -/
theorem read_extended (ps : List UInt32) :
    sgr (p :: ps) = (Reader.readAll ⟨.form (p = 38), .keep⟩ ps).finish := by
  rw [sgr, Reader.readAll_cons]
  show (Reader.readAll (Reader.readCode _ p) ps).finish = _
  rw [Reader.readCode, if_pos hp]
  rfl

/-- `38;5;n` is one group. -/
theorem sgr_cons_indexed (idx : UInt32) (ps : List UInt32) :
    sgr (p :: 5 :: idx :: ps) = (indexed (p = 38) idx).andThen (sgr ps) := by
  rw [read_extended hp]
  show (Reader.readAll ⟨.code, Writes.keep.andThen (indexed (p = 38) idx)⟩ ps).finish = _
  rw [Writes.keep_andThen, finish_readAll_code]

/-- `38;2` takes up to three more parameters, and missing ones are zero. -/
theorem sgr_cons_direct (ps : List UInt32) :
    sgr (p :: 2 :: ps) =
      (direct (p = 38) (ps[0]?.getD 0) (ps[1]?.getD 0) (ps[2]?.getD 0)).andThen
        (sgr (ps.drop 3)) := by
  rw [read_extended hp]
  match ps with
  -- as many components as there are
  | [] => exact Writes.keep_andThen (direct (p = 38) 0 0 0)
  | [r] => exact Writes.keep_andThen (direct (p = 38) r 0 0)
  | [r, g] => exact Writes.keep_andThen (direct (p = 38) r g 0)
  | r :: g :: b :: ps =>
      show (Reader.readAll ⟨.code, Writes.keep.andThen (direct (p = 38) r g b)⟩ ps).finish = _
      rw [Writes.keep_andThen, finish_readAll_code]
      rfl

/-- Another form is not part of a group: it is read as a code. -/
theorem sgr_cons_other {form : UInt32} (h5 : form ≠ 5) (h2 : form ≠ 2) (ps : List UInt32) :
    sgr (p :: form :: ps) = sgr (form :: ps) := by
  rw [read_extended hp, Reader.readAll_cons]
  show (Reader.readAll (if form = 5 then _ else if form = 2 then _ else
    Reader.readCode _ form) ps).finish = _
  rw [if_neg h5, if_neg h2]
  rfl

end

namespace Terminal

def pen (t : Terminal) : Pen := ⟨t.curFg, t.curBg, t.bold⟩

def withPen (t : Terminal) (p : Pen) : Terminal :=
  { t with curFg := p.fg, curBg := p.bg, bold := p.bold }

/-- Setting a colour is a write to the pen. -/
theorem setColour_eq (t : Terminal) (targetFg : Bool) (c : UInt8) :
    t.setColour targetFg c = t.withPen ((Writes.colour targetFg c).apply t.pen) := by
  cases targetFg <;> rfl

/-- One iteration of the loop, on a list that begins with `p`: what it writes, and what
is left to read. -/
structure Reads (t : Terminal) (ps : List UInt32) (r : Terminal × Nat) (w : Writes) : Prop where
  pen_eq : r.1 = t.withPen (w.apply t.pen)
  sgr_eq : sgr ps = w.andThen (sgr (ps.drop (r.2 + 1)))

/-- The lookahead of `38` and `48` reads what the reader reads: a whole group, or nothing but the
code. -/
theorem extendedColour_reads {t : Terminal} {i : Nat} {p : UInt32} {ps : List UInt32}
    (hp : p = 38 ∨ p = 48) (hps : t.csiParams.drop i = p :: ps) :
    ∃ w, Reads t (p :: ps) (t.extendedColour i (p = 38)) w := by
  -- the code looks ahead by index, the reader has the rest of the list
  have hget : ∀ k, t.csiParams[i + 1 + k]? = ps[k]? := by
    intro k
    have hdrop := congrArg (fun qs => qs[1 + k]?) hps
    simpa [Nat.add_assoc, Nat.add_comm 1 k] using hdrop
  have h1 : t.csiParams[i + 1]? = ps[0]? := hget 0
  have h2 : t.csiParams[i + 2]? = ps[1]? := hget 1
  have h3 : t.csiParams[i + 3]? = ps[2]? := hget 2
  have h4 : t.csiParams[i + 4]? = ps[3]? := hget 3
  unfold extendedColour
  rw [h1, h2, h3, h4]
  match ps with
  | [] => exact ⟨.keep, rfl, read_extended hp []⟩
  | form :: ps =>
      simp only [List.getElem?_cons_zero, Option.some.injEq]
      by_cases h5 : form = 5
      · subst h5
        rw [if_pos rfl]
        cases ps with
        | nil => exact ⟨.keep, rfl, read_extended hp [5]⟩
        | cons idx ps => exact ⟨_, setColour_eq .., sgr_cons_indexed hp idx ps⟩
      · rw [if_neg h5]
        by_cases h2 : form = 2
        · subst h2
          rw [if_pos rfl]
          exact ⟨_, setColour_eq .., sgr_cons_direct hp ps⟩
        · rw [if_neg h2]
          refine ⟨.keep, rfl, ?_⟩
          rw [Writes.keep_andThen]
          exact sgr_cons_other hp h5 h2 ps

/-- Every other code is one parameter. -/
theorem sgrParam_reads {t : Terminal} {i : Nat} {p : UInt32} {ps : List UInt32}
    (hps : t.csiParams.drop i = p :: ps) : ∃ w, Reads t (p :: ps) (t.sgrParam i p) w := by
  by_cases hp : p = 38 ∨ p = 48
  · have hparam : t.sgrParam i p = t.extendedColour i (p = 38) := by
      rcases hp with rfl | rfl <;> rfl
    rw [hparam]
    exact extendedColour_reads hp hps
  · let write (w : Writes) : Terminal × Nat := (t.withPen (w.apply t.pen), 0)
    have hparam : t.sgrParam i p = write (sgrCode p) := by
      unfold sgrParam sgrCode
      rw [if_neg hp]
      simp only [apply_ite write]
      rfl
    rw [hparam]
    exact ⟨sgrCode p, rfl, sgr_cons_code hp ps⟩

/-- The loop from index `i` writes what the reader makes of the parameters from `i` on. -/
theorem sgrLoop_eq (fuel i : Nat) (t : Terminal) (hfuel : t.csiParams.length ≤ i + fuel) :
    sgrLoop fuel i t = .ok (t.withPen ((sgr (t.csiParams.drop i)).apply t.pen)) := by
  induction fuel generalizing i t with
  | zero =>
      rw [List.drop_eq_nil_of_le (by omega)]
      rfl
  | succ fuel ih =>
      by_cases hi : i < t.csiParams.length
      · have hdrop : t.csiParams.drop i = t.csiParams[i] :: t.csiParams.drop (i + 1) :=
          List.drop_eq_getElem_cons hi
        obtain ⟨w, hpen, hsgr⟩ := sgrParam_reads hdrop
        rw [sgrLoop, if_pos hi, Vec.index_ok (List.getElem?_eq_getElem hi), ok_bind]
        generalize t.sgrParam i t.csiParams[i] = r at hpen hsgr
        obtain ⟨t', skip⟩ := r
        obtain rfl : t' = t.withPen (w.apply t.pen) := hpen
        -- the loop jumps over the group that it has looked at
        rw [← hdrop, List.drop_drop] at hsgr
        show sgrLoop fuel (i + skip + 1) (t.withPen (w.apply t.pen)) = _
        rw [ih _ _ (by show t.csiParams.length ≤ _; omega), hsgr, Writes.apply_andThen]
        rfl
      · rw [sgrLoop, if_neg hi, List.drop_eq_nil_of_le (by omega)]
        rfl

/-- `CSI m` without parameters is `CSI 0 m`. -/
def sgrWrites (ps : List UInt32) : Writes := if ps = [] then .reset else sgr ps

/-- SGR applies what the reader makes of the parameters. -/
theorem applySgr_eq (t : Terminal) :
    t.applySgr = .ok (t.withPen ((sgrWrites t.csiParams).apply t.pen)) := by
  unfold applySgr sgrWrites
  split
  · rfl
  · rw [sgrLoop_eq _ _ _ (by omega)]
    rfl

/-! ## Composition -/

/-- SGR touches nothing but the pen, and lists compose: a list that ends between two
groups and a list after it do together what they do one after the other. -/
theorem applySgr_append (t : Terminal) (ps qs : List UInt32) (hps : ps ≠ []) (hqs : qs ≠ [])
    (hcomplete : Complete ps) :
    (∀ rs, ∃ t', applySgr { t with csiParams := rs } = .ok t' ∧ t'.cells = t.cells ∧
      t'.cursorRow = t.cursorRow ∧ t'.cursorCol = t.cursorCol) ∧
    ∃ t₁ t₂ t₃, applySgr { t with csiParams := ps } = .ok t₁ ∧
      applySgr { t₁ with csiParams := qs } = .ok t₂ ∧
      applySgr { t with csiParams := ps ++ qs } = .ok t₃ ∧
      t₃ = { t₂ with csiParams := ps ++ qs } := by
  constructor
  · intro rs
    exact ⟨_, applySgr_eq _, rfl, rfl, rfl⟩
  · refine ⟨_, _, _, applySgr_eq _, applySgr_eq _, applySgr_eq _, ?_⟩
    have hboth : sgrWrites (ps ++ qs) = (sgrWrites ps).andThen (sgrWrites qs) := by
      unfold sgrWrites
      rw [if_neg hps, if_neg hqs, if_neg (by simp [hps]), sgr_append hcomplete]
    show withPen _ ((sgrWrites (ps ++ qs)).apply _) = _
    rw [hboth, Writes.apply_andThen]
    rfl

theorem applySgr_append_threeByOne :
    Complete [1, 38, 5, 196] ∧
    ∃ t₁ t₂ t₃, applySgr { threeByOne with csiParams := [1, 38, 5, 196] } = .ok t₁ ∧
      applySgr { t₁ with csiParams := [4, 38, 2] } = .ok t₂ ∧
      applySgr { threeByOne with csiParams := [1, 38, 5, 196] ++ [4, 38, 2] } = .ok t₃ ∧
      t₃ = { t₂ with csiParams := [1, 38, 5, 196] ++ [4, 38, 2] } :=
  ⟨by decide, (applySgr_append threeByOne [1, 38, 5, 196] [4, 38, 2] (by decide) (by decide)
    (by decide)).2⟩

-- a list that ends inside a group takes parameters from the next one
example : ¬ Complete [38] ∧ sgr ([38] ++ [5, 1]) ≠ (sgr [38]).andThen (sgr [5, 1]) := by
  decide +kernel

end Terminal

end K1de
