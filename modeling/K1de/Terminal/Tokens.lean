import K1de.Lib.Decimal
import K1de.Terminal.Model
import K1de.Terminal.Invariant

/-! # The byte parser refines a token machine

Terminal output is a sequence of tokens: characters, controls and complete
escape sequences. The token machine works on a `Screen`, which has no parser
state at all, and takes each token in one step. `feed_encode` says that
the byte parser, fed the encoding of any list of tokens, ends in the ground
state and shows exactly what the token machine shows, whatever parameters an
earlier sequence left behind.
-/

namespace K1de

open Fallible Decimal

namespace Terminal

/-! ## Operations that do not look at the parser

`put`, `newline` and `tab` neither read nor write the parser state, the `dirty`
flag or the parameters. The CSI actions read the parameters but nothing else of
these. -/

/-- Other parser bookkeeping, with other parameters or the same ones. -/
structure Parsing where
  state : EscState
  dirty : Bool
  cur : Option UInt32
  params : Option (List UInt32)

/-- The same terminal with other bookkeeping. -/
def reparse (p : Parsing) (t : Terminal) : Terminal :=
  { t with
    esc := p.state
    dirty := p.dirty
    csiCur := p.cur
    csiParams := p.params.getD t.csiParams }

/-- `f` acts alike with the bookkeeping `p`, and keeps it. -/
def Blind (p : Parsing) (f : Terminal → Except Fault Terminal) : Prop :=
  ∀ t, f (reparse p t) = reparse p <$> f t

section

variable {p : Parsing}

theorem Blind.bind {f g : Terminal → Except Fault Terminal} (hf : Blind p f) (hg : Blind p g) :
    Blind p fun t => f t >>= g := by
  intro t
  dsimp only
  rw [hf]
  cases f t with
  | error e => rfl
  | ok t' => exact hg t'

/-- A branch whose condition does not see the bookkeeping. -/
theorem Blind.ite {f g : Terminal → Except Fault Terminal} {c : Terminal → Prop}
    [DecidablePred c] (hc : ∀ t, c (reparse p t) ↔ c t) (hf : Blind p f) (hg : Blind p g) :
    Blind p fun t => if c t then f t else g t := by
  intro t
  by_cases h : c t
  · simp only [hc, h, if_true]
    exact hf t
  · simp only [hc, h, if_false]
    exact hg t

/-- A computation that does not see the bookkeeping, and one that uses its result. -/
theorem Blind.read {α : Type} {r : Terminal → Except Fault α}
    {k : α → Terminal → Except Fault Terminal} (hr : ∀ t, r (reparse p t) = r t)
    (hk : ∀ a, Blind p (k a)) : Blind p fun t => r t >>= fun a => k a t := by
  intro t
  dsimp only
  rw [hr]
  cases r t with
  | error e => rfl
  | ok a => exact hk a t

/-- An update of other fields. -/
theorem blind_ok (upd : Terminal → Terminal) (h : ∀ t, upd (reparse p t) = reparse p (upd t)) :
    Blind p fun t => .ok (upd t) := by
  intro t
  dsimp only
  rw [h, map_ok]

theorem blind_id : Blind p fun t => .ok t :=
  blind_ok id fun _ => rfl

end

section

variable (p : Parsing)

theorem newline_blind : Blind p newline := by
  refine Blind.ite (fun _ => Iff.rfl) ?_ ?_
  · exact Blind.read (fun _ => rfl)
      (fun cells => blind_ok (fun t => { t with cursorCol := 0, cells }) fun _ => rfl)
  · exact blind_ok (fun t => { t with cursorCol := 0, cursorRow := t.cursorRow + 1 }) fun _ => rfl

theorem wrap_blind : Blind p wrap :=
  Blind.ite (fun _ => Iff.rfl) (newline_blind p) blind_id

/-- Printing reads the pen, the grid and the cursor. -/
theorem put_blind (ch : UInt8) : Blind p (put · ch) := by
  refine (wrap_blind p).bind (Blind.read (fun _ => rfl) fun cells => ?_)
  exact blind_ok (fun t => { t with cells, cursorCol := t.cursorCol + 1 }) fun _ => rfl

theorem tabLoop_blind (next fuel : Nat) : Blind p (tabLoop next fuel) := by
  induction fuel with
  | zero => exact blind_id
  | succ fuel ih =>
      exact Blind.ite (fun _ => Iff.rfl) ((put_blind p 0x20).bind ih) blind_id

theorem tab_blind : Blind p tab := fun t =>
  tabLoop_blind p ((t.cursorCol / 8 + 1) * 8) ((t.cursorCol / 8 + 1) * 8 - t.cursorCol) t

end

section

variable (e : EscState) (d : Bool) (c : Option UInt32)

/-- Overwriting cells. -/
theorem blind_setCells {p : Parsing} (cells : List Cell) :
    Blind p fun t => .ok { t with cells := cells } :=
  blind_ok (fun t => { t with cells := cells }) fun _ => rfl

/-- Erasing reads the first parameter too. -/
theorem eraseLine_blind : Blind ⟨e, d, c, none⟩ eraseLine := by
  refine Blind.ite (fun _ => Iff.rfl) (Blind.read (fun _ => rfl) blind_setCells) ?_
  refine Blind.ite (fun _ => Iff.rfl) ?_ ?_
  · refine Blind.read (r := fun t => Vec.usub t.cols 1) (fun _ => rfl) fun lastCol => ?_
    exact Blind.read (fun _ => rfl) blind_setCells
  · exact Blind.ite (fun _ => Iff.rfl) (Blind.read (fun _ => rfl) blind_setCells) blind_id

theorem eraseDisplay_blind : Blind ⟨e, d, c, none⟩ eraseDisplay := by
  refine Blind.ite (fun _ => Iff.rfl) (Blind.read (fun _ => rfl) blind_setCells) ?_
  refine Blind.ite (fun _ => Iff.rfl) ?_ ?_
  · refine Blind.read (r := fun t => Vec.usub t.cells.length 1) (fun _ => rfl) fun lastCell => ?_
    exact Blind.read (fun _ => rfl) blind_setCells
  · refine Blind.ite (fun _ => Iff.rfl) (Blind.read (fun _ => rfl) fun cells => ?_) blind_id
    exact blind_ok (fun t => { t with cells, cursorRow := 0, cursorCol := 0 }) fun _ => rfl

theorem setColour_reparse (t : Terminal) (targetFg : Bool) (colour : UInt8) :
    (reparse ⟨e, d, c, none⟩ t).setColour targetFg colour =
      reparse ⟨e, d, c, none⟩ (t.setColour targetFg colour) := by
  cases targetFg <;> rfl

/-- The lookahead of `38` and `48` reads the parameters, which are kept. -/
theorem extendedColour_reparse (t : Terminal) (i : Nat) (targetFg : Bool) :
    (reparse ⟨e, d, c, none⟩ t).extendedColour i targetFg =
      Prod.map (reparse ⟨e, d, c, none⟩) id (t.extendedColour i targetFg) := by
  have hparams : (reparse ⟨e, d, c, none⟩ t).csiParams = t.csiParams := rfl
  unfold extendedColour
  simp only [hparams, setColour_reparse]
  split
  · split <;> rfl
  · split <;> rfl

theorem sgrParam_reparse (t : Terminal) (i : Nat) (v : UInt32) :
    (reparse ⟨e, d, c, none⟩ t).sgrParam i v =
      Prod.map (reparse ⟨e, d, c, none⟩) id (t.sgrParam i v) := by
  unfold sgrParam
  rw [extendedColour_reparse]
  simp only [apply_ite (Prod.map (reparse ⟨e, d, c, none⟩) id)]
  rfl

theorem sgrLoop_blind (fuel i : Nat) : Blind ⟨e, d, c, none⟩ (sgrLoop fuel i) := by
  induction fuel generalizing i with
  | zero => exact blind_id
  | succ fuel ih =>
      refine Blind.ite (fun _ => Iff.rfl) (Blind.read (fun _ => rfl) fun v => ?_) blind_id
      intro t
      dsimp only
      rw [sgrParam_reparse]
      exact ih _ _

/-- SGR reads all of them. -/
theorem applySgr_blind : Blind ⟨e, d, c, none⟩ applySgr := by
  refine Blind.ite (fun _ => Iff.rfl) ?_ ?_
  · exact blind_ok (fun t => { t with curFg := none, curBg := none, bold := false }) fun _ => rfl
  · exact fun t => sgrLoop_blind e d c t.csiParams.length 0 t

/-- The action of a complete control sequence. -/
theorem applyCsi_blind (finalByte : UInt8) : Blind ⟨e, d, c, none⟩ (applyCsi · finalByte) := by
  refine Blind.ite (fun _ => Iff.rfl) (eraseLine_blind e d c) ?_
  refine Blind.ite (fun _ => Iff.rfl) (eraseDisplay_blind e d c) ?_
  -- the motions
  refine Blind.ite (fun _ => Iff.rfl) (fun _ => rfl) ?_
  refine Blind.ite (fun _ => Iff.rfl) (fun _ => rfl) ?_
  refine Blind.ite (fun _ => Iff.rfl) (fun _ => rfl) ?_
  refine Blind.ite (fun _ => Iff.rfl) (fun _ => rfl) ?_
  exact Blind.ite (fun _ => Iff.rfl) (applySgr_blind e d c) blind_id

end

/-! ## The dirty flag -/

/-- What does not look at the bookkeeping keeps the flag. -/
theorem Blind.dirty_eq {f : Terminal → Except Fault Terminal} {t t' : Terminal}
    (hf : Blind ⟨t.esc, t.dirty, t.csiCur, none⟩ f) (h : f t = .ok t') : t'.dirty = t.dirty := by
  have hself : reparse ⟨t.esc, t.dirty, t.csiCur, none⟩ t = t := rfl
  have hblind := hf t
  rw [hself, h, map_ok] at hblind
  rw [Except.ok.inj hblind]
  rfl

/-- No byte outside of sequences clears the mark. -/
theorem groundByte_dirty {t t' : Terminal} {b : UInt8} (h : t.groundByte b = .ok t') :
    t'.dirty = t.dirty := by
  unfold groundByte at h
  split_ifs at h
  · exact (newline_blind _).dirty_eq h
  · cases h
    rfl
  · exact (tab_blind _).dirty_eq h
  · cases h
    rfl
  · cases h
    rfl
  · cases h
    rfl
  · exact (put_blind _ b).dirty_eq h
  · cases h
    rfl

theorem escByte_dirty (t : Terminal) (b : UInt8) : (t.escByte b).dirty = t.dirty := by
  unfold escByte
  split_ifs <;> rfl

/-- No byte of a control sequence does. -/
theorem csiByte_dirty {t t' : Terminal} {b : UInt8} (h : t.csiByte b = .ok t') :
    t'.dirty = t.dirty := by
  unfold csiByte at h
  split_ifs at h
  · cases h
    rfl
  · cases h
    rfl
  · obtain ⟨t₁, hcsi, ht'⟩ := of_bind_ok h
    cases ht'
    have hkeep := (applyCsi_blind _ _ _ b).dirty_eq hcsi
    exact hkeep
  · cases h
    rfl

/-- Every byte marks the terminal, also one that changes nothing. -/
theorem processByte_dirty {t t' : Terminal} {b : UInt8} (h : t.processByte b = .ok t') :
    t'.dirty = true := by
  unfold processByte at h
  dsimp only at h
  cases hesc : t.esc <;> rw [hesc] at h <;> dsimp only at h
  -- the mark is set before the byte is looked at, and kept by what follows
  case none => exact groundByte_dirty h
  case esc =>
    cases h
    exact escByte_dirty _ b
  case csi => exact csiByte_dirty h
  case osc => split_ifs at h <;> cases h <;> rfl
  case dcs => split_ifs at h <;> cases h <;> rfl
  all_goals
    cases h
    rfl

/-- Output marks the terminal, unless it is empty. -/
theorem feed_dirty {t t' : Terminal} {bytes : List UInt8} (h : t.feed bytes = .ok t') :
    t' = t ∨ t'.dirty = true := by
  induction bytes generalizing t with
  | nil =>
      cases h
      exact Or.inl rfl
  | cons b bytes ih =>
      obtain ⟨t₁, hb, hrest⟩ := of_bind_ok h
      rcases ih hrest with rfl | hdirty
      · exact Or.inr (processByte_dirty hb)
      · exact Or.inr hdirty

end Terminal

/-! ## Tokens -/

/-- The bytes that the ground state neither prints nor acts on. -/
def Inert (b : UInt8) : Prop :=
  b ≠ 0x0a ∧ b ≠ 0x0d ∧ b ≠ 0x09 ∧ b ≠ 0x08 ∧ b ≠ 0x7f ∧ b ≠ 0x1b ∧ ¬ (0x20 ≤ b ∧ b ≤ 0x7e)

/-- The bytes that select a character set: `( ) * +`. -/
def Designator (b : UInt8) : Prop := b = 0x28 ∨ b = 0x29 ∨ b = 0x2a ∨ b = 0x2b

/-- How an OSC string ends. -/
inductive OscEnd where
  | bel
  | st
deriving DecidableEq, Repr

def OscEnd.encode : OscEnd → List UInt8
  | .bel => [0x07]
  | .st => [0x1b, 0x5c]

/-- One unit of terminal output. -/
inductive Token where
  /-- a printable byte -/
  | print (b : UInt8) (h : 0x20 ≤ b ∧ b ≤ 0x7e)
  | lf
  | cr
  | ht
  | bs
  | del
  /-- any other byte that is not ESC -/
  | inert (b : UInt8) (h : Inert b)
  /-- `ESC [`, the parameters, the final byte -/
  | csi (ps : List UInt32) (final : UInt8) (h : 0x40 ≤ final ∧ final ≤ 0x7e)
  /-- `ESC ]`, a payload, BEL or `ESC \` -/
  | osc (payload : List UInt8) (h : ∀ b ∈ payload, b ≠ 0x07 ∧ b ≠ 0x1b) (terminator : OscEnd)
  /-- `ESC P`, a payload, `ESC \` -/
  | dcs (payload : List UInt8) (h : ∀ b ∈ payload, b ≠ 0x1b)
  /-- `ESC (` and the like, and any one byte -/
  | charset (designator : UInt8) (h : Designator designator) (b : UInt8)
  /-- `ESC` and any byte that opens none of the above -/
  | escape (x : UInt8) (h : x ≠ 0x5b ∧ x ≠ 0x5d ∧ x ≠ 0x50 ∧ ¬ Designator x)

/-- The decimal numerals of the parameters, joined by `;`. -/
def encodeParams (ps : List UInt32) : List UInt8 :=
  [0x3b].intercalate (ps.map fun p => numeral p.toNat)

theorem encodeParams_nil : encodeParams [] = [] := rfl

theorem encodeParams_singleton (p : UInt32) : encodeParams [p] = numeral p.toNat := by
  simp [encodeParams, List.intercalate]

theorem encodeParams_cons_cons (p q : UInt32) (ps : List UInt32) :
    encodeParams (p :: q :: ps) = numeral p.toNat ++ 0x3b :: encodeParams (q :: ps) := by
  simp [encodeParams, List.intercalate]

def Token.encode : Token → List UInt8
  | .print b _ => [b]
  | .lf => [0x0a]
  | .cr => [0x0d]
  | .ht => [0x09]
  | .bs => [0x08]
  | .del => [0x7f]
  | .inert b _ => [b]
  | .csi ps final _ => [0x1b, 0x5b] ++ encodeParams ps ++ [final]
  | .osc payload _ terminator => [0x1b, 0x5d] ++ payload ++ terminator.encode
  | .dcs payload _ => [0x1b, 0x50] ++ payload ++ [0x1b, 0x5c]
  | .charset designator _ b => [0x1b, designator, b]
  | .escape x _ => [0x1b, x]

/-- What a token does to a terminal in the ground state. -/
def Token.act (t : Terminal) : Token → Except Fault Terminal
  | .print b _ => t.put b
  | .lf => t.newline
  | .cr => .ok { t with cursorCol := 0 }
  | .ht => t.tab
  | .bs | .del => .ok { t with cursorCol := t.cursorCol - 1 }
  | .csi ps final _ => Terminal.applyCsi { t with csiParams := ps } final
  | .inert .. | .osc .. | .dcs .. | .charset .. | .escape .. => .ok t

/-- A screen as a terminal whose parser is at rest and holds nothing. -/
def Terminal.Screen.terminal (s : Terminal.Screen) : Terminal :=
  { cols := s.cols, rows := s.rows, cells := s.cells, cursorRow := s.cursorRow,
    cursorCol := s.cursorCol, curFg := s.curFg, curBg := s.curBg, bold := s.bold
    esc := .none, dirty := false, csiParams := [], csiCur := none }

/-- The token machine: one step on a screen. -/
def Token.meaning (s : Terminal.Screen) (tok : Token) : Except Fault Terminal.Screen :=
  Terminal.screen <$> tok.act s.terminal

namespace Terminal

/-! ## Parsing one token -/

/-- What is compared: the parser state and the screen. -/
def observe (t : Terminal) : EscState × Screen := (t.esc, t.screen)

/-- Every terminal is its screen with some bookkeeping. -/
theorem eq_reparse_screen (t : Terminal) :
    t = reparse ⟨t.esc, t.dirty, t.csiCur, some t.csiParams⟩ t.screen.terminal := rfl

/-- An operation that is blind to all bookkeeping acts on the screen. -/
theorem observe_of_blind {f : Terminal → Except Fault Terminal} (hf : ∀ p, Blind p f)
    {t : Terminal} {e : EscState} (he : t.esc = e) :
    observe <$> f t = (fun s => (e, s)) <$> screen <$> f t.screen.terminal := by
  subst he
  have ht := hf ⟨t.esc, t.dirty, t.csiCur, some t.csiParams⟩ t.screen.terminal
  rw [← eq_reparse_screen] at ht
  rw [ht]
  cases f t.screen.terminal <;> rfl

/-- A byte in the ground state. -/
theorem processByte_ground {t : Terminal} (h : t.esc = .none) (b : UInt8) :
    t.processByte b = groundByte { t with dirty := true } b := by
  unfold processByte
  dsimp only
  rw [h]

theorem feed_singleton (t : Terminal) (b : UInt8) : t.feed [b] = t.processByte b := by
  unfold feed
  rw [run_cons]
  cases t.processByte b <;> rfl

theorem feed_cons (t : Terminal) (b : UInt8) (bs : List UInt8) :
    t.feed (b :: bs) = t.processByte b >>= fun t' => t'.feed bs := rfl

/-- Output in two pieces is output at once: the parser keeps its state in between. -/
theorem feed_append (t : Terminal) (bs cs : List UInt8) :
    t.feed (bs ++ cs) = t.feed bs >>= fun t' => t'.feed cs := run_append t bs cs

/-- `ESC` opens a sequence. -/
theorem processByte_esc {t : Terminal} (h : t.esc = .none) :
    t.processByte 0x1b = .ok { t with dirty := true, esc := .esc } := by
  rw [processByte_ground h]
  rfl

/-- A printable byte is printed. -/
theorem groundByte_print {t : Terminal} {b : UInt8} (h : 0x20 ≤ b ∧ b ≤ 0x7e) :
    t.groundByte b = t.put b := by
  have h1 : b ≠ 0x0a := by grind
  have h2 : b ≠ 0x0d := by grind
  have h3 : b ≠ 0x09 := by grind
  have h4 : ¬ (b = 0x08 ∨ b = 0x7f) := by grind
  have h5 : b ≠ 0x1b := by grind
  unfold groundByte
  rw [if_neg h1, if_neg h2, if_neg h3, if_neg h4, if_neg h5, if_pos h]

/-- Backspace and delete move one to the left, and erase nothing. -/
theorem groundByte_backspace {t : Terminal} {b : UInt8} (h : b = 0x08 ∨ b = 0x7f) :
    t.groundByte b = .ok { t with cursorCol := t.cursorCol - 1 } := by
  have h1 : b ≠ 0x0a := by grind
  have h2 : b ≠ 0x0d := by grind
  have h3 : b ≠ 0x09 := by grind
  unfold groundByte
  rw [if_neg h1, if_neg h2, if_neg h3, if_pos h]
  split
  · rfl
  · next hcol =>
      have hzero : t.cursorCol - 1 = t.cursorCol := by omega
      rw [hzero]

/-- Any other byte is dropped. -/
theorem groundByte_inert {t : Terminal} {b : UInt8} (h : Inert b) : t.groundByte b = .ok t := by
  obtain ⟨h1, h2, h3, h4, h5, h6, h7⟩ := h
  unfold groundByte
  rw [if_neg h1, if_neg h2, if_neg h3, if_neg (by tauto), if_neg h6, if_neg h7]

/-- A charset selection takes one more byte. -/
theorem escByte_designator {t : Terminal} {b : UInt8} (h : Designator b) :
    t.escByte b = { t with esc := .charset } := by
  rcases h with rfl | rfl | rfl | rfl <;> rfl

/-- What the parser does not know after `ESC` ends the sequence. -/
theorem escByte_other {t : Terminal} {x : UInt8}
    (h : x ≠ 0x5b ∧ x ≠ 0x5d ∧ x ≠ 0x50 ∧ ¬ Designator x) :
    t.escByte x = { t with esc := .none } := by
  obtain ⟨h1, h2, h3, h4⟩ := h
  have h4' : ¬ (x = 0x28 ∨ x = 0x29 ∨ x = 0x2a ∨ x = 0x2b) := h4
  unfold escByte
  rw [if_neg h1, if_neg h2, if_neg h3, if_neg h4']

/-! ### Control sequences -/

theorem processByte_csi {t : Terminal} (h : t.esc = .csi) (b : UInt8) :
    t.processByte b = csiByte { t with dirty := true } b := by
  unfold processByte
  dsimp only
  rw [h]

/-- A digit extends the number, wrapping at 2^32. -/
theorem processByte_digit {t : Terminal} (h : t.esc = .csi) {b : UInt8} (hb : IsDigit b) :
    t.processByte b = .ok { t with
      dirty := true
      csiCur := some (t.csiCur.getD 0 * 10 + (b - 0x30).toUInt32) } := by
  have hrange : 0x30 ≤ b ∧ b ≤ 0x39 := hb
  rw [processByte_csi h, csiByte, if_pos hrange]

/-- A semicolon ends the number. If there is none, a zero is pushed. -/
theorem processByte_semicolon {t : Terminal} (h : t.esc = .csi) :
    t.processByte 0x3b = .ok { t with
      dirty := true
      csiParams := t.csiParams ++ [t.csiCur.getD 0]
      csiCur := none } := by
  rw [processByte_csi h]
  rfl

/-- The final byte pushes the last number only if there is one, and acts. -/
theorem processByte_final {t : Terminal} (h : t.esc = .csi) {b : UInt8}
    (hb : 0x40 ≤ b ∧ b ≤ 0x7e) :
    t.processByte b = (fun t' => { t' with esc := .none }) <$>
      applyCsi { t with
        dirty := true
        csiParams := t.csiParams ++ t.csiCur.toList
        csiCur := none } b := by
  have h1 : ¬ (0x30 ≤ b ∧ b ≤ 0x39) := by grind
  have h2 : b ≠ 0x3b := by grind
  rw [processByte_csi h, csiByte, if_neg h1, if_neg h2, if_pos hb]
  rfl

/-- A run of digits accumulates their value. -/
theorem feed_digits {t : Terminal} (h : t.esc = .csi) {ds : List UInt8}
    (hds : ∀ b ∈ ds, IsDigit b) (hne : ds ≠ []) :
    t.feed ds = .ok { t with
      dirty := true
      csiCur := some (value32 (t.csiCur.getD 0) ds) } := by
  induction ds generalizing t with
  | nil => exact absurd rfl hne
  | cons b ds ih =>
      rw [feed_cons, processByte_digit h (hds b List.mem_cons_self), ok_bind]
      by_cases hds' : ds = []
      · subst hds'
        rfl
      · -- the number read so far is where the rest goes on
        have hrest := fun b' hb' => hds b' (List.mem_cons_of_mem b hb')
        rw [ih (t := { t with dirty := true, csiCur := _ }) h hrest hds']
        rfl

/-- A numeral is read as the number it stands for. -/
theorem feed_numeral {t : Terminal} (h : t.esc = .csi) (hcur : t.csiCur = none) (n : UInt32) :
    t.feed (numeral n.toNat) = .ok { t with dirty := true, csiCur := some n } := by
  rw [feed_digits h (fun _ hb => isDigit_of_mem_numeral hb) (numeral_ne_nil _), hcur]
  show Except.ok { t with dirty := true, csiCur := some (value32 0 (numeral n.toNat)) } = _
  rw [value32_numeral]

/-- The body of a control sequence: whatever parameters `qs` have been collected,
`ps` are appended to them and the final byte acts on all of them. -/
theorem feed_csi_body {t : Terminal} (h : t.esc = .csi) (hcur : t.csiCur = none)
    (ps : List UInt32) {final : UInt8} (hfinal : 0x40 ≤ final ∧ final ≤ 0x7e) :
    t.feed (encodeParams ps ++ [final]) = (fun t' => { t' with esc := .none }) <$>
      applyCsi { t with dirty := true, csiParams := t.csiParams ++ ps } final := by
  induction ps generalizing t with
  | nil =>
      rw [encodeParams_nil, List.nil_append, feed_singleton, processByte_final h hfinal, hcur]
      cases t
      cases hcur
      rfl
  | cons p ps ih =>
      cases ps with
      | nil =>
          -- the last parameter is pushed by the final byte
          rw [encodeParams_singleton, feed_append, feed_numeral h hcur, ok_bind, feed_singleton,
            processByte_final (by exact h) hfinal]
          cases t
          cases hcur
          rfl
      | cons q ps =>
          -- an earlier one by the `;` after it
          rw [encodeParams_cons_cons, List.append_assoc, List.cons_append, feed_append,
            feed_numeral h hcur, ok_bind, feed_cons, processByte_semicolon (by exact h), ok_bind,
            ih (by exact h) rfl]
          cases t
          cases hcur
          simp only [List.append_assoc, List.singleton_append, Option.getD_some]

/-! ### Control strings -/

/-- A state that swallows the bytes of `ok`. -/
theorem feed_swallowed {t : Terminal} {ok : UInt8 → Prop}
    (hstep : ∀ b, ok b → t.processByte b = .ok t) {bs : List UInt8} (hbs : ∀ b ∈ bs, ok b) :
    t.feed bs = .ok t := by
  induction bs with
  | nil => rfl
  | cons b bs ih =>
      rw [feed_cons, hstep b (hbs b List.mem_cons_self), ok_bind]
      exact ih (fun b' hb' => hbs b' (List.mem_cons_of_mem b hb'))

/-- A title is swallowed up to BEL or ST. -/
theorem feed_osc {t : Terminal} (h : t.esc = .osc) (hdirty : t.dirty = true) {bs : List UInt8}
    (hbs : ∀ b ∈ bs, b ≠ 0x07 ∧ b ≠ 0x1b) (terminator : OscEnd) :
    t.feed (bs ++ terminator.encode) = .ok { t with esc := .none } := by
  have hstay : ∀ b, b ≠ 0x07 ∧ b ≠ 0x1b → t.processByte b = .ok t := by
    intro b hb
    unfold processByte
    dsimp only
    rw [h]
    dsimp only
    rw [if_neg hb.1, if_neg hb.2, ← hdirty, ← h]
  rw [feed_append, feed_swallowed hstay hbs, ok_bind]
  cases t
  cases h
  cases hdirty
  cases terminator <;> rfl

/-- A device control string is swallowed up to ST, and BEL does not end it. -/
theorem feed_dcs {t : Terminal} (h : t.esc = .dcs) (hdirty : t.dirty = true) {bs : List UInt8}
    (hbs : ∀ b ∈ bs, b ≠ 0x1b) :
    t.feed (bs ++ [0x1b, 0x5c]) = .ok { t with esc := .none } := by
  have hstay : ∀ b, b ≠ 0x1b → t.processByte b = .ok t := by
    intro b hb
    unfold processByte
    dsimp only
    rw [h]
    dsimp only
    rw [if_neg hb, ← hdirty, ← h]
  rw [feed_append, feed_swallowed hstay hbs, ok_bind]
  cases t
  cases h
  cases hdirty
  rfl

/-! ## The refinement -/

/-- The byte after `ESC` in a terminal at rest. -/
theorem feed_esc_cons {t : Terminal} (h : t.esc = .none) (b : UInt8) (bs : List UInt8) :
    t.feed (0x1b :: b :: bs) = (escByte { t with dirty := true, esc := .esc } b).feed bs := by
  rw [feed_cons, processByte_esc h, ok_bind, feed_cons]
  rfl

theorem feed_esc_append {t : Terminal} (h : t.esc = .none) (b : UInt8) (bs cs : List UInt8) :
    t.feed ([0x1b, b] ++ bs ++ cs) =
      (escByte { t with dirty := true, esc := .esc } b).feed (bs ++ cs) := by
  rw [List.append_assoc]
  exact feed_esc_cons h b (bs ++ cs)

/-- A CSI action, run with the bookkeeping that the parser has at the final byte,
shows what it shows on the bare screen. -/
theorem observe_applyCsi (t : Terminal) (ps : List UInt32) (final : UInt8) :
    observe <$> (fun t' => { t' with esc := .none }) <$>
        applyCsi { t with dirty := true, csiParams := ps, csiCur := none, esc := .csi } final =
      (fun s => (.none, s)) <$> screen <$>
        applyCsi { t.screen.terminal with csiParams := ps } final := by
  have hblind : ∀ u : Terminal, applyCsi (reparse ⟨.csi, true, none, none⟩ u) final =
      reparse ⟨.csi, true, none, none⟩ <$> applyCsi u final :=
    applyCsi_blind .csi true none final
  have hact := hblind { t.screen.terminal with csiParams := ps }
  calc observe <$> (fun t' => { t' with esc := .none }) <$>
        applyCsi { t with dirty := true, csiParams := ps, csiCur := none, esc := .csi } final
      = observe <$> (fun t' => { t' with esc := .none }) <$>
          reparse ⟨.csi, true, none, none⟩ <$>
            applyCsi { t.screen.terminal with csiParams := ps } final := by rw [← hact]; rfl
    _ = (fun s => (.none, s)) <$> screen <$>
          applyCsi { t.screen.terminal with csiParams := ps } final := by
        cases applyCsi { t.screen.terminal with csiParams := ps } final <;> rfl

/-- One column to the left. -/
theorem blind_back (p : Parsing) :
    Blind p fun t => .ok { t with cursorCol := t.cursorCol - 1 } :=
  blind_ok (fun t => { t with cursorCol := t.cursorCol - 1 }) fun _ => rfl

/-- One token: the parser is at rest again and shows what the token means. -/
theorem feed_token {t : Terminal} (h : t.esc = .none) (tok : Token) :
    observe <$> t.feed tok.encode = (fun s => (.none, s)) <$> tok.meaning t.screen := by
  -- a byte of the ground state that runs a blind operation
  have hplain : ∀ {f : Terminal → Except Fault Terminal}, (∀ p, Blind p f) →
      observe <$> f { t with dirty := true } =
        (fun s => (.none, s)) <$> screen <$> f t.screen.terminal :=
    fun hf => observe_of_blind hf (t := { t with dirty := true }) h
  cases tok with
  | print b hb =>
      rw [Token.encode, feed_singleton, processByte_ground h, groundByte_print hb]
      exact hplain (fun p => put_blind p b)
  | lf =>
      rw [Token.encode, feed_singleton, processByte_ground h]
      exact hplain newline_blind
  | cr =>
      rw [Token.encode, feed_singleton, processByte_ground h]
      exact hplain (fun p => blind_ok (fun t => { t with cursorCol := 0 }) fun _ => rfl)
  | ht =>
      rw [Token.encode, feed_singleton, processByte_ground h]
      exact hplain (f := tab) tab_blind
  | bs =>
      rw [Token.encode, feed_singleton, processByte_ground h, groundByte_backspace (Or.inl rfl)]
      exact hplain blind_back
  | del =>
      rw [Token.encode, feed_singleton, processByte_ground h, groundByte_backspace (Or.inr rfl)]
      exact hplain blind_back
  | inert b hb =>
      rw [Token.encode, feed_singleton, processByte_ground h, groundByte_inert hb]
      exact hplain (fun p => blind_id)
  | csi ps final hfinal =>
      rw [Token.encode, feed_esc_append h]
      show observe <$> (Terminal.feed { t with
        dirty := true, csiParams := [], csiCur := none, esc := .csi } _) = _
      rw [feed_csi_body rfl rfl ps hfinal]
      exact observe_applyCsi t ps final
  | osc payload hpayload terminator =>
      rw [Token.encode, feed_esc_append h]
      show observe <$> (Terminal.feed { t with dirty := true, esc := .osc } _) = _
      rw [feed_osc rfl rfl hpayload]
      rfl
  | dcs payload hpayload =>
      rw [Token.encode, feed_esc_append h]
      show observe <$> (Terminal.feed { t with dirty := true, esc := .dcs } _) = _
      rw [feed_dcs rfl rfl hpayload]
      rfl
  | charset designator hd b =>
      rw [Token.encode, feed_esc_cons h, escByte_designator hd, feed_singleton]
      rfl
  | escape x hx =>
      rw [Token.encode, feed_esc_cons h, escByte_other hx]
      rfl

/-- One token, seen on the screen. -/
theorem feed_token_screen {t : Terminal} (h : t.esc = .none) (tok : Token) :
    screen <$> t.feed tok.encode = tok.meaning t.screen := by
  have htok := congrArg (Prod.snd <$> ·) (feed_token h tok)
  cases hf : t.feed tok.encode <;> cases hm : tok.meaning t.screen <;>
    simp_all [observe]

/-- After a token the parser is at rest. -/
theorem feed_token_esc {t : Terminal} (h : t.esc = .none) (tok : Token) :
    Sat (t.feed tok.encode) (fun t' => t'.esc = .none) (fun _ => True) := by
  have htok := feed_token h tok
  cases hf : t.feed tok.encode with
  | error f => trivial
  | ok t' =>
      rw [hf] at htok
      cases hm : tok.meaning t.screen with
      | error f => rw [hm] at htok; cases htok
      | ok s =>
          rw [hm] at htok
          injection htok with heq
          exact congrArg Prod.fst heq

/-- The byte parser refines the token machine: fed the encodings of any tokens
from any terminal at rest, it ends at rest, showing what the tokens mean. -/
theorem feed_encode (t : Terminal) (h : t.esc = .none) (toks : List Token) :
    observe <$> t.feed (toks.flatMap Token.encode) =
      (fun s => (.none, s)) <$> run Token.meaning t.screen toks := by
  have hrun : t.feed (toks.flatMap Token.encode) = run (fun t tok => t.feed tok.encode) t toks :=
    run_flatMap Token.encode t toks
  -- tokens are whole sequences, so the parser is at rest between any two of them
  have hscreen := run_refines screen (fun t => t.esc = .none)
    (fun t tok ht => feed_token_screen ht tok) (fun t tok ht => feed_token_esc ht tok) t toks h
  have hesc := run_sat (fun _ => True) (fun t tok ht _ => feed_token_esc ht tok) t toks h
    (fun _ _ => trivial)
  rw [hrun, ← hscreen]
  cases hr : run (fun t tok => t.feed tok.encode) t toks with
  | error f => rfl
  | ok t' =>
      rw [hr] at hesc
      have he : t'.esc = .none := hesc
      simp only [map_ok, observe, he]

/-- A terminal at rest that still holds the parameters of an earlier sequence. -/
def leftover : Terminal :=
  { cols := 2, rows := 1, cells := [blank, blank], cursorRow := 0, cursorCol := 0, esc := .none
    dirty := false, csiParams := [7, 31], csiCur := some 4, curFg := none, curBg := none
    bold := false }

theorem feed_encode_leftover :
    leftover.esc = .none ∧
    observe <$> leftover.feed
        ([.csi [1, 32] 0x6d (by decide), .osc [0x30] (by simp) .st, .print 0x61 (by decide)].flatMap
          Token.encode) =
      (fun s => (.none, s)) <$> run Token.meaning leftover.screen
        [.csi [1, 32] 0x6d (by decide), .osc [0x30] (by simp) .st, .print 0x61 (by decide)] :=
  ⟨rfl, feed_encode leftover rfl _⟩

end Terminal

end K1de
