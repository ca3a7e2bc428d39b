import Mathlib.Computability.Language
import K1de.Input.Modifiers

/-! # What can be typed

The texts that a keyboard can send to the shell, as a language. `typeable_iff`: they are exactly the
concatenations of strokes, where a stroke is one character or one of the seven escape sequences of
the arrow and navigation keys. The characters are those of US-ASCII from 0x01 to 0x1a and from 0x20
on. There is no key for NUL, for 0x1c to 0x1f, or for ESC alone, and the Enter key types a line
feed.

Both directions are about hands on keys (`WellFormed`): a text that can be typed is typed by
sequences that start and end with no key held.
-/

namespace K1de

open scoped Computability

variable {κ : Type}

/-- What a sequence of key events types. -/
def typedText (d : Decoder) : List (KeyEvent κ) → List UInt8
  | [] => []
  | e :: es => (d.decode e.raw).2 ++ typedText (d.decode e.raw).1 es

/-- A character for which there is a key, with or without a modifier. -/
def HasKey (b : UInt8) : Prop := 0x01 ≤ b ∧ b ≤ 0x1a ∨ 0x20 ≤ b ∧ b ≤ 0x7f

instance (b : UInt8) : Decidable (HasKey b) := inferInstanceAs (Decidable (_ ∨ _))

/-- What one key types. -/
def strokes : Language UInt8 :=
  { text | (∃ b, HasKey b ∧ text = [b]) ∨ ∃ p ∈ sequenceTable, text = p.2 }

/-! ## Every text is made of strokes -/

/-- A stroke in front of strokes. -/
theorem append_mem_strokes {text more : List UInt8} (h : text ∈ strokes) (h' : more ∈ strokes∗) :
    text ++ more ∈ strokes∗ := by
  have hle : strokes * strokes∗ ≤ strokes∗ := mul_kstar_le_kstar
  exact hle (Language.append_mem_mul h h')

/-- What is looked up is in the table. -/
theorem mem_of_lookup {α β : Type} [BEq α] [LawfulBEq α] {a : α} {b : β} {l : List (α × β)}
    (h : l.lookup a = some b) : (a, b) ∈ l := by
  obtain ⟨l₁, l₂, rfl, -⟩ := List.lookup_eq_some_iff.mp h
  simp

/-- The characters of the table, with and without shift. -/
theorem hasKey_of_mem_charTable {p : UInt16 × UInt8 × UInt8} (hp : p ∈ charTable) :
    HasKey p.2.1 ∧ HasKey p.2.2 := by
  have hall : (charTable.all fun p => HasKey p.2.1 ∧ HasKey p.2.2) = true := by decide +kernel
  exact of_decide_eq_true (List.all_eq_true.mp hall p hp)

/-- With ctrl, a letter types one of 0x01 to 0x1a. -/
theorem hasKey_ctrl : ∀ n < 256, isAsciiAlphabetic (UInt8.ofNat n) = true →
    HasKey (toAsciiUppercase (UInt8.ofNat n) - 0x41 + 1) := by
  decide +kernel

/-- A key types nothing or one stroke, whatever the modifiers. -/
theorem keyBytes_mem_strokes (d : Decoder) (code : UInt16) :
    d.keyBytes code = [] ∨ d.keyBytes code ∈ strokes := by
  unfold Decoder.keyBytes
  cases hseq : sequenceTable.lookup code with
  | some seq => exact Or.inr (Or.inr ⟨(code, seq), mem_of_lookup hseq, rfl⟩)
  | none =>
      cases hchars : baseChar code with
      | none => exact Or.inl rfl
      | some chars =>
          right
          left
          obtain ⟨hlo, hhi⟩ := hasKey_of_mem_charTable (mem_of_lookup hchars)
          have hplain : HasKey (if d.shift then chars.2 else chars.1) := by
            split
            · exact hhi
            · exact hlo
          -- ctrl changes letters only
          dsimp only
          generalize (if d.shift then chars.2 else chars.1) = ch at hplain ⊢
          split
          · next halpha =>
              rw [Bool.and_eq_true] at halpha
              have hctrl := hasKey_ctrl ch.toNat ch.toNat_lt
              rw [UInt8.ofNat_toNat] at hctrl
              exact ⟨_, hctrl halpha.2, rfl⟩
          · exact ⟨_, hplain, rfl⟩

/-- So does an event. -/
theorem decode_mem_strokes (d : Decoder) (ev : InputEvent) :
    (d.decode ev).2 = [] ∨ (d.decode ev).2 ∈ strokes := by
  unfold Decoder.decode
  dsimp only
  split
  · exact Or.inl rfl
  split
  · exact Or.inl rfl
  split
  · exact Or.inl rfl
  split
  · exact Or.inl rfl
  · exact keyBytes_mem_strokes d ev.code

/-- And a sequence of events types strokes. -/
theorem typedText_mem (d : Decoder) (es : List (KeyEvent κ)) : typedText d es ∈ strokes∗ := by
  induction es generalizing d with
  | nil => exact Language.nil_mem_kstar _
  | cons e es ih =>
      rw [typedText]
      rcases decode_mem_strokes d e.raw with hnil | hstroke
      · rw [hnil]
        exact ih _
      · exact append_mem_strokes hstroke (ih _)

/-! ## Every stroke can be played -/

/-- Playing these events takes the hands and the decoder from one state to another, and types
this text. -/
structure Plays (held : Finset (Unit × UInt16)) (d : Decoder) (es : List (KeyEvent Unit))
    (held' : Finset (Unit × UInt16)) (d' : Decoder) (text : List UInt8) : Prop where
  wellFormed : WellFormed held es
  held_eq : heldAfter held es = held'
  decoder_eq : decodeAll d es = d'
  text_eq : typedText d es = text

section

variable {held held₁ held₂ : Finset (Unit × UInt16)} {d d₁ d₂ : Decoder}
  {es fs : List (KeyEvent Unit)} {text more : List UInt8}

theorem plays_nothing (held : Finset (Unit × UInt16)) (d : Decoder) :
    Plays held d [] held d [] :=
  ⟨trivial, rfl, rfl, rfl⟩

theorem Plays.cons {e : KeyEvent Unit} (he : Feasible held e)
    (h : Plays (holding held e) (d.decode e.raw).1 es held₁ d₁ text) :
    Plays held d (e :: es) held₁ d₁ ((d.decode e.raw).2 ++ text) where
  wellFormed := ⟨he, h.wellFormed⟩
  held_eq := h.held_eq
  decoder_eq := h.decoder_eq
  text_eq := congrArg ((d.decode e.raw).2 ++ ·) h.text_eq

/-- Two pieces, the second played from where the first has ended. -/
theorem Plays.append (h : Plays held d es held₁ d₁ text)
    (h' : Plays held₁ d₁ fs held₂ d₂ more) : Plays held d (es ++ fs) held₂ d₂ (text ++ more) := by
  induction es generalizing held d text with
  | nil =>
      obtain ⟨-, rfl, rfl, rfl⟩ := h
      exact h'
  | cons e es ih =>
      obtain ⟨⟨he, hes⟩, hheld, hdecoder, rfl⟩ := h
      have hrest := ih ⟨hes, hheld, hdecoder, rfl⟩
      rw [List.cons_append, typedText, List.append_assoc]
      exact hrest.cons he

/-- A key that is not a modifier. -/
def Ordinary (code : UInt16) : Prop := code ∉ [42, 54, 29, 97]

instance (code : UInt16) : Decidable (Ordinary code) := inferInstanceAs (Decidable (¬ _))

/-- A key goes down and up. -/
def tap (code : UInt16) : List (KeyEvent Unit) := [⟨(), code, .press⟩, ⟨(), code, .release⟩]

/-- A key that goes down and up again types what it stands for, and leaves hands and modifiers as
they were. -/
theorem plays_tap {code : UInt16} (hcode : Ordinary code) (hup : ((), code) ∉ held)
    (d : Decoder) : Plays held d (tap code) held d (d.keyBytes code) := by
  obtain ⟨h42, h54, h29, h97⟩ : code ≠ 42 ∧ code ≠ 54 ∧ code ≠ 29 ∧ code ≠ 97 := by
    simpa [Ordinary] using hcode
  have hpress : d.decode (⟨(), code, .press⟩ : KeyEvent Unit).raw = (d, d.keyBytes code) := by
    simp [Decoder.decode, KeyEvent.raw, KeyAction.value, h42, h54, h29, h97]
  have hrelease : d.decode (⟨(), code, .release⟩ : KeyEvent Unit).raw = (d, []) := by
    simp [Decoder.decode, KeyEvent.raw, KeyAction.value, h42, h54, h29, h97]
  refine ⟨⟨hup, Finset.mem_insert_self _ _, trivial⟩, Finset.erase_insert hup, ?_, ?_⟩
  · show (Decoder.decode (Decoder.decode d _).1 _).1 = d
    rw [hpress, hrelease]
  · show (Decoder.decode d _).2 ++ ((Decoder.decode (Decoder.decode d _).1 _).2 ++ []) = _
    rw [hpress, hrelease]
    exact List.append_nil _

/-- The key goes down and up while a modifier is held. -/
def chord (modifier code : UInt16) : List (KeyEvent Unit) :=
  [⟨(), modifier, .press⟩] ++ tap code ++ [⟨(), modifier, .release⟩]

/-- With a modifier around it, what it stands for under that modifier. -/
theorem plays_chord {modifier code : UInt16} (hmodifier : modifier = 42 ∨ modifier = 29)
    (hcode : Ordinary code) :
    Plays ∅ .new (chord modifier code) ∅ .new
      (Decoder.keyBytes { shift := modifier = 42, ctrl := modifier = 29 } code) := by
  have hne : code ≠ modifier := by
    rintro rfl
    rcases hmodifier with rfl | rfl <;> exact absurd hcode (by decide)
  have hup : ((), code) ∉ ({((), modifier)} : Finset (Unit × UInt16)) := by simpa using hne
  have hpress : Plays ∅ .new [⟨(), modifier, .press⟩] {((), modifier)}
      { shift := modifier = 42, ctrl := modifier = 29 } [] := by
    rcases hmodifier with rfl | rfl <;> exact ⟨⟨by simp [Feasible], trivial⟩, rfl, rfl, rfl⟩
  have hrelease : Plays {((), modifier)} { shift := modifier = 42, ctrl := modifier = 29 }
      [⟨(), modifier, .release⟩] ∅ .new [] := by
    rcases hmodifier with rfl | rfl <;>
      exact ⟨⟨Finset.mem_singleton_self _, trivial⟩, Finset.erase_singleton _, rfl, rfl⟩
  have hall := (hpress.append (plays_tap hcode hup _)).append hrelease
  rw [List.nil_append, List.append_nil] at hall
  exact hall

end

/-- A key of the table is not a modifier, and what it types alone, with shift and with ctrl. -/
theorem keyBytes_of_mem {p : UInt16 × UInt8 × UInt8} (hp : p ∈ charTable) :
    Ordinary p.1 ∧ Decoder.new.keyBytes p.1 = [p.2.1] ∧
      Decoder.keyBytes { shift := true, ctrl := false } p.1 = [p.2.2] ∧
      (isAsciiAlphabetic p.2.1 = true →
        Decoder.keyBytes { shift := false, ctrl := true } p.1 =
          [toAsciiUppercase p.2.1 - 0x41 + 1]) := by
  have hall : (charTable.all fun p => Ordinary p.1 ∧ sequenceTable.lookup p.1 = none ∧
      baseChar p.1 = some p.2) = true := by decide +kernel
  obtain ⟨hcode, hseq, hchars⟩ := of_decide_eq_true (List.all_eq_true.mp hall p hp)
  refine ⟨hcode, ?_, ?_, fun halpha => ?_⟩
  · rw [Decoder.keyBytes, hseq, hchars]
    rfl
  · rw [Decoder.keyBytes, hseq, hchars]
    rfl
  · rw [Decoder.keyBytes, hseq, hchars]
    exact if_pos halpha

/-- For every character there is a key. -/
theorem exists_key {b : UInt8} (hb : HasKey b) :
    ∃ p ∈ charTable, p.2.1 = b ∨ p.2.2 = b ∨
      isAsciiAlphabetic p.2.1 = true ∧ toAsciiUppercase p.2.1 - 0x41 + 1 = b := by
  have hall : ((List.range 256).all fun n => !decide (HasKey (UInt8.ofNat n)) ||
      charTable.any fun p => p.2.1 = UInt8.ofNat n ∨ p.2.2 = UInt8.ofNat n ∨
        isAsciiAlphabetic p.2.1 = true ∧ toAsciiUppercase p.2.1 - 0x41 + 1 = UInt8.ofNat n) =
      true := by decide +kernel
  have hn := List.all_eq_true.mp hall b.toNat (List.mem_range.mpr b.toNat_lt)
  rw [UInt8.ofNat_toNat] at hn
  simpa [hb] using hn

/-- For every stroke there is a key, with a modifier where it needs one. -/
theorem exists_plays_stroke {text : List UInt8} (h : text ∈ strokes) :
    ∃ es, Plays ∅ .new es ∅ .new text := by
  rcases h with ⟨b, hb, rfl⟩ | ⟨p, hp, rfl⟩
  · obtain ⟨p, hp, hkey⟩ := exists_key hb
    obtain ⟨hcode, halone, hshift, hctrl⟩ := keyBytes_of_mem hp
    rcases hkey with rfl | rfl | ⟨halpha, rfl⟩
    · -- the key alone, with shift, with ctrl
      exact ⟨_, halone ▸ plays_tap hcode (Finset.notMem_empty _) .new⟩
    · exact ⟨_, hshift ▸ plays_chord (.inl rfl) hcode⟩
    · exact ⟨_, hctrl halpha ▸ plays_chord (.inr rfl) hcode⟩
  · have hsequences : ∀ p ∈ sequenceTable, Ordinary p.1 ∧ Decoder.new.keyBytes p.1 = p.2 := by
      decide +kernel
    obtain ⟨hcode, hkey⟩ := hsequences p hp
    exact ⟨_, hkey ▸ plays_tap hcode (Finset.notMem_empty _) .new⟩

/-- A text can be typed, beginning and ending with no key held, if and only if it is made of
strokes. -/
theorem typeable_iff (text : List UInt8) :
    (∃ es : List (KeyEvent Unit),
      WellFormed ∅ es ∧ heldAfter ∅ es = ∅ ∧ typedText .new es = text) ↔ text ∈ strokes∗ := by
  constructor
  · rintro ⟨es, -, -, rfl⟩
    exact typedText_mem .new es
  · intro htext
    obtain ⟨parts, rfl, hparts⟩ := Language.mem_kstar.mp htext
    obtain ⟨es, hes⟩ : ∃ es, Plays ∅ .new es ∅ .new parts.flatten := by
      -- one stroke after the other, each from no key held to no key held
      clear htext
      induction parts with
      | nil => exact ⟨[], plays_nothing _ _⟩
      | cons part parts ih =>
          obtain ⟨es, hes⟩ := exists_plays_stroke (hparts part List.mem_cons_self)
          obtain ⟨fs, hfs⟩ := ih fun y hy => hparts y (List.mem_cons_of_mem part hy)
          exact ⟨es ++ fs, hes.append hfs⟩
    exact ⟨es, hes.wellFormed, hes.held_eq, hes.text_eq⟩

end K1de
