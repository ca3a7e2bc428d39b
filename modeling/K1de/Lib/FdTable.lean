import Mathlib.Data.List.Nodup
import Mathlib.Data.List.Perm.Basic

/-! # Descriptor tables

The open files of a process: a descriptor is an index, opening a file takes the lowest index that
is free. Each entry says whether it survives `exec`. Every operation comes with what `lookup` gives
after it.

`Holds t base own` is ownership: the process has in its table what it was given (`base`) and what
it has opened itself (`own`), each under a descriptor of its own, and nothing else, and it has
closed nothing that was not open. Opening a file adds to `own` and closing one of `own` takes it
away, whatever the order.
-/

namespace FdTable

variable {φ : Type*}

structure Entry (φ : Type*) where
  file : φ
  cloexec : Bool
deriving DecidableEq, Repr

structure Table (φ : Type*) where
  slots : List (Option (Entry φ))
  /-- how often `close` has failed, as the descriptor was not open -/
  strayCloses : Nat
deriving DecidableEq, Repr

def lookup (t : Table φ) (fd : Nat) : Option (Entry φ) := t.slots[fd]?.join

/-- The lowest descriptor that is free. -/
def lowest (t : Table φ) : Nat := t.slots.findIdx Option.isNone

/-- The table with `fd` in it, longer if it has to be. -/
def put (t : Table φ) (fd : Nat) (e : Entry φ) : Table φ :=
  { t with slots := (t.slots ++ List.replicate (fd + 1 - t.slots.length) none).set fd (some e) }

def close (t : Table φ) (fd : Nat) : Table φ where
  slots := t.slots.set fd none
  strayCloses := if (lookup t fd).isSome then t.strayCloses else t.strayCloses + 1

/-- `dup2`, if `old` is open. Onto itself it changes nothing, not even what `exec` will do. -/
def dup2 (t : Table φ) (old new : Nat) : Option (Table φ) :=
  (lookup t old).map fun e => if old = new then t else put t new { e with cloexec := false }

def exec (t : Table φ) : Table φ :=
  { t with slots := t.slots.map (Option.filter fun e => !e.cloexec) }

/-! ## What `lookup` gives -/

/-- The lowest free descriptor is free. -/
theorem lookup_lowest (t : Table φ) : lookup t (lowest t) = none := by
  unfold lookup lowest
  rcases Nat.lt_or_ge (t.slots.findIdx Option.isNone) t.slots.length with hlt | hge
  · have hfound := List.findIdx_getElem (w := hlt)
    rw [List.getElem?_eq_getElem hlt]
    exact Option.isNone_iff_eq_none.mp hfound
  · rw [List.getElem?_eq_none hge]
    rfl

/-- Room at the end is free. -/
theorem lookup_append_free (t : Table φ) (n fd : Nat) :
    lookup { t with slots := t.slots ++ List.replicate n none } fd = lookup t fd := by
  unfold lookup
  dsimp only
  rcases Nat.lt_or_ge fd t.slots.length with hlt | hge
  · rw [List.getElem?_append_left hlt]
  · rw [List.getElem?_append_right hge, List.getElem?_eq_none hge, List.getElem?_replicate]
    split <;> rfl

/-- Putting a file in changes one descriptor. -/
theorem lookup_put (t : Table φ) (fd : Nat) (e : Entry φ) (n : Nat) :
    lookup (put t fd e) n = if n = fd then some e else lookup t n := by
  have hroom : fd < (t.slots ++ List.replicate (fd + 1 - t.slots.length)
      (none : Option (Entry φ))).length := by
    rw [List.length_append, List.length_replicate]
    omega
  rw [← lookup_append_free t (fd + 1 - t.slots.length) n]
  unfold lookup put
  dsimp only
  split
  · next hn =>
      rw [hn, List.getElem?_set_self hroom]
      rfl
  · next hn => rw [List.getElem?_set_ne (Ne.symm hn)]

/-- So does closing one. -/
theorem lookup_close (t : Table φ) (fd n : Nat) :
    lookup (close t fd) n = if n = fd then none else lookup t n := by
  unfold lookup close
  dsimp only
  split
  · next hn =>
      rw [hn, List.getElem?_set, if_pos rfl]
      split <;> rfl
  · next hn => rw [List.getElem?_set_ne (Ne.symm hn)]

/-- A descriptor that survives `exec`, copied: the copy does too. -/
theorem lookup_dup2 {t : Table φ} {old : Nat} {x : φ} (h : lookup t old = some ⟨x, false⟩)
    (new : Nat) :
    ∃ t', dup2 t old new = some t' ∧
      ∀ n, lookup t' n = if n = new then some ⟨x, false⟩ else lookup t n := by
  unfold dup2
  rw [h, Option.map_some]
  -- onto itself nothing is copied, and the file was there
  by_cases heq : old = new
  · refine ⟨t, congrArg some (if_pos heq), fun n => ?_⟩
    split
    · next hn => rw [hn, ← heq, h]
    · rfl
  · exact ⟨_, congrArg some (if_neg heq), lookup_put t new _⟩

/-- `exec` keeps the files that are not to be closed by it. -/
theorem lookup_exec {t : Table φ} {fd : Nat} {e : Entry φ} :
    lookup (exec t) fd = some e ↔ lookup t fd = some e ∧ e.cloexec = false := by
  have hfilter : lookup (exec t) fd = (lookup t fd).filter fun e => !e.cloexec := by
    unfold lookup exec
    rw [List.getElem?_map]
    cases t.slots[fd]? <;> rfl
  rw [hfilter, Option.filter_eq_some_iff, Bool.not_eq_true']

/-! ## Ownership -/

structure Holds (t base : Table φ) (own : List (Nat × Entry φ)) : Prop where
  nodup : (own.map Prod.fst).Nodup
  free : ∀ x ∈ own, lookup base x.1 = none
  lookup_iff : ∀ fd e, lookup t fd = some e ↔ (fd, e) ∈ own ∨ lookup base fd = some e
  strayCloses_eq : t.strayCloses = base.strayCloses

/-- Before it opens anything the process has what it was given. -/
theorem holds_nothing (t : Table φ) : Holds t t [] where
  nodup := List.nodup_nil
  free := fun _ hx => absurd hx List.not_mem_nil
  lookup_iff := fun fd e => by simp
  strayCloses_eq := rfl

variable {t base : Table φ} {own own' : List (Nat × Entry φ)} {fd : Nat} {e : Entry φ}

/-- The order of what is owned does not matter. -/
theorem Holds.perm (h : Holds t base own) (hperm : own.Perm own') : Holds t base own' where
  nodup := ((hperm.map Prod.fst).nodup_iff).mp h.nodup
  free := fun x hx => h.free x (hperm.mem_iff.mpr hx)
  lookup_iff := fun fd e => by rw [h.lookup_iff, hperm.mem_iff]
  strayCloses_eq := h.strayCloses_eq

/-- A free descriptor is nobody's. -/
theorem Holds.of_free (h : Holds t base own) (hfree : lookup t fd = none) :
    fd ∉ own.map Prod.fst ∧ lookup base fd = none := by
  constructor
  · intro hmem
    obtain ⟨⟨fd', e⟩, hx, rfl⟩ := List.mem_map.mp hmem
    rw [(h.lookup_iff fd' e).mpr (.inl hx)] at hfree
    cases hfree
  · rw [Option.eq_none_iff_forall_ne_some]
    intro e he
    rw [(h.lookup_iff fd e).mpr (.inr he)] at hfree
    cases hfree

/-- A file that is opened gets a descriptor of its own, since a free one is nobody's. -/
theorem Holds.opened (h : Holds t base own) (e : Entry φ) :
    Holds (put t (lowest t) e) base ((lowest t, e) :: own) := by
  obtain ⟨hown, hbase⟩ := h.of_free (lookup_lowest t)
  refine ⟨List.nodup_cons.mpr ⟨hown, h.nodup⟩, ?_, ?_, h.strayCloses_eq⟩
  · intro x hx
    rcases List.mem_cons.mp hx with rfl | hx
    · exact hbase
    · exact h.free x hx
  · intro fd e'
    rw [lookup_put, List.mem_cons, Prod.mk.injEq, or_assoc, ← h.lookup_iff]
    split
    · next hfd => simp [hfd, lookup_lowest, eq_comm]
    · next hfd => simp [hfd]

/-- A file of its own that is closed was open, and leaves the others. -/
theorem Holds.closed (h : Holds t base ((fd, e) :: own)) : Holds (close t fd) base own := by
  obtain ⟨hfd, hnodup⟩ := List.nodup_cons.mp h.nodup
  refine ⟨hnodup, fun x hx => h.free x (List.mem_cons_of_mem _ hx), ?_, ?_⟩
  · intro n e'
    rw [lookup_close]
    split
    · next hn =>
        subst hn
        -- its descriptor is neither another one's nor one of the first
        have hown : (n, e') ∉ own := fun hx => hfd (List.mem_map.mpr ⟨_, hx, rfl⟩)
        simp [hown, h.free _ List.mem_cons_self]
    · next hn => simp [h.lookup_iff, hn]
  · have hopen : lookup t fd = some e := (h.lookup_iff fd e).mpr (.inl List.mem_cons_self)
    show (if (lookup t fd).isSome then _ else _) = _
    rw [hopen]
    exact h.strayCloses_eq

/-- Opening a file and closing it again. -/
theorem Holds.transient (h : Holds t base own) (e : Entry φ) :
    Holds (FdTable.close (put t (lowest t) e) (lowest t)) base own :=
  (h.opened e).closed

end FdTable
