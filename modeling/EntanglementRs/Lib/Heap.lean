import Mathlib.Data.List.Basic
import Mathlib.Logic.Function.Basic
import Mathlib.Tactic.Common

/-!
# A heap and its custodians

Blocks are identified by their address and by how many were allocated there
before them, so that a release which hits the wrong one is visible.  A heap is
in custody when every live block is held, with its size, by exactly one of
some named custodians; allocating into, passing on and releasing from custody
keep it so, and every release then hits a live block with its own size.
-/

namespace Ownership

variable {A S κ : Type*}

structure Block (S : Type*) where
  size : S
  /-- The sizes it was released with, one for each release. -/
  releases : List S
  deriving DecidableEq

structure Heap (A S : Type*) where
  /-- The blocks ever allocated at an address, oldest first. -/
  blocks : A → List (Block S)
  /-- Releases of addresses where nothing was ever allocated. -/
  stray : List (A × S)

namespace Heap

def empty : Heap A S := ⟨fun _ => [], []⟩

/-- The size of the live block at an address: only the newest one can be live. -/
def live? (h : Heap A S) (p : A) : Option S :=
  match (h.blocks p).getLast? with
  | some ⟨size, []⟩ => some size
  | _ => none

variable [DecidableEq A]

def alloc (h : Heap A S) (p : A) (size : S) : Heap A S :=
  { h with blocks := Function.update h.blocks p (h.blocks p ++ [⟨size, []⟩]) }

/-- A release is charged to the newest block at the address, live or not. -/
def dealloc (h : Heap A S) (p : A) (size : S) : Heap A S :=
  match (h.blocks p).getLast? with
  | none => { h with stray := h.stray ++ [(p, size)] }
  | some b =>
      { h with
        blocks := Function.update h.blocks p
          ((h.blocks p).dropLast ++ [{ b with releases := b.releases ++ [size] }]) }

variable {h : Heap A S} {p q : A} {size : S} {i : ℕ}

omit [DecidableEq A] in
@[simp] theorem live?_empty : (empty : Heap A S).live? p = none := rfl

omit [DecidableEq A] in
theorem live?_eq_some_iff :
    h.live? p = some size ↔ (h.blocks p).getLast? = some ⟨size, []⟩ := by
  unfold live?
  split
  next size' hlast => simp [hlast]
  next hlast =>
    simp only [reduceCtorEq, false_iff]
    exact hlast size

theorem live?_alloc :
    (h.alloc p size).live? q = if q = p then some size else h.live? q := by
  by_cases hq : q = p
  · subst hq
    simp [live?, alloc]
  · simp [live?, alloc, hq]

theorem dealloc_of_live (hlive : h.live? p = some size) (size' : S) :
    h.dealloc p size' =
      { h with
        blocks := Function.update h.blocks p
          ((h.blocks p).dropLast ++ [⟨size, [size']⟩]) } := by
  unfold dealloc
  rw [live?_eq_some_iff.mp hlive]
  rfl

theorem live?_dealloc (hlive : h.live? p = some size) (size' : S) :
    (h.dealloc p size').live? q = if q = p then none else h.live? q := by
  rw [dealloc_of_live hlive]
  by_cases hq : q = p
  · subst hq
    simp [live?]
  · simp [live?, hq]

/-! ## What becomes of one block -/

theorem alloc_getElem? :
    ((h.alloc p size).blocks q)[i]? =
      if q = p ∧ i = (h.blocks p).length then some ⟨size, []⟩
      else (h.blocks q)[i]? := by
  by_cases hq : q = p
  · subst hq
    simp only [alloc, Function.update_self, true_and]
    by_cases hi : i = (h.blocks q).length
    · simp [hi]
    · rw [if_neg hi, List.getElem?_append]
      split
      next => rfl
      next hge =>
        rw [List.getElem?_eq_none (by omega : (h.blocks q).length ≤ i)]
        apply List.getElem?_eq_none
        simp only [List.length_singleton]
        omega
  · simp [alloc, hq]

/-- A release of a live block changes that block and no other. -/
theorem dealloc_getElem? (hlive : h.live? p = some size) (size' : S) :
    ((h.dealloc p size').blocks q)[i]? =
      if q = p ∧ i + 1 = (h.blocks p).length then some ⟨size, [size']⟩
      else (h.blocks q)[i]? := by
  rw [dealloc_of_live hlive]
  by_cases hq : q = p
  · subst hq
    have hsplit := List.dropLast_append_getLast? _ (live?_eq_some_iff.mp hlive)
    have hlength : (h.blocks q).length = (h.blocks q).dropLast.length + 1 := by
      rw [← hsplit]
      simp
    simp only [Function.update_self, true_and]
    by_cases hi : i + 1 = (h.blocks q).length
    · have hi' : i = (h.blocks q).dropLast.length := by omega
      rw [if_pos hi, hi']
      simp
    · rw [if_neg hi, ← hsplit]
      simp only [List.dropLast_concat, List.getElem?_append]
      split
      next => rfl
      next hge =>
        rw [List.getElem?_eq_none, List.getElem?_eq_none] <;>
          simp only [List.length_singleton] <;> omega
  · simp [hq]

theorem alloc_kept {b : Block S} (hb : (h.blocks q)[i]? = some b) :
    ((h.alloc p size).blocks q)[i]? = some b := by
  rw [alloc_getElem?, if_neg]
  · exact hb
  · rintro ⟨rfl, hnew⟩
    have hold := (List.getElem?_eq_some_iff.mp hb).1
    omega

/-- What was released stays as it is. -/
theorem dealloc_kept (hlive : h.live? p = some size) (size' : S) {b : Block S}
    (hb : (h.blocks q)[i]? = some b) (hreleased : b.releases ≠ []) :
    ((h.dealloc p size').blocks q)[i]? = some b := by
  rw [dealloc_getElem? hlive, if_neg]
  · exact hb
  · rintro ⟨rfl, hnew⟩
    have hnewest := live?_eq_some_iff.mp hlive
    rw [List.getLast?_eq_getElem?, ← hnew, Nat.add_sub_cancel, hb] at hnewest
    obtain rfl := Option.some.inj hnewest
    exact hreleased rfl

@[simp] theorem alloc_length :
    ((h.alloc p size).blocks q).length =
      if q = p then (h.blocks p).length + 1 else (h.blocks q).length := by
  by_cases hq : q = p
  · subst hq
    simp [alloc]
  · simp [alloc, hq]

theorem dealloc_length (hlive : h.live? p = some size) (size' : S) :
    ((h.dealloc p size').blocks q).length = (h.blocks q).length := by
  rw [dealloc_of_live hlive]
  by_cases hq : q = p
  · subst hq
    have hsplit := List.dropLast_append_getLast? _ (live?_eq_some_iff.mp hlive)
    rw [← hsplit]
    simp
  · simp [hq]

/-! ## Released once, and with its own size -/

/-- No release missed, and every block but a live newest one at its address
was released exactly once, with its own size. -/
structure ReleasedOnce (h : Heap A S) : Prop where
  stray : h.stray = []
  block : ∀ p i b, (h.blocks p)[i]? = some b →
    b.releases = [b.size] ∨ b.releases = [] ∧ i + 1 = (h.blocks p).length

namespace ReleasedOnce

omit [DecidableEq A] in
theorem empty : (empty : Heap A S).ReleasedOnce := by
  constructor <;> simp [Heap.empty]

omit [DecidableEq A] in
theorem newest_of_getElem? (hone : h.ReleasedOnce)
    (hb : (h.blocks p)[i]? = some ⟨size, []⟩) :
    i + 1 = (h.blocks p).length := by
  cases hone.block p i _ hb with
  | inl hreleased => simp at hreleased
  | inr hnewest => exact hnewest.2

omit [DecidableEq A] in
theorem live?_of_getElem? (hone : h.ReleasedOnce)
    (hb : (h.blocks p)[i]? = some ⟨size, []⟩) :
    h.live? p = some size := by
  rw [live?_eq_some_iff, List.getLast?_eq_getElem?, ← hone.newest_of_getElem? hb]
  exact hb

omit [DecidableEq A] in
theorem mem_iff (hone : h.ReleasedOnce) :
    ⟨size, []⟩ ∈ h.blocks p ↔ h.live? p = some size := by
  constructor
  · intro hmem
    obtain ⟨i, hi⟩ := List.mem_iff_getElem?.mp hmem
    exact hone.live?_of_getElem? hi
  · intro hlive
    exact List.mem_of_getLast? (live?_eq_some_iff.mp hlive)

theorem alloc (hone : h.ReleasedOnce) (hlive : h.live? p = none) (size : S) :
    (h.alloc p size).ReleasedOnce where
  stray := hone.stray
  block q i b hb := by
    rw [alloc_getElem?] at hb
    rw [alloc_length]
    split at hb
    next hnew =>
      obtain rfl := Option.some.inj hb
      rw [if_pos hnew.1, hnew.2]
      exact Or.inr ⟨rfl, rfl⟩
    next =>
      cases hone.block q i b hb with
      | inl hreleased => exact Or.inl hreleased
      | inr hnewest =>
          by_cases hq : q = p
          · subst hq
            have hsome : h.live? q = some b.size := by
              apply hone.live?_of_getElem?
              rw [hb, ← hnewest.1]
            rw [hlive] at hsome
            contradiction
          · rw [if_neg hq]
            exact Or.inr hnewest

theorem dealloc (hone : h.ReleasedOnce) (hlive : h.live? p = some size) :
    (h.dealloc p size).ReleasedOnce where
  stray := by
    rw [dealloc_of_live hlive]
    exact hone.stray
  block q i b hb := by
    rw [dealloc_getElem? hlive] at hb
    rw [dealloc_length hlive]
    split at hb
    next =>
      obtain rfl := Option.some.inj hb
      exact Or.inl rfl
    next => exact hone.block q i b hb

end ReleasedOnce

end Heap

/-! ## Custody -/

/-- What each custodian holds, with the entry of `k` at `p` replaced. -/
def hold [DecidableEq κ] [DecidableEq A] (own : κ → A → Option S) (k : κ) (p : A)
    (entry : Option S) : κ → A → Option S :=
  fun j q => if j = k ∧ q = p then entry else own j q

structure Custody (h : Heap A S) (own : κ → A → Option S) : Prop where
  once : h.ReleasedOnce
  live : ∀ k p size, own k p = some size → h.live? p = some size
  sole : ∀ k k' p size size', own k p = some size → own k' p = some size' → k = k'
  held : ∀ p size, h.live? p = some size → ∃ k, own k p = some size

namespace Custody

variable {h : Heap A S} {own : κ → A → Option S} {k : κ} {p : A} {size : S}

theorem empty : Custody Heap.empty fun (_ : κ) (_ : A) => (none : Option S) where
  once := Heap.ReleasedOnce.empty
  live := by simp
  sole := by simp
  held := by simp

theorem unheld (hc : Custody h own) (hlive : h.live? p = none) (j : κ) :
    own j p = none := by
  cases hj : own j p with
  | none => rfl
  | some size =>
      have hsome := hc.live j p size hj
      rw [hlive] at hsome
      contradiction

theorem others (hc : Custody h own) (hk : own k p = some size) {j : κ} (hj : j ≠ k) :
    own j p = none := by
  cases hother : own j p with
  | none => rfl
  | some size' => exact absurd (hc.sole j k p size' size hother hk) hj

/-- Where a single custodian holds everything, its entries are the live blocks. -/
theorem entries_iff (hc : Custody h own) (honly : ∀ j, j ≠ k → own j p = none) :
    own k p = some size ↔ ⟨size, []⟩ ∈ h.blocks p := by
  rw [hc.once.mem_iff]
  constructor
  · exact hc.live k p size
  · intro hlive
    obtain ⟨j, hj⟩ := hc.held p size hlive
    by_cases hjk : j = k
    · rw [← hjk]
      exact hj
    · rw [honly j hjk] at hj
      contradiction

variable [DecidableEq κ] [DecidableEq A]

theorem alloc (hc : Custody h own) (hlive : h.live? p = none) (k : κ) (size : S) :
    Custody (h.alloc p size) (hold own k p (some size)) where
  once := hc.once.alloc hlive size
  live j q size' hj := by
    have hunheld := hc.unheld hlive j
    have hold' := hc.live j q size'
    rw [Heap.live?_alloc]
    grind [hold]
  sole j j' q size' size'' hj hj' := by
    have hunheld := hc.unheld hlive
    have hsole := hc.sole j j' q size' size''
    grind [hold]
  held q size' hq := by
    rw [Heap.live?_alloc] at hq
    by_cases hqp : q = p
    · refine ⟨k, ?_⟩
      rw [if_pos hqp] at hq
      rw [hold, if_pos ⟨rfl, hqp⟩]
      exact hq
    · rw [if_neg hqp] at hq
      obtain ⟨j, hj⟩ := hc.held q size' hq
      refine ⟨j, ?_⟩
      rw [hold, if_neg fun hboth => hqp hboth.2]
      exact hj

/-- Custody of a block may pass from one custodian to another. -/
theorem pass (hc : Custody h own) (hk : own k p = some size) (k' : κ) :
    Custody h (hold (hold own k p none) k' p (some size)) where
  once := hc.once
  live j q size' hj := by
    have hlive := hc.live k p size hk
    have hold' := hc.live j q size'
    grind [hold]
  sole j j' q size' size'' hj hj' := by
    have hothers : ∀ i, i ≠ k → own i p = none := fun i => hc.others hk
    have hsole := hc.sole j j' q size' size''
    grind [hold]
  held q size' hq := by
    obtain ⟨j, hj⟩ := hc.held q size' hq
    by_cases hqp : q = p
    · subst hqp
      refine ⟨k', ?_⟩
      rw [hc.live k q size hk] at hq
      rw [hold, if_pos ⟨rfl, rfl⟩]
      exact hq
    · refine ⟨j, ?_⟩
      rw [hold, if_neg fun hboth => hqp hboth.2, hold,
        if_neg fun hboth => hqp hboth.2]
      exact hj

theorem dealloc (hc : Custody h own) (hk : own k p = some size) :
    Custody (h.dealloc p size) (hold own k p none) where
  once := hc.once.dealloc (hc.live k p size hk)
  live j q size' hj := by
    have hothers : ∀ i, i ≠ k → own i p = none := fun i => hc.others hk
    have hold' := hc.live j q size'
    rw [Heap.live?_dealloc (hc.live k p size hk)]
    grind [hold]
  sole j j' q size' size'' hj hj' := by
    have hsole := hc.sole j j' q size' size''
    grind [hold]
  held q size' hq := by
    rw [Heap.live?_dealloc (hc.live k p size hk)] at hq
    by_cases hqp : q = p
    · rw [if_pos hqp] at hq
      contradiction
    · rw [if_neg hqp] at hq
      obtain ⟨j, hj⟩ := hc.held q size' hq
      refine ⟨j, ?_⟩
      rw [hold, if_neg fun hboth => hqp hboth.2]
      exact hj

end Custody

end Ownership
