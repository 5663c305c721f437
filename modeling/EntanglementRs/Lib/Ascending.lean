import Mathlib.Order.BoundedOrder.Lattice
import Mathlib.Data.List.Perm.Subperm
import Mathlib.Tactic.Common

/-!
# Checking an ascending list in one pass

A monitor sees the entries of a list one at a time and keeps the last one, how
many there were, and how many were not above the entry before them; an entry
after the least element is not compared.  Against an ascending list of which
all entries seen are members, the two numbers decide equality.
-/

namespace Ascending

variable {α : Type*} [LinearOrder α] [OrderBot α]

def lastFrom (prev : α) : List α → α
  | [] => prev
  | a :: l => lastFrom a l

def stumble (prev a : α) : ℕ := if a ≤ prev ∧ ⊥ < prev then 1 else 0

/-- How many entries the monitor counts as out of order, after `prev`. -/
def stumblesFrom (prev : α) : List α → ℕ
  | [] => 0
  | a :: l => stumble prev a + stumblesFrom a l

variable {prev : α} {l m : List α}

theorem stumble_eq_zero_iff {a : α} (hprev : ⊥ < prev) :
    stumble prev a = 0 ↔ prev < a := by
  unfold stumble
  by_cases hle : a ≤ prev
  · rw [if_pos ⟨hle, hprev⟩]
    simpa using hle
  · rw [if_neg fun hboth => hle hboth.1]
    simpa using hle

theorem stumble_bot (a : α) : stumble ⊥ a = 0 :=
  if_neg fun hboth => lt_irrefl _ hboth.2

omit [LinearOrder α] [OrderBot α] in
theorem lastFrom_concat (l : List α) (prev a : α) : lastFrom prev (l ++ [a]) = a := by
  induction l generalizing prev with
  | nil => rfl
  | cons b l ih => exact ih b

/-- One more entry is compared with the last one kept. -/
theorem stumblesFrom_concat (l : List α) (prev a : α) :
    stumblesFrom prev (l ++ [a]) =
      stumblesFrom prev l + stumble (lastFrom prev l) a := by
  induction l generalizing prev with
  | nil => simp [stumblesFrom, lastFrom]
  | cons b l ih =>
      simp only [List.cons_append, stumblesFrom, lastFrom]
      rw [ih b, Nat.add_assoc]

theorem stumblesFrom_eq_zero_iff (hprev : ⊥ < prev) (hpos : ∀ a ∈ l, ⊥ < a) :
    stumblesFrom prev l = 0 ↔ (prev :: l).Pairwise (· < ·) := by
  induction l generalizing prev with
  | nil => simp [stumblesFrom]
  | cons a l ih =>
      have ha : ⊥ < a := hpos a List.mem_cons_self
      have hrest := ih ha fun b hb => hpos b (List.mem_cons_of_mem a hb)
      rw [stumblesFrom, Nat.add_eq_zero_iff, hrest, stumble_eq_zero_iff hprev]
      constructor
      · rintro ⟨hlt, hpair⟩
        refine List.pairwise_cons.mpr ⟨?_, hpair⟩
        intro b hb
        cases List.mem_cons.mp hb with
        | inl hsame => exact hsame ▸ hlt
        | inr hmem => exact hlt.trans (List.rel_of_pairwise_cons hpair hmem)
      · intro hpair
        exact ⟨List.rel_of_pairwise_cons hpair List.mem_cons_self,
          (List.pairwise_cons.mp hpair).2⟩

/-- From the least element on, the monitor finds nothing exactly when the list
ascends. -/
theorem stumblesFrom_bot_eq_zero_iff (hpos : ∀ a ∈ l, ⊥ < a) :
    stumblesFrom ⊥ l = 0 ↔ l.Pairwise (· < ·) := by
  cases l with
  | nil => simp [stumblesFrom]
  | cons a l =>
      have hrest := stumblesFrom_eq_zero_iff (hpos a List.mem_cons_self)
        fun b hb => hpos b (List.mem_cons_of_mem a hb)
      rw [stumblesFrom, stumble_bot, Nat.zero_add]
      exact hrest

omit [OrderBot α] in
theorem nodup_of_pairwise_lt (hl : l.Pairwise (· < ·)) : l.Nodup :=
  hl.imp fun hlt => hlt.ne

omit [OrderBot α] in
/-- Two ascending lists are equal once one has all entries of the other and no
more. -/
theorem eq_of_subset (hl : l.Pairwise (· < ·)) (hm : m.Pairwise (· < ·))
    (hsub : l ⊆ m) (hlen : m.length ≤ l.length) : l = m := by
  have hsubperm := List.subperm_of_subset (nodup_of_pairwise_lt hl) hsub
  have hperm := hsubperm.perm_of_length_le hlen
  apply List.Perm.eq_of_pairwise _ hl hm hperm
  intro a b _ _ hab hba
  exact absurd hba hab.asymm

/-- What the two numbers decide. -/
theorem eq_iff (hm : m.Pairwise (· < ·)) (hpos : ∀ a ∈ m, ⊥ < a) (hsub : l ⊆ m) :
    l.length = m.length ∧ stumblesFrom ⊥ l = 0 ↔ l = m := by
  have hzero := stumblesFrom_bot_eq_zero_iff fun a ha => hpos a (hsub ha)
  constructor
  · rintro ⟨hlen, hnone⟩
    exact eq_of_subset (hzero.mp hnone) hm hsub (Nat.le_of_eq hlen.symm)
  · intro heq
    exact ⟨congrArg List.length heq, hzero.mpr (heq ▸ hm)⟩

end Ascending
