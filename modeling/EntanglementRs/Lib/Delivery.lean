import Mathlib.Algebra.Group.Nat.Defs
import Mathlib.Data.List.Perm.Subperm
import Mathlib.Data.List.Sort
import Mathlib.Order.Nat
import Mathlib.Tactic.Common

/-!
# Deliveries by position

A medium between a sender and a receiver, seen through what has been sent and
the positions of the messages that were handed over, in the order in which they
were.  A medium that loses, repeats or reorders messages hands over any
positions, one that delivers at most once hands over distinct ones, and one that
keeps the order hands over ascending ones.
-/

namespace Delivery

variable {α β : Type*}

/-- What the receiver gets when these positions are handed over. -/
def arrived (sent : List α) (taken : List ℕ) : List α :=
  taken.filterMap fun n => sent[n]?

/-- Only what has been sent is handed over. -/
def Valid (sent : List α) (taken : List ℕ) : Prop :=
  ∀ n ∈ taken, n < sent.length

variable {sent more : List α} {taken : List ℕ}

theorem valid_nil (sent : List α) : Valid sent [] := by
  simp [Valid]

theorem Valid.append (hvalid : Valid sent taken) (more : List α) :
    Valid (sent ++ more) taken := by
  intro n hn
  rw [List.length_append]
  exact Nat.lt_add_right _ (hvalid n hn)

theorem Valid.concat (hvalid : Valid sent taken) {n : ℕ} {a : α} (ha : sent[n]? = some a) :
    Valid sent (taken ++ [n]) := by
  intro m hm
  rcases List.mem_append.mp hm with hm | hm
  · exact hvalid m hm
  · rw [List.mem_singleton.mp hm]
    exact (List.getElem?_eq_some_iff.mp ha).1

/-- What is sent later does not change what has arrived. -/
theorem arrived_append (hvalid : Valid sent taken) (more : List α) :
    arrived (sent ++ more) taken = arrived sent taken := by
  apply List.filterMap_congr
  intro n hn
  exact List.getElem?_append_left (hvalid n hn)

theorem arrived_concat {n : ℕ} {a : α} (ha : sent[n]? = some a) :
    arrived sent (taken ++ [n]) = arrived sent taken ++ [a] := by
  simp [arrived, ha]

theorem arrived_subset : arrived sent taken ⊆ sent := by
  intro a ha
  obtain ⟨n, _, hget⟩ := List.mem_filterMap.mp ha
  exact List.mem_of_getElem? hget

theorem arrived_range (sent : List α) : arrived sent (List.range sent.length) = sent := by
  induction sent with
  | nil => rfl
  | cons a sent ih =>
      simp only [arrived] at ih ⊢
      simp [List.range_succ_eq_map, List.filterMap_map, ih]

theorem arrived_length (hvalid : Valid sent taken) :
    (arrived sent taken).length = taken.length := by
  induction taken with
  | nil => rfl
  | cons n taken ih =>
      have hn : n < sent.length := hvalid n List.mem_cons_self
      have hrest := ih fun m hm => hvalid m (List.mem_cons_of_mem n hm)
      simp only [arrived] at hrest ⊢
      simp [List.getElem?_eq_getElem hn, hrest]

theorem subperm_range (hvalid : Valid sent taken) (honce : taken.Nodup) :
    taken.Subperm (List.range sent.length) :=
  List.subperm_of_subset honce fun n hn => List.mem_range.mpr (hvalid n hn)

/-- Delivered at most once, the messages are among those sent. -/
theorem arrived_subperm (hvalid : Valid sent taken) (honce : taken.Nodup) :
    (arrived sent taken).Subperm sent := by
  obtain ⟨taken', hperm, hsub⟩ := subperm_range hvalid honce
  refine ⟨arrived sent taken', hperm.filterMap _, ?_⟩
  have hall := hsub.filterMap fun n => sent[n]?
  rw [← arrived, ← arrived, arrived_range] at hall
  exact hall

/-- Delivered in order, they are a part of what was sent, in its order. -/
theorem arrived_sublist (hvalid : Valid sent taken) (horder : taken.Pairwise (· < ·)) :
    (arrived sent taken).Sublist sent := by
  have honce : taken.Nodup := horder.imp fun hlt => hlt.ne
  have hsub : taken.Sublist (List.range sent.length) := by
    apply List.sublist_of_subperm_of_pairwise _ horder List.pairwise_lt_range
    exact subperm_range hvalid honce
  have hall := hsub.filterMap fun n => sent[n]?
  rw [← arrived, ← arrived, arrived_range] at hall
  exact hall

theorem Subperm.filterMap {l m : List α} (hsub : l.Subperm m) (select : α → Option β) :
    (l.filterMap select).Subperm (m.filterMap select) := by
  obtain ⟨l', hperm, hl'⟩ := hsub
  exact ⟨l'.filterMap select, hperm.filterMap select, hl'.filterMap select⟩

theorem Subperm.map {l m : List α} (hsub : l.Subperm m) (f : α → β) :
    (l.map f).Subperm (m.map f) := by
  obtain ⟨l', hperm, hl'⟩ := hsub
  exact ⟨l'.map f, hperm.map f, hl'.map f⟩

/-- The positions at which something for the selected receiver was sent. -/
def positionsOf (select : α → Option β) (sent : List α) (taken : List ℕ) : List ℕ :=
  taken.filter fun n => (sent[n]?.bind select).isSome

/-- If what is selected is delivered in order, it is a part of what is selected
from the messages sent, in their order. -/
theorem arrived_filterMap_sublist (select : α → Option β) (hvalid : Valid sent taken)
    (horder : (positionsOf select sent taken).Pairwise (· < ·)) :
    ((arrived sent taken).filterMap select).Sublist (sent.filterMap select) := by
  have hselected : (arrived sent taken).filterMap select =
      (arrived sent (positionsOf select sent taken)).filterMap select := by
    simp only [arrived, List.filterMap_filterMap, positionsOf, List.filterMap_filter]
    apply List.filterMap_congr
    intro n _
    cases hselect : sent[n]?.bind select with
    | none => rfl
    | some b => exact hselect.symm
  rw [hselected]
  have hvalid' : Valid sent (positionsOf select sent taken) := fun n hn =>
    hvalid n (List.mem_of_mem_filter hn)
  exact (arrived_sublist hvalid' horder).filterMap select

end Delivery
