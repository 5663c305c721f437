import Mathlib.Algebra.GroupWithZero.Nat
import Mathlib.Data.List.Basic
import Mathlib.Logic.Function.Basic
import Mathlib.Tactic.Common

/-!
# Counters without an order between threads

An atomic counter to which threads add with relaxed ordering.  The additions
have one order, which every thread sees from where it has got to: a read may
return any value from there on, however old.  Only a thread that waits for the
end of another is sure to see what that one has seen.
-/

namespace Relaxed

variable {ι : Type*} [DecidableEq ι]

structure Counter (ι : Type*) where
  /-- Who added what, in modification order. -/
  adds : List (ι × ℕ)
  /-- How many additions each thread has seen. -/
  seen : ι → ℕ

namespace Counter

def zero : Counter ι := ⟨[], fun _ => 0⟩

def add (c : Counter ι) (t : ι) (n : ℕ) : Counter ι where
  adds := c.adds ++ [(t, n)]
  seen := Function.update c.seen t (c.adds.length + 1)

/-- What thread `t` may read: the value after `k` additions. -/
def Readable (c : Counter ι) (t : ι) (k : ℕ) : Prop := c.seen t ≤ k ∧ k ≤ c.adds.length

instance (c : Counter ι) (t : ι) (k : ℕ) : Decidable (c.Readable t k) :=
  instDecidableAnd

def read (c : Counter ι) (t : ι) (k : ℕ) : Counter ι :=
  { c with seen := Function.update c.seen t k }

/-- `t` waits for the end of `u`. -/
def join (c : Counter ι) (t u : ι) : Counter ι :=
  c.read t (max (c.seen t) (c.seen u))

def value (c : Counter ι) (k : ℕ) : ℕ := ((c.adds.take k).map Prod.snd).sum

def total (c : Counter ι) : ℕ := (c.adds.map Prod.snd).sum

/-- What a thread has seen of the value. -/
def known (c : Counter ι) (t : ι) : ℕ := c.value (c.seen t)

/-- The 64-bit value after `k` additions. -/
def load (c : Counter ι) (k : ℕ) : UInt64 := UInt64.ofNat (c.value k)

/-- The additions of one thread. -/
def addsOf (c : Counter ι) (t : ι) : List (ι × ℕ) := c.adds.filter fun x => x.1 = t

structure Coherent (c : Counter ι) : Prop where
  bounded : ∀ t, c.seen t ≤ c.adds.length
  last : ∀ x, c.adds.getLast? = some x → c.seen x.1 = c.adds.length

variable {c : Counter ι} {t u : ι} {n k l : ℕ}

@[simp] theorem adds_add : (c.add t n).adds = c.adds ++ [(t, n)] := rfl

@[simp] theorem adds_read : (c.read t k).adds = c.adds := rfl

@[simp] theorem adds_join : (c.join t u).adds = c.adds := rfl

theorem seen_add_self : (c.add t n).seen t = c.adds.length + 1 := Function.update_self ..

theorem seen_add_ne (hne : u ≠ t) : (c.add t n).seen u = c.seen u :=
  Function.update_of_ne hne ..

theorem seen_read_self : (c.read t k).seen t = k := Function.update_self ..

theorem seen_read_ne (hne : u ≠ t) : (c.read t k).seen u = c.seen u :=
  Function.update_of_ne hne ..

theorem seen_join_self : (c.join t u).seen t = max (c.seen t) (c.seen u) :=
  Function.update_self ..

theorem seen_join_ne {v : ι} (hne : v ≠ t) : (c.join t u).seen v = c.seen v :=
  Function.update_of_ne hne ..

/-! ## Values -/

omit [DecidableEq ι] in
theorem value_mono (hkl : k ≤ l) : c.value k ≤ c.value l := by
  have hsplit := List.take_append_drop k (c.adds.take l)
  rw [List.take_take, Nat.min_eq_left hkl] at hsplit
  rw [value, value, ← hsplit, List.map_append, List.sum_append]
  exact Nat.le_add_right _ _

omit [DecidableEq ι] in
theorem value_le_total (k : ℕ) : c.value k ≤ c.total := by
  have hsplit := List.take_append_drop k c.adds
  rw [value, total]
  conv => rhs; rw [← hsplit, List.map_append, List.sum_append]
  exact Nat.le_add_right _ _

omit [DecidableEq ι] in
theorem value_length : c.value c.adds.length = c.total := by
  rw [value, List.take_length, total]

@[simp] theorem value_add (hk : k ≤ c.adds.length) : (c.add t n).value k = c.value k := by
  rw [value, adds_add, List.take_append_of_le_length hk, value]

@[simp] theorem total_add : (c.add t n).total = c.total + n := by
  simp [total, add]

@[simp] theorem value_read : (c.read t k).value l = c.value l := rfl

@[simp] theorem value_join : (c.join t u).value l = c.value l := rfl

theorem addsOf_add_self : (c.add t n).addsOf t = c.addsOf t ++ [(t, n)] := by
  simp [addsOf, add]

theorem addsOf_add_ne (hne : u ≠ t) : (c.add t n).addsOf u = c.addsOf u := by
  simp [addsOf, add, Ne.symm hne]

/-! ## What threads have seen -/

omit [DecidableEq ι] in
theorem coherent_zero : (zero : Counter ι).Coherent where
  bounded _ := Nat.le_refl _
  last x hx := by simp [zero] at hx

theorem Coherent.add (hc : c.Coherent) (t : ι) (n : ℕ) : (c.add t n).Coherent where
  bounded u := by
    rw [adds_add, List.length_append, List.length_singleton]
    by_cases hu : u = t
    · rw [hu]
      exact Nat.le_of_eq seen_add_self
    · rw [seen_add_ne hu]
      exact Nat.le_succ_of_le (hc.bounded u)
  last x hx := by
    rw [adds_add, List.getLast?_concat, Option.some.injEq] at hx
    rw [← hx, seen_add_self, adds_add, List.length_append, List.length_singleton]

theorem Coherent.read (hc : c.Coherent) (hk : c.Readable t k) : (c.read t k).Coherent where
  bounded u := by
    by_cases hu : u = t
    · rw [hu, seen_read_self]
      exact hk.2
    · rw [seen_read_ne hu]
      exact hc.bounded u
  last x hx := by
    have hlast := hc.last x hx
    by_cases hu : x.1 = t
    · rw [hu] at hlast ⊢
      rw [seen_read_self]
      exact Nat.le_antisymm hk.2 (hlast ▸ hk.1)
    · rw [seen_read_ne hu]
      exact hlast

theorem Coherent.join (hc : c.Coherent) (t u : ι) : (c.join t u).Coherent :=
  hc.read ⟨Nat.le_max_left _ _, Nat.max_le.mpr ⟨hc.bounded t, hc.bounded u⟩⟩

omit [DecidableEq ι] in
/-- Who has seen what every adding thread has seen has seen all. -/
theorem Coherent.seen_eq_length (hc : c.Coherent)
    (hall : ∀ x ∈ c.adds, c.seen x.1 ≤ c.seen t) : c.seen t = c.adds.length := by
  cases hlast : c.adds.getLast? with
  | none =>
      rw [List.getLast?_eq_none_iff] at hlast
      have hbounded := hc.bounded t
      rw [hlast] at hbounded ⊢
      exact Nat.le_zero.mp hbounded
  | some x =>
      have hx := hall x (List.mem_of_getLast? hlast)
      rw [hc.last x hlast] at hx
      exact Nat.le_antisymm (hc.bounded t) hx

/-! ## What threads know of the value -/

theorem known_add (hc : c.Coherent) (hne : u ≠ t) : (c.add t n).known u = c.known u := by
  rw [known, seen_add_ne hne, value_add (hc.bounded u), known]

theorem known_read_self (c : Counter ι) (t : ι) (k : ℕ) :
    (c.read t k).known t = c.value k := by
  rw [known, seen_read_self, value_read]

theorem known_le_read (hk : c.seen t ≤ k) : c.known t ≤ (c.read t k).known t := by
  rw [known_read_self]
  exact value_mono hk

theorem known_le_join (c : Counter ι) (t u : ι) : c.known t ≤ (c.join t u).known t :=
  known_le_read (Nat.le_max_left _ _)

omit [DecidableEq ι] in
theorem known_le_total (c : Counter ι) (t : ι) : c.known t ≤ c.total := value_le_total _

omit [DecidableEq ι] in
theorem load_toNat (hc : c.total < 2 ^ 64) (k : ℕ) : (c.load k).toNat = c.value k := by
  rw [load, UInt64.toNat_ofNat']
  exact Nat.mod_eq_of_lt (Nat.lt_of_le_of_lt (value_le_total k) hc)

omit [DecidableEq ι] in
/-- Who has seen all loads the whole sum. -/
theorem load_all (hk : c.Readable t k) (hall : c.seen t = c.adds.length) :
    c.load k = UInt64.ofNat c.total := by
  have hlast : k = c.adds.length := Nat.le_antisymm hk.2 (hall ▸ hk.1)
  rw [load, hlast, value_length]

end Counter

end Relaxed
