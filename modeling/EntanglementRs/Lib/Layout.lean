import Mathlib.Algebra.Group.Nat.Defs
import Mathlib.Data.List.Basic
import Mathlib.Logic.Equiv.Basic
import Mathlib.Tactic.Common

/-!
# Layouts of fixed size

A layout is a bijection between the values of a type and the byte strings of
one length.  Words are laid out least significant byte first, and layouts can
be put side by side, so a record of words gets its layout from its fields.
-/

namespace ByteLayout

variable {α β : Type*}

structure Layout (α : Type*) where
  size : ℕ
  put : α → List UInt8
  get : List UInt8 → α
  put_length : ∀ a, (put a).length = size
  get_put : ∀ a, get (put a) = a
  put_get : ∀ bytes, bytes.length = size → put (get bytes) = bytes

namespace Layout

theorem get_put_append (layout : Layout α) (a : α) (rest : List UInt8) :
    layout.get ((layout.put a ++ rest).take layout.size) = a := by
  rw [List.take_left' (layout.put_length a), layout.get_put]

theorem drop_put_append (layout : Layout α) (a : α) (rest : List UInt8) :
    (layout.put a ++ rest).drop layout.size = rest :=
  List.drop_left' (layout.put_length a)

/-- Laid out values can be told apart whatever follows them. -/
theorem put_append_inj (layout : Layout α) {a b : α} {rest rest' : List UInt8} :
    layout.put a ++ rest = layout.put b ++ rest' ↔ a = b ∧ rest = rest' := by
  constructor
  · intro h
    have hget := congrArg (fun bytes => layout.get (bytes.take layout.size)) h
    have hdrop := congrArg (List.drop layout.size) h
    rw [get_put_append, get_put_append] at hget
    rw [drop_put_append, drop_put_append] at hdrop
    exact ⟨hget, hdrop⟩
  · rintro ⟨rfl, rfl⟩
    rfl

/-- One layout behind the other. -/
def beside (first : Layout α) (second : Layout β) : Layout (α × β) where
  size := first.size + second.size
  put x := first.put x.1 ++ second.put x.2
  get bytes := (first.get (bytes.take first.size), second.get (bytes.drop first.size))
  put_length x := by rw [List.length_append, first.put_length, second.put_length]
  get_put x := by rw [get_put_append, drop_put_append, second.get_put]
  put_get bytes hlength := by
    have hfirst : (bytes.take first.size).length = first.size := by
      rw [List.length_take]
      omega
    have hsecond : (bytes.drop first.size).length = second.size := by
      rw [List.length_drop]
      omega
    rw [first.put_get _ hfirst, second.put_get _ hsecond, List.take_append_drop]

/-- The layout of a type that is another one in disguise. -/
def through (layout : Layout α) (e : β ≃ α) : Layout β where
  size := layout.size
  put b := layout.put (e b)
  get bytes := e.symm (layout.get bytes)
  put_length b := layout.put_length (e b)
  get_put b := by rw [layout.get_put, Equiv.symm_apply_apply]
  put_get bytes hlength := by rw [Equiv.apply_symm_apply, layout.put_get bytes hlength]

end Layout

/-! ## Words -/

/-- The `w` low digits of a number in base 256, the lowest first. -/
def digits : ℕ → ℕ → List UInt8
  | 0, _ => []
  | w + 1, n => UInt8.ofNat n :: digits w (n / 256)

def value : List UInt8 → ℕ
  | [] => 0
  | b :: bytes => b.toNat + 256 * value bytes

theorem digits_length (w n : ℕ) : (digits w n).length = w := by
  induction w generalizing n with
  | zero => rfl
  | succ w ih => rw [digits, List.length_cons, ih]

theorem value_digits (w n : ℕ) : value (digits w n) = n % 256 ^ w := by
  induction w generalizing n with
  | zero => rw [digits, value, Nat.pow_zero, Nat.mod_one]
  | succ w ih =>
      have hsplit : n % 256 ^ (w + 1) = n % 256 + 256 * (n / 256 % 256 ^ w) := by
        rw [Nat.pow_succ', Nat.mod_mul]
      rw [digits, value, ih, UInt8.toNat_ofNat', hsplit]

theorem digits_value (bytes : List UInt8) : digits bytes.length (value bytes) = bytes := by
  induction bytes with
  | nil => rfl
  | cons b bytes ih =>
      have hb : b.toNat < 256 := b.toNat_lt
      have hdiv : (b.toNat + 256 * value bytes) / 256 = value bytes := by omega
      have hlow : UInt8.ofNat (b.toNat + 256 * value bytes) = b := by
        apply UInt8.toNat_inj.mp
        rw [UInt8.toNat_ofNat']
        omega
      rw [List.length_cons, value, digits, hdiv, ih, hlow]

theorem value_lt (bytes : List UInt8) : value bytes < 256 ^ bytes.length := by
  have hvalue := value_digits bytes.length (value bytes)
  rw [digits_value] at hvalue
  rw [hvalue]
  exact Nat.mod_lt _ (Nat.pow_pos (by decide))

/-- A machine word of `w` bytes in memory. -/
def littleEndian (w : ℕ) (toNat : α → ℕ) (ofNat : ℕ → α) (hlt : ∀ a, toNat a < 256 ^ w)
    (hback : ∀ a, ofNat (toNat a) = a) (hforth : ∀ n, n < 256 ^ w → toNat (ofNat n) = n) :
    Layout α where
  size := w
  put a := digits w (toNat a)
  get bytes := ofNat (value bytes)
  put_length a := digits_length w (toNat a)
  get_put a := by rw [value_digits, Nat.mod_eq_of_lt (hlt a), hback]
  put_get bytes hlength := by
    have hvalue := value_lt bytes
    rw [hlength] at hvalue
    rw [hforth _ hvalue, ← hlength, digits_value]

def u8 : Layout UInt8 :=
  littleEndian 1 UInt8.toNat UInt8.ofNat UInt8.toNat_lt (fun _ => UInt8.ofNat_toNat)
    fun _ h => UInt8.toNat_ofNat_of_lt' h

def u16 : Layout UInt16 :=
  littleEndian 2 UInt16.toNat UInt16.ofNat UInt16.toNat_lt (fun _ => UInt16.ofNat_toNat)
    fun _ h => UInt16.toNat_ofNat_of_lt' h

def u32 : Layout UInt32 :=
  littleEndian 4 UInt32.toNat UInt32.ofNat UInt32.toNat_lt (fun _ => UInt32.ofNat_toNat)
    fun _ h => UInt32.toNat_ofNat_of_lt' h

def u64 : Layout UInt64 :=
  littleEndian 8 UInt64.toNat UInt64.ofNat UInt64.toNat_lt (fun _ => UInt64.ofNat_toNat)
    fun _ h => UInt64.toNat_ofNat_of_lt' h

end ByteLayout
