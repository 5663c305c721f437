import Mathlib.Data.List.Basic
import Mathlib.Tactic.Common

/-!
# Reference-counted cells with named references

A shared cell is freed when its last strong reference is released.  The
references are named, so that a release which forgets or repeats one of them
is visible in the history.
-/

namespace Transition

variable {ρ : Type*} [DecidableEq ρ]

/-- A reference-counted allocation, by the names of its strong references. -/
structure SharedCell (ρ : Type*) where
  held : List ρ
  released : List ρ
  frees : ℕ

namespace SharedCell

def empty : SharedCell ρ := ⟨[], [], 0⟩

def acquire (cell : SharedCell ρ) (r : ρ) : SharedCell ρ :=
  { cell with held := cell.held ++ [r] }

/-- Drop the reference `r`; the last one frees the cell. -/
def release (cell : SharedCell ρ) (r : ρ) : SharedCell ρ where
  held := cell.held.erase r
  released := cell.released ++ [r]
  frees := if cell.held = [r] then cell.frees + 1 else cell.frees

end SharedCell

end Transition
