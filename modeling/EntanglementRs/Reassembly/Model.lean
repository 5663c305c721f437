import EntanglementRs.Lib.Heap
import EntanglementRs.Lib.Machine
import EntanglementRs.Wrappers

/-!
# Reassembly buffers

`alloc_buf` and `free_buf`, which the reassembly callbacks of the bench and
soak programs call from any number of threads.  A buffer is a `Vec` that was
forgotten; the map from its address to its capacity is what `free_buf` rebuilds
the `Vec` from.
-/

namespace EntanglementRs

open Transition Ownership

/-- A buffer, by its pointer and by how many there were at that address before. -/
@[ext]
structure Buffer where
  ptr : Ptr
  index : ℕ
  deriving DecidableEq, Repr

/-- Where a thread is inside `alloc_buf` or `free_buf`. -/
inductive CallState where
  | idle
  | allocCalled (maxSize : ℕ)
  /-- The `Vec` is forgotten, the map not yet locked. -/
  | allocated (buf : Buffer) (maxSize : ℕ)
  | allocLocked (buf : Buffer) (maxSize : ℕ)
  | allocInserted (buf : Buffer)
  | freeCalled (ptr : Ptr)
  | freeLocked (ptr : Ptr)
  /-- Inside the `if let`, whose guard is still held. -/
  | freeRemoved (ptr : Ptr) (cap : ℕ)
  | freeDone (ptr : Ptr)
  deriving DecidableEq

structure Reassembly (T : Type) where
  heap : Heap Ptr ℕ
  map : Ptr → Option ℕ
  lock : Option T
  threads : T → CallState
  /-- The buffers that completed calls of `alloc_buf` have returned. -/
  issued : List Buffer

inductive BufAction (T : Type) where
  /-- Of a positive size: a `Vec` of capacity 0 has no memory, and all of them have one
  address. -/
  | callAlloc (t : T) (maxSize : ℕ)
  /-- `vec![0u8; max_size]`, at the address the allocator chose. -/
  | allocate (t : T) (ptr : Ptr)
  | callFree (t : T) (ptr : Ptr)
  | acquire (t : T)
  | insert (t : T)
  | remove (t : T)
  | dropVec (t : T)
  /-- The guard is dropped and the call returns. -/
  | release (t : T)

namespace Reassembly

variable {T : Type} [DecidableEq T]

omit [DecidableEq T] in
def start : Reassembly T where
  heap := Heap.empty
  map := fun _ => none
  lock := none
  threads := fun _ => .idle
  issued := []

def goto (s : Reassembly T) (t : T) (c : CallState) : Reassembly T :=
  { s with threads := Function.update s.threads t c }

def step (s : Reassembly T) : BufAction T → Option (Reassembly T)
  | .callAlloc t maxSize =>
      match s.threads t with
      | .idle => if 0 < maxSize then some (s.goto t (.allocCalled maxSize)) else none
      | _ => none
  | .allocate t ptr =>
      match s.threads t, s.heap.live? ptr with
      | .allocCalled maxSize, none =>
          some ({ s with heap := s.heap.alloc ptr maxSize }.goto t
            (.allocated ⟨ptr, (s.heap.blocks ptr).length⟩ maxSize))
      | _, _ => none
  | .callFree t ptr =>
      match s.threads t with
      | .idle => some (s.goto t (.freeCalled ptr))
      | _ => none
  | .acquire t =>
      match s.lock, s.threads t with
      | none, .allocated buf maxSize =>
          some ({ s with lock := some t }.goto t (.allocLocked buf maxSize))
      | none, .freeCalled ptr =>
          some ({ s with lock := some t }.goto t (.freeLocked ptr))
      | _, _ => none
  | .insert t =>
      match s.threads t with
      | .allocLocked buf maxSize =>
          some ({ s with map := Function.update s.map buf.ptr (some maxSize) }.goto t
            (.allocInserted buf))
      | _ => none
  | .remove t =>
      match s.threads t with
      | .freeLocked ptr =>
          match s.map ptr with
          | some cap =>
              some ({ s with map := Function.update s.map ptr none }.goto t
                (.freeRemoved ptr cap))
          | none => some (s.goto t (.freeDone ptr))
      | _ => none
  | .dropVec t =>
      match s.threads t with
      | .freeRemoved ptr cap =>
          some ({ s with heap := s.heap.dealloc ptr cap }.goto t (.freeDone ptr))
      | _ => none
  | .release t =>
      match s.threads t with
      | .allocInserted buf =>
          some ({ s with lock := none, issued := s.issued ++ [buf] }.goto t .idle)
      | .freeDone _ => some ({ s with lock := none }.goto t .idle)
      | _ => none

def machine : Machine (Reassembly T) (BufAction T) where
  step := step

def Reachable (s : Reassembly T) : Prop := machine.Reaches start s

def Quiescent (s : Reassembly T) : Prop := ∀ t, s.threads t = .idle

theorem goto_threads (s : Reassembly T) (t : T) (c : CallState) (u : T) :
    (s.goto t c).threads u = if u = t then c else s.threads u :=
  Function.update_apply s.threads t c u

theorem goto_self (s : Reassembly T) (t : T) (c : CallState) :
    (s.goto t c).threads t = c := by
  rw [goto_threads, if_pos rfl]

inductive Move (s : Reassembly T) : BufAction T → Reassembly T → Prop where
  | callAlloc (t : T) (maxSize : ℕ) (hpc : s.threads t = .idle) (hpos : 0 < maxSize) :
      Move s (.callAlloc t maxSize) (s.goto t (.allocCalled maxSize))
  | allocate (t : T) (ptr : Ptr) (maxSize : ℕ)
      (hpc : s.threads t = .allocCalled maxSize) (hlive : s.heap.live? ptr = none) :
      Move s (.allocate t ptr)
        ({ s with heap := s.heap.alloc ptr maxSize }.goto t
          (.allocated ⟨ptr, (s.heap.blocks ptr).length⟩ maxSize))
  | callFree (t : T) (ptr : Ptr) (hpc : s.threads t = .idle) :
      Move s (.callFree t ptr) (s.goto t (.freeCalled ptr))
  | lockAlloc (t : T) (buf : Buffer) (maxSize : ℕ)
      (hpc : s.threads t = .allocated buf maxSize) (hlock : s.lock = none) :
      Move s (.acquire t)
        ({ s with lock := some t }.goto t (.allocLocked buf maxSize))
  | lockFree (t : T) (ptr : Ptr) (hpc : s.threads t = .freeCalled ptr)
      (hlock : s.lock = none) :
      Move s (.acquire t) ({ s with lock := some t }.goto t (.freeLocked ptr))
  | insert (t : T) (buf : Buffer) (maxSize : ℕ)
      (hpc : s.threads t = .allocLocked buf maxSize) :
      Move s (.insert t)
        ({ s with map := Function.update s.map buf.ptr (some maxSize) }.goto t
          (.allocInserted buf))
  | removeSome (t : T) (ptr : Ptr) (cap : ℕ) (hpc : s.threads t = .freeLocked ptr)
      (hmap : s.map ptr = some cap) :
      Move s (.remove t)
        ({ s with map := Function.update s.map ptr none }.goto t (.freeRemoved ptr cap))
  | removeNone (t : T) (ptr : Ptr) (hpc : s.threads t = .freeLocked ptr)
      (hmap : s.map ptr = none) :
      Move s (.remove t) (s.goto t (.freeDone ptr))
  | dropVec (t : T) (ptr : Ptr) (cap : ℕ) (hpc : s.threads t = .freeRemoved ptr cap) :
      Move s (.dropVec t)
        ({ s with heap := s.heap.dealloc ptr cap }.goto t (.freeDone ptr))
  | returnAlloc (t : T) (buf : Buffer) (hpc : s.threads t = .allocInserted buf) :
      Move s (.release t)
        ({ s with lock := none, issued := s.issued ++ [buf] }.goto t .idle)
  | returnFree (t : T) (ptr : Ptr) (hpc : s.threads t = .freeDone ptr) :
      Move s (.release t) ({ s with lock := none }.goto t .idle)

variable {s s' : Reassembly T} {a : BufAction T}

theorem step_move (hstep : machine.step s a = some s') : Move s a s' := by
  cases a with
  | callAlloc t maxSize =>
      simp only [machine, step] at hstep
      split at hstep
      next hpc =>
        split at hstep
        next hpos =>
          obtain rfl := Option.some.inj hstep
          exact .callAlloc t maxSize hpc hpos
        next => contradiction
      next => contradiction
  | allocate t ptr =>
      simp only [machine, step] at hstep
      split at hstep
      next maxSize hpc hlive =>
        obtain rfl := Option.some.inj hstep
        exact .allocate t ptr maxSize hpc hlive
      next => contradiction
  | callFree t ptr =>
      simp only [machine, step] at hstep
      split at hstep
      next hpc =>
        obtain rfl := Option.some.inj hstep
        exact .callFree t ptr hpc
      next => contradiction
  | acquire t =>
      simp only [machine, step] at hstep
      split at hstep
      next buf maxSize hlock hpc =>
        obtain rfl := Option.some.inj hstep
        exact .lockAlloc t buf maxSize hpc hlock
      next ptr hlock hpc =>
        obtain rfl := Option.some.inj hstep
        exact .lockFree t ptr hpc hlock
      next => contradiction
  | insert t =>
      simp only [machine, step] at hstep
      split at hstep
      next buf maxSize hpc =>
        obtain rfl := Option.some.inj hstep
        exact .insert t buf maxSize hpc
      next => contradiction
  | remove t =>
      simp only [machine, step] at hstep
      split at hstep
      next ptr hpc =>
        split at hstep
        next cap hmap =>
          obtain rfl := Option.some.inj hstep
          exact .removeSome t ptr cap hpc hmap
        next hmap =>
          obtain rfl := Option.some.inj hstep
          exact .removeNone t ptr hpc hmap
      next => contradiction
  | dropVec t =>
      simp only [machine, step] at hstep
      split at hstep
      next ptr cap hpc =>
        obtain rfl := Option.some.inj hstep
        exact .dropVec t ptr cap hpc
      next => contradiction
  | release t =>
      simp only [machine, step] at hstep
      split at hstep
      next buf hpc =>
        obtain rfl := Option.some.inj hstep
        exact .returnAlloc t buf hpc
      next ptr hpc =>
        obtain rfl := Option.some.inj hstep
        exact .returnFree t ptr hpc
      next => contradiction

theorem Move.step_eq (hmove : Move s a s') : machine.step s a = some s' := by
  cases hmove <;> simp_all [machine, step]

end Reassembly

end EntanglementRs
