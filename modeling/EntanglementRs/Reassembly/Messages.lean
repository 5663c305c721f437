import EntanglementRs.Reassembly.Buffers

/-!
# Messages in reassembly buffers

The three callbacks of a reassembled message: `on_allocate_message` is a call of
`alloc_buf`, `on_message_complete` reads `total_size` bytes at `data` and calls
`free_buf`, `on_message_failed` only calls `free_buf`.  Between them the C
library copies fragments into the buffer.
-/

namespace EntanglementRs

open Transition Ownership

/-- Where a thread is inside `on_message_complete` or `on_message_failed`. -/
inductive MessageCall where
  | outside
  /-- Before `std::slice::from_raw_parts(data, total_size)`. -/
  | completing (buf : Buffer) (totalSize : ℕ)
  /-- Inside `free_buf`, the last statement of both. -/
  | freeing (buf : Buffer)
  deriving DecidableEq

/-- The bytes that `on_message_complete` took from a buffer. -/
structure Delivered where
  buf : Buffer
  totalSize : ℕ
  bytes : List UInt8
  deriving DecidableEq

structure Messages (T : Type) where
  pool : Reassembly T
  calls : T → MessageCall
  /-- What is in the newest block at an address. -/
  memory : Ptr → List UInt8
  /-- What the C library has put into the buffer of one message. -/
  assembled : Buffer → List UInt8
  /-- The buffers the library has given back, complete or failed. -/
  ended : List Buffer
  /-- The buffers given back complete, with the size of the message. -/
  completed : List (Buffer × ℕ)
  delivered : List Delivered
  /-- Accesses that missed the live block they were meant for. -/
  faults : List Buffer

inductive MessageAction (T : Type) where
  | pool (a : BufAction T)
  /-- The library copies a fragment into the buffer. -/
  | fragment (buf : Buffer) (offset : ℕ) (bytes : List UInt8)
  | complete (t : T) (buf : Buffer) (totalSize : ℕ)
  | read (t : T)
  | failed (t : T) (buf : Buffer)

/-- `bytes` written over `old` from `offset` on. -/
def overwrite (old : List UInt8) (offset : ℕ) (bytes : List UInt8) : List UInt8 :=
  old.take offset ++ bytes ++ old.drop (offset + bytes.length)

theorem overwrite_length {old bytes : List UInt8} {offset : ℕ}
    (hroom : offset + bytes.length ≤ old.length) :
    (overwrite old offset bytes).length = old.length := by
  simp only [overwrite, List.length_append, List.length_take, List.length_drop]
  omega

namespace Messages

variable {T : Type} [DecidableEq T]

omit [DecidableEq T] in
def start : Messages T where
  pool := Reassembly.start
  calls := fun _ => .outside
  memory := fun _ => []
  assembled := fun _ => []
  ended := []
  completed := []
  delivered := []
  faults := []

/-- The block the buffer stands for is live and at least `bound` bytes long. -/
def covers (s : Messages T) (buf : Buffer) (bound : ℕ) : Bool :=
  match (s.pool.heap.blocks buf.ptr)[buf.index]? with
  | some ⟨cap, []⟩ => decide (bound ≤ cap)
  | _ => false

def enter (s : Messages T) (t : T) (c : MessageCall) : Messages T :=
  { s with calls := Function.update s.calls t c }

/-- The call of `free_buf` with which both callbacks end. -/
def callFree (s : Messages T) (t : T) (buf : Buffer) : Option (Messages T) :=
  (s.pool.step (.callFree t buf.ptr)).map fun pool =>
    { s with pool := pool }.enter t (.freeing buf)

def step (s : Messages T) : MessageAction T → Option (Messages T)
  | .pool (.callFree _ _) => none
  | .pool (.callAlloc t maxSize) =>
      match s.calls t with
      | .outside =>
          (s.pool.step (.callAlloc t maxSize)).map fun pool => { s with pool := pool }
      | _ => none
  | .pool (.allocate t ptr) =>
      match s.pool.threads t with
      | .allocCalled maxSize =>
          (s.pool.step (.allocate t ptr)).map fun pool =>
            -- `vec![0u8; max_size]`
            { s with
              pool := pool
              memory := Function.update s.memory ptr (List.replicate maxSize 0)
              assembled := Function.update s.assembled
                ⟨ptr, (s.pool.heap.blocks ptr).length⟩ (List.replicate maxSize 0) }
      | _ => none
  | .pool (.release t) =>
      (s.pool.step (.release t)).map fun pool => { s with pool := pool }.enter t .outside
  | .pool a => (s.pool.step a).map fun pool => { s with pool := pool }
  | .fragment buf offset bytes =>
      if s.covers buf (offset + bytes.length) then
        some { s with
          memory := Function.update s.memory buf.ptr
            (overwrite (s.memory buf.ptr) offset bytes)
          assembled := Function.update s.assembled buf
            (overwrite (s.assembled buf) offset bytes) }
      else some { s with faults := s.faults ++ [buf] }
  | .complete t buf totalSize =>
      match s.calls t, s.pool.threads t with
      | .outside, .idle =>
          some ({ s with
            ended := s.ended ++ [buf]
            completed := s.completed ++ [(buf, totalSize)]
            : Messages T }.enter t (.completing buf totalSize))
      | _, _ => none
  | .read t =>
      match s.calls t with
      | .completing buf totalSize =>
          if s.covers buf totalSize then
            { s with
              delivered := s.delivered ++
                [Delivered.mk buf totalSize ((s.memory buf.ptr).take totalSize)]
              : Messages T }.callFree t buf
          else { s with faults := s.faults ++ [buf] : Messages T }.callFree t buf
      | _ => none
  | .failed t buf =>
      match s.calls t with
      | .outside => { s with ended := s.ended ++ [buf] : Messages T }.callFree t buf
      | _ => none

def machine : Machine (Messages T) (MessageAction T) where
  step := step

theorem enter_calls (s : Messages T) (t : T) (c : MessageCall) (u : T) :
    (s.enter t c).calls u = if u = t then c else s.calls u :=
  Function.update_apply s.calls t c u

/-- The calls of a thread that take place inside `alloc_buf` or `free_buf`. -/
def Inner : BufAction T → Prop
  | .acquire _ => True
  | .insert _ => True
  | .remove _ => True
  | .dropVec _ => True
  | _ => False

inductive Move (s : Messages T) : MessageAction T → Messages T → Prop where
  | callAlloc (t : T) (maxSize : ℕ) (pool : Reassembly T) (hcall : s.calls t = .outside)
      (hpool : Reassembly.Move s.pool (.callAlloc t maxSize) pool) :
      Move s (.pool (.callAlloc t maxSize)) { s with pool := pool }
  | allocate (t : T) (ptr : Ptr) (maxSize : ℕ) (pool : Reassembly T)
      (hpc : s.pool.threads t = .allocCalled maxSize)
      (hpool : Reassembly.Move s.pool (.allocate t ptr) pool) :
      Move s (.pool (.allocate t ptr))
        { s with
          pool := pool
          memory := Function.update s.memory ptr (List.replicate maxSize 0)
          assembled := Function.update s.assembled
            ⟨ptr, (s.pool.heap.blocks ptr).length⟩ (List.replicate maxSize 0) }
  | inner (a : BufAction T) (pool : Reassembly T) (hinner : Inner a)
      (hpool : Reassembly.Move s.pool a pool) :
      Move s (.pool a) { s with pool := pool }
  | release (t : T) (pool : Reassembly T)
      (hpool : Reassembly.Move s.pool (.release t) pool) :
      Move s (.pool (.release t)) ({ s with pool := pool }.enter t .outside)
  | fragment (buf : Buffer) (offset : ℕ) (bytes : List UInt8)
      (hcovers : s.covers buf (offset + bytes.length) = true) :
      Move s (.fragment buf offset bytes)
        { s with
          memory := Function.update s.memory buf.ptr
            (overwrite (s.memory buf.ptr) offset bytes)
          assembled := Function.update s.assembled buf
            (overwrite (s.assembled buf) offset bytes) }
  | fragmentFault (buf : Buffer) (offset : ℕ) (bytes : List UInt8)
      (hcovers : s.covers buf (offset + bytes.length) = false) :
      Move s (.fragment buf offset bytes) { s with faults := s.faults ++ [buf] }
  | complete (t : T) (buf : Buffer) (totalSize : ℕ) (hcall : s.calls t = .outside)
      (hidle : s.pool.threads t = .idle) :
      Move s (.complete t buf totalSize)
        ({ s with
          ended := s.ended ++ [buf]
          completed := s.completed ++ [(buf, totalSize)]
          : Messages T }.enter t (.completing buf totalSize))
  | read (t : T) (buf : Buffer) (totalSize : ℕ) (pool : Reassembly T)
      (hcall : s.calls t = .completing buf totalSize)
      (hcovers : s.covers buf totalSize = true)
      (hpool : Reassembly.Move s.pool (.callFree t buf.ptr) pool) :
      Move s (.read t)
        ({ s with
          pool := pool
          delivered := s.delivered ++
            [Delivered.mk buf totalSize ((s.memory buf.ptr).take totalSize)]
          : Messages T }.enter t
              (.freeing buf))
  | readFault (t : T) (buf : Buffer) (totalSize : ℕ) (pool : Reassembly T)
      (hcall : s.calls t = .completing buf totalSize)
      (hcovers : s.covers buf totalSize = false)
      (hpool : Reassembly.Move s.pool (.callFree t buf.ptr) pool) :
      Move s (.read t)
        ({ s with pool := pool, faults := s.faults ++ [buf] }.enter t (.freeing buf))
  | failed (t : T) (buf : Buffer) (pool : Reassembly T) (hcall : s.calls t = .outside)
      (hpool : Reassembly.Move s.pool (.callFree t buf.ptr) pool) :
      Move s (.failed t buf)
        ({ s with pool := pool, ended := s.ended ++ [buf] }.enter t (.freeing buf))

variable {s s' : Messages T} {a : MessageAction T}

theorem step_move (hstep : machine.step s a = some s') : Move s a s' := by
  cases a with
  | pool b =>
      cases b with
      | callFree t ptr => contradiction
      | callAlloc t maxSize =>
          simp only [machine, step] at hstep
          split at hstep
          next hcall =>
            obtain ⟨pool, hpool, rfl⟩ := Option.map_eq_some_iff.mp hstep
            exact .callAlloc t maxSize pool hcall (Reassembly.step_move hpool)
          next => contradiction
      | allocate t ptr =>
          simp only [machine, step] at hstep
          split at hstep
          next maxSize hpc =>
            obtain ⟨pool, hpool, rfl⟩ := Option.map_eq_some_iff.mp hstep
            exact .allocate t ptr maxSize pool hpc (Reassembly.step_move hpool)
          next => contradiction
      | release t =>
          obtain ⟨pool, hpool, rfl⟩ := Option.map_eq_some_iff.mp hstep
          exact .release t pool (Reassembly.step_move hpool)
      | acquire t | insert t | remove t | dropVec t =>
          obtain ⟨pool, hpool, rfl⟩ := Option.map_eq_some_iff.mp hstep
          exact .inner _ pool trivial (Reassembly.step_move hpool)
  | fragment buf offset bytes =>
      simp only [machine, step] at hstep
      split at hstep
      next hcovers =>
        obtain rfl := Option.some.inj hstep
        exact .fragment buf offset bytes hcovers
      next hcovers =>
        obtain rfl := Option.some.inj hstep
        exact .fragmentFault buf offset bytes (Bool.eq_false_iff.mpr hcovers)
  | complete t buf totalSize =>
      simp only [machine, step] at hstep
      split at hstep
      next hcall hidle =>
        obtain rfl := Option.some.inj hstep
        exact .complete t buf totalSize hcall hidle
      next => contradiction
  | read t =>
      simp only [machine, step] at hstep
      split at hstep
      next buf totalSize hcall =>
        split at hstep
        next hcovers =>
          obtain ⟨pool, hpool, rfl⟩ := Option.map_eq_some_iff.mp hstep
          exact .read t buf totalSize pool hcall hcovers (Reassembly.step_move hpool)
        next hcovers =>
          obtain ⟨pool, hpool, rfl⟩ := Option.map_eq_some_iff.mp hstep
          exact .readFault t buf totalSize pool hcall
            (Bool.eq_false_iff.mpr hcovers) (Reassembly.step_move hpool)
      next => contradiction
  | failed t buf =>
      simp only [machine, step] at hstep
      split at hstep
      next hcall =>
        obtain ⟨pool, hpool, rfl⟩ := Option.map_eq_some_iff.mp hstep
        exact .failed t buf pool hcall (Reassembly.step_move hpool)
      next => contradiction

/-- The buffer was returned by `alloc_buf` and not given back since. -/
def Open (s : Messages T) (buf : Buffer) : Prop :=
  buf ∈ s.pool.issued ∧ buf ∉ s.ended

/-- The `max_size` the buffer was asked for with. -/
def maxSize? (s : Messages T) (buf : Buffer) : Option ℕ :=
  ((s.pool.heap.blocks buf.ptr)[buf.index]?).map Block.size

/-- What the callbacks rely on: the library uses a buffer from the return of
`alloc_buf` until it gives it back, once, and stays within the size it asked for. -/
def Protocol (s : Messages T) : MessageAction T → Prop
  | .fragment buf offset bytes =>
      s.Open buf ∧ ∃ n ∈ s.maxSize? buf, offset + bytes.length ≤ n
  | .complete _ buf totalSize => s.Open buf ∧ ∃ n ∈ s.maxSize? buf, totalSize ≤ n
  | .failed _ buf => s.Open buf
  | .pool _ => True
  | .read _ => True

omit [DecidableEq T] in
instance (s : Messages T) (buf : Buffer) : Decidable (s.Open buf) :=
  inferInstanceAs (Decidable (buf ∈ s.pool.issued ∧ buf ∉ s.ended))

instance (s : Messages T) : ∀ a, Decidable (s.Protocol a)
  | .fragment buf offset bytes =>
      inferInstanceAs
        (Decidable (s.Open buf ∧ ∃ n ∈ s.maxSize? buf, offset + bytes.length ≤ n))
  | .complete _ buf totalSize =>
      inferInstanceAs (Decidable (s.Open buf ∧ ∃ n ∈ s.maxSize? buf, totalSize ≤ n))
  | .failed _ buf => inferInstanceAs (Decidable (s.Open buf))
  | .pool _ => isTrue trivial
  | .read _ => isTrue trivial

end Messages

end EntanglementRs
