import Mathlib.Data.List.Basic
import Mathlib.Tactic.Common

/-!
# Bounded first-in first-out channels

A channel with a fixed capacity, any number of senders and one receiver.  A
send is accepted while the receiver is open and the queue has room; it has to
wait while the queue is full and fails once the receiver is closed.  The
channel remembers what it accepted, what was received and what the receiver
left behind when it was dropped, and carries the accounting of these lists in
its type.
-/

namespace Transition

variable {α : Type*}

/-- A bounded channel together with its history. -/
structure Channel (α : Type*) where
  capacity : ℕ
  queue : List α
  closed : Bool
  accepted : List α
  received : List α
  /-- What was still queued when the receiver was dropped. -/
  discarded : List α
  positive : 0 < capacity
  fits : queue.length ≤ capacity
  account : accepted = received ++ queue ++ discarded
  open_keeps : closed = false → discarded = []

namespace Channel

def new (capacity : ℕ) (hpos : 0 < capacity) : Channel α where
  capacity := capacity
  queue := []
  closed := false
  accepted := []
  received := []
  discarded := []
  positive := hpos
  fits := Nat.zero_le _
  account := rfl
  open_keeps := fun _ => rfl

/-- A send that does not have to wait: `none` while the queue is full and once
the receiver is closed. -/
def send? (c : Channel α) (a : α) : Option (Channel α) :=
  if hroom : c.closed = false ∧ c.queue.length < c.capacity then
    some {
      capacity := c.capacity
      queue := c.queue ++ [a]
      closed := c.closed
      accepted := c.accepted ++ [a]
      received := c.received
      discarded := c.discarded
      positive := c.positive
      fits := by
        rw [List.length_append]
        exact hroom.2
      account := by
        rw [c.account, c.open_keeps hroom.1]
        simp
      open_keeps := c.open_keeps }
  else none

def recv? (c : Channel α) : Option (α × Channel α) :=
  match hqueue : c.queue with
  | [] => none
  | a :: rest =>
      some (a, {
        capacity := c.capacity
        queue := rest
        closed := c.closed
        accepted := c.accepted
        received := c.received ++ [a]
        discarded := c.discarded
        positive := c.positive
        fits := by
          have hfits := c.fits
          rw [hqueue, List.length_cons] at hfits
          omega
        account := by
          rw [c.account, hqueue]
          simp
        open_keeps := c.open_keeps })

def close (c : Channel α) : Channel α where
  capacity := c.capacity
  queue := c.queue
  closed := true
  accepted := c.accepted
  received := c.received
  discarded := c.discarded
  positive := c.positive
  fits := c.fits
  account := c.account
  open_keeps := fun hopen => nomatch hopen

/-- The receiver goes away, and what is queued with it. -/
def dropReceiver (c : Channel α) : Channel α where
  capacity := c.capacity
  queue := []
  closed := true
  accepted := c.accepted
  received := c.received
  discarded := c.queue ++ c.discarded
  positive := c.positive
  fits := Nat.zero_le _
  account := by
    rw [c.account]
    simp
  open_keeps := fun hopen => nomatch hopen

def Full (c : Channel α) : Prop :=
  c.queue.length = c.capacity

instance (c : Channel α) : Decidable c.Full :=
  inferInstanceAs (Decidable (c.queue.length = c.capacity))

/-! ## What each operation does -/

structure Sent (c : Channel α) (a : α) (d : Channel α) : Prop where
  was_open : c.closed = false
  room : c.queue.length < c.capacity
  capacity : d.capacity = c.capacity
  queue : d.queue = c.queue ++ [a]
  closed : d.closed = c.closed
  accepted : d.accepted = c.accepted ++ [a]
  received : d.received = c.received
  discarded : d.discarded = c.discarded

theorem sent_of_send? {c d : Channel α} {a : α}
    (hsend : c.send? a = some d) : c.Sent a d := by
  unfold send? at hsend
  split at hsend
  next hroom =>
    obtain rfl := Option.some.inj hsend
    exact ⟨hroom.1, hroom.2, rfl, rfl, rfl, rfl, rfl, rfl⟩
  next => exact absurd hsend (by simp)

theorem send?_of_room {c : Channel α} (a : α)
    (hopen : c.closed = false) (hroom : c.queue.length < c.capacity) :
    ∃ d, c.send? a = some d := by
  unfold send?
  rw [dif_pos ⟨hopen, hroom⟩]
  exact ⟨_, rfl⟩

structure Received (c : Channel α) (a : α) (d : Channel α) : Prop where
  capacity : d.capacity = c.capacity
  queue : c.queue = a :: d.queue
  closed : d.closed = c.closed
  accepted : d.accepted = c.accepted
  received : d.received = c.received ++ [a]
  discarded : d.discarded = c.discarded

theorem received_of_recv? {c d : Channel α} {a : α}
    (hrecv : c.recv? = some (a, d)) : c.Received a d := by
  unfold recv? at hrecv
  split at hrecv
  next => exact absurd hrecv (by simp)
  next b rest hqueue =>
    simp only [Option.some.injEq, Prod.mk.injEq] at hrecv
    obtain ⟨rfl, rfl⟩ := hrecv
    exact ⟨rfl, hqueue, rfl, rfl, rfl, rfl⟩

theorem recv?_eq_none_iff {c : Channel α} : c.recv? = none ↔ c.queue = [] := by
  unfold recv?
  split
  next hqueue => simp [hqueue]
  next a rest hqueue => simp [hqueue]

theorem recv?_of_cons {c : Channel α} {a : α} {rest : List α}
    (hqueue : c.queue = a :: rest) :
    ∃ d, c.recv? = some (a, d) ∧ d.queue = rest := by
  cases hrecv : c.recv? with
  | none =>
      rw [recv?_eq_none_iff.mp hrecv] at hqueue
      contradiction
  | some result =>
      obtain ⟨b, d⟩ := result
      have hreceived := (received_of_recv? hrecv).queue
      rw [hqueue, List.cons.injEq] at hreceived
      obtain ⟨rfl, hrest⟩ := hreceived
      exact ⟨d, rfl, hrest.symm⟩

@[simp] theorem new_capacity (n : ℕ) (hpos : 0 < n) :
    (new n hpos : Channel α).capacity = n := rfl

@[simp] theorem new_queue (n : ℕ) (hpos : 0 < n) :
    (new n hpos : Channel α).queue = [] := rfl

@[simp] theorem new_accepted (n : ℕ) (hpos : 0 < n) :
    (new n hpos : Channel α).accepted = [] := rfl

@[simp] theorem new_received (n : ℕ) (hpos : 0 < n) :
    (new n hpos : Channel α).received = [] := rfl

theorem accepted_eq_of_open {c : Channel α} (hopen : c.closed = false) :
    c.accepted = c.received ++ c.queue := by
  rw [c.account, c.open_keeps hopen, List.append_nil]

theorem received_prefix (c : Channel α) : c.received <+: c.accepted := by
  rw [c.account, List.append_assoc]
  exact List.prefix_append _ _

end Channel

end Transition
