import EntanglementRs.Closures
import EntanglementRs.Stress.Model

/-!
# The counters behind the stress test's raw pointers

In `stress_test.rs` the callbacks of a client reach two boxed atomics of its
`VirtualClient` through addresses they captured as `usize`.  C may call them
whenever the client's object can call at all, until `destroy` returns; the
boxes go when `clients` is dropped, field after field and client after client.
-/

namespace EntanglementRs.Stress

open Transition

/-- The two boxed atomics of a client. -/
inductive CounterKind where
  | echoes
  | losses
  deriving DecidableEq

/-- The setter that is given the closure over the counter. -/
def CounterKind.setOn : CounterKind → SetOn ClientSlot
  | .echoes => EntClient.setOnDataReceived
  | .losses => EntClient.setOnPacketLost

structure CounterBoxes where
  echoes : ℕ
  losses : ℕ
  deriving DecidableEq

def CounterBoxes.address (boxes : CounterBoxes) : CounterKind → ℕ
  | .echoes => boxes.echoes
  | .losses => boxes.losses

/-- The target of a `Box<AtomicU32>`. -/
structure AtomicBox where
  value : UInt32
  frees : ℕ
  deriving DecidableEq

inductive Field where
  | client
  | counter (kind : CounterKind)
  deriving DecidableEq

/-- The fields of `VirtualClient` that own something, in the order of their drop. -/
def VirtualClient.dropOrder : List Field :=
  [.client, .counter .echoes, .counter .losses]

/-- How far the body of `for _idx in base..batch_end` is with a client. -/
inductive BuildPc where
  /-- Before the two boxes are allocated. -/
  | boxing (opened : Bool)
  | capturing (kind : CounterKind)
  | setting (kind : CounterKind)
  | pushed
  deriving DecidableEq

def BuildPc.afterSetting : CounterKind → BuildPc
  | .echoes => .capturing .losses
  | .losses => .pushed

structure FleetClient where
  client : ClosureObject ClientSlot
  /-- The address each closure captured, by the box the closure is in. -/
  captured : List (ℕ × ℕ)
  boxes : Option CounterBoxes
  pc : BuildPc
  /-- The fields that are still to be dropped. -/
  fields : List Field

def FleetClient.new (o : Outcome) : FleetClient where
  client := .new
  captured := []
  boxes := none
  pc := .boxing o.client.connected
  fields := VirtualClient.dropOrder

inductive FleetPhase where
  | running
  /-- The drop of `clients` has come to the client `k`. -/
  | dropping (k : ℕ)
  deriving DecidableEq

structure Fleet where
  clients : List FleetClient
  /-- Addresses are never reused, so that a stale one stays recognisable. -/
  heap : List AtomicBox
  phase : FleetPhase
  called : List (ℕ × Trampoline)
  /-- Closures that ran on an address whose box was gone. -/
  faults : List (ℕ × CallbackPair)

inductive FleetAction where
  | create (o : Outcome)
  | build
  | readSlot (i : ℕ) (slot : ClientSlot)
  | invoke (i : ℕ) (pair : CallbackPair)
  /-- `main` returns, or unwinds with no client half built. -/
  | leave
  | drop
  deriving DecidableEq

namespace Fleet

def start : Fleet where
  clients := []
  heap := []
  phase := .running
  called := []
  faults := []

/-- `fetch_add(1)` through a captured address. -/
def fetchAdd (heap : List AtomicBox) (address : ℕ) : Option (List AtomicBox) :=
  match heap[address]? with
  | some ⟨value, 0⟩ => some (heap.set address ⟨value + 1, 0⟩)
  | _ => none

def free (heap : List AtomicBox) (address : ℕ) : List AtomicBox :=
  heap.modify address fun box => { box with frees := box.frees + 1 }

/-- The next statement for the client `i`, up to its `push`. -/
def build (s : Fleet) (i : ℕ) (c : FleetClient) : Option Fleet :=
  match c.pc with
  | .boxing opened =>
      some { s with
        heap := s.heap ++ [⟨0, 0⟩, ⟨0, 0⟩]
        clients := s.clients.set i { c with
          boxes := some ⟨s.heap.length, s.heap.length + 1⟩
          pc := if opened then .capturing .echoes else .pushed } }
  | .capturing kind =>
      match c.boxes with
      | some boxes =>
          (c.client.step EntClient.closureApi (.beginSet kind.setOn)).map fun o =>
            { s with clients := s.clients.set i { c with
                client := o
                captured := (c.client.table.fresh, boxes.address kind) :: c.captured
                pc := .setting kind } }
      | none => none
  | .setting kind =>
      match c.client.calls.getLast? with
      | some call =>
          if call.rest = [] then
            some { s with clients := s.clients.set i { c with
              pc := .afterSetting kind } }
          else
            (c.client.step EntClient.closureApi
              (.setStep (c.client.calls.length - 1))).map fun o =>
                { s with clients := s.clients.set i { c with client := o } }
      | none => none
  | .pushed => none

/-- The closure in the box the pair points to runs. -/
def invoke (s : Fleet) (i : ℕ) (c : FleetClient) (pair : CallbackPair) : Option Fleet :=
  (c.client.step EntClient.closureApi (.invoke pair)).map fun o =>
    let s' := { s with
      clients := s.clients.set i { c with client := o }
      called := s.called ++ [(i, pair.trampoline)] }
    match (c.captured.lookup pair.userData).bind (fetchAdd s.heap) with
    | some heap => { s' with heap := heap }
    | none => { s' with faults := s.faults ++ [(i, pair)] }

/-- The next piece of the drop of client `k`. -/
def drop (s : Fleet) (k : ℕ) (c : FleetClient) : Option Fleet :=
  match c.fields with
  | [] => some { s with phase := .dropping (k + 1) }
  | .client :: rest =>
      match c.client.phase with
      | .dropBoxes [] => some { s with clients := s.clients.set k { c with fields := rest } }
      | .alive =>
          (c.client.step EntClient.closureApi .beginDrop).map fun o =>
            { s with clients := s.clients.set k { c with client := o } }
      | _ =>
          (c.client.step EntClient.closureApi .dropStep).map fun o =>
            { s with clients := s.clients.set k { c with client := o } }
  | .counter kind :: rest =>
      match c.boxes with
      | some boxes =>
          some { s with
            heap := free s.heap (boxes.address kind)
            clients := s.clients.set k { c with fields := rest } }
      | none => none

/-- `n` is `num_clients`. -/
def step (n : ℕ) (s : Fleet) : FleetAction → Option Fleet
  | .create o =>
      if s.phase = .running ∧ s.clients.length < n ∧ ∀ c ∈ s.clients, c.pc = .pushed then
        some { s with clients := s.clients ++ [.new o] }
      else none
  | .build =>
      match s.phase, s.clients.getLast? with
      | .running, some c => s.build (s.clients.length - 1) c
      | _, _ => none
  | .readSlot i slot =>
      match s.clients[i]? with
      | some c =>
          (c.client.step EntClient.closureApi (.readSlot slot)).map fun o =>
            { s with clients := s.clients.set i { c with client := o } }
      | none => none
  | .invoke i pair =>
      match s.clients[i]? with
      | some c => s.invoke i c pair
      | none => none
  | .leave =>
      if s.phase = .running ∧ ∀ c ∈ s.clients, c.pc = .pushed then
        some { s with phase := .dropping 0 }
      else none
  | .drop =>
      match s.phase with
      | .dropping k =>
          match s.clients[k]? with
          | some c => s.drop k c
          | none => none
      | .running => none

def machine (n : ℕ) : Machine Fleet FleetAction where
  step := step n

def Reachable (n : ℕ) (s : Fleet) : Prop := (machine n).Reaches start s

end Fleet

end EntanglementRs.Stress
