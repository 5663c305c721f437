import EntanglementRs.Lib.Machine
import EntanglementRs.Lib.RelaxedCounter
import Mathlib.Data.List.Perm.Subperm

/-!
# The server side of the benchmarks

`run_server` of `net_bench.rs` and the server thread of `soak_perf.rs`: worker
threads on which C calls the echo callbacks, and the thread that reads their
shared counters.  A coalesced packet counts as many messages as C says it holds.
-/

namespace EntanglementRs.Bench

open Transition Relaxed

/-- A call of one of the callbacks that echo. -/
inductive EchoCall where
  | data
  | coalesced (messageCount : Int32)
  | messageComplete
  deriving DecidableEq

/-- What is added to the counters; `message_count as u64` extends the sign. -/
def EchoCall.amount : EchoCall → UInt64
  | .data => 1
  | .coalesced messageCount => messageCount.toInt64.toUInt64
  | .messageComplete => 1

/-- The messages that the call hands over. -/
def EchoCall.messages : EchoCall → ℤ
  | .data => 1
  | .coalesced messageCount => messageCount.toInt
  | .messageComplete => 1

inductive WorkerPc where
  | idle
  /-- `recv` is counted; before the echo is handed to C. -/
  | echoing (c : EchoCall)
  /-- C accepted the echo; before `echo` is counted. -/
  | counting (c : EchoCall)
  | ended
  deriving DecidableEq

structure ServerLine where
  recv : UInt64
  rate : UInt64
  echo : UInt64
  deriving DecidableEq

inductive ServerPc where
  | polling
  | readingEcho (r : UInt64)
  deriving DecidableEq

structure RunServer (T : Type) where
  workers : T → WorkerPc
  recv : Counter (Option T)
  echo : Counter (Option T)
  reporter : ServerPc
  lastRecv : UInt64
  lines : List ServerLine
  /-- The calls that were counted, and those of them whose echo C accepted. -/
  received : List (T × EchoCall)
  echoed : List (T × EchoCall)

inductive ServerAction (T : Type) where
  | call (t : T) (c : EchoCall)
  | echo (t : T) (ok : Bool)
  | count (t : T)
  /-- The thread ends and the reading thread joins it. -/
  | join (t : T)
  /-- The reading thread loads the next counter, as it is after `k` additions. -/
  | read (k : ℕ)
  deriving DecidableEq

namespace RunServer

variable {T : Type} [DecidableEq T]

def start : RunServer T where
  workers _ := .idle
  recv := .zero
  echo := .zero
  reporter := .polling
  lastRecv := 0
  lines := []
  received := []
  echoed := []

def goto (s : RunServer T) (t : T) (pc : WorkerPc) : RunServer T :=
  { s with workers := Function.update s.workers t pc }

/-- `if r != last_recv`, once `echo` is loaded as well. -/
def report (s : RunServer T) (r : UInt64) (k : ℕ) : RunServer T :=
  if r = s.lastRecv then { s with echo := s.echo.read none k, reporter := .polling }
  else
    { s with
      echo := s.echo.read none k
      reporter := .polling
      lastRecv := r
      lines := s.lines ++ [⟨r, r - s.lastRecv, s.echo.load k⟩] }

def step (s : RunServer T) : ServerAction T → Option (RunServer T)
  | .call t c =>
      if s.workers t = .idle then
        some { s.goto t (.echoing c) with
          recv := s.recv.add (some t) c.amount.toNat
          received := s.received ++ [(t, c)] }
      else none
  | .echo t ok =>
      match s.workers t with
      | .echoing c =>
          if ok then some { s.goto t (.counting c) with echoed := s.echoed ++ [(t, c)] }
          else some (s.goto t .idle)
      | _ => none
  | .count t =>
      match s.workers t with
      | .counting c =>
          some { s.goto t .idle with echo := s.echo.add (some t) c.amount.toNat }
      | _ => none
  | .join t =>
      if s.workers t = .idle then
        some { s.goto t .ended with
          recv := s.recv.join none (some t)
          echo := s.echo.join none (some t) }
      else none
  | .read k =>
      match s.reporter with
      | .polling =>
          if s.recv.Readable none k then
            some { s with
              recv := s.recv.read none k
              reporter := .readingEcho (s.recv.load k) }
          else none
      | .readingEcho r => if s.echo.Readable none k then some (s.report r k) else none

def machine : Machine (RunServer T) (ServerAction T) where
  step := step

def Reachable (s : RunServer T) : Prop := machine.Reaches start s

inductive Move (s : RunServer T) : RunServer T → Prop where
  | call (t : T) (c : EchoCall) (hpc : s.workers t = .idle) :
      Move s { s.goto t (.echoing c) with
        recv := s.recv.add (some t) c.amount.toNat
        received := s.received ++ [(t, c)] }
  | accept (t : T) (c : EchoCall) (hpc : s.workers t = .echoing c) :
      Move s { s.goto t (.counting c) with echoed := s.echoed ++ [(t, c)] }
  | refuse (t : T) (c : EchoCall) (hpc : s.workers t = .echoing c) :
      Move s (s.goto t .idle)
  | count (t : T) (c : EchoCall) (hpc : s.workers t = .counting c) :
      Move s { s.goto t .idle with echo := s.echo.add (some t) c.amount.toNat }
  | join (t : T) (hpc : s.workers t = .idle) :
      Move s { s.goto t .ended with
        recv := s.recv.join none (some t)
        echo := s.echo.join none (some t) }
  | readRecv (k : ℕ) (hpc : s.reporter = .polling) (hk : s.recv.Readable none k) :
      Move s { s with
        recv := s.recv.read none k
        reporter := .readingEcho (s.recv.load k) }
  | report (r : UInt64) (k : ℕ) (hpc : s.reporter = .readingEcho r)
      (hk : s.echo.Readable none k) : Move s (s.report r k)

variable {s s' : RunServer T} {a : ServerAction T}

theorem step_move (hstep : machine.step s a = some s') : Move s s' := by
  cases a with
  | call t c =>
      simp only [machine, step] at hstep
      split at hstep
      next hpc =>
        obtain rfl := Option.some.inj hstep
        exact .call t c hpc
      next => contradiction
  | echo t ok =>
      simp only [machine, step] at hstep
      split at hstep
      next c hpc =>
        split at hstep
        next =>
          obtain rfl := Option.some.inj hstep
          exact .accept t c hpc
        next =>
          obtain rfl := Option.some.inj hstep
          exact .refuse t c hpc
      next => contradiction
  | count t =>
      simp only [machine, step] at hstep
      split at hstep
      next c hpc =>
        obtain rfl := Option.some.inj hstep
        exact .count t c hpc
      next => contradiction
  | join t =>
      simp only [machine, step] at hstep
      split at hstep
      next hpc =>
        obtain rfl := Option.some.inj hstep
        exact .join t hpc
      next => contradiction
  | read k =>
      simp only [machine, step] at hstep
      split at hstep
      next hpc =>
        split at hstep
        next hk =>
          obtain rfl := Option.some.inj hstep
          exact .readRecv k hpc hk
        next => contradiction
      next r hpc =>
        split at hstep
        next hk =>
          obtain rfl := Option.some.inj hstep
          exact .report r k hpc hk
        next => contradiction

end RunServer

end EntanglementRs.Bench
