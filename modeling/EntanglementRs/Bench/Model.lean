import EntanglementRs.Lib.Machine
import EntanglementRs.Lib.RelaxedCounter

/-!
# The client side of the benchmarks

`run_client` of `net_bench.rs` and the clients and the reporter of
`soak_perf.rs`: client threads that send in bursts, and the main thread that
prints the deltas of their shared counters, stops them and waits for them.  All
atomics are relaxed: what `main` reads may be older than what it could be, and
`running` may still be read as `true` after it was cleared.
-/

namespace EntanglementRs.Bench

open Transition Relaxed

structure Config where
  burst : ℕ

inductive ClientPc where
  /-- `while !connected`. -/
  | connecting
  /-- The head of `while running_c.load(..)`. -/
  | checking
  /-- After `poll` and `update`, before the first `can_send`. -/
  | polled
  /-- `for _ in 0..bst`, about to begin the round `k`. -/
  | bursting (k : ℕ)
  | sending (k : ℕ)
  /-- `send` returned `Ok`; before `fetch_add`. -/
  | counting (k : ℕ)
  | ended
  deriving DecidableEq

structure Line where
  sendRate : UInt64
  echoRate : UInt64
  totalSent : UInt64
  totalEcho : UInt64
  deriving DecidableEq

inductive ReporterPc where
  /-- The head of `while start.elapsed() < ..`. -/
  | waiting
  /-- After the sleep. -/
  | reading
  | readingEcho (s : UInt64)
  /-- `running` is cleared; about to join thread `i`. -/
  | joining (i : ℕ)
  | collecting
  | collectingEcho (totalSent : UInt64)
  | done (totalSent totalEcho : UInt64)
  deriving DecidableEq

/-- `some i` is client thread `i`, `none` is `main`. -/
abbrev Thread (n : ℕ) := Option (Fin n)

structure RunClient (n : ℕ) where
  threads : Fin n → ClientPc
  sent : Counter (Thread n)
  echoes : Counter (Thread n)
  running : Bool
  reporter : ReporterPc
  lastSent : UInt64
  lastEcho : UInt64
  lines : List Line
  /-- The threads of the sends that C accepted, of the echoes that it handed
  over, and of the rounds of the send loop. -/
  accepted : List (Fin n)
  echoed : List (Fin n)
  polls : List (Fin n)

inductive RunAction (n : ℕ) where
  | connected (i : Fin n)
  /-- The connection timed out, or `connect` panicked. -/
  | failed (i : Fin n)
  | load (i : Fin n) (running : Bool)
  | canSend (i : Fin n) (can : Bool)
  | send (i : Fin n) (ok : Bool)
  | count (i : Fin n)
  | endBurst (i : Fin n)
  /-- C calls one of the two callbacks that count an echo. -/
  | echo (i : Fin n)
  | elapsed (timeUp : Bool)
  /-- `main` reads the next counter, as it is after `k` additions. -/
  | read (k : ℕ)
  | join
  deriving DecidableEq

def start (n : ℕ) : RunClient n where
  threads _ := .connecting
  sent := .zero
  echoes := .zero
  running := true
  reporter := .waiting
  lastSent := 0
  lastEcho := 0
  lines := []
  accepted := []
  echoed := []
  polls := []

variable {n : ℕ}

namespace RunClient

def goto (s : RunClient n) (i : Fin n) (pc : ClientPc) : RunClient n :=
  { s with threads := Function.update s.threads i pc }

/-- Both deltas, once `main` has loaded the echoes as after `k` additions. -/
def printLine (s : RunClient n) (sent : UInt64) (k : ℕ) : RunClient n :=
  { s with
    echoes := s.echoes.read none k
    reporter := .waiting
    lastSent := sent
    lastEcho := s.echoes.load k
    lines := s.lines ++
      [⟨sent - s.lastSent, s.echoes.load k - s.lastEcho, sent, s.echoes.load k⟩] }

/-- What a client thread does; `none` where it is at another statement. -/
def clientStep (cfg : Config) (s : RunClient n) : RunAction n → Option (RunClient n)
  | .connected i =>
      if s.threads i = .connecting then some (s.goto i .checking) else none
  | .failed i =>
      if s.threads i = .connecting then some (s.goto i .ended) else none
  | .load i running =>
      if s.threads i = .checking then
        if running then some { s.goto i .polled with polls := s.polls ++ [i] }
        else if s.running then none
        else some (s.goto i .ended)
      else none
  | .canSend i can =>
      match s.threads i with
      | .polled => some (s.goto i (if can then .bursting 0 else .checking))
      | .bursting k =>
          if k < cfg.burst then some (s.goto i (if can then .sending k else .checking))
          else none
      | _ => none
  | .endBurst i =>
      if s.threads i = .bursting cfg.burst then some (s.goto i .checking) else none
  | .send i ok =>
      match s.threads i with
      | .sending k =>
          if ok then some { s.goto i (.counting k) with accepted := s.accepted ++ [i] }
          else some (s.goto i (.bursting (k + 1)))
      | _ => none
  | .count i =>
      match s.threads i with
      | .counting k =>
          some { s.goto i (.bursting (k + 1)) with sent := s.sent.add (some i) 1 }
      | _ => none
  | .echo i =>
      if s.threads i = .ended then none
      else some { s with
        echoes := s.echoes.add (some i) 1
        echoed := s.echoed ++ [i] }
  | _ => none

/-- `main` loads the counter that is next, as it is after `k` additions. -/
def readNext (s : RunClient n) (k : ℕ) : Option (RunClient n) :=
  match s.reporter with
  | .reading =>
      if s.sent.Readable none k then
        some { s with
          sent := s.sent.read none k
          reporter := .readingEcho (s.sent.load k) }
      else none
  | .readingEcho sent =>
      if s.echoes.Readable none k then some (s.printLine sent k) else none
  | .collecting =>
      if s.sent.Readable none k then
        some { s with
          sent := s.sent.read none k
          reporter := .collectingEcho (s.sent.load k) }
      else none
  | .collectingEcho totalSent =>
      if s.echoes.Readable none k then
        some { s with
          echoes := s.echoes.read none k
          reporter := .done totalSent (s.echoes.load k) }
      else none
  | .waiting => none
  | .joining _ => none
  | .done _ _ => none

/-- What `main` does. -/
def reporterStep (s : RunClient n) : RunAction n → Option (RunClient n)
  | .elapsed timeUp =>
      match s.reporter with
      | .waiting =>
          if timeUp then some { s with running := false, reporter := .joining 0 }
          else some { s with reporter := .reading }
      | _ => none
  | .read k => s.readNext k
  | .join =>
      match s.reporter with
      | .joining j =>
          if h : j < n then
            if s.threads ⟨j, h⟩ = .ended then
              some { s with
                sent := s.sent.join none (some ⟨j, h⟩)
                echoes := s.echoes.join none (some ⟨j, h⟩)
                reporter := .joining (j + 1) }
            else none
          else some { s with reporter := .collecting }
      | _ => none
  | _ => none

def step (cfg : Config) (s : RunClient n) : RunAction n → Option (RunClient n)
  | .elapsed timeUp => s.reporterStep (.elapsed timeUp)
  | .read k => s.reporterStep (.read k)
  | .join => s.reporterStep .join
  | a => s.clientStep cfg a

def machine (cfg : Config) (n : ℕ) : Machine (RunClient n) (RunAction n) where
  step := step cfg

def Reachable (cfg : Config) (s : RunClient n) : Prop := (machine cfg n).Reaches (start n) s

end RunClient

end EntanglementRs.Bench
