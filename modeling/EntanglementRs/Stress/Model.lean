import EntanglementRs.Lib.Machine
import EntanglementRs.Soak.Message

/-!
# The stress test

The one thread of `stress_test.rs` with its `N` virtual clients: the batches of
the connect phase, the cycles of the send loop with a send time for each client,
the drain and the final statistics.  What C answers and calls, and how time
passes, is left to the moves.  Times are in nanoseconds.
-/

namespace EntanglementRs.Stress

open Transition

structure StressMsg where
  clientIndex : UInt32
  sequence : UInt32
  deriving DecidableEq

def StressMsg.bytes (msg : StressMsg) : List UInt8 :=
  Soak.u32Bytes msg.clientIndex ++ Soak.u32Bytes msg.sequence

structure VirtualClient where
  connected : Bool
  sent : UInt32
  echoes : UInt32
  losses : UInt32
  channelId : Int32
  deriving DecidableEq

/-- What is pushed for a client that did not connect. -/
def VirtualClient.placeholder : VirtualClient := ⟨false, 0, 0, 0, -1⟩

/-- How the connect phase ends for one client. -/
inductive Outcome where
  | refused
  | timedOut
  /-- What `open_channel` returned. -/
  | opened (chId : Int32)
  deriving DecidableEq

def Outcome.client : Outcome → VirtualClient
  | .refused => .placeholder
  | .timedOut => .placeholder
  | .opened chId => if chId < 0 then .placeholder else ⟨true, 0, 0, 0, chId⟩

structure Config where
  numClients : ℕ
  durationS : ℕ
  rateHz : ℕ
  deriving DecidableEq

def connectBatch : ℕ := 50

namespace Config

variable (cfg : Config)

/-- `1_000_000 / rate_hz.max(1)` microseconds. -/
def sendIntervalMicros : ℕ := 1000000 / max cfg.rateHz 1

def sendInterval : ℕ := cfg.sendIntervalMicros * 1000

/-- The product is an `u64`. -/
def staggerMicros (i : ℕ) : ℕ :=
  cfg.sendIntervalMicros * i % 2 ^ 64 / max cfg.numClients 1

def testDuration : ℕ := cfg.durationS * 1000000000

def batchEnd (base : ℕ) : ℕ := min (base + connectBatch) cfg.numClients

end Config

/-- A send for which `client.send` returned `Ok`. -/
structure Send where
  client : ℕ
  bytes : List UInt8
  channel : UInt8
  /-- The `now` of the cycle, from which the next send is timed. -/
  cycle : ℕ
  /-- When `client.send` was called. -/
  time : ℕ
  deriving DecidableEq

structure FinalStats where
  finalSent : ℕ
  finalEchoes : ℕ
  finalLosses : ℕ
  deriving DecidableEq

inductive StressPc where
  /-- The head of `while base < num_clients`. -/
  | batches (base : ℕ)
  | batch (base idx : ℕ)
  | aborted
  /-- The head of `while test_start.elapsed() < test_duration`. -/
  | checking
  /-- Before `Instant::now()`. -/
  | starting
  /-- `for i in 0..num_clients`, about to begin the round `i`. -/
  | visiting (now i sends : ℕ)
  | draining
  | collected (stats : FinalStats)
  deriving DecidableEq

structure StressTest where
  pc : StressPc
  clients : List VirtualClient
  connectOk : ℕ
  connectFail : ℕ
  testStart : ℕ
  lastSend : List ℕ
  totalSent : ℕ
  clock : ℕ
  accepted : List Send
  /-- The clients whose callbacks C has called, one entry for each call. -/
  echoed : List ℕ
  lost : List ℕ

inductive StressAction where
  | time (t : ℕ)
  | echo (i : ℕ)
  | packetLost (i : ℕ)
  | connect (o : Outcome)
  /-- To the next statement, where nothing is left to C. -/
  | advance
  | visit (isConnected canSend sendOk : Bool)
  deriving DecidableEq

def start : StressTest where
  pc := .batches 0
  clients := []
  connectOk := 0
  connectFail := 0
  testStart := 0
  lastSend := []
  totalSent := 0
  clock := 0
  accepted := []
  echoed := []
  lost := []

def VirtualClient.countEcho (vc : VirtualClient) : VirtualClient :=
  { vc with echoes := vc.echoes + 1 }

def VirtualClient.countLoss (vc : VirtualClient) : VirtualClient :=
  { vc with losses := vc.losses + 1 }

/-- The loop over `clients` that collects the final statistics. -/
def finalStats : List VirtualClient → FinalStats
  | [] => ⟨0, 0, 0⟩
  | vc :: rest =>
      let stats := finalStats rest
      if vc.connected then
        ⟨vc.sent.toNat + stats.finalSent, vc.echoes.toNat + stats.finalEchoes,
          vc.losses.toNat + stats.finalLosses⟩
      else stats

/-- The packets counted as delivered; `none` where the subtraction underflows. -/
def FinalStats.delivered? (stats : FinalStats) : Option ℕ :=
  if 0 < stats.finalSent then
    if stats.finalLosses ≤ stats.finalSent then some (stats.finalSent - stats.finalLosses)
    else none
  else some 0

namespace StressTest

/-- The message that round `i` builds. -/
def message (i : ℕ) (vc : VirtualClient) : StressMsg := ⟨UInt32.ofNat i, vc.sent⟩

/-- The end of the connect phase. -/
def begin (cfg : Config) (s : StressTest) : StressTest :=
  if s.connectOk = 0 then { s with pc := .aborted }
  else
    { s with
      pc := .checking
      testStart := s.clock
      lastSend := (List.range cfg.numClients).map fun i =>
        s.clock + cfg.staggerMicros i * 1000 }

/-- The body of `for i in 0..num_clients` for a client whose turn it is to send. -/
def send (cfg : Config) (s : StressTest) (now i sends : ℕ) (vc : VirtualClient)
    (canSend sendOk : Bool) : StressTest :=
  if canSend && sendOk then
    { s with
      pc := .visiting now (i + 1) (sends + 1)
      clients := s.clients.set i { vc with sent := vc.sent + 1 }
      lastSend := s.lastSend.set i (now + cfg.sendInterval)
      accepted := s.accepted ++
        [⟨i, (message i vc).bytes, vc.channelId.toInt8.toUInt8, now, s.clock⟩] }
  else
    { s with
      pc := .visiting now (i + 1) sends
      lastSend := s.lastSend.set i (now + cfg.sendInterval) }

def step (cfg : Config) (s : StressTest) : StressAction → Option StressTest
  | .time t => if s.clock ≤ t then some { s with clock := t } else none
  | .echo i =>
      match s.clients[i]? with
      | some vc =>
          if vc.connected then
            some { s with
              clients := s.clients.set i vc.countEcho
              echoed := s.echoed ++ [i] }
          else none
      | none => none
  | .packetLost i =>
      match s.clients[i]? with
      | some vc =>
          if vc.connected then
            some { s with
              clients := s.clients.set i vc.countLoss
              lost := s.lost ++ [i] }
          else none
      | none => none
  | .connect o =>
      match s.pc with
      | .batch base idx =>
          if idx < cfg.batchEnd base then
            some { s with
              pc := .batch base (idx + 1)
              clients := s.clients ++ [o.client]
              connectOk := if o.client.connected then s.connectOk + 1 else s.connectOk
              connectFail := if o.client.connected then s.connectFail
                else s.connectFail + 1 }
          else none
      | _ => none
  | .advance =>
      match s.pc with
      | .batches base =>
          if base < cfg.numClients then some { s with pc := .batch base base }
          else some (s.begin cfg)
      | .batch base idx =>
          if idx = cfg.batchEnd base then
            some { s with pc := .batches (base + connectBatch) }
          else none
      | .checking =>
          if s.clock - s.testStart < cfg.testDuration then some { s with pc := .starting }
          else some { s with pc := .draining }
      | .starting => some { s with pc := .visiting s.clock 0 0 }
      | .visiting _ i sends =>
          if i = cfg.numClients then
            some { s with pc := .checking, totalSent := s.totalSent + sends }
          else none
      | .draining => some { s with pc := .collected (finalStats s.clients) }
      | .aborted => none
      | .collected _ => none
  | .visit isConnected canSend sendOk =>
      match s.pc with
      | .visiting now i sends =>
          if i < cfg.numClients then
            match s.clients[i]?, s.lastSend[i]? with
            | some vc, some last =>
                if !vc.connected || !isConnected then
                  some { s with pc := .visiting now (i + 1) sends }
                else if last ≤ now then some (s.send cfg now i sends vc canSend sendOk)
                else some { s with pc := .visiting now (i + 1) sends }
            | _, _ => none
          else none
      | _ => none

def machine (cfg : Config) : Machine StressTest StressAction where
  step := step cfg

def Reachable (cfg : Config) (s : StressTest) : Prop := (machine cfg).Reaches start s

inductive Move (cfg : Config) (s : StressTest) : StressTest → Prop where
  | time (t : ℕ) (hclock : s.clock ≤ t) : Move cfg s { s with clock := t }
  | echo (i : ℕ) (vc : VirtualClient) (hvc : s.clients[i]? = some vc)
      (hconnected : vc.connected = true) :
      Move cfg s { s with
        clients := s.clients.set i vc.countEcho
        echoed := s.echoed ++ [i] }
  | packetLost (i : ℕ) (vc : VirtualClient) (hvc : s.clients[i]? = some vc)
      (hconnected : vc.connected = true) :
      Move cfg s { s with
        clients := s.clients.set i vc.countLoss
        lost := s.lost ++ [i] }
  | connect (base idx : ℕ) (o : Outcome) (hpc : s.pc = .batch base idx)
      (hidx : idx < cfg.batchEnd base) :
      Move cfg s { s with
        pc := .batch base (idx + 1)
        clients := s.clients ++ [o.client]
        connectOk := if o.client.connected then s.connectOk + 1 else s.connectOk
        connectFail := if o.client.connected then s.connectFail else s.connectFail + 1 }
  | openBatch (base : ℕ) (hpc : s.pc = .batches base) (hbase : base < cfg.numClients) :
      Move cfg s { s with pc := .batch base base }
  | closeBatch (base : ℕ) (hpc : s.pc = .batch base (cfg.batchEnd base)) :
      Move cfg s { s with pc := .batches (base + connectBatch) }
  | begin (base : ℕ) (hpc : s.pc = .batches base) (hbase : cfg.numClients ≤ base) :
      Move cfg s (s.begin cfg)
  | check (pc : StressPc) (hpc : s.pc = .checking)
      (hnext : pc = .starting ∨ pc = .draining) :
      Move cfg s { s with pc := pc }
  | now (hpc : s.pc = .starting) : Move cfg s { s with pc := .visiting s.clock 0 0 }
  | skip (now i sends : ℕ) (hpc : s.pc = .visiting now i sends)
      (hi : i < cfg.numClients) :
      Move cfg s { s with pc := .visiting now (i + 1) sends }
  | attempt (now i sends : ℕ) (vc : VirtualClient) (last : ℕ) (canSend sendOk : Bool)
      (hpc : s.pc = .visiting now i sends) (hi : i < cfg.numClients)
      (hvc : s.clients[i]? = some vc) (hlast : s.lastSend[i]? = some last)
      (hconnected : vc.connected = true) (hdue : last ≤ now) :
      Move cfg s (s.send cfg now i sends vc canSend sendOk)
  | endCycle (now sends : ℕ) (hpc : s.pc = .visiting now cfg.numClients sends) :
      Move cfg s { s with pc := .checking, totalSent := s.totalSent + sends }
  | collect (hpc : s.pc = .draining) :
      Move cfg s { s with pc := .collected (finalStats s.clients) }

variable {cfg : Config} {s s' : StressTest} {a : StressAction}

theorem step_move (hstep : (machine cfg).step s a = some s') : Move cfg s s' := by
  cases a with
  | time t =>
      simp only [machine, step] at hstep
      split at hstep
      next hclock =>
        obtain rfl := Option.some.inj hstep
        exact .time t hclock
      next => contradiction
  | echo i =>
      simp only [machine, step] at hstep
      split at hstep
      next vc hvc =>
        split at hstep
        next hconnected =>
          obtain rfl := Option.some.inj hstep
          exact .echo i vc hvc hconnected
        next => contradiction
      next => contradiction
  | packetLost i =>
      simp only [machine, step] at hstep
      split at hstep
      next vc hvc =>
        split at hstep
        next hconnected =>
          obtain rfl := Option.some.inj hstep
          exact .packetLost i vc hvc hconnected
        next => contradiction
      next => contradiction
  | connect o =>
      simp only [machine, step] at hstep
      split at hstep
      next base idx hpc =>
        split at hstep
        next hidx =>
          obtain rfl := Option.some.inj hstep
          exact .connect base idx o hpc hidx
        next => contradiction
      next => contradiction
  | advance =>
      simp only [machine, step] at hstep
      split at hstep
      next base hpc =>
        split at hstep
        next hbase =>
          obtain rfl := Option.some.inj hstep
          exact .openBatch base hpc hbase
        next hbase =>
          obtain rfl := Option.some.inj hstep
          exact .begin base hpc (Nat.le_of_not_lt hbase)
      next base idx hpc =>
        split at hstep
        next hidx =>
          obtain rfl := Option.some.inj hstep
          subst hidx
          exact .closeBatch base hpc
        next => contradiction
      next hpc =>
        split at hstep
        next =>
          obtain rfl := Option.some.inj hstep
          exact .check _ hpc (Or.inl rfl)
        next =>
          obtain rfl := Option.some.inj hstep
          exact .check _ hpc (Or.inr rfl)
      next hpc =>
        obtain rfl := Option.some.inj hstep
        exact .now hpc
      next now i sends hpc =>
        split at hstep
        next hi =>
          obtain rfl := Option.some.inj hstep
          subst hi
          exact .endCycle now sends hpc
        next => contradiction
      next hpc =>
        obtain rfl := Option.some.inj hstep
        exact .collect hpc
      next => contradiction
      next => contradiction
  | visit isConnected canSend sendOk =>
      simp only [machine, step] at hstep
      split at hstep
      next now i sends hpc =>
        split at hstep
        next hi =>
          split at hstep
          next vc last hvc hlast =>
            split at hstep
            next =>
              obtain rfl := Option.some.inj hstep
              exact .skip now i sends hpc hi
            next hready =>
              split at hstep
              next hdue =>
                obtain rfl := Option.some.inj hstep
                have hconnected : vc.connected = true := by
                  cases hvc' : vc.connected with
                  | true => rfl
                  | false => simp [hvc'] at hready
                exact .attempt now i sends vc last canSend sendOk hpc hi hvc hlast
                  hconnected hdue
              next =>
                obtain rfl := Option.some.inj hstep
                exact .skip now i sends hpc hi
          next => contradiction
        next => contradiction
      next => contradiction

end StressTest

end EntanglementRs.Stress
