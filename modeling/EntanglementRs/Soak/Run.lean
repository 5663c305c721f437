import EntanglementRs.Lib.Ascending
import EntanglementRs.Lib.Machine
import EntanglementRs.Soak.Message
import Mathlib.Logic.Function.Basic

/-!
# A run of the soak test

The main thread of `soak_test.rs` from the connected client to its verdicts:
the send loop, the drain, and the echo callbacks, which C calls inside any call
the thread makes to the client.  Arithmetic on `u32` wraps, as in the release
build; the `u64` counters of events count.
-/

namespace EntanglementRs.Soak

open Transition

structure StreamStats where
  sent : ℕ
  echoes : ℕ
  lastEchoId : UInt32
  violations : ℕ
  deriving DecidableEq

abbrev Stats := StreamIdx → StreamStats

/-! ## The echo callbacks -/

/-- One echo on a stream: count it, and on an ordered one compare its id with
the one it replaces. -/
def StreamStats.echo (st : StreamStats) (ordered : Bool) (msgId : UInt32) :
    StreamStats where
  sent := st.sent
  echoes := st.echoes + 1
  lastEchoId := if ordered then msgId else st.lastEchoId
  violations :=
    if ordered ∧ msgId ≤ st.lastEchoId ∧ 0 < st.lastEchoId then st.violations + 1
    else st.violations

def isOrdered (idx : StreamIdx) : Bool := decide (streamChannels.get idx = chOrdered)

/-- What both callbacks do with the bytes of an echo. -/
def recordEcho (stats : Stats) (payload : List UInt8) : Stats :=
  match SoakMsg.read? payload with
  | none => stats
  | some msg =>
      if hidx : msg.streamIdx.toNat < numStreams then
        let idx : StreamIdx := ⟨msg.streamIdx.toNat, hidx⟩
        Function.update stats idx ((stats idx).echo (isOrdered idx) msg.msgId)
      else stats

inductive EchoCallback where
  | dataReceived
  | messageComplete
  deriving DecidableEq

/-- `set_on_data_received`. -/
def onDataReceived (stats : Stats) (payload : List UInt8) : Stats :=
  recordEcho stats payload

/-- `set_on_message_complete`; its `free_buf` leaves the statistics alone. -/
def onMessageComplete (stats : Stats) (slice : List UInt8) : Stats :=
  recordEcho stats slice

def EchoCallback.apply : EchoCallback → Stats → List UInt8 → Stats
  | .dataReceived => onDataReceived
  | .messageComplete => onMessageComplete

/-! ## The main thread -/

/-- A buffer of the send loop, with the stream and the id it was built for. -/
structure Outgoing where
  idx : StreamIdx
  msgId : UInt32
  buf : List UInt8
  deriving DecidableEq

inductive SoakPc where
  /-- Before or inside `poll` and `update` of the send loop. -/
  | polling
  /-- `for idx in 0..NUM_STREAMS`, about to begin the round `idx`. -/
  | loop (idx : ℕ)
  | sending (msg : Outgoing)
  | draining
  | finished

structure SoakState where
  pc : SoakPc
  counters : StreamIdx → UInt32
  stats : Stats
  /-- How many messages were built for each stream. -/
  attempts : StreamIdx → ℕ
  /-- The messages whose `client.send` returned `Ok`, in that order. -/
  delivered : List Outgoing
  /-- What the two callbacks were called with, in that order. -/
  echoed : List (List UInt8)

inductive SoakAction where
  /-- C calls a callback inside a call to the client. -/
  | echo (cb : EchoCallback) (payload : List UInt8)
  /-- `can_send` before the loop over the streams. -/
  | canSend (yes : Bool)
  /-- `can_send` and `is_fragment_throttled` at the head of a round. -/
  | round (canSend throttled : Bool)
  | sendReturns (ok : Bool)
  | endRounds
  | timeUp
  | finish
  deriving DecidableEq

def start : SoakState where
  pc := .polling
  counters := fun _ => 0
  stats := fun _ => ⟨0, 0, 0, 0⟩
  attempts := fun _ => 0
  delivered := []
  echoed := []

def StreamStats.countSent (st : StreamStats) : StreamStats :=
  { st with sent := st.sent + 1 }

def step (s : SoakState) : SoakAction → Option SoakState
  | .echo cb payload =>
      match s.pc with
      | .finished => none
      | _ => some { s with
          stats := cb.apply s.stats payload
          echoed := s.echoed ++ [payload] }
  | .canSend yes =>
      match s.pc with
      | .polling => some { s with pc := if yes then .loop 0 else .polling }
      | _ => none
  | .round canSend throttled =>
      match s.pc with
      | .loop i =>
          if hi : i < numStreams then
            let idx : StreamIdx := ⟨i, hi⟩
            if !canSend then some { s with pc := .polling }
            else if streamIsFrag.get idx && throttled then some { s with pc := .loop (i + 1) }
            else
              let msgId := s.counters idx + 1
              some { s with
                pc := .sending ⟨idx, msgId, message idx msgId⟩
                counters := Function.update s.counters idx msgId
                attempts := Function.update s.attempts idx (s.attempts idx + 1) }
          else none
      | _ => none
  | .sendReturns ok =>
      match s.pc with
      | .sending msg =>
          if ok then
            some { s with
              pc := .loop (msg.idx + 1)
              stats := Function.update s.stats msg.idx (s.stats msg.idx).countSent
              delivered := s.delivered ++ [msg] }
          else some { s with pc := .loop (msg.idx + 1) }
      | _ => none
  | .endRounds =>
      match s.pc with
      | .loop i => if i = numStreams then some { s with pc := .polling } else none
      | _ => none
  | .timeUp =>
      match s.pc with
      | .polling => some { s with pc := .draining }
      | _ => none
  | .finish =>
      match s.pc with
      | .draining => some { s with pc := .finished }
      | _ => none

def machine : Machine SoakState SoakAction where
  step := step

def Reachable (s : SoakState) : Prop := machine.Reaches start s

/-- What a step does, as far as messages and statistics go. -/
inductive Move (s : SoakState) : SoakState → Prop where
  | echo (payload : List UInt8) :
      Move s { s with
        stats := recordEcho s.stats payload
        echoed := s.echoed ++ [payload] }
  | goto (pc : SoakPc) (hpc : ∀ msg, pc ≠ .sending msg) : Move s { s with pc := pc }
  | build (idx : StreamIdx) :
      Move s { s with
        pc := .sending ⟨idx, s.counters idx + 1, message idx (s.counters idx + 1)⟩
        counters := Function.update s.counters idx (s.counters idx + 1)
        attempts := Function.update s.attempts idx (s.attempts idx + 1) }
  | accepted (msg : Outgoing) (hpc : s.pc = .sending msg) :
      Move s { s with
        pc := .loop (msg.idx + 1)
        stats := Function.update s.stats msg.idx (s.stats msg.idx).countSent
        delivered := s.delivered ++ [msg] }

theorem step_move {s s' : SoakState} {a : SoakAction} (hstep : machine.step s a = some s') :
    Move s s' := by
  cases a with
  | echo cb payload =>
      have happly : cb.apply s.stats payload = recordEcho s.stats payload := by
        cases cb <;> rfl
      simp only [machine, step, happly] at hstep
      split at hstep
      next => contradiction
      next =>
        obtain rfl := Option.some.inj hstep
        exact .echo payload
  | canSend yes =>
      simp only [machine, step] at hstep
      split at hstep
      next =>
        obtain rfl := Option.some.inj hstep
        apply Move.goto
        cases yes <;> simp
      next => contradiction
  | round canSend throttled =>
      simp only [machine, step] at hstep
      split at hstep
      next i hpc =>
        split at hstep
        next hi =>
          split at hstep
          next =>
            obtain rfl := Option.some.inj hstep
            exact .goto .polling (by simp)
          next =>
            split at hstep
            next =>
              obtain rfl := Option.some.inj hstep
              exact .goto (.loop (i + 1)) (by simp)
            next =>
              obtain rfl := Option.some.inj hstep
              exact .build ⟨i, hi⟩
        next => contradiction
      next => contradiction
  | sendReturns ok =>
      simp only [machine, step] at hstep
      split at hstep
      next msg hpc =>
        split at hstep
        next =>
          obtain rfl := Option.some.inj hstep
          exact .accepted msg hpc
        next =>
          obtain rfl := Option.some.inj hstep
          exact .goto (.loop (msg.idx + 1)) (by simp)
      next => contradiction
  | endRounds =>
      simp only [machine, step] at hstep
      split at hstep
      next =>
        split at hstep
        next =>
          obtain rfl := Option.some.inj hstep
          exact .goto .polling (by simp)
        next => contradiction
      next => contradiction
  | timeUp =>
      simp only [machine, step] at hstep
      split at hstep
      next =>
        obtain rfl := Option.some.inj hstep
        exact .goto .draining (by simp)
      next => contradiction
  | finish =>
      simp only [machine, step] at hstep
      split at hstep
      next =>
        obtain rfl := Option.some.inj hstep
        exact .goto .finished (by simp)
      next => contradiction

theorem Reachable.invariant {I : SoakState → Prop} (hstart : I start)
    (hmove : ∀ s s', Move s s' → I s → I s') {s : SoakState} (hs : Reachable s) : I s :=
  Machine.Reaches.invariant
    (fun s _ s' hI hstep => hmove s s' (step_move hstep) hI) hs hstart

/-! ## What was sent and what came back -/

/-- The ids successfully sent on a stream, in order. -/
def sentIds (s : SoakState) (i : StreamIdx) : List UInt32 :=
  (s.delivered.filter fun msg => msg.idx = i).map Outgoing.msgId

/-- The id that an echo carries for a stream. -/
def echoId? (i : StreamIdx) (payload : List UInt8) : Option UInt32 :=
  match SoakMsg.read? payload with
  | none => none
  | some msg => if msg.streamIdx.toNat = i then some msg.msgId else none

/-- The ids echoed on a stream, in order. -/
def echoedIds (s : SoakState) (i : StreamIdx) : List UInt32 :=
  s.echoed.filterMap (echoId? i)

/-- Every echo is one of a message whose `client.send` returned `Ok`. -/
def EchoesSent (s : SoakState) : Prop :=
  ∀ payload ∈ s.echoed, ∃ msg ∈ s.delivered, msg.buf = payload

end EntanglementRs.Soak
