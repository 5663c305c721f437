import EntanglementRs.Lib.Delivery
import EntanglementRs.Soak.Oracle
import EntanglementRs.Soak.Relay

/-!
# Client, network and echo server

The client's main thread and the echo server of `soak_test.rs` as one system.
The C library between them hands over messages that were accepted, unchanged; it
may lose, repeat and reorder them.  What the verdicts assume of the echoes then
holds in every run.
-/

namespace EntanglementRs.Soak

open Transition Delivery

/-- The messages sent back that C accepted. -/
def EchoServer.echoed (s : EchoServer) : List Echo :=
  (s.results.filter fun r => 0 ≤ r.2).map Prod.fst

structure SoakSystem where
  client : SoakState
  server : EchoServer
  /-- The messages of the client handed to the server, by position. -/
  up : List ℕ
  /-- The messages of the server handed to the client, by position. -/
  down : List ℕ

inductive SystemAction where
  | client (a : SoakAction)
  | server (a : EchoAction)
  /-- C hands message `n` of the client to a callback of the server. -/
  | up (n : ℕ) (t : CThread) (args : EchoArgs)
  /-- C hands message `n` of the server to a callback of the client. -/
  | down (n : ℕ) (cb : EchoCallback)

def SoakAction.isEcho : SoakAction → Bool
  | .echo _ _ => true
  | _ => false

def EchoAction.isCallback : EchoAction → Bool
  | .callback _ _ => true
  | _ => false

namespace SoakSystem

variable (codes : ErrorCodes)

def step (s : SoakSystem) : SystemAction → Option SoakSystem
  | .client a =>
      if a.isEcho then none
      else (Soak.step s.client a).map fun client => { s with client := client }
  | .server a =>
      if a.isCallback then none
      else (s.server.step codes a).map fun server => { s with server := server }
  | .up n t args =>
      match s.client.delivered[n]? with
      | none => none
      | some msg =>
          if (EchoArgs.echo s.server.path.mem args).data = msg.buf then
            (s.server.step codes (.callback t args)).map fun server =>
              { s with server := server, up := s.up ++ [n] }
          else none
  | .down n cb =>
      match s.server.echoed[n]? with
      | none => none
      | some m =>
          (Soak.step s.client (.echo cb m.data)).map fun client =>
            { s with client := client, down := s.down ++ [n] }

def machine : Machine SoakSystem SystemAction where
  step := step codes

def start (capacity : ℕ) (hpos : 0 < capacity) (mem : CMemory) : SoakSystem where
  client := Soak.start
  server := EchoServer.spawn capacity hpos mem
  up := []
  down := []

def Reachable (capacity : ℕ) (s : SoakSystem) : Prop :=
  ∃ (hpos : 0 < capacity) (mem : CMemory), (machine codes).Reaches (start capacity hpos mem) s

end SoakSystem

/-! ## What a step of one side changes -/

theorem step_of_not_echo {s s' : SoakState} {a : SoakAction} (ha : a.isEcho = false)
    (hstep : step s a = some s') :
    s'.echoed = s.echoed ∧ ∃ more, s'.delivered = s.delivered ++ more := by
  have hkept : s'.echoed = s.echoed → s'.delivered = s.delivered →
      s'.echoed = s.echoed ∧ ∃ more, s'.delivered = s.delivered ++ more :=
    fun hechoed hdelivered => ⟨hechoed, [], by rw [hdelivered, List.append_nil]⟩
  cases a with
  | echo cb payload => contradiction
  | sendReturns ok =>
      simp only [step] at hstep
      split at hstep
      next msg hpc =>
        split at hstep
        next =>
          obtain rfl := Option.some.inj hstep
          exact ⟨rfl, [msg], rfl⟩
        next =>
          obtain rfl := Option.some.inj hstep
          exact hkept rfl rfl
      next => contradiction
  | canSend yes | round canSend throttled | endRounds | timeUp | finish =>
      simp only [step] at hstep
      repeat' split at hstep
      all_goals first
        | contradiction
        | (obtain rfl := Option.some.inj hstep; exact hkept rfl rfl)

theorem step_echo {s s' : SoakState} {cb : EchoCallback} {payload : List UInt8}
    (hstep : step s (.echo cb payload) = some s') :
    s'.echoed = s.echoed ++ [payload] ∧ s'.delivered = s.delivered := by
  simp only [step] at hstep
  split at hstep
  next => contradiction
  next =>
    obtain rfl := Option.some.inj hstep
    exact ⟨rfl, rfl⟩

namespace EchoServer

variable {codes : ErrorCodes} {s s' : EchoServer}

theorem Move.of_not_callback (hthreads : s.Threads) {a : EchoAction}
    (ha : a.isCallback = false) (hmove : Move codes s a s') :
    s'.path.invoked = s.path.invoked ∧ ∃ more, s'.echoed = s.echoed ++ more := by
  cases hmove with
  | callback t args path hrunning hpath => contradiction
  | unlock _ t pa path hpa hlock hpath =>
      obtain ⟨w, chan, hmem, rfl, hsent, rfl⟩ := hthreads.unlock hpa hpath
      exact ⟨rfl, [], (List.append_nil _).symm⟩
  | sent r m hidle hpc =>
      refine ⟨rfl, ([(m, r.code)].filter fun r => 0 ≤ r.2).map Prod.fst, ?_⟩
      simp [echoed, List.filter_append]
  | _ => exact ⟨rfl, [], (List.append_nil _).symm⟩

theorem Move.of_callback {t : CThread} {args : EchoArgs}
    (hmove : Move codes s (.callback t args) s') :
    s'.path.invoked = s.path.invoked ++ [(t, ⟨args, s.path.mem, none⟩)] ∧
      s'.echoed = s.echoed := by
  generalize ha : EchoAction.callback t args = a at hmove
  cases hmove with
  | callback t' args' path hrunning hpath =>
      obtain ⟨rfl, rfl⟩ := EchoAction.callback.inj ha
      obtain ⟨_, rfl⟩ := invoke_path hpath
      exact ⟨rfl, rfl⟩
  | unlock _ t' pa path hpa hlock hpath =>
      rcases hpa with ⟨rfl, _⟩ | ⟨rfl, _⟩ <;> contradiction
  | _ => contradiction

end EchoServer

namespace SoakSystem

variable {codes : ErrorCodes} {capacity : ℕ} {s s' : SoakSystem}

inductive Move (codes : ErrorCodes) (s : SoakSystem) : SoakSystem → Prop where
  | client (a : SoakAction) (client : SoakState) (ha : a.isEcho = false)
      (hstep : Soak.machine.step s.client a = some client) :
      Move codes s { s with client := client }
  | server (a : EchoAction) (server : EchoServer) (ha : a.isCallback = false)
      (hstep : (EchoServer.machine codes).step s.server a = some server) :
      Move codes s { s with server := server }
  | up (n : ℕ) (t : CThread) (args : EchoArgs) (msg : Outgoing) (server : EchoServer)
      (hmsg : s.client.delivered[n]? = some msg)
      (hbytes : (EchoArgs.echo s.server.path.mem args).data = msg.buf)
      (hstep : (EchoServer.machine codes).step s.server (.callback t args) = some server) :
      Move codes s { s with server := server, up := s.up ++ [n] }
  | down (n : ℕ) (cb : EchoCallback) (m : Echo) (client : SoakState)
      (hm : s.server.echoed[n]? = some m)
      (hstep : Soak.machine.step s.client (.echo cb m.data) = some client) :
      Move codes s { s with client := client, down := s.down ++ [n] }

theorem step_move {a : SystemAction} (hstep : (machine codes).step s a = some s') :
    Move codes s s' := by
  cases a with
  | client a =>
      simp only [machine, step] at hstep
      split at hstep
      next => contradiction
      next ha =>
        obtain ⟨client, hclient, rfl⟩ := Option.map_eq_some_iff.mp hstep
        exact .client a client (by simpa using ha) hclient
  | server a =>
      simp only [machine, step] at hstep
      split at hstep
      next => contradiction
      next ha =>
        obtain ⟨server, hserver, rfl⟩ := Option.map_eq_some_iff.mp hstep
        exact .server a server (by simpa using ha) hserver
  | up n t args =>
      simp only [machine, step] at hstep
      split at hstep
      next => contradiction
      next msg hmsg =>
        split at hstep
        next hbytes =>
          obtain ⟨server, hserver, rfl⟩ := Option.map_eq_some_iff.mp hstep
          exact .up n t args msg server hmsg hbytes hserver
        next => contradiction
  | down n cb =>
      simp only [machine, step] at hstep
      split at hstep
      next => contradiction
      next m hm =>
        obtain ⟨client, hclient, rfl⟩ := Option.map_eq_some_iff.mp hstep
        exact .down n cb m client hm hclient

/-! ## What the two directions carried -/

/-- What reached the server and the client, in the order of the callbacks. -/
structure Carried (codes : ErrorCodes) (capacity : ℕ) (s : SoakSystem) : Prop where
  client : Soak.Reachable s.client
  server : EchoServer.Reachable codes capacity s.server
  up : Valid s.client.delivered s.up
  down : Valid s.server.echoed s.down
  received :
    (s.server.path.invoked.map fun i => (EchoArgs.echo i.2.mem i.2.args).data) =
      (arrived s.client.delivered s.up).map Outgoing.buf
  echoed : s.client.echoed = (arrived s.server.echoed s.down).map Echo.data

theorem start_carried (hpos : 0 < capacity) (mem : CMemory) :
    (start capacity hpos mem).Carried codes capacity where
  client := Machine.Reaches.refl _
  server := ⟨hpos, mem, Machine.Reaches.refl _⟩
  up := valid_nil _
  down := valid_nil _
  received := rfl
  echoed := rfl

theorem Carried.move (hs : s.Carried codes capacity) (hmove : Move codes s s') :
    s'.Carried codes capacity := by
  cases hmove with
  | client a client ha hstep =>
      obtain ⟨hechoed, more, hdelivered⟩ := step_of_not_echo ha hstep
      refine ⟨hs.client.tail hstep, hs.server, ?_, hs.down, ?_, hechoed.trans hs.echoed⟩
      · change Valid client.delivered s.up
        rw [hdelivered]
        exact hs.up.append more
      · change _ = (arrived client.delivered s.up).map Outgoing.buf
        rw [hdelivered, arrived_append hs.up]
        exact hs.received
  | server a server ha hstep =>
      obtain ⟨hinvoked, more, hechoed⟩ :=
        (EchoServer.step_move hstep).of_not_callback hs.server.threads ha
      refine ⟨hs.client, hs.server.next hstep, hs.up, ?_, ?_, ?_⟩
      · change Valid server.echoed s.down
        rw [hechoed]
        exact hs.down.append more
      · change server.path.invoked.map _ = _
        rw [hinvoked]
        exact hs.received
      · change s.client.echoed = (arrived server.echoed s.down).map Echo.data
        rw [hechoed, arrived_append hs.down]
        exact hs.echoed
  | up n t args msg server hmsg hbytes hstep =>
      obtain ⟨hinvoked, hechoed⟩ := (EchoServer.step_move hstep).of_callback
      refine ⟨hs.client, hs.server.next hstep, hs.up.concat hmsg, ?_, ?_, ?_⟩
      · change Valid server.echoed s.down
        rw [hechoed]
        exact hs.down
      · change server.path.invoked.map _ = (arrived s.client.delivered (s.up ++ [n])).map _
        rw [hinvoked, arrived_concat hmsg, List.map_append, List.map_append, hs.received]
        simp [hbytes]
      · change s.client.echoed = (arrived server.echoed s.down).map Echo.data
        rw [hechoed]
        exact hs.echoed
  | down n cb m client hm hstep =>
      obtain ⟨hechoed, hdelivered⟩ := step_echo hstep
      refine ⟨hs.client.tail hstep, hs.server, ?_, hs.down.concat hm, ?_, ?_⟩
      · change Valid client.delivered s.up
        rw [hdelivered]
        exact hs.up
      · change _ = (arrived client.delivered s.up).map Outgoing.buf
        rw [hdelivered]
        exact hs.received
      · change client.echoed = (arrived s.server.echoed (s.down ++ [n])).map Echo.data
        rw [hechoed, arrived_concat hm, List.map_append, ← hs.echoed]
        rfl

theorem Reachable.carried (hs : Reachable codes capacity s) : s.Carried codes capacity := by
  obtain ⟨hpos, mem, hreach⟩ := hs
  exact hreach.invariant (fun _ _ _ hcarried hstep => hcarried.move (step_move hstep))
    (start_carried hpos mem)

end SoakSystem

end EntanglementRs.Soak
