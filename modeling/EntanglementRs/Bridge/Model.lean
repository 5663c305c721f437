import EntanglementRs.EventPath
import EntanglementRs.Lib.SharedCell

/-!
# The bridge thread

`spawn_server_with_config` and `spawn_client_with_config` start a thread that
owns a C object and connects it to two bounded channels.  Both threads are the
same program with different calls: `BridgeProgram` lists what differs, and
`Bridge.step` is the program, statement by statement, together with everything
that can run between its statements: the application at the other end of the
channels, and C on the bridge's own thread or on worker threads.
-/

namespace EntanglementRs

open Transition

inductive CThread where
  | own
  | worker (i : ℕ)
  deriving DecidableEq

inductive CtxRef where
  | localRef
  /-- The clone behind `ctx_ptr`, given away by `Arc::into_raw`. -/
  | rawRef
  deriving DecidableEq

/-- What the two bridges do differently. -/
structure BridgeProgram (Slot Cmd Args Evt Call : Type) where
  create : FFI Call Unit
  configure : List Call
  contextType : AllocType
  registrations : List (Slot × Trampoline)
  setOn : Slot → Option CallbackPair → Call
  openObject : FFI Call (EntResult Unit)
  hasWorkers : Bool
  /-- Whether a failed open reclaims the raw reference before the thread ends;
  otherwise it panics. -/
  reclaimsOnFailure : Bool
  exec : Cmd → FFI Call Unit
  isStop : Cmd → Bool
  message : Cmd → Option (List UInt8)
  poll : FFI Call Int32
  update : FFI Call Int32
  clears : List Slot
  destroy : Call
  callee : Args → Trampoline
  event : CMemory → Args → Evt

/-- Where the bridge thread is. -/
inductive Pc (Slot Cmd : Type) where
  | creating
  | configure
  /-- About to make the context and its second reference. -/
  | context
  | register (rest : List (Slot × Trampoline))
  | opening
  | drain
  | exec (c : Cmd)
  | polling
  | updating
  | sleeping
  | reclaim
  /-- The locals are dropped, first `ctx`. -/
  | dropContext
  /-- Inside `Drop` of the object. -/
  | clearing (rest : List Slot)
  | destroying
  /-- The captured `cmd_rx` is dropped. -/
  | dropCommands
  | ended

def Pc.inCall {Slot Cmd : Type} : Pc Slot Cmd → Bool
  | .opening | .exec _ | .polling | .updating | .destroying => true
  | _ => false

structure Bridge (Slot Cmd Args Evt Call : Type) where
  pc : Pc Slot Cmd
  cmd : Channel Cmd
  /-- The number of command `Sender`s in the application's hands. -/
  senders : ℕ
  path : EventPath CThread Args Evt
  ctx : SharedCell CtxRef
  evtTx : Bool
  ctxPtr : ℕ
  table : CallbackTable Slot
  workers : Bool
  calls : List Call
  /-- What the C calls of message commands returned. -/
  results : List (Cmd × Int32)
  openCode : Option Int32
  /-- How many calls had been made when `try_recv` first reported the command
  channel disconnected. -/
  sawClosed : Option ℕ
  /-- The callbacks C began since the thread last called open, a command or
  poll. -/
  fired : ℕ

inductive BridgeAction (Slot Cmd Args : Type) where
  -- the application
  | cloneTx
  | dropTx
  | send (c : Cmd)
  | recv
  | closeRx
  | dropRx
  -- C
  | write (mem : CMemory)
  | read (slot : Slot)
  | invoke (t : CThread) (pair : CallbackPair) (args : Args) (origin : Option ℕ)
  | deliver (t : CThread)
  | fail (t : CThread)
  | return_ (r : Reply)
  | thread

def BridgeAction.isApp {Slot Cmd Args : Type} : BridgeAction Slot Cmd Args → Bool
  | .cloneTx | .dropTx | .send _ | .recv | .closeRx | .dropRx => true
  | _ => false

namespace Bridge

variable {Slot Cmd Args Evt Call : Type} [DecidableEq Slot]

def spawn (prog : BridgeProgram Slot Cmd Args Evt Call) (channelBuffer : ℕ)
    (hpos : 0 < channelBuffer) (mem : CMemory) : Bridge Slot Cmd Args Evt Call where
  pc := .creating
  cmd := Channel.new channelBuffer hpos
  senders := 1
  path := EventPath.new channelBuffer hpos mem
  ctx := .empty
  evtTx := true
  ctxPtr := 0
  table := .empty
  workers := false
  calls := prog.create.calls
  results := []
  openCode := none
  sawClosed := none
  fired := 0

/-- Drop one strong reference; the last one frees the context and with it the
event `Sender`. -/
def release (b : Bridge Slot Cmd Args Evt Call) (r : CtxRef) :
    Bridge Slot Cmd Args Evt Call :=
  if b.ctx.held = [r] then
    { b with ctx := b.ctx.release r, evtTx := false, table := b.table.free b.ctxPtr }
  else { b with ctx := b.ctx.release r }

def Running (b : Bridge Slot Cmd Args Evt Call) : CThread → Prop
  | .own => b.pc.inCall = true
  | .worker _ => b.workers = true

instance (b : Bridge Slot Cmd Args Evt Call) (t : CThread) :
    Decidable (b.Running t) := by
  cases t <;> simp only [Running] <;> infer_instance

def threadStep (prog : BridgeProgram Slot Cmd Args Evt Call)
    (b : Bridge Slot Cmd Args Evt Call) : Option (Bridge Slot Cmd Args Evt Call) :=
  match b.pc with
  | .configure =>
      some { b with pc := .context, calls := b.calls ++ prog.configure }
  | .context =>
      some { b with
        pc := .register prog.registrations
        ctx := (b.ctx.acquire .localRef).acquire .rawRef
        ctxPtr := b.table.fresh
        table := b.table.alloc prog.contextType }
  | .register ((slot, trampoline) :: rest) =>
      let pair : CallbackPair := ⟨trampoline, b.ctxPtr⟩
      some { b with
        pc := .register rest
        table := b.table.set slot (some pair)
        calls := b.calls ++ [prog.setOn slot (some pair)] }
  | .register [] =>
      some { b with
        pc := .opening
        workers := prog.hasWorkers
        calls := b.calls ++ prog.openObject.calls
        fired := 0 }
  | .drain =>
      match b.cmd.recv? with
      | some (c, cmd) =>
          some { b with
            pc := .exec c
            cmd := cmd
            calls := b.calls ++ (prog.exec c).calls
            fired := 0 }
      | none =>
          -- `Err(_) => break`, whether the channel is empty or disconnected
          some { b with
            pc := .polling
            calls := b.calls ++ prog.poll.calls
            sawClosed :=
              if b.senders = 0 then some (b.sawClosed.getD b.calls.length)
              else b.sawClosed
            fired := 0 }
  | .sleeping => some { b with pc := .drain }
  | .reclaim => some { b.release .rawRef with pc := .dropContext }
  | .dropContext => some { b.release .localRef with pc := .clearing prog.clears }
  | .clearing (slot :: rest) =>
      some { b with
        pc := .clearing rest
        table := b.table.set slot none
        calls := b.calls ++ [prog.setOn slot none] }
  | .clearing [] =>
      some { b with pc := .destroying, calls := b.calls ++ [prog.destroy] }
  | .dropCommands => some { b with pc := .ended, cmd := b.cmd.dropReceiver }
  | _ => none

/-- The C call the thread is in returns `r`.  A call returns only when its own
callbacks have, and `stop` and `destroy` join the workers first. -/
def returnStep (prog : BridgeProgram Slot Cmd Args Evt Call)
    (b : Bridge Slot Cmd Args Evt Call) (r : Reply) :
    Option (Bridge Slot Cmd Args Evt Call) :=
  if b.path.Busy .own then none
  else
    match b.pc with
    | .creating =>
        match prog.create.result r with
        | some () => some { b with pc := .configure }
        | none => some { b with pc := .dropCommands, evtTx := false }
    | .opening =>
        match prog.openObject.result r with
        | some (.ok ()) => some { b with pc := .drain, openCode := some r.code }
        | _ =>
            some { b with
              pc := if prog.reclaimsOnFailure then .reclaim else .dropContext
              openCode := some r.code }
    | .exec c =>
        if prog.isStop c then
          if b.path.waiting = [] then some { b with pc := .reclaim, workers := false }
          else none
        else
          some { b with
            pc := .drain
            results :=
              if (prog.message c).isSome then b.results ++ [(c, r.code)]
              else b.results }
    | .polling =>
        some { b with pc := .updating, calls := b.calls ++ prog.update.calls }
    | .updating => some { b with pc := .sleeping }
    | .destroying =>
        if b.path.waiting = [] then
          some { b with pc := .dropCommands, workers := false }
        else none
    | _ => none

def pathStep (prog : BridgeProgram Slot Cmd Args Evt Call)
    (b : Bridge Slot Cmd Args Evt Call) (a : PathAction CThread Args) :
    Option (Bridge Slot Cmd Args Evt Call) :=
  (b.path.step prog.event a).map fun path => { b with path := path }

def step (prog : BridgeProgram Slot Cmd Args Evt Call)
    (b : Bridge Slot Cmd Args Evt Call) :
    BridgeAction Slot Cmd Args → Option (Bridge Slot Cmd Args Evt Call)
  | .cloneTx => if 0 < b.senders then some { b with senders := b.senders + 1 } else none
  | .dropTx => if 0 < b.senders then some { b with senders := b.senders - 1 } else none
  | .send c =>
      if 0 < b.senders then (b.cmd.send? c).map fun cmd => { b with cmd := cmd }
      else none
  | .recv => b.pathStep prog .recv
  | .closeRx => b.pathStep prog .close
  | .dropRx => b.pathStep prog .dropReceiver
  | .write mem => b.pathStep prog (.write mem)
  | .read slot =>
      if b.pc.inCall = true ∨ b.workers = true then
        some { b with table := b.table.readSlot slot }
      else none
  | .invoke t pair args origin =>
      if b.Running t ∧ pair ∈ b.table.read ∧ pair.trampoline = prog.callee args then
        if b.table.Sound pair then
          (b.path.step prog.event (.invoke t args origin)).map fun path =>
            { b with path := path, fired := b.fired + 1 }
        else
          -- undefined behaviour: only its occurrence is recorded
          some { b with table := b.table.invoke pair, fired := b.fired + 1 }
      else none
  | .deliver t => b.pathStep prog (.deliver t)
  | .fail t => b.pathStep prog (.fail t)
  | .return_ r => b.returnStep prog r
  | .thread => b.threadStep prog

def OpenFailed (b : Bridge Slot Cmd Args Evt Call) : Prop :=
  ∃ code, b.openCode = some code ∧ ¬ 0 ≤ code

def machine (prog : BridgeProgram Slot Cmd Args Evt Call) :
    Machine (Bridge Slot Cmd Args Evt Call) (BridgeAction Slot Cmd Args) where
  step := step prog

def Reachable (prog : BridgeProgram Slot Cmd Args Evt Call) (channelBuffer : ℕ)
    (b : Bridge Slot Cmd Args Evt Call) : Prop :=
  ∃ (hpos : 0 < channelBuffer) (mem : CMemory),
    (machine prog).Reaches (spawn prog channelBuffer hpos mem) b

inductive RecvResult (Evt : Type) where
  | event (e : Evt)
  /-- `None`: the channel is empty and its `Sender` is gone, or it was closed. -/
  | finished
  | waits

def recvResult (b : Bridge Slot Cmd Args Evt Call) : RecvResult Evt :=
  match b.path.chan.queue with
  | e :: _ => .event e
  | [] => if b.evtTx = true ∧ b.path.chan.closed = false then .waits else .finished

omit [DecidableEq Slot] in
theorem recvResult_ne_finished {b : Bridge Slot Cmd Args Evt Call}
    (htx : b.evtTx = true) (hopen : b.path.chan.closed = false) :
    b.recvResult ≠ .finished := by
  unfold recvResult
  split
  next => exact nofun
  next =>
    rw [if_pos ⟨htx, hopen⟩]
    exact nofun

end Bridge

end EntanglementRs
