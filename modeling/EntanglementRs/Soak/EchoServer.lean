import EntanglementRs.Bridge.Model
import EntanglementRs.Wrappers

/-!
# The echo server of the soak test

The server thread of `soak_test.rs`.  C calls the data and the message-complete
callback on its workers or inside the thread's own calls; either takes the mutex
around `echo_tx` and, holding it, waits for room in a bounded channel.  The
thread takes the messages from the channel one at a time and sends them back.
-/

namespace EntanglementRs.Soak

open Transition

/-- What is queued for the thread: `(Vec<u8>, u8, EntEndpoint)`. -/
structure Echo where
  data : List UInt8
  ch : UInt8
  dest : EntEndpoint
  deriving DecidableEq

/-- The two callbacks that queue an echo. -/
inductive EchoArgs where
  | clientData (header payload : Ptr) (payloadSize : ℕ) (sender : RawEndpoint)
  | messageComplete (sender : RawEndpoint) (msgId : UInt32) (chId : UInt8) (data : Ptr)
      (totalSize : ℕ)
  deriving DecidableEq

/-- What a callback copies; C leaves the memory alone until it returns. -/
def EchoArgs.echo (mem : CMemory) : EchoArgs → Echo
  | .clientData header payload size sender =>
      { data := mem.slice payload size
        ch := (EntPacketHeader.ofRaw (mem.header header)).channelId
        dest := EntEndpoint.ofRaw sender }
  | .messageComplete sender _ chId data size =>
      { data := mem.slice data size, ch := chId, dest := EntEndpoint.ofRaw sender }

/-- `server.send_to(&data, ch, dest, 0)`. -/
def Echo.sendTo (codes : ErrorCodes) (m : Echo) : FFI ServerCall (EntResult UInt32) :=
  EntServer.sendTo codes m.data m.ch m.dest 0

inductive EchoPc where
  | starting
  /-- `while running_s.load(..)`. -/
  | head
  /-- `while let Ok(..) = echo_rx.try_recv()`. -/
  | taking
  | sending (m : Echo)
  | polling
  | updating
  | sleeping
  | stopping
  /-- Inside `ent_server_destroy`, when `server` is dropped. -/
  | destroying
  /-- The captured `echo_rx` is dropped. -/
  | dropReceiver
  | ended
  deriving DecidableEq

def EchoPc.inCall : EchoPc → Bool
  | .starting | .sending _ | .polling | .updating | .stopping | .destroying => true
  | _ => false

structure EchoServer where
  pc : EchoPc
  path : EventPath CThread EchoArgs Echo
  /-- The thread that holds the mutex around `echo_tx`. -/
  lock : Option CThread
  workers : Bool
  running : Bool
  serverRecv : ℕ
  serverEcho : ℕ
  calls : List ServerCall
  /-- The messages sent back, with what C returned. -/
  results : List (Echo × Int32)

inductive EchoAction where
  -- C
  | write (mem : CMemory)
  | callback (t : CThread) (args : EchoArgs)
  | lock (t : CThread)
  | send (t : CThread)
  | sendFails (t : CThread)
  | return_ (r : Reply)
  -- the main thread
  | stopRunning
  | thread

namespace EchoServer

/-- The thread inside `server.start()`; `capacity` is 65536 in the source. -/
def spawn (capacity : ℕ) (hpos : 0 < capacity) (mem : CMemory) : EchoServer where
  pc := .starting
  path := EventPath.new capacity hpos mem
  lock := none
  workers := true
  running := true
  serverRecv := 0
  serverEcho := 0
  calls := []
  results := []

def Running (s : EchoServer) : CThread → Prop
  | .own => s.pc.inCall = true
  | .worker _ => s.workers = true

instance (s : EchoServer) (t : CThread) : Decidable (s.Running t) :=
  match t with
  | .own => instDecidableEqBool s.pc.inCall true
  | .worker _ => instDecidableEqBool s.workers true

def threadStep (codes : ErrorCodes) (s : EchoServer) : Option EchoServer :=
  match s.pc with
  | .head => some { s with pc := if s.running then .taking else .stopping }
  | .taking =>
      match s.path.chan.recv? with
      | some (m, chan) =>
          some { s with
            pc := .sending m
            path := { s.path with chan := chan }
            calls := s.calls ++ (m.sendTo codes).calls }
      | none => some { s with pc := .polling }
  | .sleeping => some { s with pc := .head }
  | .dropReceiver =>
      some { s with pc := .ended, path := { s.path with chan := s.path.chan.dropReceiver } }
  | _ => none

/-- The C call returns.  It does so only when its own callbacks have, and `stop`
and `destroy` join the workers first. -/
def returnStep (codes : ErrorCodes) (s : EchoServer) (r : Reply) : Option EchoServer :=
  if s.path.Busy .own then none
  else
    match s.pc with
    | .starting =>
        match (EntServer.start codes).result r with
        | some (.ok ()) => some { s with pc := .head }
        -- `.expect("server start failed")` unwinds
        | _ => some { s with pc := .destroying }
    | .sending m =>
        let ok := match (m.sendTo codes).result r with
          | some result => result.isOk
          | none => false
        some { s with
          pc := .taking
          serverEcho := if ok then s.serverEcho + 1 else s.serverEcho
          results := s.results ++ [(m, r.code)] }
    | .polling => some { s with pc := .updating }
    | .updating => some { s with pc := .sleeping }
    | .stopping =>
        if s.path.waiting = [] then some { s with pc := .destroying, workers := false }
        else none
    | .destroying =>
        if s.path.waiting = [] then some { s with pc := .dropReceiver, workers := false }
        else none
    | _ => none

/-- A callback's `g.send` ends, and with it its hold on the mutex. -/
def unlockStep (s : EchoServer) (t : CThread) (a : PathAction CThread EchoArgs) :
    Option EchoServer :=
  if s.lock = some t then
    (s.path.step EchoArgs.echo a).map fun path => { s with path := path, lock := none }
  else none

def step (codes : ErrorCodes) (s : EchoServer) : EchoAction → Option EchoServer
  | .write mem => some { s with path := { s.path with mem := mem } }
  | .callback t args =>
      if s.Running t then
        (s.path.step EchoArgs.echo (.invoke t args none)).map fun path =>
          { s with path := path, serverRecv := s.serverRecv + 1 }
      else none
  | .lock t =>
      if s.lock = none ∧ s.path.Busy t then some { s with lock := some t } else none
  | .send t => s.unlockStep t (.deliver t)
  | .sendFails t => s.unlockStep t (.fail t)
  | .return_ r => s.returnStep codes r
  | .stopRunning => some { s with running := false }
  | .thread => s.threadStep codes

def machine (codes : ErrorCodes) : Machine EchoServer EchoAction where
  step := step codes

def Reachable (codes : ErrorCodes) (capacity : ℕ) (s : EchoServer) : Prop :=
  ∃ (hpos : 0 < capacity) (mem : CMemory),
    (machine codes).Reaches (spawn capacity hpos mem) s

/-! ## What a step does -/

inductive Move (codes : ErrorCodes) (s : EchoServer) : EchoAction → EchoServer → Prop where
  | write (mem : CMemory) :
      Move codes s (.write mem) { s with path := { s.path with mem := mem } }
  | callback (t : CThread) (args : EchoArgs) (path : EventPath CThread EchoArgs Echo)
      (hrunning : s.Running t)
      (hpath : s.path.step EchoArgs.echo (.invoke t args none) = some path) :
      Move codes s (.callback t args)
        { s with path := path, serverRecv := s.serverRecv + 1 }
  | lock (t : CThread) (hfree : s.lock = none) (hbusy : s.path.Busy t) :
      Move codes s (.lock t) { s with lock := some t }
  | unlock (a : EchoAction) (t : CThread) (pa : PathAction CThread EchoArgs)
      (path : EventPath CThread EchoArgs Echo)
      (ha : a = .send t ∧ pa = .deliver t ∨ a = .sendFails t ∧ pa = .fail t)
      (hlock : s.lock = some t) (hpath : s.path.step EchoArgs.echo pa = some path) :
      Move codes s a { s with path := path, lock := none }
  | stopRunning : Move codes s .stopRunning { s with running := false }
  | loop (hpc : s.pc = .head) :
      Move codes s .thread { s with pc := if s.running then .taking else .stopping }
  | take (m : Echo) (chan : Channel Echo) (hpc : s.pc = .taking)
      (hreceived : s.path.chan.Received m chan) :
      Move codes s .thread
        { s with
          pc := .sending m
          path := { s.path with chan := chan }
          calls := s.calls ++ [.sendTo m.data m.ch m.dest.toRaw 0] }
  | empty (hpc : s.pc = .taking) (hempty : s.path.chan.queue = []) :
      Move codes s .thread { s with pc := .polling }
  | wake (hpc : s.pc = .sleeping) : Move codes s .thread { s with pc := .head }
  | dropReceiver (hpc : s.pc = .dropReceiver) :
      Move codes s .thread
        { s with
          pc := .ended
          path := { s.path with chan := s.path.chan.dropReceiver } }
  | started (r : Reply) (hidle : ¬ s.path.Busy .own) (hpc : s.pc = .starting)
      (hcode : 0 ≤ r.code) : Move codes s (.return_ r) { s with pc := .head }
  | startFailed (r : Reply) (hidle : ¬ s.path.Busy .own) (hpc : s.pc = .starting)
      (hcode : ¬ 0 ≤ r.code) : Move codes s (.return_ r) { s with pc := .destroying }
  | sent (r : Reply) (m : Echo) (hidle : ¬ s.path.Busy .own) (hpc : s.pc = .sending m) :
      Move codes s (.return_ r)
        { s with
          pc := .taking
          serverEcho := if 0 ≤ r.code then s.serverEcho + 1 else s.serverEcho
          results := s.results ++ [(m, r.code)] }
  | polled (r : Reply) (hidle : ¬ s.path.Busy .own) (hpc : s.pc = .polling) :
      Move codes s (.return_ r) { s with pc := .updating }
  | updated (r : Reply) (hidle : ¬ s.path.Busy .own) (hpc : s.pc = .updating) :
      Move codes s (.return_ r) { s with pc := .sleeping }
  | stopped (r : Reply) (hidle : ¬ s.path.Busy .own) (hpc : s.pc = .stopping)
      (hjoined : s.path.waiting = []) :
      Move codes s (.return_ r) { s with pc := .destroying, workers := false }
  | destroyed (r : Reply) (hidle : ¬ s.path.Busy .own) (hpc : s.pc = .destroying)
      (hjoined : s.path.waiting = []) :
      Move codes s (.return_ r) { s with pc := .dropReceiver, workers := false }

variable {codes : ErrorCodes} {s s' : EchoServer}

theorem threadStep_move (hstep : s.threadStep codes = some s') :
    Move codes s .thread s' := by
  unfold threadStep at hstep
  split at hstep
  next hpc =>
    obtain rfl := Option.some.inj hstep
    exact .loop hpc
  next hpc =>
    cases hrecv : s.path.chan.recv? with
    | some result =>
        rw [hrecv] at hstep
        obtain rfl := Option.some.inj hstep
        exact .take result.1 result.2 hpc (Channel.received_of_recv? hrecv)
    | none =>
        rw [hrecv] at hstep
        obtain rfl := Option.some.inj hstep
        exact .empty hpc (Channel.recv?_eq_none_iff.mp hrecv)
  next hpc =>
    obtain rfl := Option.some.inj hstep
    exact .wake hpc
  next hpc =>
    obtain rfl := Option.some.inj hstep
    exact .dropReceiver hpc
  next => contradiction

theorem start_result (r : Reply) :
    (EntServer.start codes).result r = some (.ok ()) ↔ 0 ≤ r.code := by
  have hresult : (EntServer.start codes).result r =
      some ((checkErr codes r.code).map fun _ => ()) := rfl
  by_cases hcode : 0 ≤ r.code
  · simp [hresult, checkErr_of_nonneg hcode, hcode, Except.map]
  · simp [hresult, checkErr_of_neg hcode, hcode, Except.map]

/-- `server.send_to(..).is_ok()`. -/
theorem sendTo_result (m : Echo) (r : Reply) :
    (match (m.sendTo codes).result r with
      | some result => result.isOk
      | none => false) = decide (0 ≤ r.code) := by
  unfold Echo.sendTo
  obtain ⟨result, hresult, hok⟩ : ∃ result,
      (EntServer.sendTo codes m.data m.ch m.dest 0).result r = some result ∧
        result.isOk = decide (0 ≤ r.code) :=
    EntServer.sendTo_isOk m.data m.ch m.dest 0 r
  rw [hresult]
  exact hok

theorem returnStep_move {r : Reply} (hstep : s.returnStep codes r = some s') :
    Move codes s (.return_ r) s' := by
  unfold returnStep at hstep
  split at hstep
  next => contradiction
  next hidle =>
    split at hstep
    next hpc =>
      by_cases hcode : 0 ≤ r.code
      · rw [start_result r |>.mpr hcode] at hstep
        obtain rfl := Option.some.inj hstep
        exact .started r hidle hpc hcode
      · have hfail : (EntServer.start codes).result r ≠ some (.ok ()) :=
          (start_result r).not.mpr hcode
        split at hstep
        next hok => exact absurd hok hfail
        next =>
          obtain rfl := Option.some.inj hstep
          exact .startFailed r hidle hpc hcode
    next m hpc =>
      simp only [sendTo_result, decide_eq_true_eq] at hstep
      obtain rfl := Option.some.inj hstep
      exact .sent r m hidle hpc
    next hpc =>
      obtain rfl := Option.some.inj hstep
      exact .polled r hidle hpc
    next hpc =>
      obtain rfl := Option.some.inj hstep
      exact .updated r hidle hpc
    next hpc =>
      split at hstep
      next hjoined =>
        obtain rfl := Option.some.inj hstep
        exact .stopped r hidle hpc hjoined
      next => contradiction
    next hpc =>
      split at hstep
      next hjoined =>
        obtain rfl := Option.some.inj hstep
        exact .destroyed r hidle hpc hjoined
      next => contradiction
    next => contradiction

theorem unlockStep_eq_some {t : CThread} {a : PathAction CThread EchoArgs}
    (hstep : s.unlockStep t a = some s') :
    s.lock = some t ∧ ∃ path, s.path.step EchoArgs.echo a = some path ∧
      s' = { s with path := path, lock := none } := by
  unfold unlockStep at hstep
  split at hstep
  next hlock =>
    obtain ⟨path, hpath, rfl⟩ := Option.map_eq_some_iff.mp hstep
    exact ⟨hlock, path, hpath, rfl⟩
  next => contradiction

theorem step_move {a : EchoAction} (hstep : (machine codes).step s a = some s') :
    Move codes s a s' := by
  cases a with
  | write mem =>
      obtain rfl := Option.some.inj hstep
      exact .write mem
  | callback t args =>
      simp only [machine, step] at hstep
      split at hstep
      next hrunning =>
        obtain ⟨path, hpath, rfl⟩ := Option.map_eq_some_iff.mp hstep
        exact .callback t args path hrunning hpath
      next => contradiction
  | lock t =>
      simp only [machine, step] at hstep
      split at hstep
      next hfree =>
        obtain rfl := Option.some.inj hstep
        exact .lock t hfree.1 hfree.2
      next => contradiction
  | send t =>
      obtain ⟨hlock, path, hpath, rfl⟩ := unlockStep_eq_some hstep
      exact .unlock _ t _ path (.inl ⟨rfl, rfl⟩) hlock hpath
  | sendFails t =>
      obtain ⟨hlock, path, hpath, rfl⟩ := unlockStep_eq_some hstep
      exact .unlock _ t _ path (.inr ⟨rfl, rfl⟩) hlock hpath
  | return_ r => exact returnStep_move hstep
  | stopRunning =>
      obtain rfl := Option.some.inj hstep
      exact .stopRunning
  | thread => exact threadStep_move hstep

end EchoServer

end EntanglementRs.Soak
