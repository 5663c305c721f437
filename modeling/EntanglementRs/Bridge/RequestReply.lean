import EntanglementRs.Bridge.Callbacks
import EntanglementRs.Bridge.Commands

/-!
# Request and reply without deadlock

A client bridge beside an application of one task that completes a `recv`
between any two of its `send`s.  C calls back on the bridge thread only, at most
`K` times while it connects and in each tick, and once in each `disconnect`.  If
both channels hold `K` items, the thread and the task are never both blocked on
a full channel.

The proof counts from the moment at which the thread last found the command
channel empty: since then the task has received at least as often as the
commands taken and queued require, and C has queued no more than the tick and
the commands taken allow.
-/

namespace EntanglementRs

open Transition

namespace EventPath

variable {T Args Evt : Type} [DecidableEq T]
variable {event : CMemory → Args → Evt} {p q : EventPath T Args Evt}

/-- The events queued so far and the callbacks under way. -/
def begun (p : EventPath T Args Evt) : ℕ :=
  p.chan.accepted.length + p.waiting.length

theorem begun_step (hinv : Inv event p) {a : PathAction T Args}
    (hstep : step event p a = some q) (ha : ∀ t args origin, a ≠ .invoke t args origin) :
    q.begun ≤ p.begun ∧ (p.waiting = [] → q.waiting = []) := by
  cases step_move hstep with
  | invoke t args origin hfree => exact absurd rfl (ha t args origin)
  | deliver w chan hmem hsent =>
      refine ⟨?_, fun hnone => by simp [hnone] at hmem⟩
      have hwaiting := complete_waiting_length hinv.unique hmem chan true
      have haccepted : chan.accepted.length = p.chan.accepted.length + 1 := by
        rw [hsent.accepted, List.length_append, List.length_singleton]
      change chan.accepted.length + (p.complete w chan true).waiting.length ≤
        p.chan.accepted.length + p.waiting.length
      omega
  | fail w hmem hclosed =>
      refine ⟨?_, fun hnone => by simp [hnone] at hmem⟩
      have hwaiting := complete_waiting_length hinv.unique hmem p.chan false
      change p.chan.accepted.length + (p.complete w p.chan false).waiting.length ≤
        p.chan.accepted.length + p.waiting.length
      omega
  | recv e chan hreceived =>
      refine ⟨Nat.le_of_eq ?_, id⟩
      change chan.accepted.length + p.waiting.length = _
      rw [hreceived.accepted]
      rfl
  | write mem => exact ⟨Nat.le_refl _, id⟩
  | close => exact ⟨Nat.le_refl _, id⟩
  | dropReceiver => exact ⟨Nat.le_refl _, id⟩

end EventPath

namespace Bridge

variable {Slot Cmd Args Evt Call : Type} [DecidableEq Slot]
variable {prog : BridgeProgram Slot Cmd Args Evt Call}
variable {b b' : Bridge Slot Cmd Args Evt Call}

theorem Reachable.waiting_own {channelBuffer : ℕ} (hprog : prog.Lawful)
    (hworkers : prog.hasWorkers = false) (hreach : Reachable prog channelBuffer b) :
    ∀ w ∈ b.path.waiting, w.thread = .own := by
  intro w hw
  have hrunning := hreach.threadsInv.running w hw
  cases hthread : w.thread with
  | own => rfl
  | worker i =>
      rw [hthread] at hrunning
      have hstarted := (hreach.tableInv hprog).started hrunning
      exact absurd (hworkers.symm.trans hstarted) (by decide)

theorem Reachable.waiting_nil {channelBuffer : ℕ} (hprog : prog.Lawful)
    (hworkers : prog.hasWorkers = false) (hreach : Reachable prog channelBuffer b)
    (hidle : ¬ b.path.Busy .own) : b.path.waiting = [] := by
  rw [List.eq_nil_iff_forall_not_mem]
  exact fun w hw => hidle ⟨w, hw, hreach.waiting_own hprog hworkers w hw⟩

theorem Move.tick_of_pc {a : BridgeAction Slot Cmd Args}
    (hmove : Move prog b a b') (hdrain : b.pc = .drain) (hpolling : b'.pc = .polling) :
    b.cmd.queue = [] ∧ b'.cmd = b.cmd ∧ b'.path = b.path ∧ b'.fired = 0 := by
  cases hmove with
  | tick hpc hempty => exact ⟨hempty, rfl, rfl, rfl⟩
  | _ => simp_all

theorem Move.frame {a : BridgeAction Slot Cmd Args}
    (hmove : Move prog b a b') (hsend : ∀ c, a ≠ .send c) (hrecv : a ≠ .recv) :
    b'.cmd.accepted = b.cmd.accepted ∧
      b'.path.chan.received = b.path.chan.received ∧
      (b'.evtTx = true → b.evtTx = true) ∧
      (b'.path.chan.closed = false → b.path.chan.closed = false) := by
  cases hmove with
  | send c => exact absurd rfl (hsend c)
  | path _ pa path ha hpath =>
      have hkeep : path.chan.received = b.path.chan.received ∧
          (path.chan.closed = false → b.path.chan.closed = false) := by
        cases EventPath.step_move hpath with
        | recv => cases a <;> simp_all [BridgeAction.pathAction]
        | deliver w chan hmem hsent => exact ⟨hsent.received, fun _ => hsent.was_open⟩
        | close | dropReceiver => exact ⟨rfl, by simp [Channel.close, Channel.dropReceiver]⟩
        | write | invoke | fail => exact ⟨rfl, id⟩
      exact ⟨rfl, hkeep.1, id, hkeep.2⟩
  | invoke t pair args origin path hrunning hread hcallee hsound hpath =>
      have hchan : path.chan = b.path.chan := by
        cases EventPath.step_move hpath with
        | invoke => rfl
      exact ⟨rfl, congrArg Channel.received hchan, id,
        fun h => (congrArg Channel.closed hchan).symm.trans h⟩
  | take c cmd hpc hreceived => exact ⟨hreceived.accepted, rfl, id, id⟩
  | createFailed => exact ⟨rfl, rfl, by simp, id⟩
  | reclaim hpc =>
      exact ⟨congrArg Channel.accepted (release_cmd b .rawRef),
        congrArg (fun p => p.chan.received) (release_path b .rawRef),
        evtTx_of_release b .rawRef, fun h => release_path b .rawRef ▸ h⟩
  | dropContext hpc =>
      exact ⟨congrArg Channel.accepted (release_cmd b .localRef),
        congrArg (fun p => p.chan.received) (release_path b .localRef),
        evtTx_of_release b .localRef, fun h => release_path b .localRef ▸ h⟩
  | _ => exact ⟨rfl, rfl, id, id⟩

end Bridge

/-! ## The task beside the bridge -/

abbrev ClientBridge :=
  Bridge ClientSlot ClientCommand ClientCallback ClientEvent ClientCall

inductive Task where
  | idle
  | sending (c : ClientCommand)

structure Session where
  bridge : ClientBridge
  task : Task
  /-- A `recv` has completed since the last `send` was begun. -/
  replied : Bool

inductive SessionAction where
  | bridge (a : BridgeAction ClientSlot ClientCommand ClientCallback)
  | beginSend (c : ClientCommand)
  | finishSend
  | failSend
  /-- The task drops the future of `tx.send`. -/
  | cancelSend
  | recv
  | recvNone
  | handle (a : BridgeAction ClientSlot ClientCommand ClientCallback)

def ClientCommand.disconnects : ClientCommand → Bool
  | .disconnect | .stop => true
  | _ => false

/-- C may begin one more callback: in `connect` and in one `poll` with its
`update` fewer than `K` were begun, in a `disconnect` none. -/
def Bridge.mayCall (K : ℕ) (b : ClientBridge) : Bool :=
  match b.pc with
  | .opening | .polling | .updating => b.fired < K
  | .exec c => c.disconnects && b.fired < 1
  | _ => false

/-- The moves of the thread and of C that respect the limits on callbacks. -/
def Bridge.respects (K : ℕ) (b : ClientBridge) :
    BridgeAction ClientSlot ClientCommand ClientCallback → Bool
  | .invoke t _ _ _ => t = .own && b.mayCall K
  | a => !a.isApp

def BridgeAction.isHandle {Slot Cmd Args : Type} : BridgeAction Slot Cmd Args → Bool
  | .cloneTx | .dropTx | .closeRx | .dropRx => true
  | _ => false

namespace Session

def new (prog : BridgeProgram ClientSlot ClientCommand ClientCallback ClientEvent ClientCall)
    (channelBuffer : ℕ) (hpos : 0 < channelBuffer) (mem : CMemory) : Session where
  bridge := .spawn prog channelBuffer hpos mem
  task := .idle
  replied := true

def step (K : ℕ)
    (prog : BridgeProgram ClientSlot ClientCommand ClientCallback ClientEvent ClientCall)
    (s : Session) : SessionAction → Option Session
  | .bridge a =>
      if s.bridge.respects K a then
        (s.bridge.step prog a).map fun b => { s with bridge := b }
      else none
  | .beginSend c =>
      match s.task with
      | .idle => if s.replied then some { s with task := .sending c, replied := false } else none
      | .sending _ => none
  | .finishSend =>
      match s.task with
      | .idle => none
      | .sending c =>
          (s.bridge.step prog (.send c)).map fun b => { s with bridge := b, task := .idle }
  | .failSend =>
      match s.task with
      | .idle => none
      | .sending _ => if s.bridge.cmd.closed then some { s with task := .idle } else none
  | .cancelSend =>
      match s.task with
      | .idle => none
      | .sending _ => some { s with task := .idle }
  | .recv =>
      match s.task with
      | .idle => (s.bridge.step prog .recv).map fun b => { s with bridge := b, replied := true }
      | .sending _ => none
  | .recvNone =>
      match s.task, s.bridge.recvResult with
      | .idle, .finished => some { s with replied := true }
      | _, _ => none
  | .handle a =>
      match s.task with
      | .idle =>
          if a.isHandle then (s.bridge.step prog a).map fun b => { s with bridge := b }
          else none
      | .sending _ => none

def machine (K : ℕ)
    (prog : BridgeProgram ClientSlot ClientCommand ClientCallback ClientEvent ClientCall) :
    Machine Session SessionAction where
  step := step K prog

/-- The bridge thread waits in `blocking_send` on a full event channel while the
task waits in `tx.send` on a full command channel. -/
structure Deadlocked (s : Session) : Prop where
  blocked : s.bridge.path.Busy .own
  events_open : s.bridge.path.chan.closed = false
  events_full : s.bridge.path.chan.Full
  sending : ∃ c, s.task = .sending c
  commands_full : s.bridge.cmd.Full

inductive Move (K : ℕ)
    (prog : BridgeProgram ClientSlot ClientCommand ClientCallback ClientEvent ClientCall)
    (s : Session) : Session → Prop where
  | bridge (a : BridgeAction ClientSlot ClientCommand ClientCallback) (b : ClientBridge)
      (hrespects : s.bridge.respects K a = true) (hstep : s.bridge.step prog a = some b) :
      Move K prog s { s with bridge := b }
  | beginSend (c : ClientCommand) (htask : s.task = .idle) (hreplied : s.replied = true) :
      Move K prog s { s with task := .sending c, replied := false }
  | finishSend (c : ClientCommand) (b : ClientBridge) (htask : s.task = .sending c)
      (hstep : s.bridge.step prog (.send c) = some b) :
      Move K prog s { s with bridge := b, task := .idle }
  | dropSend (c : ClientCommand) (htask : s.task = .sending c) :
      Move K prog s { s with task := .idle }
  | recv (b : ClientBridge) (htask : s.task = .idle) (hstep : s.bridge.step prog .recv = some b) :
      Move K prog s { s with bridge := b, replied := true }
  | recvNone (htask : s.task = .idle) (hresult : s.bridge.recvResult = .finished) :
      Move K prog s { s with replied := true }
  | handle (a : BridgeAction ClientSlot ClientCommand ClientCallback) (b : ClientBridge)
      (hhandle : a.isHandle = true) (hstep : s.bridge.step prog a = some b) :
      Move K prog s { s with bridge := b }

variable {K : ℕ}
variable {prog : BridgeProgram ClientSlot ClientCommand ClientCallback ClientEvent ClientCall}
variable {s s' : Session}

theorem step_move {a : SessionAction} (hstep : step K prog s a = some s') :
    Move K prog s s' := by
  cases a with
  | bridge a =>
      simp only [step] at hstep
      split at hstep
      next hrespects =>
        obtain ⟨b, hb, rfl⟩ := Option.map_eq_some_iff.mp hstep
        exact .bridge a b hrespects hb
      next => contradiction
  | beginSend c =>
      simp only [step] at hstep
      split at hstep
      next htask =>
        split at hstep
        next hreplied => exact Option.some.inj hstep ▸ .beginSend c htask hreplied
        next => contradiction
      next => contradiction
  | finishSend =>
      simp only [step] at hstep
      split at hstep
      next => contradiction
      next c htask =>
        obtain ⟨b, hb, rfl⟩ := Option.map_eq_some_iff.mp hstep
        exact .finishSend c b htask hb
  | failSend =>
      simp only [step] at hstep
      split at hstep
      next => contradiction
      next c htask =>
        split at hstep
        next => exact Option.some.inj hstep ▸ .dropSend c htask
        next => contradiction
  | cancelSend =>
      simp only [step] at hstep
      split at hstep
      next => contradiction
      next c htask => exact Option.some.inj hstep ▸ .dropSend c htask
  | recv =>
      simp only [step] at hstep
      split at hstep
      next htask =>
        obtain ⟨b, hb, rfl⟩ := Option.map_eq_some_iff.mp hstep
        exact .recv b htask hb
      next => contradiction
  | recvNone =>
      simp only [step] at hstep
      split at hstep
      next htask hresult => exact Option.some.inj hstep ▸ .recvNone htask hresult
      next => contradiction
  | handle a =>
      simp only [step] at hstep
      split at hstep
      next =>
        split at hstep
        next hhandle =>
          obtain ⟨b, hb, rfl⟩ := Option.map_eq_some_iff.mp hstep
          exact .handle a b hhandle hb
        next => contradiction
      next => contradiction

end Session

/-! ## What the thread has queued -/

namespace Bridge

/-- The callbacks C has begun, counted from a moment at which `taken` commands
had been taken, the command channel was empty and `pushed` callbacks had begun. -/
def Spent (K taken pushed : ℕ) (b : ClientBridge) : Prop :=
  match b.pc with
  | .creating | .configure | .context | .register _ =>
      b.cmd.received.length = taken ∧ b.path.begun ≤ pushed
  | .opening | .polling | .updating =>
      b.cmd.received.length = taken ∧ b.path.begun ≤ pushed + b.fired ∧ b.fired ≤ K
  | .exec _ =>
      b.path.begun + 1 + taken ≤ pushed + K + b.cmd.received.length + b.fired ∧ b.fired ≤ 1
  | .drain | .sleeping => b.path.begun + taken ≤ pushed + K + b.cmd.received.length
  | _ => b.path.waiting = []

variable {K taken pushed : ℕ}
variable {prog : BridgeProgram ClientSlot ClientCommand ClientCallback ClientEvent ClientCall}
variable {b b' : ClientBridge}

theorem Spent.of_begun (hspent : b.Spent K taken pushed) (hpc : b'.pc = b.pc)
    (hreceived : b'.cmd.received = b.cmd.received) (hfired : b'.fired = b.fired)
    (hbegun : b'.path.begun ≤ b.path.begun)
    (hwaiting : b.path.waiting = [] → b'.path.waiting = []) : b'.Spent K taken pushed := by
  unfold Spent at hspent ⊢
  rw [hpc, hreceived, hfired]
  cases h : b.pc <;> simp only [h] at hspent ⊢
  all_goals first
    | exact hwaiting hspent
    | omega

theorem Spent.of_call (hspent : b.Spent K taken pushed) (hmay : b.mayCall K = true)
    (hpc : b'.pc = b.pc) (hreceived : b'.cmd.received = b.cmd.received)
    (hfired : b'.fired = b.fired + 1) (hbegun : b'.path.begun ≤ b.path.begun + 1) :
    b'.Spent K taken pushed := by
  unfold Spent at hspent ⊢
  rw [hpc, hreceived, hfired]
  cases h : b.pc <;>
    simp only [mayCall, h, Bool.and_eq_true, decide_eq_true_eq, Bool.false_eq_true]
      at hspent hmay ⊢
  all_goals omega

theorem Spent.of_blocked (hspent : b.Spent K taken pushed) (hpc : b.pc.inCall = true)
    (hwaiting : 0 < b.path.waiting.length) :
    b.pc.sharesContext = true ∧
      b.path.begun + taken ≤ pushed + K + b.cmd.received.length := by
  unfold Spent at hspent
  cases h : b.pc <;> simp only [h] at hspent hpc ⊢
  case opening | polling | updating | exec => exact ⟨rfl, by omega⟩
  case destroying => simp [hspent] at hwaiting
  all_goals contradiction

theorem Spent.path (hspent : b.Spent K taken pushed)
    (hinv : EventPath.Inv prog.event b.path)
    {a : BridgeAction ClientSlot ClientCommand ClientCallback}
    {pa : PathAction CThread ClientCallback} {path : EventPath CThread ClientCallback ClientEvent}
    (ha : a.pathAction = some pa) (hpath : b.path.step prog.event pa = some path) :
    { b with path := path }.Spent K taken pushed := by
  have hnew : ∀ t args origin, pa ≠ .invoke t args origin := by
    rintro t args origin rfl
    exact BridgeAction.pathAction_ne_invoke ha
  obtain ⟨hbegun, hwaiting⟩ := EventPath.begun_step hinv hpath hnew
  exact hspent.of_begun rfl rfl rfl hbegun hwaiting

theorem Spent.app (hspent : b.Spent K taken pushed)
    (hinv : EventPath.Inv prog.event b.path)
    {a : BridgeAction ClientSlot ClientCommand ClientCallback} (happ : a.isApp = true)
    (hmove : Move prog b a b') : b'.Spent K taken pushed := by
  cases hmove with
  | cloneTx | dropTx => exact hspent.of_begun rfl rfl rfl (Nat.le_refl _) id
  | send c cmd hsenders hsent =>
      exact hspent.of_begun rfl hsent.received rfl (Nat.le_refl _) id
  | path _ pa path ha hpath => exact hspent.path hinv ha hpath
  | _ => contradiction

/-- What the thread and C do within the limits keeps the count, except that the
tick after an empty `try_recv` starts it anew. -/
theorem Spent.move {channelBuffer : ℕ} (hspent : b.Spent K taken pushed)
    (hprog : prog.Lawful) (hworkers : prog.hasWorkers = false)
    (hreach : Reachable prog channelBuffer b)
    {a : BridgeAction ClientSlot ClientCommand ClientCallback} (hmove : Move prog b a b')
    (hrespects : b.respects K a = true)
    (htick : b.pc = .drain → b'.pc ≠ .polling) : b'.Spent K taken pushed := by
  have hnobody : ¬ b.path.Busy .own → b.path.waiting = [] :=
    hreach.waiting_nil hprog hworkers
  have hidle : b.pc.inCall = false → b.path.waiting = [] :=
    fun hpc => hnobody (hreach.threadsInv.idle hpc)
  cases hmove with
  | cloneTx | dropTx | send => simp [respects, BridgeAction.isApp] at hrespects
  | path _ pa path ha hpath => exact hspent.path hreach.pathInv ha hpath
  | read => exact hspent.of_begun rfl rfl rfl (Nat.le_refl _) id
  | invoke t pair args origin path hrunning hread hcallee hsound hpath =>
      have hbegun : path.begun = b.path.begun + 1 := by
        cases EventPath.step_move hpath with
        | invoke _ _ _ hfree => simp [EventPath.begun, Nat.add_assoc]
      simp only [respects, Bool.and_eq_true] at hrespects
      exact hspent.of_call hrespects.2 rfl rfl rfl (Nat.le_of_eq hbegun)
  | fault t pair args origin hrunning hread hcallee hfault =>
      simp only [respects, Bool.and_eq_true] at hrespects
      exact hspent.of_call hrespects.2 rfl rfl rfl (Nat.le_succ _)
  | created r h hpc | configure hpc | context hpc | register _ _ _ hpc =>
      simpa [Spent, hpc] using hspent
  | enterOpen hpc => simpa [Spent, hpc] using hspent
  | createFailed r h hpc => exact hidle (by simp [hpc, Pc.inCall])
  | opened r h hpc hresult =>
      simp only [Spent, hpc] at hspent ⊢
      omega
  | openFailed r h hpc hresult =>
      have hnone := hnobody h
      unfold Spent
      cases prog.reclaimsOnFailure <;> exact hnone
  | stopped r c h hpc hstop hjoined => exact hjoined
  | executed r c h hpc hstop =>
      simp only [Spent, hpc] at hspent ⊢
      omega
  | polled r h hpc => simpa [Spent, hpc] using hspent
  | updated r h hpc =>
      simp only [Spent, hpc] at hspent ⊢
      omega
  | destroyed r h hpc hjoined => exact hjoined
  | take c cmd hpc hreceived =>
      simp only [Spent, hpc] at hspent ⊢
      rw [hreceived.received, List.length_append, List.length_singleton]
      omega
  | tick hpc hempty => exact absurd rfl (htick hpc)
  | wake hpc => simpa [Spent, hpc] using hspent
  | reclaim hpc =>
      exact (congrArg EventPath.waiting (release_path b .rawRef)).trans
        (hidle (by simp [hpc, Pc.inCall]))
  | dropContext hpc =>
      exact (congrArg EventPath.waiting (release_path b .localRef)).trans
        (hidle (by simp [hpc, Pc.inCall]))
  | clear _ _ hpc | enterDestroy hpc | dropCommands hpc =>
      exact hidle (by simp [hpc, Pc.inCall])

end Bridge

namespace Session

def pending (s : Session) : ℕ :=
  match s.task with
  | .idle => 0
  | .sending _ => 1

/-- The account of the session from a moment at which the command channel was
empty, with `taken` commands taken, `received` events received and `pushed`
events queued until then. -/
structure Budget (K channelBuffer taken received pushed : ℕ) (s : Session) : Prop where
  alternates : s.pending + s.replied.toNat ≤ 1
  base : s.bridge.path.chan.closed = false → pushed ≤ received + channelBuffer
  /-- Each command since then, but one, was preceded by a receive of its own. -/
  paced : s.bridge.evtTx = true → s.bridge.path.chan.closed = false →
    s.bridge.cmd.accepted.length + s.pending + s.replied.toNat + received ≤
      taken + s.bridge.path.chan.received.length + 1
  spent : s.bridge.Spent K taken pushed

variable {K channelBuffer taken received pushed : ℕ}
variable {prog : BridgeProgram ClientSlot ClientCommand ClientCallback ClientEvent ClientCall}
variable {s s' : Session}

theorem Budget.bridge (hbudget : s.Budget K channelBuffer taken received pushed)
    {b : ClientBridge} {a : BridgeAction ClientSlot ClientCommand ClientCallback}
    (hmove : Bridge.Move prog s.bridge a b) (hsend : ∀ c, a ≠ .send c) (hrecv : a ≠ .recv)
    (hspent : b.Spent K taken pushed) :
    { s with bridge := b }.Budget K channelBuffer taken received pushed := by
  obtain ⟨haccepted, hreceived, htx, hopen⟩ := hmove.frame hsend hrecv
  refine ⟨hbudget.alternates, fun h => hbudget.base (hopen h), fun htx' hopen' => ?_, hspent⟩
  have hpaced := hbudget.paced (htx htx') (hopen hopen')
  dsimp only
  rw [haccepted, hreceived]
  exact hpaced

/-- When the thread finds the command channel empty the count starts anew. -/
theorem Budget.restart (hbudget : s.Budget K channelBuffer taken received pushed)
    (hreach : Bridge.Reachable prog channelBuffer s.bridge)
    (hnone : s.bridge.path.waiting = []) (hpc : s.bridge.pc = .drain)
    (hempty : s.bridge.cmd.queue = []) {b : ClientBridge}
    (hb : b.pc = .polling ∧ b.cmd = s.bridge.cmd ∧ b.path = s.bridge.path ∧ b.fired = 0) :
    { s with bridge := b }.Budget K channelBuffer s.bridge.cmd.received.length
      s.bridge.path.chan.received.length s.bridge.path.chan.accepted.length := by
  obtain ⟨hpolling, hcmd, hpath, hfired⟩ := hb
  refine ⟨hbudget.alternates, fun hopen => ?_, fun _ _ => ?_, ?_⟩
  · dsimp only at hopen
    rw [hpath] at hopen
    have hfits := s.bridge.path.chan.fits
    rw [hreach.path_capacity] at hfits
    rw [Channel.accepted_eq_of_open hopen, List.length_append]
    omega
  · have hopen := hreach.commandsOpen.running (by simp [hpc])
    have hall := Channel.accepted_eq_of_open hopen
    rw [hempty, List.append_nil] at hall
    have halternates := hbudget.alternates
    dsimp only [pending] at halternates ⊢
    rw [hcmd, hpath, hall]
    omega
  · simp only [Bridge.Spent, hpolling, hcmd, hpath, hfired, EventPath.begun, hnone]
    simp

theorem Budget.send (hbudget : s.Budget K channelBuffer taken received pushed)
    {b : ClientBridge} {c : ClientCommand} (htask : s.task = .sending c)
    (hmove : Bridge.Move prog s.bridge (.send c) b) (hspent : b.Spent K taken pushed) :
    { s with bridge := b, task := .idle }.Budget K channelBuffer taken received pushed := by
  have halternates := hbudget.alternates
  have hpaced := hbudget.paced
  simp only [pending, htask] at halternates hpaced
  cases hmove with
  | send _ cmd hsenders hsent =>
      refine ⟨?_, hbudget.base, fun htx hopen => ?_, hspent⟩
      · dsimp only [pending]
        omega
      · have hpaced := hpaced htx hopen
        dsimp only [pending]
        rw [hsent.accepted, List.length_append, List.length_singleton]
        omega
  | path _ pa path ha hpath => simp [BridgeAction.pathAction] at ha

theorem Budget.recv (hbudget : s.Budget K channelBuffer taken received pushed)
    {b : ClientBridge} (htask : s.task = .idle) (hmove : Bridge.Move prog s.bridge .recv b)
    (hspent : b.Spent K taken pushed) :
    { s with bridge := b, replied := true }.Budget K channelBuffer taken received pushed := by
  have hpaced := hbudget.paced
  simp only [pending, htask] at hpaced
  cases hmove with
  | path _ pa path ha hpath =>
      obtain rfl : PathAction.recv = pa := by simpa [BridgeAction.pathAction] using ha
      cases EventPath.step_move hpath with
      | recv e chan hreceived =>
          refine ⟨by simp [pending, htask], fun hopen => ?_, fun htx hopen => ?_, hspent⟩
          · exact hbudget.base (hreceived.closed.symm.trans hopen)
          · have hpaced := hpaced htx (hreceived.closed.symm.trans hopen)
            simp only [pending, htask]
            rw [hreceived.received, List.length_append, List.length_singleton,
              Bool.toNat_true]
            omega

theorem Budget.move (hprog : prog.Lawful) (hworkers : prog.hasWorkers = false)
    (hreach : Bridge.Reachable prog channelBuffer s.bridge)
    (hbudget : s.Budget K channelBuffer taken received pushed) (hmove : Move K prog s s') :
    ∃ taken received pushed, s'.Budget K channelBuffer taken received pushed := by
  cases hmove with
  | bridge a b hrespects hstep =>
      have hmove := Bridge.step_move hstep
      by_cases htick : s.bridge.pc = .drain ∧ b.pc = .polling
      · obtain ⟨hempty, hb⟩ := hmove.tick_of_pc htick.1 htick.2
        have hnone := hreach.waiting_nil hprog hworkers
          (hreach.threadsInv.idle (by simp [htick.1, Pc.inCall]))
        exact ⟨_, _, _, hbudget.restart hreach hnone htick.1 hempty ⟨htick.2, hb⟩⟩
      · have hspent := hbudget.spent.move hprog hworkers hreach hmove hrespects
          fun hdrain hpolling => htick ⟨hdrain, hpolling⟩
        refine ⟨_, _, _, hbudget.bridge hmove ?_ ?_ hspent⟩
        · rintro c rfl
          simp [Bridge.respects, BridgeAction.isApp] at hrespects
        · rintro rfl
          simp [Bridge.respects, BridgeAction.isApp] at hrespects
  | beginSend c htask hreplied =>
      refine ⟨taken, received, pushed, by simp [pending], hbudget.base, fun htx hopen => ?_,
        hbudget.spent⟩
      have hpaced := hbudget.paced htx hopen
      simp only [pending, htask, hreplied, Bool.toNat_true, Bool.toNat_false] at hpaced ⊢
      omega
  | finishSend c b htask hstep =>
      have hmove := Bridge.step_move hstep
      have hspent := hbudget.spent.app hreach.pathInv rfl hmove
      exact ⟨_, _, _, hbudget.send htask hmove hspent⟩
  | dropSend c htask =>
      have halternates := hbudget.alternates
      simp only [pending, htask] at halternates
      refine ⟨taken, received, pushed, ?_, hbudget.base, fun htx hopen => ?_, hbudget.spent⟩
      · dsimp only [pending]
        omega
      · have hpaced := hbudget.paced htx hopen
        simp only [pending, htask] at hpaced ⊢
        omega
  | recv b htask hstep =>
      have hmove := Bridge.step_move hstep
      have hspent := hbudget.spent.app hreach.pathInv rfl hmove
      exact ⟨_, _, _, hbudget.recv htask hmove hspent⟩
  | recvNone htask hresult =>
      refine ⟨taken, received, pushed, by simp [pending, htask], hbudget.base,
        fun htx hopen => ?_, hbudget.spent⟩
      -- `None` means that the receiver is closed or the last `Sender` is gone
      exact absurd hresult (Bridge.recvResult_ne_finished htx hopen)
  | handle a b hhandle hstep =>
      have hmove := Bridge.step_move hstep
      have happ : a.isApp = true := by cases a <;> first | rfl | contradiction
      have hspent := hbudget.spent.app hreach.pathInv happ hmove
      refine ⟨_, _, _, hbudget.bridge hmove ?_ ?_ hspent⟩
      · rintro c rfl
        contradiction
      · rintro rfl
        contradiction

theorem Budget.new (hpos : 0 < channelBuffer) (mem : CMemory) :
    (Session.new prog channelBuffer hpos mem).Budget K channelBuffer 0 0 0 where
  alternates := by simp [Session.new, pending]
  base := fun _ => Nat.zero_le _
  paced := fun _ _ => by
    simp [Session.new, pending, Bridge.spawn, EventPath.new]
  spent := by simp [Session.new, Bridge.Spent, Bridge.spawn, EventPath.new, EventPath.begun]

structure Accounted (K channelBuffer : ℕ)
    (prog : BridgeProgram ClientSlot ClientCommand ClientCallback ClientEvent ClientCall)
    (s : Session) : Prop where
  reachable : Bridge.Reachable prog channelBuffer s.bridge
  budget : ∃ taken received pushed, s.Budget K channelBuffer taken received pushed

theorem Move.reachable (hmove : Move K prog s s')
    (hreach : Bridge.Reachable prog channelBuffer s.bridge) :
    Bridge.Reachable prog channelBuffer s'.bridge := by
  cases hmove with
  | bridge a b hrespects hstep => exact hreach.next hstep
  | finishSend c b htask hstep => exact hreach.next hstep
  | recv b htask hstep => exact hreach.next hstep
  | handle a b hhandle hstep => exact hreach.next hstep
  | beginSend | dropSend | recvNone => exact hreach

theorem Accounted.of_reaches (hprog : prog.Lawful) (hworkers : prog.hasWorkers = false)
    {hpos : 0 < channelBuffer} {mem : CMemory}
    (hreach : (machine K prog).Reaches (Session.new prog channelBuffer hpos mem) s) :
    s.Accounted K channelBuffer prog := by
  refine hreach.invariant ?_ ⟨⟨hpos, mem, Machine.Reaches.refl _⟩, 0, 0, 0, Budget.new hpos mem⟩
  intro t a t' haccounted hstep
  have hmove := step_move hstep
  obtain ⟨hreach, taken, received, pushed, hbudget⟩ := haccounted
  exact ⟨hmove.reachable hreach, hbudget.move hprog hworkers hreach hmove⟩

/-- No account covers a deadlock: with `channelBuffer` commands and as many
events queued, either too few receives were made for the commands or C queued
more than the tick and the commands taken allow. -/
theorem Accounted.not_deadlocked (haccounted : s.Accounted K channelBuffer prog)
    (hprog : prog.Lawful) (hdepth : K ≤ channelBuffer) : ¬ s.Deadlocked := by
  rintro ⟨⟨w, hw, hthread⟩, hopen, hevents, ⟨c, htask⟩, hcommands⟩
  obtain ⟨hreach, taken, received, pushed, hbudget⟩ := haccounted
  have hcall : s.bridge.pc.inCall = true := by
    have hrunning := hreach.threadsInv.running w hw
    rwa [hthread] at hrunning
  have hwaiting : 0 < s.bridge.path.waiting.length := List.length_pos_of_mem hw
  obtain ⟨hshares, hspent⟩ := hbudget.spent.of_blocked hcall hwaiting
  obtain ⟨_, htx, _⟩ := (hreach.contextState hprog).shared_of_pc hshares
  have hpaced := hbudget.paced htx hopen
  have hbase := hbudget.base hopen
  have hcommandsOpen := hreach.commandsOpen.running (b := s.bridge) (by
    intro hended
    simp [hended, Pc.inCall] at hcall)
  have haccepted := congrArg List.length (Channel.accepted_eq_of_open hcommandsOpen)
  have hqueued := congrArg List.length (Channel.accepted_eq_of_open hopen)
  rw [List.length_append] at haccepted hqueued
  rw [Channel.Full, hreach.cmd_capacity] at hcommands
  rw [Channel.Full, hreach.path_capacity] at hevents
  simp only [pending, htask] at hpaced
  simp only [EventPath.begun] at hspent
  omega

end Session

section

variable (codes : ErrorCodes) (address : String) (port : UInt16) (config : SpawnConfig)

/-- A request/reply application never deadlocks with the client bridge when the
channels are one tick deep. -/
theorem spawnClient_requestReply_no_deadlock (K : ℕ) (hpos : 0 < config.channelBuffer)
    (hdepth : K ≤ config.channelBuffer) (mem : CMemory) (s : Session)
    (hreach : (Session.machine K (spawnClientWithConfig codes address port config)).Reaches
      (Session.new (spawnClientWithConfig codes address port config) config.channelBuffer
        hpos mem) s) : ¬ s.Deadlocked :=
  (Session.Accounted.of_reaches
    (spawnClientWithConfig_lawful codes address port config) rfl hreach).not_deadlocked
    (spawnClientWithConfig_lawful codes address port config) hdepth

end

/-- With one place in each channel both can be full while the bridge thread waits
in the callback of its tick: the task must receive before it sends again. -/
theorem spawnClient_requestReply_receives_first :
    let client := spawnClientWithConfig .numbered "" 9876
      { SpawnConfig.default with channelBuffer := 1 }
    ∃ s, (Session.machine 1 client).Reaches (Session.new client 1 (by decide) .zero) s ∧
      s.bridge.path.Busy .own ∧ s.bridge.path.chan.Full ∧ s.bridge.cmd.Full ∧
      (∀ c, s.step 1 client (.beginSend c) = none) ∧ ¬ s.Deadlocked := by
  intro client
  let opened : List (BridgeAction ClientSlot ClientCommand ClientCallback) :=
    [.return_ {}] ++ List.replicate 6 .thread ++
      [.read .connected, .read .disconnected,
        .invoke .own ⟨.onConnectedTrampoline, 0⟩ .connected none, .deliver .own,
        .return_ {}, .thread,
        .invoke .own ⟨.onDisconnectedTrampoline, 0⟩ .disconnected none]
  have hrun : ∃ s, (Session.machine 1 client).run (Session.new client 1 (by decide) .zero)
      (opened.map .bridge ++ [.beginSend .disconnect, .finishSend]) = some s ∧
      s.bridge.path.Busy .own ∧ s.bridge.path.chan.Full ∧ s.bridge.cmd.Full ∧
      s.task = .idle ∧ s.replied = false :=
    ⟨_, rfl, by decide, rfl, rfl, rfl, rfl⟩
  obtain ⟨s, hrun, hbusy, hevents, hcommands, htask, hreplied⟩ := hrun
  refine ⟨s, ⟨_, hrun⟩, hbusy, hevents, hcommands, fun c => ?_, ?_⟩
  · simp [Session.step, htask, hreplied]
  · exact spawnClient_requestReply_no_deadlock .numbered "" 9876
      { SpawnConfig.default with channelBuffer := 1 } 1 (by decide) (by decide) .zero s
      ⟨_, hrun⟩

end EntanglementRs
