import EntanglementRs.Bridge.Commands

/-!
# How long a command waits

A bound on the steps that a bridge thread takes before it polls again or ends,
for every run, and what happens when the application does not let it.
-/

namespace EntanglementRs

open Transition

/-- The moves of the bridge thread itself: its statements and the returns of its
C calls. -/
def BridgeAction.isOwn {Slot Cmd Args : Type} : BridgeAction Slot Cmd Args → Bool
  | .thread => true
  | .return_ _ => true
  | _ => false

def BridgeAction.isSend {Slot Cmd Args : Type} : BridgeAction Slot Cmd Args → Bool
  | .send _ => true
  | _ => false

def BridgeAction.sent? {Slot Cmd Args : Type} : BridgeAction Slot Cmd Args → Option Cmd
  | .send c => some c
  | _ => none

namespace Bridge

variable {Slot Cmd Args Evt Call : Type} [DecidableEq Slot]
variable {prog : BridgeProgram Slot Cmd Args Evt Call}
variable {kind : Call → CallKind} {call : Cmd → Call}
variable {b b' : Bridge Slot Cmd Args Evt Call}

/-- The steps of the thread up to its next poll or its end, with `n` slots to
clear and `m` registrations to make, while no command is queued. -/
def pcWork (n m : ℕ) : Pc Slot Cmd → ℕ
  | .ended => 0
  | .dropCommands => 1
  | .destroying => 2
  | .clearing rest => rest.length + 3
  | .dropContext => n + 4
  | .reclaim => n + 5
  | .drain => n + 5
  | .exec _ => n + 6
  | .sleeping => n + 6
  | .updating => n + 7
  | .polling => n + 8
  | .opening => n + 6
  | .register rest => rest.length + n + 7
  | .context => m + n + 8
  | .configure => m + n + 9
  | .creating => m + n + 10

/-- A queued command costs two steps: it is taken and its call returns. -/
def work (prog : BridgeProgram Slot Cmd Args Evt Call)
    (b : Bridge Slot Cmd Args Evt Call) : ℕ :=
  pcWork prog.clears.length prog.registrations.length b.pc + 2 * b.cmd.queue.length

/-- The thread finds the queue empty and polls. -/
def Polls (b : Bridge Slot Cmd Args Evt Call) (a : BridgeAction Slot Cmd Args) : Prop :=
  b.pc = .drain ∧ b.cmd.queue = [] ∧ a.isOwn = true

omit [DecidableEq Slot] in
theorem own_of_pathAction {a : BridgeAction Slot Cmd Args} {pa : PathAction CThread Args}
    (ha : a.pathAction = some pa) : a.isOwn = false := by
  cases a <;> first | rfl | contradiction

/-- Every step of the thread that is no poll leaves it less to do; only a send of
the application adds to it. -/
theorem Move.work_le {a : BridgeAction Slot Cmd Args} (hmove : Move prog b a b') :
    b.Polls a ∨ b'.work prog + a.isOwn.toNat ≤ b.work prog + 2 * a.isSend.toNat := by
  cases hmove with
  | cloneTx | dropTx | read | invoke | fault => exact .inr (Nat.le_add_right _ _)
  | path a pa path ha hpath =>
      right
      rw [own_of_pathAction ha]
      exact Nat.le_add_right _ _
  | send c cmd hsenders hsent =>
      right
      have hqueue := congrArg List.length hsent.queue
      rw [List.length_append, List.length_singleton] at hqueue
      simp only [work, BridgeAction.isOwn, BridgeAction.isSend, Bool.toNat_false,
        Bool.toNat_true, hqueue]
      omega
  | take c cmd hpc hreceived =>
      right
      have hqueue := congrArg List.length hreceived.queue
      rw [List.length_cons] at hqueue
      simp only [work, hpc, pcWork, BridgeAction.isOwn, Bool.toNat_true, hqueue]
      omega
  | tick hpc hempty => exact .inl ⟨hpc, hempty, rfl⟩
  | dropCommands hpc =>
      right
      simp only [work, hpc, pcWork, BridgeAction.isOwn, Bool.toNat_true,
        Channel.dropReceiver, List.length_nil]
      omega
  | openFailed r hidle hpc hresult =>
      right
      cases hreclaims : prog.reclaimsOnFailure with
      | true =>
          simp only [work, hpc, if_true, pcWork, BridgeAction.isOwn, Bool.toNat_true]
          omega
      | false =>
          simp only [work, hpc, Bool.false_eq_true, if_false, pcWork, BridgeAction.isOwn,
            Bool.toNat_true]
          omega
  | reclaim hpc | dropContext hpc =>
      right
      simp only [work, hpc, pcWork, BridgeAction.isOwn, Bool.toNat_true, release_cmd]
      omega
  | register slot trampoline rest hpc | clear slot rest hpc =>
      right
      simp only [work, hpc, pcWork, BridgeAction.isOwn, Bool.toNat_true, List.length_cons]
      omega
  | created r hidle hpc | createFailed r hidle hpc | opened r hidle hpc
  | stopped r c hidle hpc | executed r c hidle hpc | polled r hidle hpc
  | updated r hidle hpc | destroyed r hidle hpc | configure hpc | context hpc
  | enterOpen hpc | wake hpc | enterDestroy hpc =>
      right
      simp only [work, hpc, pcWork, BridgeAction.isOwn, Bool.toNat_true]
      omega

/-! ## Progress -/

/-- Only a callback that waits for room can hold the thread up. -/
theorem own_step_of_quiet (hpc : b.pc ≠ .ended) (hquiet : b.path.waiting = []) :
    ∃ a b', a.isOwn = true ∧ b.step prog a = some b' := by
  have hidle : ¬ b.path.Busy .own := by
    simp [EventPath.Busy, hquiet]
  have hthread : (b.threadStep prog).isSome = true →
      ∃ a b', a.isOwn = true ∧ b.step prog a = some b' := by
    intro h
    obtain ⟨b', hb'⟩ := Option.isSome_iff_exists.mp h
    exact ⟨.thread, b', rfl, hb'⟩
  have hreturn : (b.returnStep prog {}).isSome = true →
      ∃ a b', a.isOwn = true ∧ b.step prog a = some b' := by
    intro h
    obtain ⟨b', hb'⟩ := Option.isSome_iff_exists.mp h
    exact ⟨.return_ {}, b', rfl, hb'⟩
  cases hat : b.pc with
  | ended => exact absurd hat hpc
  | creating =>
      apply hreturn
      cases hresult : prog.create.result {} <;> simp [returnStep, hidle, hat, hresult]
  | opening =>
      apply hreturn
      simp only [returnStep, if_neg hidle, hat]
      split <;> rfl
  | exec c =>
      apply hreturn
      cases hstop : prog.isStop c <;> simp [returnStep, hidle, hat, hstop, hquiet]
  | polling | updating | destroying =>
      apply hreturn
      simp [returnStep, hidle, hat, hquiet]
  | drain =>
      apply hthread
      cases hrecv : b.cmd.recv? <;> simp [threadStep, hat, hrecv]
  | register rest | clearing rest =>
      apply hthread
      cases rest <;> simp [threadStep, hat]
  | configure | context | sleeping | reclaim | dropContext | dropCommands =>
      apply hthread
      simp [threadStep, hat]

/-! ## The bound -/

/-- What a run only adds to. -/
structure Grows (b b' : Bridge Slot Cmd Args Evt Call) : Prop where
  calls : b.calls <+: b'.calls
  accepted : b.cmd.accepted <+: b'.cmd.accepted

theorem Move.grows (hcalls : prog.Calls kind call) {a : BridgeAction Slot Cmd Args}
    (hmove : Move prog b a b') : b.Grows b' := by
  have haccepted : b.cmd.accepted <+: b'.cmd.accepted := by
    cases hmove with
    | send c cmd hsenders hsent => exact ⟨[c], hsent.accepted.symm⟩
    | take c cmd hpc hreceived => exact ⟨[], by rw [hreceived.accepted, List.append_nil]⟩
    | reclaim hpc | dropContext hpc => exact ⟨[], by rw [List.append_nil, release_cmd]⟩
    | _ => exact List.prefix_refl _
  rcases hmove.calls_received hcalls with ⟨c, _, hcall, _⟩ | ⟨_, rest, hcall, _⟩
  · exact ⟨⟨_, hcall.symm⟩, haccepted⟩
  · exact ⟨⟨rest, hcall.symm⟩, haccepted⟩

theorem grows_of_reaches (hcalls : prog.Calls kind call)
    (hreach : (machine prog).Reaches b b') : b.Grows b' := by
  refine hreach.relation (R := Grows)
    (fun b => ⟨List.prefix_refl _, List.prefix_refl _⟩) ?_
  intro s t a u hst hstep
  have htu := (step_move hstep).grows hcalls
  exact ⟨hst.calls.trans htu.calls, hst.accepted.trans htu.accepted⟩

theorem Move.of_polls {a : BridgeAction Slot Cmd Args} (hmove : Move prog b a b')
    (hpolls : b.Polls a) : b'.calls = b.calls ++ prog.poll.calls := by
  obtain ⟨hdrain, hempty, hown⟩ := hpolls
  cases hmove with
  | tick hpc hempty => rfl
  | take c cmd hpc hreceived =>
      have hqueue := hreceived.queue
      rw [hempty] at hqueue
      contradiction
  | cloneTx | dropTx | send | read | invoke | fault => contradiction
  | path a pa path ha hpath =>
      rw [own_of_pathAction ha] at hown
      contradiction
  | created r hidle hpc | createFailed r hidle hpc | opened r hidle hpc
  | openFailed r hidle hpc | stopped r c hidle hpc | executed r c hidle hpc
  | polled r hidle hpc | updated r hidle hpc | destroyed r hidle hpc | configure hpc
  | context hpc | register _ _ _ hpc | enterOpen hpc | wake hpc | reclaim hpc
  | dropContext hpc | clear _ _ hpc | enterDestroy hpc | dropCommands hpc =>
      rw [hpc] at hdrain
      contradiction

/-- C has been called for a tick, and before that, in order, for every command that
the channel had accepted. -/
def Answered (kind : Call → CallKind) (call : Cmd → Call)
    (b b' : Bridge Slot Cmd Args Evt Call) : Prop :=
  ∃ before x after, b'.calls = b.calls ++ before ++ x :: after ∧ kind x = .tick ∧
    b.cmd.accepted.map call <+: (b.calls ++ before).filter fun y => kind y = .command

theorem answered_of_polls {channelBuffer : ℕ} (hcalls : prog.Calls kind call)
    {u u' : Bridge Slot Cmd Args Evt Call} {a : BridgeAction Slot Cmd Args}
    (hreach : Reachable prog channelBuffer u) (hbefore : (machine prog).Reaches b u)
    (hpolls : u.Polls a) (hstep : (machine prog).step u a = some u')
    (hafter : (machine prog).Reaches u' b') : b.Answered kind call b' := by
  have hpollCalls := (step_move hstep).of_polls hpolls
  obtain ⟨hpc, hempty, _⟩ := hpolls
  obtain ⟨⟨before, hcallsBefore⟩, haccepted⟩ := grows_of_reaches hcalls hbefore
  obtain ⟨⟨after, hcallsAfter⟩, _⟩ := grows_of_reaches hcalls hafter
  have hall : u.cmd.accepted = u.cmd.received := by
    rw [Channel.accepted_eq_of_open (hreach.commandsOpen.running (by simp [hpc])), hempty,
      List.append_nil]
  cases hpoll : prog.poll.calls with
  | nil => exact absurd hpoll hcalls.polls
  | cons x more =>
      refine ⟨before, x, more ++ after, ?_, hcalls.poll x (by simp [hpoll]), ?_⟩
      · rw [← hcallsAfter, hpollCalls, ← hcallsBefore, hpoll]
        simp only [List.append_assoc, List.cons_append]
      · rw [hcallsBefore, hreach.command_calls hcalls, ← hall]
        exact haccepted.map call

/-- What keeps a thread from letting a command wait. -/
structure Responds (prog : BridgeProgram Slot Cmd Args Evt Call) (kind : Call → CallKind)
    (call : Cmd → Call) (b : Bridge Slot Cmd Args Evt Call) : Prop where
  progress : b.pc ≠ .ended → b.path.waiting = [] →
    ∃ a b', a.isOwn = true ∧ b.step prog a = some b'
  bounded : ∀ as b', (machine prog).run b as = some b' →
    b.work prog + 2 * as.countP BridgeAction.isSend < as.countP BridgeAction.isOwn →
    b.Answered kind call b'

theorem Reachable.responds {channelBuffer : ℕ} (hcalls : prog.Calls kind call)
    (hreach : Reachable prog channelBuffer b) : b.Responds prog kind call where
  progress := own_step_of_quiet
  bounded as b' hrun hlong := by
    rcases Machine.run_bounded (I := fun _ => True) (work prog) BridgeAction.isOwn
        BridgeAction.isSend 2 (fun _ _ _ _ _ => trivial)
        (fun _ _ _ _ hstep => (step_move hstep).work_le) trivial hrun with
      ⟨u, a, u', hbefore, hpolls, hstep, hafter⟩ | hfew
    · exact answered_of_polls hcalls (hreach.tail hbefore) hbefore hpolls hstep hafter
    · omega

/-! ## A busy application -/

/-- The thread is about to look for a command, finds none, and nothing holds it up. -/
structure Idle (b : Bridge Slot Cmd Args Evt Call) : Prop where
  pc : b.pc = .drain
  queue : b.cmd.queue = []
  quiet : b.path.waiting = []
  handle : 0 < b.senders

/-- One command at a time, each sent before the thread looks for the next. -/
def feed (cs : List Cmd) : List (BridgeAction Slot Cmd Args) :=
  cs.flatMap fun c => [.send c, .thread, .return_ {}]

theorem feed_step (hcalls : prog.Calls kind call) (hopen : b.CommandsOpen) (hidle : b.Idle)
    {c : Cmd} (hc : prog.isStop c = false) :
    ∃ b', (machine prog).run b [.send c, .thread, .return_ {}] = some b' ∧ b'.Idle ∧
      b'.calls = b.calls ++ [call c] := by
  have hclosed := hopen.running (by simp [hidle.pc])
  have hroom : b.cmd.queue.length < b.cmd.capacity := by
    rw [hidle.queue]
    exact b.cmd.positive
  obtain ⟨sent, hsend⟩ := Channel.send?_of_room c hclosed hroom
  have hqueue := (Channel.sent_of_send? hsend).queue
  rw [hidle.queue, List.nil_append] at hqueue
  obtain ⟨taken, hrecv, hempty⟩ := Channel.recv?_of_cons hqueue
  have hnotBusy : ¬ b.path.Busy .own := by
    simp [EventPath.Busy, hidle.quiet]
  refine ⟨{ b with
    pc := .drain
    cmd := taken
    calls := b.calls ++ (prog.exec c).calls
    results := if (prog.message c).isSome then b.results ++ [(c, 0)] else b.results
    fired := 0 }, ?_, ⟨rfl, hempty, hidle.quiet, hidle.handle⟩, ?_⟩
  · simp [Machine.run_cons, machine, step, hidle.handle, hsend, threadStep, hidle.pc, hrecv,
      returnStep, hnotBusy, hc]
  · rw [← hcalls.exec c]

/-- As long as the application feeds it, the thread executes and does not poll. -/
theorem feed_run (hcalls : prog.Calls kind call) (hopen : b.CommandsOpen) (hidle : b.Idle)
    {cs : List Cmd} (hcs : ∀ c ∈ cs, prog.isStop c = false) :
    ∃ b', (machine prog).run b (feed cs) = some b' ∧ b'.Idle ∧
      b'.calls = b.calls ++ cs.map call := by
  induction cs generalizing b with
  | nil => exact ⟨b, rfl, hidle, (List.append_nil _).symm⟩
  | cons c cs ih =>
      obtain ⟨b₁, hfirst, hidle₁, hcalls₁⟩ :=
        feed_step hcalls hopen hidle (hcs c List.mem_cons_self)
      have hopen₁ : b₁.CommandsOpen := Machine.run_invariant
        (fun _ _ _ hinv hstep => hinv.move (step_move hstep)) hopen hfirst
      obtain ⟨b₂, hrest, hidle₂, hcalls₂⟩ := ih hopen₁ hidle₁
        fun d hd => hcs d (List.mem_cons_of_mem c hd)
      refine ⟨b₂, Machine.run_append_of _ hfirst hrest, hidle₂, ?_⟩
      rw [hcalls₂, hcalls₁, List.append_assoc]
      rfl

omit [DecidableEq Slot] in
theorem sent_feed (cs : List Cmd) :
    (feed cs : List (BridgeAction Slot Cmd Args)).filterMap BridgeAction.sent? = cs := by
  induction cs with
  | nil => rfl
  | cons c cs ih =>
      simp only [feed, List.flatMap_cons, List.filterMap_append] at ih ⊢
      rw [ih]
      rfl

omit [DecidableEq Slot] in
theorem countP_feed (cs : List Cmd) :
    (feed cs : List (BridgeAction Slot Cmd Args)).countP BridgeAction.isOwn =
      2 * cs.length := by
  induction cs with
  | nil => rfl
  | cons c cs ih =>
      simp only [feed, List.flatMap_cons, List.countP_append, List.length_cons] at ih ⊢
      rw [ih, Nat.mul_succ, Nat.add_comm]
      rfl

/-- Any commands at all can be sent and executed without a poll between them. -/
def Starvable (prog : BridgeProgram Slot Cmd Args Evt Call) (call : Cmd → Call)
    (b : Bridge Slot Cmd Args Evt Call) : Prop :=
  ∀ cs : List Cmd, (∀ c ∈ cs, prog.isStop c = false) → ∃ as b',
    (machine prog).run b as = some b' ∧ as.filterMap BridgeAction.sent? = cs ∧
      as.countP BridgeAction.isOwn = 2 * cs.length ∧ b'.calls = b.calls ++ cs.map call

theorem Reachable.starvable {channelBuffer : ℕ} (hcalls : prog.Calls kind call)
    (hreach : Reachable prog channelBuffer b) (hidle : b.Idle) :
    b.Starvable prog call := by
  intro cs hcs
  obtain ⟨b', hrun, _, hmade⟩ := feed_run hcalls hreach.commandsOpen hidle hcs
  exact ⟨feed cs, b', hrun, sent_feed cs, countP_feed cs, hmade⟩

end Bridge

section

variable (codes : ErrorCodes) (address : String) (port : UInt16)
variable (workerCount : Int32) (config : SpawnConfig)

/-- Both bridges hand every accepted command to C within a bounded number of
their own steps, which only further sends and callbacks that wait can prolong. -/
theorem spawn_responds :
    (∀ b, Bridge.Reachable (spawnServerWithConfig codes address port workerCount config)
        config.channelBuffer b →
      b.Responds (spawnServerWithConfig codes address port workerCount config)
        ServerCall.kind ServerCommand.call) ∧
    ∀ b, Bridge.Reachable (spawnClientWithConfig codes address port config)
        config.channelBuffer b →
      b.Responds (spawnClientWithConfig codes address port config) ClientCall.kind
        ClientCommand.call :=
  ⟨fun _ hreach => hreach.responds
      (spawnServerWithConfig_calls codes address port workerCount config),
    fun _ hreach => hreach.responds
      (spawnClientWithConfig_calls codes address port config)⟩

/-- A send that is taken, executed and followed by four ticks. -/
theorem spawnClient_responds_one :
    let client := spawnClientWithConfig .numbered "" 9876 .default
    ∃ b b', Bridge.Reachable client SpawnConfig.default.channelBuffer b ∧
      b.cmd.accepted = [.send [7] 1 0] ∧ b.cmd.received = [] ∧
      b.Answered ClientCall.kind ClientCommand.call b' := by
  intro client
  let ticks : List (BridgeAction ClientSlot ClientCommand ClientCallback) :=
    [.thread, .return_ {}, .return_ {}, .thread]
  have hrun : ∃ b b', (Bridge.machine client).run
        (Bridge.spawn client SpawnConfig.default.channelBuffer (by decide) .zero)
        (openMoves 0 ++ [.send (.send [7] 1 0)]) = some b ∧
      (Bridge.machine client).run b ([.thread, .return_ {}] ++ ticks ++ ticks ++ ticks ++ ticks) =
        some b' ∧
      b.cmd.accepted = [.send [7] 1 0] ∧ b.cmd.received = [] ∧ b.work client = 15 :=
    ⟨_, _, rfl, rfl, rfl, rfl, rfl⟩
  obtain ⟨b, b', hfirst, hrest, haccepted, hreceived, hwork⟩ := hrun
  have hreach : Bridge.Reachable client SpawnConfig.default.channelBuffer b :=
    ⟨by decide, .zero, _, hfirst⟩
  refine ⟨b, b', hreach, haccepted, hreceived,
    ((spawn_responds .numbered "" 9876 1 .default).2 b hreach).bounded _ b' hrest ?_⟩
  rw [hwork]
  decide

/-- An application that always has the next command queued in time keeps either
bridge from polling, however many commands it sends. -/
theorem spawn_starvable :
    (∀ b, Bridge.Reachable (spawnServerWithConfig codes address port workerCount config)
        config.channelBuffer b → b.Idle →
      b.Starvable (spawnServerWithConfig codes address port workerCount config)
        ServerCommand.call) ∧
    ∀ b, Bridge.Reachable (spawnClientWithConfig codes address port config)
        config.channelBuffer b → b.Idle →
      b.Starvable (spawnClientWithConfig codes address port config) ClientCommand.call :=
  ⟨fun _ hreach hidle => hreach.starvable
      (spawnServerWithConfig_calls codes address port workerCount config) hidle,
    fun _ hreach hidle => hreach.starvable
      (spawnClientWithConfig_calls codes address port config) hidle⟩

theorem spawnClient_starvable_opened :
    let client := spawnClientWithConfig .numbered "" 9876 .default
    ∃ b, Bridge.Reachable client SpawnConfig.default.channelBuffer b ∧ b.Idle ∧
      b.Starvable client ClientCommand.call := by
  intro client
  have hrun : ∃ b, (Bridge.machine client).run
      (Bridge.spawn client SpawnConfig.default.channelBuffer (by decide) .zero)
      (openMoves 0) = some b ∧ b.pc = .drain ∧ b.cmd.queue = [] ∧
      b.path.waiting = [] ∧ b.senders = 1 := ⟨_, rfl, rfl, rfl, rfl, rfl⟩
  obtain ⟨b, hrun, hpc, hqueue, hquiet, hsenders⟩ := hrun
  have hreach : Bridge.Reachable client SpawnConfig.default.channelBuffer b :=
    ⟨by decide, .zero, _, hrun⟩
  have hidle : b.Idle := ⟨hpc, hqueue, hquiet, by rw [hsenders]; decide⟩
  exact ⟨b, hreach, hidle, (spawn_starvable .numbered "" 9876 1 .default).2 b hreach hidle⟩

end

end EntanglementRs
