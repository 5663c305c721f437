import EntanglementRs.Bridge.Commands

/-!
# A bridge without a handle

Once every command `Sender` is gone and the queued commands are drained,
`try_recv` reports the channel disconnected at every tick.  The drain loop
treats this like an empty channel, so the thread goes on polling and never
ends.
-/

namespace EntanglementRs

open Transition

namespace Bridge

variable {Slot Cmd Args Evt Call : Type} [DecidableEq Slot]
variable {prog : BridgeProgram Slot Cmd Args Evt Call}
variable {kind : Call → CallKind} {call : Cmd → Call}
variable {b b' : Bridge Slot Cmd Args Evt Call}

def QuietSince (kind : Call → CallKind) (n : ℕ)
    (b : Bridge Slot Cmd Args Evt Call) : Prop :=
  ∀ x ∈ b.calls.drop n, kind x ≠ .tick

def CanEnd (prog : BridgeProgram Slot Cmd Args Evt Call)
    (b : Bridge Slot Cmd Args Evt Call) : Prop :=
  ∃ b', (machine prog).Reaches b b' ∧ b'.pc = .ended

/-- The thread has seen the command channel disconnected after `n` calls: no
command can come any more, and it has polled since. -/
structure Orphaned (kind : Call → CallKind) (n : ℕ)
    (b : Bridge Slot Cmd Args Evt Call) : Prop where
  senders : b.senders = 0
  queue : b.cmd.queue = []
  loop : b.pc.inLoop = true
  polled : ∃ x ∈ b.calls.drop n, kind x = .tick

omit [DecidableEq Slot] in
theorem Orphaned.later {n : ℕ} (horphan : b.Orphaned kind n) (rest : List Call)
    (hsenders : b'.senders = b.senders) (hqueue : b'.cmd.queue = b.cmd.queue)
    (hloop : b'.pc.inLoop = true) (hcalls : b'.calls = b.calls ++ rest) :
    b'.Orphaned kind n := by
  refine ⟨hsenders.trans horphan.senders, hqueue.trans horphan.queue, hloop, ?_⟩
  obtain ⟨x, hx, htick⟩ := horphan.polled
  refine ⟨x, ?_, htick⟩
  rw [hcalls, List.drop_append]
  exact List.mem_append_left _ hx

theorem Orphaned.move {n : ℕ} (horphan : b.Orphaned kind n)
    {a : BridgeAction Slot Cmd Args} (hmove : Move prog b a b') :
    b'.Orphaned kind n := by
  have hloop := horphan.loop
  cases hmove with
  | cloneTx hsenders => simp [horphan.senders] at hsenders
  | dropTx hsenders => simp [horphan.senders] at hsenders
  | send c cmd hsenders hsent => simp [horphan.senders] at hsenders
  | path | read | invoke | fault =>
      exact horphan.later [] rfl rfl hloop (by simp)
  | take c cmd hpc hreceived =>
      have hqueue := hreceived.queue
      rw [horphan.queue] at hqueue
      contradiction
  | tick hpc hempty => exact horphan.later _ rfl rfl rfl rfl
  | polled r hidle hpc => exact horphan.later _ rfl rfl rfl rfl
  | updated r hidle hpc => exact horphan.later [] rfl rfl rfl (by simp)
  | wake hpc => exact horphan.later [] rfl rfl rfl (by simp)
  | created r hidle hpc | createFailed r hidle hpc | opened r hidle hpc
  | openFailed r hidle hpc | stopped r c hidle hpc | executed r c hidle hpc
  | destroyed r hidle hpc | configure hpc | context hpc | register _ _ _ hpc
  | enterOpen hpc | reclaim hpc | dropContext hpc | clear _ _ hpc
  | enterDestroy hpc | dropCommands hpc =>
      simp [hpc, Pc.inLoop] at hloop

/-- Whoever observes the closed channel is orphaned, because the observation is
followed by a poll. -/
theorem Reachable.orphaned {channelBuffer : ℕ} (hcalls : prog.Calls kind call)
    (hreach : Reachable prog channelBuffer b) :
    ∀ n, b.sawClosed = some n → b.Orphaned kind n := by
  refine hreach.invariant (I := fun b => ∀ n, b.sawClosed = some n → b.Orphaned kind n)
    (fun _ _ n hsaw => nomatch hsaw) ?_
  intro b a b' hinv hmove n hsaw
  have hold : b.sawClosed = some n → b'.Orphaned kind n :=
    fun h => (hinv n h).move hmove
  cases hmove with
  | tick hpc hempty =>
      dsimp only at hsaw
      split at hsaw
      next hsenders =>
        obtain hnone | ⟨m, hm⟩ := Option.eq_none_or_eq_some b.sawClosed
        · -- the first observation: the poll that follows it is call number `n`
          obtain rfl : b.calls.length = n := by simpa [hnone] using hsaw
          obtain ⟨x, hx⟩ := List.exists_mem_of_ne_nil _ hcalls.polls
          refine ⟨hsenders, hempty, rfl, x, ?_, hcalls.poll x hx⟩
          simpa using hx
        · exact hold (by simpa [hm] using hsaw)
      next => exact hold hsaw
  | reclaim hpc => exact hold ((release_sawClosed b .rawRef).symm.trans hsaw)
  | dropContext hpc => exact hold ((release_sawClosed b .localRef).symm.trans hsaw)
  | _ => exact hold hsaw

theorem Reachable.never_ends {channelBuffer : ℕ} (hcalls : prog.Calls kind call)
    (hreach : Reachable prog channelBuffer b) {n : ℕ} (hsaw : b.sawClosed = some n) :
    ¬ b.QuietSince kind n ∧ ¬ b.CanEnd prog := by
  have horphan := hreach.orphaned hcalls n hsaw
  constructor
  · intro hquiet
    obtain ⟨x, hx, htick⟩ := horphan.polled
    exact hquiet x hx htick
  · rintro ⟨b', hrest, hpc⟩
    have hlater := hrest.invariant (I := Orphaned kind n)
      (fun _ _ _ horphan hstep => horphan.move (step_move hstep)) horphan
    have hloop := hlater.loop
    simp [hpc, Pc.inLoop] at hloop

end Bridge

section

variable (codes : ErrorCodes) (address : String) (port : UInt16)
variable (workerCount : Int32) (config : SpawnConfig)

/-- Neither bridge ever quits after it has observed the closed command channel:
it polls again at once, and no continuation of the run ends its thread. -/
theorem spawn_never_quits :
    (∀ b, Bridge.Reachable (spawnServerWithConfig codes address port workerCount config)
        config.channelBuffer b →
      ∀ n, b.sawClosed = some n → ¬ b.QuietSince ServerCall.kind n ∧
        ¬ b.CanEnd (spawnServerWithConfig codes address port workerCount config)) ∧
    ∀ b, Bridge.Reachable (spawnClientWithConfig codes address port config)
        config.channelBuffer b →
      ∀ n, b.sawClosed = some n → ¬ b.QuietSince ClientCall.kind n ∧
        ¬ b.CanEnd (spawnClientWithConfig codes address port config) :=
  ⟨fun _ hreach _ hsaw => hreach.never_ends
      (spawnServerWithConfig_calls codes address port workerCount config) hsaw,
    fun _ hreach _ hsaw => hreach.never_ends
      (spawnClientWithConfig_calls codes address port config) hsaw⟩

end

def dropHandleMoves {Slot Cmd Args : Type} : List (BridgeAction Slot Cmd Args) :=
  [.dropTx, .dropRx, .thread, .return_ {}, .return_ {}]

theorem spawnClient_never_quits_after_drop :
    let client := spawnClientWithConfig .numbered "" 9876 .default
    ∃ b, Bridge.Reachable client SpawnConfig.default.channelBuffer b ∧
      b.sawClosed = some 6 ∧ ¬ b.QuietSince ClientCall.kind 6 ∧ ¬ b.CanEnd client := by
  intro client
  have hrun : ∃ b, (Bridge.machine client).run
      (Bridge.spawn client SpawnConfig.default.channelBuffer (by decide) .zero)
      (openMoves 0 ++ dropHandleMoves) = some b ∧ b.sawClosed = some 6 :=
    ⟨_, rfl, rfl⟩
  obtain ⟨b, hrun, hsaw⟩ := hrun
  have hreach : Bridge.Reachable client SpawnConfig.default.channelBuffer b :=
    ⟨by decide, .zero, _, hrun⟩
  exact ⟨b, hreach, hsaw,
    (spawn_never_quits .numbered "" 9876 1 .default).2 b hreach 6 hsaw⟩

/-- A server bridge without a handle and without any command polls after it has
seen the channel closed, and cannot end. -/
theorem spawnServer_outlives_handle :
    let server := spawnServerWithConfig .numbered "" 9876 1 .default
    ∃ b, Bridge.Reachable server SpawnConfig.default.channelBuffer b ∧
      b.senders = 0 ∧ b.path.chan.closed = true ∧ b.cmd.accepted = [] ∧
      b.sawClosed = some 7 ∧ b.calls.drop 7 = [.poll 256, .update] ∧
      ¬ b.CanEnd server := by
  intro server
  have hrun : ∃ b, (Bridge.machine server).run
      (Bridge.spawn server SpawnConfig.default.channelBuffer (by decide) .zero)
      (openMoves 0 ++ dropHandleMoves) = some b ∧
      b.senders = 0 ∧ b.path.chan.closed = true ∧ b.cmd.accepted = [] ∧
      b.sawClosed = some 7 ∧ b.calls.drop 7 = [.poll 256, .update] :=
    ⟨_, rfl, rfl, rfl, rfl, rfl, rfl⟩
  obtain ⟨b, hrun, hsenders, hclosed, hnone, hsaw, hcalls⟩ := hrun
  have hreach : Bridge.Reachable server SpawnConfig.default.channelBuffer b :=
    ⟨by decide, .zero, _, hrun⟩
  exact ⟨b, hreach, hsenders, hclosed, hnone, hsaw, hcalls,
    (hreach.never_ends (spawnServerWithConfig_calls _ _ _ _ _) hsaw).2⟩

end EntanglementRs
