import EntanglementRs.Bridge.Context

/-!
# Commands are executed in order

The C calls of a bridge thread that stem from commands are the images of the
commands it has taken from the channel, one call for one command.  The commands
taken are a prefix of the accepted ones that ends with the first `Stop`, and
after `Stop` the thread neither takes another command nor polls.
-/

namespace EntanglementRs

open Transition

/-- What a C call of the bridge thread belongs to. -/
inductive CallKind where
  | command
  | tick
  | other
  deriving DecidableEq

def ServerCall.kind : ServerCall → CallKind
  | .sendTo .. | .disconnectClient _ | .stop => .command
  | .poll _ | .update => .tick
  | _ => .other

def ClientCall.kind : ClientCall → CallKind
  | .send .. | .sendWithReset .. | .disconnect => .command
  | .poll _ | .update => .tick
  | _ => .other

def ServerCommand.call : ServerCommand → ServerCall
  | .sendTo data channelId dest flags => .sendTo data channelId dest.toRaw flags
  | .disconnect endpoint => .disconnectClient endpoint.toRaw
  | .stop => .stop

def ClientCommand.call : ClientCommand → ClientCall
  | .send data channelId flags => .send data channelId flags
  | .sendWithReset data channelId flags => .sendWithReset data channelId flags
  | .disconnect => .disconnect
  | .stop => .disconnect

structure BridgeProgram.Calls {Slot Cmd Args Evt Call : Type}
    (prog : BridgeProgram Slot Cmd Args Evt Call)
    (kind : Call → CallKind) (call : Cmd → Call) : Prop where
  exec : ∀ c, (prog.exec c).calls = [call c]
  command : ∀ c, kind (call c) = .command
  create : ∀ x ∈ prog.create.calls, kind x = .other
  configure : ∀ x ∈ prog.configure, kind x = .other
  setOn : ∀ slot pair, kind (prog.setOn slot pair) = .other
  openObject : ∀ x ∈ prog.openObject.calls, kind x = .other
  poll : ∀ x ∈ prog.poll.calls, kind x = .tick
  polls : prog.poll.calls ≠ []
  update : ∀ x ∈ prog.update.calls, kind x = .tick
  destroy : kind prog.destroy = .other

section

variable (codes : ErrorCodes) (address : String) (port : UInt16)
variable (workerCount : Int32) (config : SpawnConfig)

theorem spawnServerWithConfig_calls :
    (spawnServerWithConfig codes address port workerCount config).Calls
      ServerCall.kind ServerCommand.call where
  exec := fun c => by cases c <;> rfl
  command := fun c => by cases c <;> rfl
  create := fun x hx => by
    change x ∈ (EntServer.new port address).calls at hx
    unfold EntServer.new at hx
    split at hx
    next => contradiction
    next => obtain rfl := List.mem_singleton.mp hx; rfl
  configure := fun x hx => by
    rcases List.mem_cons.mp hx with rfl | hx
    · rfl
    · obtain rfl := List.mem_singleton.mp hx; rfl
  setOn := fun _ _ => rfl
  openObject := fun x hx => by obtain rfl := List.mem_singleton.mp hx; rfl
  poll := fun x hx => by obtain rfl := List.mem_singleton.mp hx; rfl
  polls := by simp [spawnServerWithConfig, EntServer.poll, FFI.calls]
  update := fun x hx => by obtain rfl := List.mem_singleton.mp hx; rfl
  destroy := rfl

theorem spawnClientWithConfig_calls :
    (spawnClientWithConfig codes address port config).Calls
      ClientCall.kind ClientCommand.call where
  exec := fun c => by cases c <;> rfl
  command := fun c => by cases c <;> rfl
  create := fun x hx => by
    change x ∈ (EntClient.new address port).calls at hx
    unfold EntClient.new at hx
    split at hx
    next => contradiction
    next => obtain rfl := List.mem_singleton.mp hx; rfl
  configure := fun x hx => by obtain rfl := List.mem_singleton.mp hx; rfl
  setOn := fun _ _ => rfl
  openObject := fun x hx => by obtain rfl := List.mem_singleton.mp hx; rfl
  poll := fun x hx => by obtain rfl := List.mem_singleton.mp hx; rfl
  polls := by simp [spawnClientWithConfig, EntClient.poll, FFI.calls]
  update := fun x hx => by obtain rfl := List.mem_singleton.mp hx; rfl
  destroy := rfl

end

def Pc.beforeLoop {Slot Cmd : Type} : Pc Slot Cmd → Bool
  | .creating | .configure | .context | .register _ | .opening => true
  | _ => false

def Pc.inLoop {Slot Cmd : Type} : Pc Slot Cmd → Bool
  | .drain | .polling | .updating | .sleeping => true
  | _ => false

def Pc.afterLoop {Slot Cmd : Type} : Pc Slot Cmd → Bool
  | .reclaim | .dropContext | .clearing _ | .destroying | .dropCommands | .ended => true
  | _ => false

namespace Bridge

variable {Slot Cmd Args Evt Call : Type} [DecidableEq Slot]
variable {prog : BridgeProgram Slot Cmd Args Evt Call}
variable {kind : Call → CallKind} {call : Cmd → Call}
variable {b b' : Bridge Slot Cmd Args Evt Call}

/-! ## What one step adds to the calls -/

/-- A step either takes one command and makes its call, or takes none and makes
no call of a command; outside the loop it makes no call of a tick either. -/
theorem Move.calls_received (hcalls : prog.Calls kind call)
    {a : BridgeAction Slot Cmd Args} (hmove : Move prog b a b') :
    (∃ c, b.pc = .drain ∧ b'.calls = b.calls ++ [call c] ∧
      b'.cmd.received = b.cmd.received ++ [c]) ∨
    (b'.cmd.received = b.cmd.received ∧ ∃ rest, b'.calls = b.calls ++ rest ∧
      (∀ x ∈ rest, kind x ≠ .command) ∧
      (b.pc.inLoop = false → ∀ x ∈ rest, kind x = .other)) := by
  have hother : ∀ rest : List Call, (∀ x ∈ rest, kind x = .other) →
      (∀ x ∈ rest, kind x ≠ .command) ∧
        (b.pc.inLoop = false → ∀ x ∈ rest, kind x = .other) :=
    fun rest hrest => ⟨fun x hx => by simp [hrest x hx], fun _ => hrest⟩
  cases hmove with
  | take c cmd hpc hreceived =>
      exact .inl ⟨c, hpc, by rw [← hcalls.exec c], hreceived.received⟩
  | send c cmd hsenders hsent =>
      exact .inr ⟨hsent.received, [], by simp, hother [] (by simp)⟩
  | configure hpc => exact .inr ⟨rfl, prog.configure, rfl, hother _ hcalls.configure⟩
  | register slot trampoline rest hpc =>
      exact .inr ⟨rfl, _, rfl, hother _ (by simp [hcalls.setOn])⟩
  | enterOpen hpc =>
      exact .inr ⟨rfl, prog.openObject.calls, rfl, hother _ hcalls.openObject⟩
  | clear slot rest hpc => exact .inr ⟨rfl, _, rfl, hother _ (by simp [hcalls.setOn])⟩
  | enterDestroy hpc => exact .inr ⟨rfl, _, rfl, hother _ (by simp [hcalls.destroy])⟩
  | tick hpc hempty =>
      refine .inr ⟨rfl, prog.poll.calls, rfl, fun x hx => by simp [hcalls.poll x hx], ?_⟩
      simp [hpc, Pc.inLoop]
  | polled r hidle hpc =>
      refine .inr ⟨rfl, prog.update.calls, rfl, fun x hx => by simp [hcalls.update x hx], ?_⟩
      simp [hpc, Pc.inLoop]
  | reclaim hpc =>
      exact .inr ⟨by rw [← release_cmd b .rawRef], [], by simp, hother [] (by simp)⟩
  | dropContext hpc =>
      exact .inr ⟨by rw [← release_cmd b .localRef], [], by simp, hother [] (by simp)⟩
  | _ => exact .inr ⟨rfl, [], by simp, hother [] (by simp)⟩

theorem Reachable.command_calls {channelBuffer : ℕ} (hcalls : prog.Calls kind call)
    (hreach : Reachable prog channelBuffer b) :
    b.calls.filter (fun x => kind x = .command) = b.cmd.received.map call := by
  refine hreach.invariant (I := fun b =>
    b.calls.filter (fun x => kind x = .command) = b.cmd.received.map call) ?_ ?_
  · intro hpos mem
    apply List.filter_eq_nil_iff.mpr
    intro x hx
    simp [hcalls.create x hx]
  · intro b a b' hinv hmove
    rcases hmove.calls_received hcalls with ⟨c, _, hcall, hreceived⟩ |
      ⟨hreceived, rest, hcall, hrest, _⟩
    · rw [hcall, hreceived, List.filter_append, hinv]
      simp [hcalls.command c]
    · have hnone : rest.filter (fun x => kind x = .command) = [] :=
        List.filter_eq_nil_iff.mpr fun x hx => by simp [hrest x hx]
      rw [hcall, hreceived, List.filter_append, hnone, hinv, List.append_nil]

/-! ## Which commands have been taken -/

def Opened (b : Bridge Slot Cmd Args Evt Call) : Prop :=
  ∃ code, b.openCode = some code ∧ 0 ≤ code

/-- The commands taken so far, by the part of the program the thread is in. -/
inductive CommandState (prog : BridgeProgram Slot Cmd Args Evt Call)
    (b : Bridge Slot Cmd Args Evt Call) : Prop where
  | starting (hpc : b.pc.beforeLoop = true) (hnone : b.cmd.received = [])
  | looping (hpc : b.pc.inLoop = true)
      (hstop : ∀ c ∈ b.cmd.received, prog.isStop c = false) (hopen : b.Opened)
  | executing (done : List Cmd) (c : Cmd) (hpc : b.pc = .exec c)
      (hreceived : b.cmd.received = done ++ [c])
      (hstop : ∀ d ∈ done, prog.isStop d = false) (hopen : b.Opened)
  | stopped (done : List Cmd) (c : Cmd) (hpc : b.pc.afterLoop = true)
      (hreceived : b.cmd.received = done ++ [c]) (hlast : prog.isStop c = true)
      (hstop : ∀ d ∈ done, prog.isStop d = false) (hopen : b.Opened)
  | unopened (hpc : b.pc.afterLoop = true) (hnone : b.cmd.received = [])

omit [DecidableEq Slot] in
theorem CommandState.of_same (hstate : CommandState prog b)
    (hpc : b'.pc.beforeLoop = b.pc.beforeLoop ∧ b'.pc.inLoop = b.pc.inLoop ∧
      b'.pc.afterLoop = b.pc.afterLoop ∧ ∀ c, b.pc = .exec c → b'.pc = .exec c)
    (hreceived : b'.cmd.received = b.cmd.received)
    (hopen : b'.openCode = b.openCode) : CommandState prog b' := by
  obtain ⟨hbefore, hloop, hafter, hexec⟩ := hpc
  have hopened : b.Opened → b'.Opened := by
    rintro ⟨code, hcode, hok⟩
    exact ⟨code, hopen.trans hcode, hok⟩
  cases hstate with
  | starting p n => exact .starting (hbefore.trans p) (hreceived.trans n)
  | looping p s o => exact .looping (hloop.trans p) (hreceived ▸ s) (hopened o)
  | executing done c p r s o =>
      exact .executing done c (hexec c p) (hreceived.trans r) s (hopened o)
  | stopped done c p r l s o =>
      exact .stopped done c (hafter.trans p) (hreceived.trans r) l s (hopened o)
  | unopened p n => exact .unopened (hafter.trans p) (hreceived.trans n)

theorem CommandState.move (hprog : prog.Lawful) (hstate : CommandState prog b)
    {a : BridgeAction Slot Cmd Args} (hmove : Move prog b a b') :
    CommandState prog b' := by
  cases hmove with
  | cloneTx | dropTx | path | read | invoke | fault =>
      exact hstate.of_same ⟨rfl, rfl, rfl, fun _ => id⟩ rfl rfl
  | send c cmd hsenders hsent =>
      exact hstate.of_same ⟨rfl, rfl, rfl, fun _ => id⟩ hsent.received rfl
  | created r hidle hpc | configure hpc | context hpc | register _ _ _ hpc
  | enterOpen hpc | tick hpc | polled r hidle hpc | updated r hidle hpc | wake hpc
  | clear _ _ hpc | enterDestroy hpc | destroyed r hidle hpc | dropCommands hpc =>
      exact hstate.of_same
        (by simp [hpc, Pc.beforeLoop, Pc.inLoop, Pc.afterLoop]) rfl rfl
  | reclaim hpc =>
      exact hstate.of_same (by simp [hpc, Pc.beforeLoop, Pc.inLoop, Pc.afterLoop])
        (by rw [← release_cmd b .rawRef]) (by rw [← release_openCode b .rawRef])
  | dropContext hpc =>
      exact hstate.of_same (by simp [hpc, Pc.beforeLoop, Pc.inLoop, Pc.afterLoop])
        (by rw [← release_cmd b .localRef]) (by rw [← release_openCode b .localRef])
  | createFailed r hidle hpc =>
      cases hstate with
      | starting p n => exact .unopened rfl n
      | _ => simp_all [Pc.inLoop, Pc.afterLoop]
  | opened r hidle hpc hresult =>
      cases hstate with
      | starting p n =>
          refine .looping rfl (by simp [n]) ⟨r.code, rfl, ?_⟩
          exact (hprog.opens_iff r).mp hresult
      | _ => simp_all [Pc.inLoop, Pc.afterLoop]
  | openFailed r hidle hpc hresult =>
      cases hstate with
      | starting p n =>
          refine .unopened ?_ n
          dsimp only
          split <;> rfl
      | _ => simp_all [Pc.inLoop, Pc.afterLoop]
  | take c cmd hpc hreceived =>
      cases hstate with
      | looping p s o => exact .executing _ c rfl hreceived.received s o
      | _ => simp_all [Pc.beforeLoop, Pc.afterLoop]
  | stopped r c hidle hpc hstop hjoined =>
      cases hstate with
      | executing done d p rec s o =>
          obtain rfl : c = d := by simpa [hpc] using p
          exact .stopped done c rfl rec hstop s o
      | _ => simp_all [Pc.beforeLoop, Pc.inLoop, Pc.afterLoop]
  | executed r c hidle hpc hstop =>
      cases hstate with
      | executing done d p rec s o =>
          obtain rfl : c = d := by simpa [hpc] using p
          refine .looping rfl ?_ o
          intro e he
          rw [show b.cmd.received = done ++ [c] from rec, List.mem_append,
            List.mem_singleton] at he
          rcases he with he | rfl
          · exact s e he
          · exact hstop
      | _ => simp_all [Pc.beforeLoop, Pc.inLoop, Pc.afterLoop]

theorem Reachable.commandState {channelBuffer : ℕ} (hprog : prog.Lawful)
    (hreach : Reachable prog channelBuffer b) : CommandState prog b :=
  hreach.invariant (fun _ _ => .starting rfl rfl)
    fun _ _ _ hstate hmove => hstate.move hprog hmove

omit [DecidableEq Slot] in
theorem CommandState.of_stop (hstate : CommandState prog b)
    (hstop : ∃ c ∈ b.cmd.received, prog.isStop c = true) : b.pc.inLoop = false := by
  obtain ⟨c, hc, hstop⟩ := hstop
  cases hstate with
  | starting p n => simp [n] at hc
  | looping p s o => simp [s c hc] at hstop
  | executing done d p r s o => simp [p, Pc.inLoop]
  | stopped done d p r l s o => cases h : b.pc <;> simp_all [Pc.inLoop, Pc.afterLoop]
  | unopened p n => simp [n] at hc

theorem Reachable.after_stop {channelBuffer : ℕ} (hprog : prog.Lawful)
    (hcalls : prog.Calls kind call) (hreach : Reachable prog channelBuffer b)
    (hstop : ∃ c ∈ b.cmd.received, prog.isStop c = true)
    (hrest : (machine prog).Reaches b b') :
    b'.cmd.received = b.cmd.received ∧
      ∃ rest, b'.calls = b.calls ++ rest ∧ ∀ x ∈ rest, kind x = .other := by
  refine (hrest.invariant (I := fun b' => CommandState prog b' ∧
    b'.cmd.received = b.cmd.received ∧
      ∃ rest, b'.calls = b.calls ++ rest ∧ ∀ x ∈ rest, kind x = .other) ?_ ?_).2
  · rintro s a s' ⟨hstate, hsame, rest, hrest, hall⟩ hstep
    have hmove := step_move hstep
    have hloop := hstate.of_stop (hsame ▸ hstop)
    refine ⟨hstate.move hprog hmove, ?_⟩
    rcases hmove.calls_received hcalls with ⟨c, hpc, _⟩ |
      ⟨hreceived, more, hmore, _, hother⟩
    · simp [hpc, Pc.inLoop] at hloop
    · refine ⟨hreceived.trans hsame, rest ++ more, ?_, ?_⟩
      · rw [hmore, hrest, List.append_assoc]
      · intro x hx
        rcases List.mem_append.mp hx with hx | hx
        · exact hall x hx
        · exact hother hloop x hx
  · exact ⟨hreach.commandState hprog, rfl, [], by simp, by simp⟩

structure CommandsOpen (b : Bridge Slot Cmd Args Evt Call) : Prop where
  running : b.pc ≠ .ended → b.cmd.closed = false
  ended : b.pc = .ended → b.cmd.closed = true ∧ b.cmd.queue = []

theorem CommandsOpen.move (hinv : b.CommandsOpen) {a : BridgeAction Slot Cmd Args}
    (hmove : Move prog b a b') : b'.CommandsOpen := by
  cases hmove with
  | cloneTx | dropTx | path | read | invoke | fault => exact ⟨hinv.running, hinv.ended⟩
  | send c cmd hsenders hsent =>
      refine ⟨fun hpc => hsent.closed.trans (hinv.running hpc), fun hpc => ?_⟩
      exact absurd ((hinv.ended hpc).1.symm.trans hsent.was_open) (by decide)
  | dropCommands hpc => exact ⟨fun h => absurd rfl h, fun _ => ⟨rfl, rfl⟩⟩
  | take c cmd hpc hreceived =>
      exact ⟨fun _ => hreceived.closed.trans (hinv.running (by simp [hpc])),
        fun h => nomatch h⟩
  | openFailed r hidle hpc hresult =>
      refine ⟨fun _ => hinv.running (by simp [hpc]), ?_⟩
      dsimp only
      split <;> intro h <;> contradiction
  | reclaim hpc =>
      refine ⟨fun _ => ?_, fun h => nomatch h⟩
      exact (congrArg Channel.closed (release_cmd b .rawRef)).trans
        (hinv.running (by simp [hpc]))
  | dropContext hpc =>
      refine ⟨fun _ => ?_, fun h => nomatch h⟩
      exact (congrArg Channel.closed (release_cmd b .localRef)).trans
        (hinv.running (by simp [hpc]))
  | created r hidle hpc | createFailed r hidle hpc | opened r hidle hpc
  | stopped r c hidle hpc | executed r c hidle hpc | polled r hidle hpc
  | updated r hidle hpc | destroyed r hidle hpc | configure hpc | context hpc
  | register _ _ _ hpc | enterOpen hpc | tick hpc | wake hpc | clear _ _ hpc
  | enterDestroy hpc =>
      exact ⟨fun _ => hinv.running (by simp [hpc]), fun h => nomatch h⟩

theorem Reachable.commandsOpen {channelBuffer : ℕ}
    (hreach : Reachable prog channelBuffer b) : b.CommandsOpen :=
  hreach.invariant (fun _ _ => ⟨fun _ => rfl, fun h => nomatch h⟩)
    fun _ _ _ hinv hmove => hinv.move hmove

/-! ## In order, once, and never past `Stop` -/

structure InOrder (prog : BridgeProgram Slot Cmd Args Evt Call)
    (kind : Call → CallKind) (call : Cmd → Call)
    (b : Bridge Slot Cmd Args Evt Call) : Prop where
  image : b.calls.filter (fun x => kind x = .command) = b.cmd.received.map call
  taken : b.cmd.received <+: b.cmd.accepted
  cut : ∀ c ∈ b.cmd.received.dropLast, prog.isStop c = false
  queued : b.pc ≠ .ended → b.cmd.accepted = b.cmd.received ++ b.cmd.queue
  /-- A thread that ended without a `Stop` has taken no command at all. -/
  untaken : b.pc = .ended → (∀ c ∈ b.cmd.received, prog.isStop c = false) →
    b.cmd.received = [] ∧ b.cmd.accepted = b.cmd.discarded
  after_stop : (∃ c ∈ b.cmd.received, prog.isStop c = true) →
    ∀ b', (machine prog).Reaches b b' → b'.cmd.received = b.cmd.received ∧
      ∃ rest, b'.calls = b.calls ++ rest ∧ ∀ x ∈ rest, kind x = .other
  opened : b.cmd.received ≠ [] → b.Opened

omit [DecidableEq Slot] in
theorem CommandState.cut (hstate : CommandState prog b) :
    ∀ c ∈ b.cmd.received.dropLast, prog.isStop c = false := by
  intro c hc
  cases hstate with
  | starting p n | unopened p n => simp [n] at hc
  | looping p s o => exact s c (List.dropLast_subset _ hc)
  | executing done d p r s o =>
      rw [r, List.dropLast_concat] at hc
      exact s c hc
  | stopped done d p r l s o =>
      rw [r, List.dropLast_concat] at hc
      exact s c hc

omit [DecidableEq Slot] in
theorem CommandState.untaken (hstate : CommandState prog b) (hpc : b.pc = .ended)
    (hstop : ∀ c ∈ b.cmd.received, prog.isStop c = false) : b.cmd.received = [] := by
  cases hstate with
  | starting p n | unopened p n => exact n
  | looping p s o => simp [hpc, Pc.inLoop] at p
  | executing done d p r s o => simp [hpc] at p
  | stopped done d p r l s o =>
      have hlast := hstop d (by simp [r])
      exact absurd (hlast.symm.trans l) (by decide)

omit [DecidableEq Slot] in
theorem CommandState.opened (hstate : CommandState prog b)
    (htaken : b.cmd.received ≠ []) : b.Opened := by
  cases hstate with
  | starting p n | unopened p n => exact absurd n htaken
  | looping p s o => exact o
  | executing done d p r s o => exact o
  | stopped done d p r l s o => exact o

theorem Reachable.inOrder {channelBuffer : ℕ} (hprog : prog.Lawful)
    (hcalls : prog.Calls kind call) (hreach : Reachable prog channelBuffer b) :
    InOrder prog kind call b where
  image := hreach.command_calls hcalls
  taken := b.cmd.received_prefix
  cut := (hreach.commandState hprog).cut
  queued := fun hpc => Channel.accepted_eq_of_open (hreach.commandsOpen.running hpc)
  untaken := by
    intro hpc hstop
    have hnone := (hreach.commandState hprog).untaken hpc hstop
    refine ⟨hnone, ?_⟩
    rw [b.cmd.account, hnone, (hreach.commandsOpen.ended hpc).2]
    rfl
  after_stop := fun hstop _ hrest => hreach.after_stop hprog hcalls hstop hrest
  opened := (hreach.commandState hprog).opened

end Bridge

section

variable (codes : ErrorCodes) (address : String) (port : UInt16)
variable (workerCount : Int32) (config : SpawnConfig)

/-- In every reachable state of both bridges the accepted commands are executed
in order, exactly once and never past `Stop`, and only after the open call has
succeeded. -/
theorem spawn_commands_inOrder :
    (∀ b, Bridge.Reachable (spawnServerWithConfig codes address port workerCount config)
        config.channelBuffer b →
      b.InOrder (spawnServerWithConfig codes address port workerCount config)
        ServerCall.kind ServerCommand.call) ∧
    ∀ b, Bridge.Reachable (spawnClientWithConfig codes address port config)
        config.channelBuffer b →
      b.InOrder (spawnClientWithConfig codes address port config)
        ClientCall.kind ClientCommand.call :=
  ⟨fun _ hreach => hreach.inOrder
      (spawnServerWithConfig_lawful codes address port workerCount config)
      (spawnServerWithConfig_calls codes address port workerCount config),
    fun _ hreach => hreach.inOrder
      (spawnClientWithConfig_lawful codes address port config)
      (spawnClientWithConfig_calls codes address port config)⟩

end

theorem spawn_commands_inOrder_past_stop :
    let server := spawnServerWithConfig .numbered "" 9876 1 .default
    let dest : EntEndpoint := ⟨0x7F000001, 5000⟩
    ∃ b, Bridge.Reachable server SpawnConfig.default.channelBuffer b ∧
      b.pc = .ended ∧
      b.cmd.accepted = [.sendTo [1, 2] 1 dest 0, .stop, .disconnect dest] ∧
      b.cmd.received = [.sendTo [1, 2] 1 dest 0, .stop] ∧
      b.InOrder server ServerCall.kind ServerCommand.call := by
  intro server dest
  have hrun : ∃ b, (Bridge.machine server).run
      (Bridge.spawn server SpawnConfig.default.channelBuffer (by decide) .zero)
      (openMoves 0 ++ [.send (.sendTo [1, 2] 1 dest 0), .send .stop,
          .send (.disconnect dest), .thread, .return_ { code := -5 }, .thread, .return_ {}] ++
        List.replicate 12 .thread ++ [.return_ {}, .thread]) = some b ∧
      b.pc = .ended ∧
      b.cmd.accepted = [.sendTo [1, 2] 1 dest 0, .stop, .disconnect dest] ∧
      b.cmd.received = [.sendTo [1, 2] 1 dest 0, .stop] :=
    ⟨_, rfl, rfl, rfl, rfl⟩
  obtain ⟨b, hrun, hpc, haccepted, hreceived⟩ := hrun
  have hreach : Bridge.Reachable server SpawnConfig.default.channelBuffer b :=
    ⟨by decide, .zero, _, hrun⟩
  exact ⟨b, hreach, hpc, haccepted, hreceived,
    (spawn_commands_inOrder .numbered "" 9876 1 .default).1 b hreach⟩

/-- A command queued while `connect` fails is accepted, and then neither
executed nor queued any more. -/
theorem spawnClient_failed_connect_discards :
    let client := spawnClientWithConfig .numbered "" 9876 .default
    ¬ ∀ b, Bridge.Reachable client SpawnConfig.default.channelBuffer b →
      (∀ c ∈ b.cmd.received, client.isStop c = false) →
      b.cmd.accepted = b.cmd.received ++ b.cmd.queue := by
  intro client hall
  have hrun : ∃ b, (Bridge.machine client).run
      (Bridge.spawn client SpawnConfig.default.channelBuffer (by decide) .zero)
      ([.send (.send [1] 1 0)] ++ openMoves (-2) ++ List.replicate 11 .thread ++
        [.return_ {}, .thread]) = some b ∧
      b.cmd.accepted = [.send [1] 1 0] ∧ b.cmd.received = [] ∧ b.cmd.queue = [] :=
    ⟨_, rfl, rfl, rfl, rfl⟩
  obtain ⟨b, hrun, haccepted, hreceived, hqueue⟩ := hrun
  have hwhole := hall b ⟨by decide, .zero, _, hrun⟩ (by simp [hreceived])
  simp [haccepted, hreceived, hqueue] at hwhole

end EntanglementRs
