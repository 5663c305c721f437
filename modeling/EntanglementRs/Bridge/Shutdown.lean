import EntanglementRs.Bridge.Commands

/-!
# Stopping a bridge whose events nobody receives

After it has sent `Stop` an application may keep its handle and receive no
further event.  The thread still ends if every callback that is under way finds
room in the event channel, or if the receiver is closed; otherwise some callback
waits for ever and the thread, or the worker it joins, with it.
-/

namespace EntanglementRs

open Transition

namespace EventPath

variable {T Args Evt : Type} [DecidableEq T]
variable {event : CMemory → Args → Evt} {p q : EventPath T Args Evt}

def load (p : EventPath T Args Evt) : ℕ :=
  p.waiting.length + p.chan.queue.length

/-- Every callback under way can return without a receive. -/
def HasRoom (p : EventPath T Args Evt) : Prop :=
  p.chan.closed = true ∨ p.load ≤ p.chan.capacity

theorem load_step (hinv : Inv event p) (hopen : p.chan.closed = false)
    {a : PathAction T Args} (hstep : step event p a = some q)
    (hquiet : a ≠ .recv ∧ a ≠ .close ∧ a ≠ .dropReceiver) :
    p.load ≤ q.load ∧ q.chan.closed = false := by
  cases step_move hstep with
  | write mem => exact ⟨Nat.le_refl _, hopen⟩
  | invoke t args origin hfree =>
      refine ⟨?_, hopen⟩
      simp only [load, List.length_append, List.length_singleton]
      omega
  | deliver w chan hmem hsent =>
      refine ⟨?_, hsent.closed.trans hopen⟩
      have hwaiting := complete_waiting_length hinv.unique hmem chan true
      have hqueue : chan.queue.length = p.chan.queue.length + 1 := by
        rw [hsent.queue, List.length_append, List.length_singleton]
      change p.waiting.length + p.chan.queue.length ≤
        (p.complete w chan true).waiting.length + chan.queue.length
      omega
  | fail w hmem hclosed => exact absurd (hopen.symm.trans hclosed) (by decide)
  | recv | close | dropReceiver => simp at hquiet

theorem HasRoom.step (hroom : p.HasRoom) (hinv : Inv event p)
    {a : PathAction T Args} (hstep : EventPath.step event p a = some q)
    (hcallback : (∃ t args origin, a = .invoke t args origin) →
      p.chan.closed = true ∨ p.load < p.chan.capacity) : q.HasRoom := by
  cases step_move hstep with
  | write mem => exact hroom
  | invoke t args origin hfree =>
      rcases hcallback ⟨t, args, origin, rfl⟩ with hclosed | hlt
      · exact .inl hclosed
      · refine .inr ?_
        simp only [load, List.length_append, List.length_singleton] at hlt ⊢
        omega
  | deliver w chan hmem hsent =>
      rcases hroom with hclosed | hle
      · exact absurd (hclosed.symm.trans hsent.was_open) (by decide)
      · refine .inr ?_
        have hwaiting := complete_waiting_length hinv.unique hmem chan true
        have hqueue : chan.queue.length = p.chan.queue.length + 1 := by
          rw [hsent.queue, List.length_append, List.length_singleton]
        change (p.complete w chan true).waiting.length + chan.queue.length ≤ chan.capacity
        rw [hsent.capacity]
        unfold load at hle
        omega
  | fail w hmem hclosed => exact .inl hclosed
  | recv e chan hreceived =>
      rcases hroom with hclosed | hle
      · exact .inl (hreceived.closed.trans hclosed)
      · refine .inr ?_
        have hqueue : p.chan.queue.length = chan.queue.length + 1 := by
          rw [hreceived.queue, List.length_cons]
        change p.waiting.length + chan.queue.length ≤ chan.capacity
        rw [hreceived.capacity]
        unfold load at hle
        omega
  | close => exact .inl rfl
  | dropReceiver => exact .inl rfl

theorem HasRoom.progress (hroom : p.HasRoom) (hinv : Inv event p)
    (hwaiting : p.waiting ≠ []) :
    ∃ a q, EventPath.step event p a = some q ∧ (∃ t, a = .deliver t ∨ a = .fail t) ∧
      q.waiting.length < p.waiting.length := by
  obtain ⟨w, hmem⟩ := List.exists_mem_of_ne_nil _ hwaiting
  have hpos := List.length_pos_of_mem hmem
  have hfewer : ∀ a q, (a = .deliver w.thread ∨ a = .fail w.thread) →
      EventPath.step event p a = some q → q.waiting.length < p.waiting.length := by
    intro a q ha hstep
    cases step_move hstep with
    | deliver v chan hmem hsent =>
        have := complete_waiting_length hinv.unique hmem chan true
        omega
    | fail v hmem hclosed =>
        have := complete_waiting_length hinv.unique hmem p.chan false
        omega
    | _ => simp at ha
  cases hclosed : p.chan.closed with
  | true =>
      obtain ⟨q, hstep⟩ := step_fail_of_closed event hmem hclosed
      exact ⟨_, q, hstep, ⟨_, .inr rfl⟩, hfewer _ q (.inr rfl) hstep⟩
  | false =>
      have hlt : p.chan.queue.length < p.chan.capacity := by
        rcases hroom with h | hle
        · exact absurd (hclosed.symm.trans h) (by decide)
        · unfold load at hle
          omega
      obtain ⟨q, hstep⟩ := step_deliver_of_room event hmem hclosed hlt
      exact ⟨_, q, hstep, ⟨_, .inl rfl⟩, hfewer _ q (.inl rfl) hstep⟩

end EventPath

namespace Bridge

variable {Slot Cmd Args Evt Call : Type} [DecidableEq Slot]
variable {prog : BridgeProgram Slot Cmd Args Evt Call}
variable {b b' : Bridge Slot Cmd Args Evt Call}

def StopAccepted (prog : BridgeProgram Slot Cmd Args Evt Call)
    (b : Bridge Slot Cmd Args Evt Call) : Prop :=
  ∃ c ∈ b.cmd.accepted, prog.isStop c = true

/-- The bridge beside an application that keeps its handle and does nothing. -/
def quiet (prog : BridgeProgram Slot Cmd Args Evt Call) :
    Machine (Bridge Slot Cmd Args Evt Call) (BridgeAction Slot Cmd Args) :=
  (machine prog).restrict fun _ a => a.isApp = false

/-- Without the application the thread can still end, and a thread that ends
with an object has destroyed it. -/
def CanExit (prog : BridgeProgram Slot Cmd Args Evt Call)
    (b : Bridge Slot Cmd Args Evt Call) : Prop :=
  ∃ b', (quiet prog).Reaches b b' ∧ b'.pc = .ended ∧
    (b'.ContextCreated → prog.destroy ∈ b'.calls)

/-! ## The object is destroyed -/

def Destroyed (prog : BridgeProgram Slot Cmd Args Evt Call)
    (b : Bridge Slot Cmd Args Evt Call) : Prop :=
  b.pc = .destroying ∨ b.pc = .dropCommands ∨ b.pc = .ended →
    b.ctx = .empty ∨ prog.destroy ∈ b.calls

theorem Destroyed.move (hdestroyed : b.Destroyed prog) (hstate : ContextState prog b)
    {a : BridgeAction Slot Cmd Args} (hmove : Move prog b a b') :
    b'.Destroyed prog := by
  cases hmove with
  | cloneTx | dropTx | send | path | read | invoke | fault => exact hdestroyed
  | createFailed r hidle hpc =>
      intro _
      cases hstate with
      | absent p c t o => exact .inl c
      | _ => simp_all [Pc.sharesContext, Pc.afterContext]
  | enterDestroy hpc => exact fun _ => .inr (by simp)
  | destroyed r hidle hpc => exact fun _ => hdestroyed (.inl hpc)
  | dropCommands hpc => exact fun _ => hdestroyed (.inr (.inl hpc))
  | openFailed r hidle hpc =>
      intro hafter
      dsimp only at hafter
      split at hafter <;> simp at hafter
  | _ =>
      intro hafter
      simp at hafter

theorem Reachable.destroyed {channelBuffer : ℕ} (hprog : prog.Lawful)
    (hreach : Reachable prog channelBuffer b) : b.Destroyed prog :=
  (hreach.invariant (I := fun b => ContextState prog b ∧ b.Destroyed prog)
    (fun _ _ => ⟨.absent rfl rfl rfl rfl, fun h => by simp [spawn] at h⟩)
    fun _ _ _ hinv hmove => ⟨hinv.1.move hprog hmove, hinv.2.move hinv.1 hmove⟩).2

/-! ## A callback without room never returns -/

omit [DecidableEq Slot] in
theorem pathAction_quiet {a : BridgeAction Slot Cmd Args} {pa : PathAction CThread Args}
    (hquiet : a.isApp = false) (ha : a.pathAction = some pa) :
    pa ≠ .recv ∧ pa ≠ .close ∧ pa ≠ .dropReceiver := by
  cases a <;> simp_all [BridgeAction.isApp, BridgeAction.pathAction] <;> subst pa <;> simp

theorem Reachable.not_canExit {channelBuffer : ℕ} (hreach : Reachable prog channelBuffer b)
    (hroom : ¬ b.path.HasRoom) : ¬ b.CanExit prog := by
  rintro ⟨b', hrest, hpc, _⟩
  rw [EventPath.HasRoom, not_or, Bool.not_eq_true, Nat.not_le] at hroom
  obtain ⟨hopen, hload⟩ := hroom
  have hlater := hrest.invariant
    (I := fun b' => Reachable prog channelBuffer b' ∧ b'.path.chan.closed = false ∧
      b.path.load ≤ b'.path.load)
    (fun s a s' hI hstep => by
      obtain ⟨hquiet, hstep⟩ := Machine.restrict_step_eq_some.mp hstep
      obtain ⟨hs, hopen, hle⟩ := hI
      refine ⟨hs.next hstep, ?_⟩
      rcases (step_move hstep).path_cases with hsame | ⟨pa, hpath, ha⟩
      · rw [hsame]
        exact ⟨hopen, hle⟩
      · have hpa : pa ≠ .recv ∧ pa ≠ .close ∧ pa ≠ .dropReceiver := by
          rcases ha with ha | ⟨t, pair, args, origin, _, rfl⟩
          · exact pathAction_quiet (by simpa using hquiet) ha
          · simp
        obtain ⟨hmore, hopen'⟩ := EventPath.load_step hs.pathInv hopen hpath hpa
        exact ⟨hopen', Nat.le_trans hle hmore⟩)
    ⟨hreach, hopen, Nat.le_refl _⟩
  obtain ⟨hreach', hopen', hle⟩ := hlater
  -- a thread that has ended waits in no callback, so the queue holds the load
  have hnone := hreach'.threadsInv.waiting_eq_nil (by simp [hpc, Pc.holdsObject])
    (by simp [hpc, Pc.inCall])
  have hfits := b'.path.chan.fits
  rw [hreach'.path_capacity] at hfits
  rw [hreach.path_capacity] at hload
  simp only [EventPath.load, hnone, List.length_nil] at hle hload
  omega

/-! ## With room the thread ends -/

/-- How many statements the thread has before its end, with `queued` commands
still to take. -/
def distance (prog : BridgeProgram Slot Cmd Args Evt Call) (queued : ℕ) :
    Pc Slot Cmd → ℕ
  | .ended => 0
  | .dropCommands => 1
  | .destroying => 2
  | .clearing rest => 3 + rest.length
  | .dropContext => 4 + prog.clears.length
  | .reclaim => 5 + prog.clears.length
  | .drain => 6 + prog.clears.length + 2 * queued
  | .exec _ => 7 + prog.clears.length + 2 * queued
  | .sleeping => 7 + prog.clears.length + 2 * queued
  | .updating => 8 + prog.clears.length + 2 * queued
  | .polling => 9 + prog.clears.length + 2 * queued
  | .opening => 10 + prog.clears.length + 2 * queued
  | .register rest => 11 + prog.clears.length + 2 * queued + rest.length
  | .context => 12 + prog.clears.length + 2 * queued + prog.registrations.length
  | .configure => 13 + prog.clears.length + 2 * queued + prog.registrations.length
  | .creating => 14 + prog.clears.length + 2 * queued + prog.registrations.length

def rank (prog : BridgeProgram Slot Cmd Args Evt Call)
    (b : Bridge Slot Cmd Args Evt Call) : ℕ :=
  distance prog b.cmd.queue.length b.pc + b.path.waiting.length

omit [DecidableEq Slot] in
theorem rank_eq_zero (hrank : b.rank prog = 0) : b.pc = .ended := by
  unfold rank at hrank
  cases hpc : b.pc <;> simp [hpc, distance] at hrank ⊢

/-- What holds along a quiet run to the end. -/
structure Ending (prog : BridgeProgram Slot Cmd Args Evt Call) (channelBuffer : ℕ)
    (b : Bridge Slot Cmd Args Evt Call) : Prop where
  reach : Reachable prog channelBuffer b
  stop : b.StopAccepted prog
  room : b.path.HasRoom

theorem Move.accepted_prefix {a : BridgeAction Slot Cmd Args}
    (hmove : Move prog b a b') : b.cmd.accepted <+: b'.cmd.accepted := by
  cases hmove with
  | send c cmd hsenders hsent =>
      rw [hsent.accepted]
      exact List.prefix_append _ _
  | take c cmd hpc hreceived => exact hreceived.accepted ▸ List.prefix_rfl
  | reclaim hpc => exact (congrArg Channel.accepted (release_cmd b .rawRef)) ▸ List.prefix_rfl
  | dropContext hpc =>
      exact (congrArg Channel.accepted (release_cmd b .localRef)) ▸ List.prefix_rfl
  | _ => exact List.prefix_rfl

theorem StopAccepted.move (hstop : b.StopAccepted prog)
    {a : BridgeAction Slot Cmd Args} (hmove : Move prog b a b') :
    b'.StopAccepted prog := by
  obtain ⟨c, hc, hstop⟩ := hstop
  exact ⟨c, hmove.accepted_prefix.subset hc, hstop⟩

theorem Ending.next {channelBuffer : ℕ} (hend : Ending prog channelBuffer b)
    {a : BridgeAction Slot Cmd Args} (hquiet : a.isApp = false)
    (hstep : b.step prog a = some b') (hroom : b'.path.HasRoom)
    (hrank : b'.rank prog < b.rank prog) :
    ∃ a b', (quiet prog).step b a = some b' ∧ Ending prog channelBuffer b' ∧
      b'.rank prog < b.rank prog :=
  ⟨a, b', Machine.restrict_step_eq_some.mpr ⟨hquiet, hstep⟩,
    ⟨hend.reach.next hstep,
      hend.stop.move (step_move hstep), hroom⟩, hrank⟩

theorem Ending.queue_ne_nil {channelBuffer : ℕ} (hprog : prog.Lawful)
    (hend : Ending prog channelBuffer b) (hpc : b.pc = .drain) : b.cmd.queue ≠ [] := by
  intro hempty
  obtain ⟨c, hc, hstop⟩ := hend.stop
  rw [Channel.accepted_eq_of_open (hend.reach.commandsOpen.running (by simp [hpc])),
    hempty, List.append_nil] at hc
  have hloop := (hend.reach.commandState hprog).of_stop ⟨c, hc, hstop⟩
  simp [hpc, Pc.inLoop] at hloop

theorem Move.rank_lt {a : BridgeAction Slot Cmd Args} (hmove : Move prog b a b')
    (ha : a = .thread ∨ ∃ r, a = .return_ r) (hqueue : b.pc = .drain → b.cmd.queue ≠ []) :
    b'.rank prog < b.rank prog := by
  cases hmove with
  | take c cmd hpc hreceived =>
      have hlength := congrArg List.length hreceived.queue
      rw [List.length_cons] at hlength
      simp only [rank, hpc, distance]
      omega
  | tick hpc hempty => exact absurd hempty (hqueue hpc)
  | openFailed r hidle hpc hresult =>
      simp only [rank, hpc]
      split <;> simp only [distance] <;> omega
  | reclaim hpc => simp [rank, hpc, distance]
  | dropContext hpc => simp [rank, hpc, distance]
  | created r hidle hpc | createFailed r hidle hpc | opened r hidle hpc
  | stopped r c hidle hpc | executed r c hidle hpc | polled r hidle hpc
  | updated r hidle hpc | destroyed r hidle hpc | configure hpc | context hpc
  | register _ _ _ hpc | enterOpen hpc | wake hpc | clear _ _ hpc | enterDestroy hpc
  | dropCommands hpc =>
      simp only [rank, hpc, distance, List.length_cons, List.length_nil]
      omega
  | path _ pa path ha' hpath =>
      rcases ha with rfl | ⟨r, rfl⟩ <;> simp [BridgeAction.pathAction] at ha'
  | _ => simp at ha

theorem thread_enabled (hwaiting : b.path.waiting = []) (hpc : b.pc ≠ .ended) :
    (b.step prog .thread).isSome = true ∨ (b.step prog (.return_ {})).isSome = true := by
  have hidle : ¬ b.path.Busy .own := by simp [EventPath.Busy, hwaiting]
  cases h : b.pc with
  | ended => exact absurd h hpc
  | creating | opening | exec | polling | updating | destroying =>
      right
      simp only [step, returnStep, if_neg hidle, h, hwaiting]
      repeat' split
      all_goals first | rfl | contradiction
  | register rest | clearing rest =>
      left
      cases rest <;> simp [step, threadStep, h]
  | drain =>
      left
      simp only [step, threadStep, h]
      split <;> rfl
  | configure | context | sleeping | reclaim | dropContext | dropCommands =>
      left
      simp [step, threadStep, h]

theorem Ending.progress {channelBuffer : ℕ} (hprog : prog.Lawful)
    (hend : Ending prog channelBuffer b) (hrank : b.rank prog ≠ 0) :
    ∃ a b', (quiet prog).step b a = some b' ∧ Ending prog channelBuffer b' ∧
      b'.rank prog < b.rank prog := by
  by_cases hwaiting : b.path.waiting = []
  · have hpc : b.pc ≠ .ended := fun hpc =>
      hrank (by simp [rank, hpc, distance, hwaiting])
    have hnext : ∀ a, (a = .thread ∨ ∃ r, a = .return_ r) →
        (b.step prog a).isSome = true →
        ∃ a b', (quiet prog).step b a = some b' ∧ Ending prog channelBuffer b' ∧
          b'.rank prog < b.rank prog := by
      intro a ha hsome
      obtain ⟨b', hstep⟩ := Option.isSome_iff_exists.mp hsome
      have hmove := step_move hstep
      refine hend.next (by rcases ha with rfl | ⟨r, rfl⟩ <;> rfl) hstep ?_
        (hmove.rank_lt ha (hend.queue_ne_nil hprog))
      rcases hmove.path_cases with hsame | ⟨pa, _, hpa | ⟨_, _, _, _, rfl, _⟩⟩
      · exact hsame ▸ hend.room
      · rcases ha with rfl | ⟨r, rfl⟩ <;> simp [BridgeAction.pathAction] at hpa
      · simp at ha
    rcases thread_enabled hwaiting hpc with hsome | hsome
    · exact hnext _ (.inl rfl) hsome
    · exact hnext _ (.inr ⟨_, rfl⟩) hsome
  · have hinv := hend.reach.pathInv
    obtain ⟨pa, path, hstep, ⟨t, hpa⟩, hfewer⟩ := hend.room.progress hinv hwaiting
    have hroom : path.HasRoom :=
      hend.room.step hinv hstep (by rintro ⟨_, _, _, rfl⟩; simp at hpa)
    have hrank : ({ b with path := path } : Bridge Slot Cmd Args Evt Call).rank prog <
        b.rank prog := by
      unfold rank
      dsimp only
      omega
    rcases hpa with rfl | rfl
    · exact hend.next (a := .deliver t) rfl (by simp [step, pathStep, hstep]) hroom hrank
    · exact hend.next (a := .fail t) rfl (by simp [step, pathStep, hstep]) hroom hrank

/-- Once a `Stop` is accepted, the thread can end without the application
exactly when every callback under way has room to return. -/
theorem Reachable.canExit_iff {channelBuffer : ℕ} (hprog : prog.Lawful)
    (hreach : Reachable prog channelBuffer b) (hstop : b.StopAccepted prog) :
    b.CanExit prog ↔ b.path.HasRoom := by
  constructor
  · intro hexit
    by_contra hroom
    exact hreach.not_canExit hroom hexit
  · intro hroom
    obtain ⟨b', hrest, hend, hzero⟩ := Machine.reaches_rank_zero
      (M := quiet prog) (I := Ending prog channelBuffer) (rank prog)
      (fun _ hend hrank => hend.progress hprog hrank) b ⟨hreach, hstop, hroom⟩
    have hpc := rank_eq_zero hzero
    refine ⟨b', hrest, hpc, fun hcreated => ?_⟩
    rcases hend.reach.destroyed hprog (.inr (.inr hpc)) with hnone | hdestroyed
    · simp [ContextCreated, hnone, SharedCell.empty] at hcreated
    · exact hdestroyed

/-! ## Runs in which every callback finds room -/

/-- If the move is a callback, the event channel has room for one more event or
is closed. -/
def CallbackHasRoom (b : Bridge Slot Cmd Args Evt Call)
    (a : BridgeAction Slot Cmd Args) : Prop :=
  (∃ t pair args origin, a = .invoke t pair args origin) →
    b.path.chan.closed = true ∨ b.path.load < b.path.chan.capacity

theorem hasRoom_of_follows {channelBuffer : ℕ} (hreach : Reachable prog channelBuffer b)
    (hroom : b.path.HasRoom) {as : List (BridgeAction Slot Cmd Args)}
    (hfollows : (machine prog).Follows CallbackHasRoom b as)
    (hrun : (machine prog).run b as = some b') : b'.path.HasRoom := by
  induction as generalizing b with
  | nil =>
      obtain rfl : b = b' := by simpa using hrun
      exact hroom
  | cons a as ih =>
      obtain ⟨c, hstep, hrest⟩ := (machine prog).run_cons_eq_some.mp hrun
      obtain ⟨hcallback, hfollows⟩ := (Machine.Follows.cons_iff hstep).mp hfollows
      refine ih (hreach.next hstep) ?_
        hfollows hrest
      rcases (step_move hstep).path_cases with hsame | ⟨pa, hpath, ha⟩
      · exact hsame ▸ hroom
      · refine hroom.step hreach.pathInv hpath ?_
        rintro ⟨t, args, origin, rfl⟩
        rcases ha with ha | ⟨t', pair, args', origin', rfl, _⟩
        · exact absurd ha BridgeAction.pathAction_ne_invoke
        · exact hcallback ⟨t', pair, args', origin', rfl⟩

structure ExitsWithRoom (prog : BridgeProgram Slot Cmd Args Evt Call)
    (channelBuffer : ℕ) : Prop where
  states : ∀ b, Reachable prog channelBuffer b → b.StopAccepted prog →
    (b.CanExit prog ↔ b.path.HasRoom)
  runs : ∀ (hpos : 0 < channelBuffer) (mem : CMemory) as b,
    (machine prog).run (spawn prog channelBuffer hpos mem) as = some b →
    (machine prog).Follows CallbackHasRoom (spawn prog channelBuffer hpos mem) as →
    b.StopAccepted prog → b.CanExit prog

theorem exitsWithRoom (hprog : prog.Lawful) (channelBuffer : ℕ) :
    ExitsWithRoom prog channelBuffer where
  states := fun _ hreach hstop => hreach.canExit_iff hprog hstop
  runs := by
    intro hpos mem as b hrun hfollows hstop
    have hspawn : Reachable prog channelBuffer (spawn prog channelBuffer hpos mem) :=
      ⟨hpos, mem, Machine.Reaches.refl _⟩
    have hroom := hasRoom_of_follows hspawn (.inr (Nat.zero_le _)) hfollows hrun
    exact (Reachable.canExit_iff hprog ⟨hpos, mem, as, hrun⟩ hstop).mpr hroom

end Bridge

section

variable (codes : ErrorCodes) (address : String) (port : UInt16)
variable (workerCount : Int32) (config : SpawnConfig)

/-- For both bridges: after an accepted `Stop` the thread can end without the
application exactly when the callbacks under way and the queued events fit into
the channel, or the receiver is closed. -/
theorem spawn_exitsWithRoom :
    Bridge.ExitsWithRoom (spawnServerWithConfig codes address port workerCount config)
        config.channelBuffer ∧
      Bridge.ExitsWithRoom (spawnClientWithConfig codes address port config)
        config.channelBuffer :=
  ⟨Bridge.exitsWithRoom
      (spawnServerWithConfig_lawful codes address port workerCount config) _,
    Bridge.exitsWithRoom (spawnClientWithConfig_lawful codes address port config) _⟩

end

/-- The client connects, the event of that fills the channel, the application
sends `Stop` and receives no more: the callback inside the `disconnect` of that
`Stop` waits for ever. -/
theorem spawnClient_stop_wedged :
    let client := spawnClientWithConfig .numbered "" 9876
      { SpawnConfig.default with channelBuffer := 1 }
    ∃ b, Bridge.Reachable client 1 b ∧ b.StopAccepted client ∧
      b.path.chan.closed = false ∧ b.path.chan.queue = [.connected] ∧
      b.cmd.received = [.stop] ∧ ¬ b.CanExit client := by
  intro client
  have hrun : ∃ b, (Bridge.machine client).run (Bridge.spawn client 1 (by decide) .zero)
      ([.return_ {}] ++ List.replicate 6 .thread ++
        [.read .connected, .read .disconnected,
          .invoke .own ⟨.onConnectedTrampoline, 0⟩ .connected none, .deliver .own,
          .return_ {}, .send .stop, .thread,
          .invoke .own ⟨.onDisconnectedTrampoline, 0⟩ .disconnected none]) = some b ∧
      b.cmd.accepted = [.stop] ∧ b.path.chan.closed = false ∧
      b.path.chan.queue = [.connected] ∧ b.cmd.received = [.stop] ∧
      ¬ b.path.load ≤ b.path.chan.capacity :=
    ⟨_, rfl, rfl, rfl, rfl, rfl, by decide⟩
  obtain ⟨b, hrun, haccepted, hopen, hqueue, hreceived, hload⟩ := hrun
  have hreach : Bridge.Reachable client 1 b := ⟨by decide, .zero, _, hrun⟩
  refine ⟨b, hreach, ⟨.stop, by simp [haccepted], rfl⟩, hopen, hqueue, hreceived, ?_⟩
  exact hreach.not_canExit (by simp [EventPath.HasRoom, hopen, hload])

end EntanglementRs
