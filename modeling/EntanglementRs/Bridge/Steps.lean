import EntanglementRs.Bridge.Model

/-!
# What a step of the bridge can do

One constructor for each way in which a bridge makes a step, with everything
the program checked on that way.  Every invariant of the following files is a
case analysis of `Bridge.Move`; none of them unfolds the program again.
-/

namespace EntanglementRs

open Transition

def BridgeAction.pathAction {Slot Cmd Args : Type} :
    BridgeAction Slot Cmd Args → Option (PathAction CThread Args)
  | .recv => some .recv
  | .closeRx => some .close
  | .dropRx => some .dropReceiver
  | .write mem => some (.write mem)
  | .deliver t => some (.deliver t)
  | .fail t => some (.fail t)
  | _ => none

namespace Bridge

variable {Slot Cmd Args Evt Call : Type} [DecidableEq Slot]

inductive Move (prog : BridgeProgram Slot Cmd Args Evt Call)
    (b : Bridge Slot Cmd Args Evt Call) :
    BridgeAction Slot Cmd Args → Bridge Slot Cmd Args Evt Call → Prop where
  | cloneTx (hsenders : 0 < b.senders) :
      Move prog b .cloneTx { b with senders := b.senders + 1 }
  | dropTx (hsenders : 0 < b.senders) :
      Move prog b .dropTx { b with senders := b.senders - 1 }
  | send (c : Cmd) (cmd : Channel Cmd) (hsenders : 0 < b.senders)
      (hsent : b.cmd.Sent c cmd) :
      Move prog b (.send c) { b with cmd := cmd }
  | path (a : BridgeAction Slot Cmd Args) (pa : PathAction CThread Args)
      (path : EventPath CThread Args Evt) (ha : a.pathAction = some pa)
      (hpath : b.path.step prog.event pa = some path) :
      Move prog b a { b with path := path }
  | read (slot : Slot) (hrunning : b.pc.inCall = true ∨ b.workers = true) :
      Move prog b (.read slot) { b with table := b.table.readSlot slot }
  | invoke (t : CThread) (pair : CallbackPair) (args : Args) (origin : Option ℕ)
      (path : EventPath CThread Args Evt) (hrunning : b.Running t)
      (hread : pair ∈ b.table.read) (hcallee : pair.trampoline = prog.callee args)
      (hsound : b.table.Sound pair)
      (hpath : b.path.step prog.event (.invoke t args origin) = some path) :
      Move prog b (.invoke t pair args origin)
        { b with path := path, fired := b.fired + 1 }
  | fault (t : CThread) (pair : CallbackPair) (args : Args) (origin : Option ℕ)
      (hrunning : b.Running t) (hread : pair ∈ b.table.read)
      (hcallee : pair.trampoline = prog.callee args)
      (hfault : ¬ b.table.Sound pair) :
      Move prog b (.invoke t pair args origin)
        { b with table := b.table.invoke pair, fired := b.fired + 1 }
  | created (r : Reply) (hidle : ¬ b.path.Busy .own) (hpc : b.pc = .creating) :
      Move prog b (.return_ r) { b with pc := .configure }
  | createFailed (r : Reply) (hidle : ¬ b.path.Busy .own) (hpc : b.pc = .creating) :
      Move prog b (.return_ r) { b with pc := .dropCommands, evtTx := false }
  | opened (r : Reply) (hidle : ¬ b.path.Busy .own) (hpc : b.pc = .opening)
      (hresult : prog.openObject.result r = some (.ok ())) :
      Move prog b (.return_ r) { b with pc := .drain, openCode := some r.code }
  | openFailed (r : Reply) (hidle : ¬ b.path.Busy .own) (hpc : b.pc = .opening)
      (hresult : prog.openObject.result r ≠ some (.ok ())) :
      Move prog b (.return_ r)
        { b with
          pc := if prog.reclaimsOnFailure then .reclaim else .dropContext
          openCode := some r.code }
  | stopped (r : Reply) (c : Cmd) (hidle : ¬ b.path.Busy .own)
      (hpc : b.pc = .exec c) (hstop : prog.isStop c = true)
      (hjoined : b.path.waiting = []) :
      Move prog b (.return_ r) { b with pc := .reclaim, workers := false }
  | executed (r : Reply) (c : Cmd) (hidle : ¬ b.path.Busy .own)
      (hpc : b.pc = .exec c) (hstop : prog.isStop c = false) :
      Move prog b (.return_ r)
        { b with
          pc := .drain
          results :=
            if (prog.message c).isSome then b.results ++ [(c, r.code)]
            else b.results }
  | polled (r : Reply) (hidle : ¬ b.path.Busy .own) (hpc : b.pc = .polling) :
      Move prog b (.return_ r)
        { b with pc := .updating, calls := b.calls ++ prog.update.calls }
  | updated (r : Reply) (hidle : ¬ b.path.Busy .own) (hpc : b.pc = .updating) :
      Move prog b (.return_ r) { b with pc := .sleeping }
  | destroyed (r : Reply) (hidle : ¬ b.path.Busy .own) (hpc : b.pc = .destroying)
      (hjoined : b.path.waiting = []) :
      Move prog b (.return_ r) { b with pc := .dropCommands, workers := false }
  | configure (hpc : b.pc = .configure) :
      Move prog b .thread
        { b with pc := .context, calls := b.calls ++ prog.configure }
  | context (hpc : b.pc = .context) :
      Move prog b .thread
        { b with
          pc := .register prog.registrations
          ctx := (b.ctx.acquire .localRef).acquire .rawRef
          ctxPtr := b.table.fresh
          table := b.table.alloc prog.contextType }
  | register (slot : Slot) (trampoline : Trampoline)
      (rest : List (Slot × Trampoline))
      (hpc : b.pc = .register ((slot, trampoline) :: rest)) :
      Move prog b .thread
        { b with
          pc := .register rest
          table := b.table.set slot (some ⟨trampoline, b.ctxPtr⟩)
          calls := b.calls ++ [prog.setOn slot (some ⟨trampoline, b.ctxPtr⟩)] }
  | enterOpen (hpc : b.pc = .register []) :
      Move prog b .thread
        { b with
          pc := .opening
          workers := prog.hasWorkers
          calls := b.calls ++ prog.openObject.calls
          fired := 0 }
  | take (c : Cmd) (cmd : Channel Cmd) (hpc : b.pc = .drain)
      (hreceived : b.cmd.Received c cmd) :
      Move prog b .thread
        { b with
          pc := .exec c
          cmd := cmd
          calls := b.calls ++ (prog.exec c).calls
          fired := 0 }
  | tick (hpc : b.pc = .drain) (hempty : b.cmd.queue = []) :
      Move prog b .thread
        { b with
          pc := .polling
          calls := b.calls ++ prog.poll.calls
          sawClosed :=
            if b.senders = 0 then some (b.sawClosed.getD b.calls.length)
            else b.sawClosed
          fired := 0 }
  | wake (hpc : b.pc = .sleeping) : Move prog b .thread { b with pc := .drain }
  | reclaim (hpc : b.pc = .reclaim) :
      Move prog b .thread { b.release .rawRef with pc := .dropContext }
  | dropContext (hpc : b.pc = .dropContext) :
      Move prog b .thread { b.release .localRef with pc := .clearing prog.clears }
  | clear (slot : Slot) (rest : List Slot) (hpc : b.pc = .clearing (slot :: rest)) :
      Move prog b .thread
        { b with
          pc := .clearing rest
          table := b.table.set slot none
          calls := b.calls ++ [prog.setOn slot none] }
  | enterDestroy (hpc : b.pc = .clearing []) :
      Move prog b .thread
        { b with pc := .destroying, calls := b.calls ++ [prog.destroy] }
  | dropCommands (hpc : b.pc = .dropCommands) :
      Move prog b .thread { b with pc := .ended, cmd := b.cmd.dropReceiver }

variable {prog : BridgeProgram Slot Cmd Args Evt Call}
variable {b b' : Bridge Slot Cmd Args Evt Call}

section Release

omit [DecidableEq Slot]

variable (b : Bridge Slot Cmd Args Evt Call) (r : CtxRef)

@[simp] theorem release_path : (b.release r).path = b.path := by
  unfold release
  split <;> rfl

@[simp] theorem release_cmd : (b.release r).cmd = b.cmd := by
  unfold release
  split <;> rfl

@[simp] theorem release_senders : (b.release r).senders = b.senders := by
  unfold release
  split <;> rfl

@[simp] theorem release_ctx : (b.release r).ctx = b.ctx.release r := by
  unfold release
  split <;> rfl

@[simp] theorem release_ctxPtr : (b.release r).ctxPtr = b.ctxPtr := by
  unfold release
  split <;> rfl

@[simp] theorem release_workers : (b.release r).workers = b.workers := by
  unfold release
  split <;> rfl

@[simp] theorem release_calls : (b.release r).calls = b.calls := by
  unfold release
  split <;> rfl

@[simp] theorem release_results : (b.release r).results = b.results := by
  unfold release
  split <;> rfl

@[simp] theorem release_openCode : (b.release r).openCode = b.openCode := by
  unfold release
  split <;> rfl

@[simp] theorem release_sawClosed : (b.release r).sawClosed = b.sawClosed := by
  unfold release
  split <;> rfl

theorem release_evtTx_of_shared (hheld : b.ctx.held ≠ [r]) :
    (b.release r).evtTx = b.evtTx := by
  simp [release, hheld]

theorem release_evtTx_of_last (hheld : b.ctx.held = [r]) :
    (b.release r).evtTx = false := by
  simp [release, hheld]

theorem evtTx_of_release (htx : (b.release r).evtTx = true) : b.evtTx = true := by
  unfold release at htx
  split at htx
  next => contradiction
  next => exact htx

theorem release_table_of_shared (hheld : b.ctx.held ≠ [r]) :
    (b.release r).table = b.table := by
  simp [release, hheld]

theorem release_table_of_last (hheld : b.ctx.held = [r]) :
    (b.release r).table = b.table.free b.ctxPtr := by
  simp [release, hheld]

end Release

omit [DecidableEq Slot] in
theorem pathStep_eq_some {pa : PathAction CThread Args}
    (hstep : b.pathStep prog pa = some b') :
    ∃ path, b.path.step prog.event pa = some path ∧ b' = { b with path := path } := by
  obtain ⟨path, hpath, rfl⟩ := Option.map_eq_some_iff.mp hstep
  exact ⟨path, hpath, rfl⟩

theorem threadStep_move (hstep : b.threadStep prog = some b') :
    Move prog b .thread b' := by
  unfold threadStep at hstep
  split at hstep
  next hpc => exact Option.some.inj hstep ▸ .configure hpc
  next hpc => exact Option.some.inj hstep ▸ .context hpc
  next slot trampoline rest hpc =>
    exact Option.some.inj hstep ▸ .register slot trampoline rest hpc
  next hpc => exact Option.some.inj hstep ▸ .enterOpen hpc
  next hpc =>
    split at hstep
    next c cmd hrecv =>
      exact Option.some.inj hstep ▸ .take c cmd hpc (Channel.received_of_recv? hrecv)
    next hrecv =>
      exact Option.some.inj hstep ▸ .tick hpc (Channel.recv?_eq_none_iff.mp hrecv)
  next hpc => exact Option.some.inj hstep ▸ .wake hpc
  next hpc => exact Option.some.inj hstep ▸ .reclaim hpc
  next hpc => exact Option.some.inj hstep ▸ .dropContext hpc
  next slot rest hpc => exact Option.some.inj hstep ▸ .clear slot rest hpc
  next hpc => exact Option.some.inj hstep ▸ .enterDestroy hpc
  next hpc => exact Option.some.inj hstep ▸ .dropCommands hpc
  next => contradiction

omit [DecidableEq Slot] in
theorem returnStep_cases {r : Reply} (hstep : b.returnStep prog r = some b') :
    ¬ b.path.Busy .own := by
  unfold returnStep at hstep
  split at hstep
  next => contradiction
  next hidle => exact hidle

theorem returnStep_move {r : Reply} (hstep : b.returnStep prog r = some b') :
    Move prog b (.return_ r) b' := by
  have hidle := returnStep_cases hstep
  unfold returnStep at hstep
  rw [if_neg hidle] at hstep
  split at hstep
  next hpc =>
    split at hstep
    next => exact Option.some.inj hstep ▸ .created r hidle hpc
    next => exact Option.some.inj hstep ▸ .createFailed r hidle hpc
  next hpc =>
    split at hstep
    next hresult => exact Option.some.inj hstep ▸ .opened r hidle hpc hresult
    next hresult => exact Option.some.inj hstep ▸ .openFailed r hidle hpc hresult
  next c hpc =>
    split at hstep
    next hstop =>
      split at hstep
      next hjoined =>
        exact Option.some.inj hstep ▸ .stopped r c hidle hpc hstop hjoined
      next => contradiction
    next hstop =>
      exact Option.some.inj hstep ▸ .executed r c hidle hpc (by simpa using hstop)
  next hpc => exact Option.some.inj hstep ▸ .polled r hidle hpc
  next hpc => exact Option.some.inj hstep ▸ .updated r hidle hpc
  next hpc =>
    split at hstep
    next hjoined => exact Option.some.inj hstep ▸ .destroyed r hidle hpc hjoined
    next => contradiction
  next => contradiction

theorem step_move {a : BridgeAction Slot Cmd Args}
    (hstep : b.step prog a = some b') : Move prog b a b' := by
  cases a with
  | cloneTx =>
      simp only [step] at hstep
      split at hstep
      next hsenders => exact Option.some.inj hstep ▸ .cloneTx hsenders
      next => contradiction
  | dropTx =>
      simp only [step] at hstep
      split at hstep
      next hsenders => exact Option.some.inj hstep ▸ .dropTx hsenders
      next => contradiction
  | send c =>
      simp only [step] at hstep
      split at hstep
      next hsenders =>
        obtain ⟨cmd, hsend, rfl⟩ := Option.map_eq_some_iff.mp hstep
        exact .send c cmd hsenders (Channel.sent_of_send? hsend)
      next => contradiction
  | read slot =>
      simp only [step] at hstep
      split at hstep
      next hrunning => exact Option.some.inj hstep ▸ .read slot hrunning
      next => contradiction
  | invoke t pair args origin =>
      simp only [step] at hstep
      split at hstep
      next hcall =>
        obtain ⟨hrunning, hread, hcallee⟩ := hcall
        split at hstep
        next hsound =>
          obtain ⟨path, hpath, rfl⟩ := Option.map_eq_some_iff.mp hstep
          exact .invoke t pair args origin path hrunning hread hcallee hsound hpath
        next hfault =>
          exact Option.some.inj hstep ▸
            .fault t pair args origin hrunning hread hcallee hfault
      next => contradiction
  | recv =>
      obtain ⟨path, hpath, rfl⟩ := pathStep_eq_some hstep
      exact .path .recv _ path rfl hpath
  | closeRx =>
      obtain ⟨path, hpath, rfl⟩ := pathStep_eq_some hstep
      exact .path .closeRx _ path rfl hpath
  | dropRx =>
      obtain ⟨path, hpath, rfl⟩ := pathStep_eq_some hstep
      exact .path .dropRx _ path rfl hpath
  | write mem =>
      obtain ⟨path, hpath, rfl⟩ := pathStep_eq_some hstep
      exact .path (.write mem) _ path rfl hpath
  | deliver t =>
      obtain ⟨path, hpath, rfl⟩ := pathStep_eq_some hstep
      exact .path (.deliver t) _ path rfl hpath
  | fail t =>
      obtain ⟨path, hpath, rfl⟩ := pathStep_eq_some hstep
      exact .path (.fail t) _ path rfl hpath
  | return_ r => exact returnStep_move hstep
  | thread => exact threadStep_move hstep

theorem Move.path_cases {a : BridgeAction Slot Cmd Args} (hmove : Move prog b a b') :
    b'.path = b.path ∨
      ∃ pa, b.path.step prog.event pa = some b'.path ∧
        (a.pathAction = some pa ∨ ∃ t pair args origin,
          a = .invoke t pair args origin ∧ pa = .invoke t args origin) := by
  cases hmove with
  | path _ pa path ha hpath => exact .inr ⟨pa, hpath, .inl ha⟩
  | invoke t pair args origin path hrunning hread hcallee hsound hpath =>
      exact .inr ⟨_, hpath, .inr ⟨t, pair, args, origin, rfl, rfl⟩⟩
  | reclaim hpc => exact .inl (release_path b .rawRef)
  | dropContext hpc => exact .inl (release_path b .localRef)
  | _ => exact .inl rfl

/-- Seen from the event channel, a bridge is an event path. -/
theorem projectsTo_path (prog : BridgeProgram Slot Cmd Args Evt Call) :
    (machine prog).ProjectsTo (EventPath.machine prog.event)
      (fun b : Bridge Slot Cmd Args Evt Call => b.path) := by
  intro b a b' hstep
  cases step_move hstep with
  | path _ pa path ha hpath => exact .inr ⟨pa, hpath⟩
  | invoke t pair args origin path hrunning hread hcallee hsound hpath =>
      exact .inr ⟨.invoke t args origin, hpath⟩
  | reclaim hpc => exact .inl (release_path b .rawRef)
  | dropContext hpc => exact .inl (release_path b .localRef)
  | _ => exact .inl rfl

theorem Reachable.invariant {channelBuffer : ℕ}
    {I : Bridge Slot Cmd Args Evt Call → Prop}
    (hinit : ∀ (hpos : 0 < channelBuffer) (mem : CMemory),
      I (spawn prog channelBuffer hpos mem))
    (hstep : ∀ b a b', I b → Move prog b a b' → I b')
    (hreach : Reachable prog channelBuffer b) : I b := by
  obtain ⟨hpos, mem, hreach⟩ := hreach
  exact hreach.invariant (fun b a b' hI h => hstep b a b' hI (step_move h))
    (hinit hpos mem)

theorem Reachable.tail {channelBuffer : ℕ}
    (hreach : Reachable prog channelBuffer b)
    (hrest : (machine prog).Reaches b b') : Reachable prog channelBuffer b' := by
  obtain ⟨hpos, mem, hfirst⟩ := hreach
  exact ⟨hpos, mem, hfirst.trans hrest⟩

theorem Reachable.next {channelBuffer : ℕ} {a : BridgeAction Slot Cmd Args}
    (hreach : Reachable prog channelBuffer b) (hstep : b.step prog a = some b') :
    Reachable prog channelBuffer b' :=
  hreach.tail (Machine.Reaches.tail (Machine.Reaches.refl b) hstep)

theorem Reachable.pathInv {channelBuffer : ℕ} (hreach : Reachable prog channelBuffer b) :
    EventPath.Inv prog.event b.path := by
  obtain ⟨hpos, mem, hreach⟩ := hreach
  exact EventPath.inv_of_reaches ((projectsTo_path prog).reaches hreach)

theorem Reachable.path_capacity {channelBuffer : ℕ}
    (hreach : Reachable prog channelBuffer b) : b.path.chan.capacity = channelBuffer := by
  obtain ⟨hpos, mem, hreach⟩ := hreach
  exact EventPath.capacity_of_reaches ((projectsTo_path prog).reaches hreach)

theorem Reachable.cmd_capacity {channelBuffer : ℕ}
    (hreach : Reachable prog channelBuffer b) : b.cmd.capacity = channelBuffer := by
  refine hreach.invariant (I := fun b => b.cmd.capacity = channelBuffer) (fun _ _ => rfl) ?_
  intro b a b' hcapacity hmove
  cases hmove with
  | send c cmd hsenders hsent => exact hsent.capacity.trans hcapacity
  | take c cmd hpc hreceived => exact hreceived.capacity.trans hcapacity
  | reclaim hpc => exact (congrArg Channel.capacity (release_cmd b .rawRef)).trans hcapacity
  | dropContext hpc =>
      exact (congrArg Channel.capacity (release_cmd b .localRef)).trans hcapacity
  | _ => exact hcapacity

end Bridge

end EntanglementRs
