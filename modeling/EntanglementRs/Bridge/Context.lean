import EntanglementRs.Bridge.Threads
import EntanglementRs.Bridge.Programs

/-!
# The callback context and the end of the thread

The context has two strong references: the local `ctx`, which the end of the
thread drops on every path, and the one behind `ctx_ptr`, which only the
explicit `Arc::from_raw` before a `return` reclaims.  This file follows both
through every run and decides which ways of ending close the event channel.
-/

namespace EntanglementRs

open Transition

def Pc.beforeContext {Slot Cmd : Type} : Pc Slot Cmd → Bool
  | .creating | .configure | .context => true
  | _ => false

/-- The statements during which both references exist. -/
def Pc.sharesContext {Slot Cmd : Type} : Pc Slot Cmd → Bool
  | .register _ | .opening | .drain | .exec _ | .polling | .updating
  | .sleeping | .reclaim => true
  | _ => false

def Pc.afterContext {Slot Cmd : Type} : Pc Slot Cmd → Bool
  | .clearing _ | .destroying | .dropCommands | .ended => true
  | _ => false

namespace Bridge

variable {Slot Cmd Args Evt Call : Type} [DecidableEq Slot]

def ContextCreated (b : Bridge Slot Cmd Args Evt Call) : Prop :=
  b.ctx.held ≠ [] ∨ b.ctx.released ≠ []

/-- Where the two references are, statement by statement. -/
inductive ContextState (prog : BridgeProgram Slot Cmd Args Evt Call)
    (b : Bridge Slot Cmd Args Evt Call) : Prop where
  | absent (hpc : b.pc.beforeContext = true) (hctx : b.ctx = .empty)
      (htx : b.evtTx = true) (hopen : b.openCode = none)
  | never (hpc : b.pc = .dropCommands ∨ b.pc = .ended) (hctx : b.ctx = .empty)
      (htx : b.evtTx = false) (hopen : b.openCode = none)
  | shared (hpc : b.pc.sharesContext = true)
      (hctx : b.ctx = ⟨[.localRef, .rawRef], [], 0⟩) (htx : b.evtTx = true)
      (hopen : b.OpenFailed → prog.reclaimsOnFailure = true)
  | reclaimed (hpc : b.pc = .dropContext)
      (hctx : b.ctx = ⟨[.localRef], [.rawRef], 0⟩) (htx : b.evtTx = true)
      (hopen : b.OpenFailed → prog.reclaimsOnFailure = true)
  /-- `expect` panicked, and nothing reclaims the raw reference any more. -/
  | unwinding (hpc : b.pc = .dropContext)
      (hctx : b.ctx = ⟨[.localRef, .rawRef], [], 0⟩) (htx : b.evtTx = true)
      (hopen : b.OpenFailed) (hpanic : prog.reclaimsOnFailure = false)
  | freed (hpc : b.pc.afterContext = true)
      (hctx : b.ctx = ⟨[], [.rawRef, .localRef], 1⟩) (htx : b.evtTx = false)
      (hopen : b.OpenFailed → prog.reclaimsOnFailure = true)
  | leaked (hpc : b.pc.afterContext = true)
      (hctx : b.ctx = ⟨[.rawRef], [.localRef], 0⟩) (htx : b.evtTx = true)
      (hopen : b.OpenFailed) (hpanic : prog.reclaimsOnFailure = false)

variable {prog : BridgeProgram Slot Cmd Args Evt Call}
variable {b b' : Bridge Slot Cmd Args Evt Call}

omit [DecidableEq Slot] in
theorem ContextState.of_same (hstate : ContextState prog b)
    (hpc : b'.pc.beforeContext = b.pc.beforeContext ∧
      b'.pc.sharesContext = b.pc.sharesContext ∧
      b'.pc.afterContext = b.pc.afterContext ∧
      (b.pc = .dropContext → b'.pc = .dropContext) ∧
      (b.pc = .dropCommands ∨ b.pc = .ended → b'.pc = .dropCommands ∨ b'.pc = .ended))
    (hctx : b'.ctx = b.ctx) (htx : b'.evtTx = b.evtTx)
    (hopen : b'.openCode = b.openCode) : ContextState prog b' := by
  obtain ⟨hbefore, hshares, hafter, hdrop, hend⟩ := hpc
  have hfailed : b'.OpenFailed ↔ b.OpenFailed := by simp [OpenFailed, hopen]
  cases hstate with
  | absent p c t o =>
      exact .absent (hbefore.trans p) (hctx.trans c) (htx.trans t) (hopen.trans o)
  | never p c t o => exact .never (hend p) (hctx.trans c) (htx.trans t) (hopen.trans o)
  | shared p c t o =>
      exact .shared (hshares.trans p) (hctx.trans c) (htx.trans t) (o ∘ hfailed.mp)
  | reclaimed p c t o =>
      exact .reclaimed (hdrop p) (hctx.trans c) (htx.trans t) (o ∘ hfailed.mp)
  | unwinding p c t o n =>
      exact .unwinding (hdrop p) (hctx.trans c) (htx.trans t) (hfailed.mpr o) n
  | freed p c t o =>
      exact .freed (hafter.trans p) (hctx.trans c) (htx.trans t) (o ∘ hfailed.mp)
  | leaked p c t o n =>
      exact .leaked (hafter.trans p) (hctx.trans c) (htx.trans t) (hfailed.mpr o) n

omit [DecidableEq Slot] in
theorem not_openFailed_of_none (hopen : b.openCode = none) : ¬ b.OpenFailed := by
  rintro ⟨code, hcode, _⟩
  rw [hopen] at hcode
  contradiction

omit [DecidableEq Slot] in
theorem ContextState.shared_of_pc (hstate : ContextState prog b)
    (hpc : b.pc.sharesContext = true) :
    b.ctx = ⟨[.localRef, .rawRef], [], 0⟩ ∧ b.evtTx = true ∧
      (b.OpenFailed → prog.reclaimsOnFailure = true) := by
  cases hstate with
  | shared p c t o => exact ⟨c, t, o⟩
  | absent p | freed p | leaked p =>
      cases h : b.pc <;>
        simp [h, Pc.beforeContext, Pc.sharesContext, Pc.afterContext] at hpc p
  | never p => rcases p with p | p <;> simp [p, Pc.sharesContext] at hpc
  | reclaimed p | unwinding p => simp [p, Pc.sharesContext] at hpc

theorem ContextState.move (hprog : prog.Lawful) (hstate : ContextState prog b)
    {a : BridgeAction Slot Cmd Args} (hmove : Move prog b a b') :
    ContextState prog b' := by
  cases hmove with
  | cloneTx | dropTx | send | path | read | invoke | fault =>
      exact hstate.of_same ⟨rfl, rfl, rfl, id, id⟩ rfl rfl rfl
  | created r hidle hpc | configure hpc =>
      exact hstate.of_same (by simp [hpc, Pc.beforeContext, Pc.sharesContext, Pc.afterContext])
        rfl rfl rfl
  | register slot trampoline rest hpc | enterOpen hpc | take c cmd hpc | tick hpc
  | wake hpc | clear slot rest hpc | enterDestroy hpc | dropCommands hpc =>
      exact hstate.of_same (by simp [hpc, Pc.beforeContext, Pc.sharesContext, Pc.afterContext])
        rfl rfl rfl
  | stopped r c hidle hpc | executed r c hidle hpc | polled r hidle hpc
  | updated r hidle hpc | destroyed r hidle hpc =>
      exact hstate.of_same (by simp [hpc, Pc.beforeContext, Pc.sharesContext, Pc.afterContext])
        rfl rfl rfl
  | createFailed r hidle hpc =>
      cases hstate with
      | absent p c t o => exact .never (.inl rfl) c rfl o
      | _ => simp_all [Pc.sharesContext, Pc.afterContext]
  | context hpc =>
      cases hstate with
      | absent p c t o =>
          refine .shared rfl ?_ t fun hfailed => ?_
          · simp [c, SharedCell.empty, SharedCell.acquire]
          · exact absurd hfailed (not_openFailed_of_none o)
      | _ => simp_all [Pc.sharesContext, Pc.afterContext]
  | opened r hidle hpc hresult =>
      obtain ⟨hctx, htx, _⟩ := hstate.shared_of_pc (by simp [hpc, Pc.sharesContext])
      refine .shared rfl hctx htx ?_
      rintro ⟨code, hcode, hneg⟩
      obtain rfl : r.code = code := by simpa using hcode
      exact absurd ((hprog.opens_iff r).mp hresult) hneg
  | openFailed r hidle hpc hresult =>
      obtain ⟨hctx, htx, _⟩ := hstate.shared_of_pc (by simp [hpc, Pc.sharesContext])
      cases hreclaims : prog.reclaimsOnFailure with
      | true => exact .shared (by simp [Pc.sharesContext]) hctx htx fun _ => hreclaims
      | false =>
          refine .unwinding (by simp) hctx htx ⟨r.code, rfl, ?_⟩ hreclaims
          exact fun hcode => hresult ((hprog.opens_iff r).mpr hcode)
  | reclaim hpc =>
      obtain ⟨hctx, htx, hopen⟩ := hstate.shared_of_pc (by simp [hpc, Pc.sharesContext])
      have hshared : b.ctx.held ≠ [.rawRef] := by simp [hctx]
      refine .reclaimed rfl ?_ ((release_evtTx_of_shared b .rawRef hshared).trans htx) ?_
      · change (b.release .rawRef).ctx = _
        rw [release_ctx, hctx]
        rfl
      · rintro ⟨code, hcode, hneg⟩
        exact hopen ⟨code, (release_openCode b .rawRef) ▸ hcode, hneg⟩
  | dropContext hpc =>
      cases hstate with
      | reclaimed p c t o =>
          have hlast : b.ctx.held = [.localRef] := by simp [c]
          refine .freed rfl ?_ (release_evtTx_of_last b .localRef hlast) ?_
          · change (b.release .localRef).ctx = _
            rw [release_ctx, c]
            rfl
          · rintro ⟨code, hcode, hneg⟩
            exact o ⟨code, (release_openCode b .localRef) ▸ hcode, hneg⟩
      | unwinding p c t o n =>
          have hshared : b.ctx.held ≠ [.localRef] := by simp [c]
          obtain ⟨code, hcode, hneg⟩ := o
          refine .leaked rfl ?_
            ((release_evtTx_of_shared b .localRef hshared).trans t)
            ⟨code, (release_openCode b .localRef).trans hcode, hneg⟩ n
          change (b.release .localRef).ctx = _
          rw [release_ctx, c]
          rfl
      | _ => simp_all [Pc.beforeContext, Pc.sharesContext, Pc.afterContext]

theorem Reachable.contextState {channelBuffer : ℕ} (hprog : prog.Lawful)
    (hreach : Reachable prog channelBuffer b) : ContextState prog b :=
  hreach.invariant (fun _ _ => .absent rfl rfl rfl rfl)
    fun _ _ _ hstate hmove => hstate.move hprog hmove

/-! ## What the application receives at the end -/

theorem recv_all (prog : BridgeProgram Slot Cmd Args Evt Call)
    (b : Bridge Slot Cmd Args Evt Call) :
    ∃ b', (machine prog).run b (List.replicate b.path.chan.queue.length .recv) = some b' ∧
      b'.path.chan.received = b.path.chan.received ++ b.path.chan.queue ∧
      b'.path.chan.queue = [] ∧ b'.evtTx = b.evtTx := by
  induction hqueue : b.path.chan.queue generalizing b with
  | nil => exact ⟨b, rfl, by simp, hqueue, rfl⟩
  | cons e rest ih =>
      obtain ⟨chan, hrecv, hrest⟩ := Channel.recv?_of_cons hqueue
      have hreceived := (Channel.received_of_recv? hrecv).received
      let b₁ : Bridge Slot Cmd Args Evt Call :=
        { b with path := { b.path with chan := chan } }
      have hstep : (machine prog).step b .recv = some b₁ := by
        simp [machine, step, pathStep, EventPath.step, hrecv, b₁]
      obtain ⟨b', hrun, hall, hempty, htx⟩ := ih b₁ hrest
      refine ⟨b', ?_, ?_, hempty, htx⟩
      · rw [List.length_cons, List.replicate_succ]
        exact (Machine.run_cons_eq_some _).mpr ⟨b₁, hstep, hrun⟩
      · rw [hall]
        change chan.received ++ rest = _
        rw [hreceived, List.append_assoc]
        rfl

/-- How a thread that made the context should leave it behind. -/
structure ClosesEvents (prog : BridgeProgram Slot Cmd Args Evt Call)
    (b : Bridge Slot Cmd Args Evt Call) : Prop where
  local_once : b.ctx.released.count .localRef = 1
  raw_once : b.ctx.released.count .rawRef = 1
  freed_once : b.ctx.frees = 1
  sender_dropped : b.evtTx = false
  no_more_events : ∀ b', (machine prog).Reaches b b' →
    b'.path.chan.accepted = b.path.chan.accepted
  drains : ∃ b', (machine prog).run b
      (List.replicate b.path.chan.queue.length .recv) = some b' ∧
    b'.path.chan.received = b.path.chan.received ++ b.path.chan.queue ∧
    b'.recvResult = .finished

theorem closesEvents_iff {channelBuffer : ℕ} (hprog : prog.Lawful)
    (hreach : Reachable prog channelBuffer b) (hpc : b.pc = .ended)
    (hcreated : b.ContextCreated) :
    b.ClosesEvents prog ↔ (b.OpenFailed → prog.reclaimsOnFailure = true) := by
  have hthreads := hreach.threadsInv
  cases hreach.contextState hprog with
  | absent p | shared p => simp [hpc, Pc.beforeContext, Pc.sharesContext] at p
  | reclaimed p | unwinding p => simp [hpc] at p
  | never p c t o => simp [ContextCreated, c, SharedCell.empty] at hcreated
  | leaked p c t o n =>
      constructor
      · intro hcloses
        exact absurd (t.symm.trans hcloses.sender_dropped) (by decide)
      · intro hopen
        exact absurd ((hopen o).symm.trans n) (by decide)
  | freed p c t o =>
      refine ⟨fun _ => o, fun _ => ?_⟩
      refine ⟨by simp [c], by simp [c], by simp [c], t, ?_, ?_⟩
      · intro b' hrest
        have hall := hrest.invariant
          (I := fun b' => b'.ThreadsInv ∧ b'.pc = .ended ∧
            b'.path.chan.accepted = b.path.chan.accepted)
          (fun s a s' hI hstep => by
            have hmove := step_move hstep
            obtain ⟨hend, hsame⟩ := hI.1.ended_accepted hI.2.1 hmove
            exact ⟨hI.1.move hmove, hend, hsame.trans hI.2.2⟩)
          ⟨hthreads, hpc, rfl⟩
        exact hall.2.2
      · obtain ⟨b', hrun, hreceived, hempty, htx⟩ := recv_all prog b
        refine ⟨b', hrun, hreceived, ?_⟩
        simp [recvResult, hempty, htx, t]

end Bridge

section

variable (codes : ErrorCodes) (address : String) (port : UInt16)
variable (workerCount : Int32) (config : SpawnConfig)

/-- The server bridge closes its event channel exactly when `start` has not
failed; the client bridge closes it however its thread ends. -/
theorem spawn_closesEvents_iff :
    (∀ b, Bridge.Reachable (spawnServerWithConfig codes address port workerCount config)
        config.channelBuffer b →
      b.pc = .ended → b.ContextCreated →
      (b.ClosesEvents (spawnServerWithConfig codes address port workerCount config) ↔
        ¬ b.OpenFailed)) ∧
    ∀ b, Bridge.Reachable (spawnClientWithConfig codes address port config)
        config.channelBuffer b →
      b.pc = .ended → b.ContextCreated →
      b.ClosesEvents (spawnClientWithConfig codes address port config) := by
  constructor
  · intro b hreach hpc hcreated
    rw [Bridge.closesEvents_iff
      (spawnServerWithConfig_lawful codes address port workerCount config)
      hreach hpc hcreated]
    exact ⟨fun h hfailed => absurd (h hfailed) (by simp [spawnServerWithConfig]),
      fun h hfailed => absurd hfailed h⟩
  · intro b hreach hpc hcreated
    rw [Bridge.closesEvents_iff (spawnClientWithConfig_lawful codes address port config)
      hreach hpc hcreated]
    exact fun _ => rfl

end

def openMoves {Slot Cmd Args : Type} (code : Int32) : List (BridgeAction Slot Cmd Args) :=
  [.return_ {}] ++ List.replicate 6 .thread ++ [.return_ { code := code }]

theorem spawn_closesEvents_stopped_unconnected :
    let server := spawnServerWithConfig .numbered "" 9876 1 .default
    let client := spawnClientWithConfig .numbered "" 9876 .default
    (∃ b, Bridge.Reachable server SpawnConfig.default.channelBuffer b ∧
      b.pc = .ended ∧ b.ClosesEvents server) ∧
    ∃ b, Bridge.Reachable client SpawnConfig.default.channelBuffer b ∧
      b.pc = .ended ∧ b.OpenFailed ∧ b.ClosesEvents client := by
  intro server client
  have hboth := spawn_closesEvents_iff .numbered "" 9876 1 .default
  constructor
  · have hrun : ∃ b, (Bridge.machine server).run
        (Bridge.spawn server SpawnConfig.default.channelBuffer (by decide) .zero)
        (openMoves 0 ++ [.send .stop, .thread, .return_ {}] ++
          List.replicate 12 .thread ++ [.return_ {}, .thread]) = some b ∧
        b.pc = .ended ∧ b.ContextCreated ∧ b.openCode = some 0 :=
      ⟨_, rfl, rfl, .inr (by decide), rfl⟩
    obtain ⟨b, hrun, hpc, hcreated, hopen⟩ := hrun
    have hreach : Bridge.Reachable server SpawnConfig.default.channelBuffer b :=
      ⟨by decide, .zero, _, hrun⟩
    refine ⟨b, hreach, hpc, (hboth.1 b hreach hpc hcreated).mpr ?_⟩
    rintro ⟨code, hcode, hneg⟩
    obtain rfl : (0 : Int32) = code := Option.some.inj (hopen.symm.trans hcode)
    exact hneg (by decide)
  · have hrun : ∃ b, (Bridge.machine client).run
        (Bridge.spawn client SpawnConfig.default.channelBuffer (by decide) .zero)
        (openMoves (-2) ++ List.replicate 11 .thread ++ [.return_ {}, .thread]) = some b ∧
        b.pc = .ended ∧ b.ContextCreated ∧ b.openCode = some (-2) :=
      ⟨_, rfl, rfl, .inr (by decide), rfl⟩
    obtain ⟨b, hrun, hpc, hcreated, hopen⟩ := hrun
    have hreach : Bridge.Reachable client SpawnConfig.default.channelBuffer b :=
      ⟨by decide, .zero, _, hrun⟩
    exact ⟨b, hreach, hpc, ⟨-2, hopen, by decide⟩, hboth.2 b hreach hpc hcreated⟩

/-- When `start` fails, the thread is gone and the event `Sender` is not: the
application waits for an event that nobody can send. -/
theorem spawnServer_failed_start_keeps_sender :
    let prog := spawnServerWithConfig .numbered "" 9876 1 .default
    ∃ b, Bridge.Reachable prog SpawnConfig.default.channelBuffer b ∧
      b.pc = .ended ∧ b.ContextCreated ∧ b.evtTx = true ∧ b.ctx.frees = 0 ∧
      b.recvResult = .waits ∧ ¬ b.ClosesEvents prog := by
  intro prog
  have hrun : ∃ b, (Bridge.machine prog).run
      (Bridge.spawn prog SpawnConfig.default.channelBuffer (by decide) .zero)
      (openMoves (-1) ++ List.replicate 11 .thread ++ [.return_ {}, .thread]) = some b ∧
      b.pc = .ended ∧ b.ContextCreated ∧ b.evtTx = true ∧ b.ctx.frees = 0 ∧
      b.recvResult = .waits :=
    ⟨_, rfl, rfl, .inl (by decide), rfl, rfl, rfl⟩
  obtain ⟨b, hrun, hpc, hcreated, htx, hfrees, hwaits⟩ := hrun
  refine ⟨b, ⟨by decide, .zero, _, hrun⟩, hpc, hcreated, htx, hfrees, hwaits, ?_⟩
  exact fun hcloses => absurd (htx.symm.trans hcloses.sender_dropped) (by decide)

end EntanglementRs
