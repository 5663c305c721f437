import EntanglementRs.Bridge.Context

/-!
# What the callbacks of a bridge are passed

Every pair that C can know on a bridge consists of a registered trampoline and
the address of the context.  The context is live until both of its references
are released, which happens before the object is destroyed; by then the workers
are joined, so that only a callback made inside `destroy` can meet it freed.
-/

namespace EntanglementRs

open Transition

def BridgeProgram.Registers {Slot Cmd Args Evt Call : Type}
    (prog : BridgeProgram Slot Cmd Args Evt Call) (slot : Slot) : Prop :=
  ∃ q ∈ prog.registrations, q.1 = slot

namespace Bridge

variable {Slot Cmd Args Evt Call : Type} [DecidableEq Slot]

/-- The slot need not be empty at the thread's present statement. -/
def MayHold (prog : BridgeProgram Slot Cmd Args Evt Call)
    (b : Bridge Slot Cmd Args Evt Call) (slot : Slot) : Prop :=
  match b.pc with
  | .creating | .configure | .context | .destroying | .dropCommands | .ended => False
  | .clearing rest => slot ∈ rest ∧ prog.Registers slot
  | _ => prog.Registers slot

structure TableInv (prog : BridgeProgram Slot Cmd Args Evt Call)
    (b : Bridge Slot Cmd Args Evt Call) : Prop where
  before : b.pc.beforeContext = true → ∀ pair, ¬ b.table.Known pair
  known : ∀ pair, b.table.Known pair →
    pair.userData = b.ctxPtr ∧ pair.trampoline.castType = prog.contextType
  live : b.ctx.held ≠ [] → b.table.heap[b.ctxPtr]? = some ⟨prog.contextType, true⟩
  freed : b.ctx.frees ≠ 0 → b.table.heap[b.ctxPtr]? = some ⟨prog.contextType, false⟩
  slots : ∀ slot, b.table.slots slot ≠ none → b.MayHold prog slot
  registering : ∀ rest, b.pc = .register rest → ∀ q ∈ rest, q ∈ prog.registrations
  started : b.workers = true → prog.hasWorkers = true
  joined : b.pc = .reclaim ∨ CtxRef.rawRef ∈ b.ctx.released → b.workers = false

variable {prog : BridgeProgram Slot Cmd Args Evt Call}
variable {b b' : Bridge Slot Cmd Args Evt Call}

omit [DecidableEq Slot] in
theorem TableInv.enter (hinv : TableInv prog b)
    (htable : b'.table = b.table ∧ b'.ctx = b.ctx ∧ b'.ctxPtr = b.ctxPtr)
    (hbefore : b'.pc.beforeContext = true → b.pc.beforeContext = true)
    (hslots : ∀ slot, b.MayHold prog slot → b'.MayHold prog slot)
    (hregister : ∀ rest, b'.pc ≠ .register rest)
    (hstarted : b'.workers = true → prog.hasWorkers = true)
    (hjoined : b'.pc = .reclaim ∨ CtxRef.rawRef ∈ b.ctx.released → b'.workers = false) :
    TableInv prog b' := by
  obtain ⟨htable, hctx, hptr⟩ := htable
  refine ⟨?_, ?_, ?_, ?_, ?_, fun rest h => absurd h (hregister rest), hstarted, ?_⟩
  · rw [htable]
    exact fun h => hinv.before (hbefore h)
  · rw [htable, hptr]
    exact hinv.known
  · rw [htable, hctx, hptr]
    exact hinv.live
  · rw [htable, hctx, hptr]
    exact hinv.freed
  · rw [htable]
    exact fun slot h => hslots slot (hinv.slots slot h)
  · rw [hctx]
    exact hjoined

omit [DecidableEq Slot] in
/-- C learns of no new pair by reading a slot or by a call. -/
theorem TableInv.of_known (hinv : TableInv prog b) {table : CallbackTable Slot} {fired : ℕ}
    (hknown : ∀ pair, table.Known pair → b.table.Known pair)
    (hheap : table.heap = b.table.heap) (hslots : table.slots = b.table.slots) :
    TableInv prog { b with table := table, fired := fired } := by
  refine ⟨fun h pair hpair => ?_, fun pair hpair => ?_, ?_, ?_, ?_, hinv.registering,
    hinv.started, hinv.joined⟩
  · exact hinv.before h pair (hknown pair hpair)
  · exact hinv.known pair (hknown pair hpair)
  · simpa only [hheap] using hinv.live
  · simpa only [hheap] using hinv.freed
  · exact fun slot hslot => hinv.slots slot (by simpa only [hslots] using hslot)

omit [DecidableEq Slot] in
theorem TableInv.context (hinv : TableInv prog b) (hpc : b.pc = .context)
    (hctx : b.ctx = .empty) :
    TableInv prog { b with
      pc := .register prog.registrations
      ctx := (b.ctx.acquire .localRef).acquire .rawRef
      ctxPtr := b.table.fresh
      table := b.table.alloc prog.contextType } := by
  have hnone := hinv.before (by simp [hpc, Pc.beforeContext])
  refine ⟨by simp [Pc.beforeContext], fun pair hknown => ?_, fun _ => ?_, fun h => ?_,
    fun slot hslot => ?_, ?_, hinv.started, ?_⟩
  · exact absurd (CallbackTable.known_alloc hknown) (hnone pair)
  · exact CallbackTable.alloc_heap_fresh prog.contextType
  · simp [hctx, SharedCell.empty, SharedCell.acquire] at h
  · obtain ⟨pair, hpair⟩ := Option.ne_none_iff_exists'.mp hslot
    exact absurd (.inl ⟨slot, hpair⟩) (hnone pair)
  · intro rest hrest q hq
    simp only [Pc.register.injEq] at hrest
    exact hrest ▸ hq
  · simp [hctx, SharedCell.empty, SharedCell.acquire]

theorem TableInv.register (hprog : prog.Lawful) (hinv : TableInv prog b) {slot : Slot}
    {trampoline : Trampoline} {rest : List (Slot × Trampoline)} {calls : List Call}
    (hpc : b.pc = .register ((slot, trampoline) :: rest)) :
    TableInv prog { b with
      pc := .register rest
      table := b.table.set slot (some ⟨trampoline, b.ctxPtr⟩)
      calls := calls } := by
  have hmem := hinv.registering _ hpc (slot, trampoline) (by simp)
  refine ⟨by simp [Pc.beforeContext], fun pair hknown => ?_, hinv.live, hinv.freed,
    fun other hother => ?_, ?_, hinv.started, fun h => ?_⟩
  · rcases CallbackTable.known_set hknown with hold | hnew
    · exact hinv.known pair hold
    · obtain rfl := Option.some.inj hnew
      exact ⟨rfl, hprog.typed _ hmem⟩
  · by_cases heq : other = slot
    · exact ⟨(slot, trampoline), hmem, heq.symm⟩
    · have hold := hinv.slots other (by simpa [Function.update_of_ne heq] using hother)
      simpa [MayHold, hpc] using hold
  · intro rest' hrest q hq
    simp only [Pc.register.injEq] at hrest
    exact hinv.registering _ hpc q (List.mem_cons_of_mem _ (hrest ▸ hq))
  · exact hinv.joined (.inr (h.resolve_left (by simp)))

theorem TableInv.clear (hinv : TableInv prog b) {slot : Slot} {rest : List Slot}
    {calls : List Call} (hpc : b.pc = .clearing (slot :: rest)) :
    TableInv prog { b with
      pc := .clearing rest
      table := b.table.set slot none
      calls := calls } := by
  refine ⟨by simp [Pc.beforeContext], fun pair hknown => ?_, hinv.live, hinv.freed,
    fun other hother => ?_, by simp, hinv.started, fun h => ?_⟩
  · rcases CallbackTable.known_set hknown with hold | hnew
    · exact hinv.known pair hold
    · contradiction
  · by_cases heq : other = slot
    · simp [heq] at hother
    · have hold := hinv.slots other (by simpa [Function.update_of_ne heq] using hother)
      simpa [MayHold, hpc, heq] using hold
  · exact hinv.joined (.inr (h.resolve_left (by simp)))

omit [DecidableEq Slot] in
theorem TableInv.clears_of_slot (hprog : prog.Lawful) (hinv : TableInv prog b)
    (hpc : b.pc = .dropContext) (slot : Slot) (hslot : b.table.slots slot ≠ none) :
    slot ∈ prog.clears ∧ prog.Registers slot := by
  have hold : prog.Registers slot := by
    simpa [MayHold, hpc] using hinv.slots slot hslot
  obtain ⟨q, hq, rfl⟩ := hold
  exact ⟨hprog.clears q hq, q, hq, rfl⟩

omit [DecidableEq Slot] in
theorem TableInv.reclaim (hinv : TableInv prog b) (hpc : b.pc = .reclaim)
    (hctx : b.ctx = ⟨[.localRef, .rawRef], [], 0⟩) :
    TableInv prog { b.release .rawRef with pc := .dropContext } := by
  have htable := release_table_of_shared b .rawRef (by simp [hctx])
  have hctx' : (b.release .rawRef).ctx = ⟨[.localRef], [.rawRef], 0⟩ := by
    rw [release_ctx, hctx]
    rfl
  refine ⟨by simp [Pc.beforeContext], ?_, ?_, ?_, ?_, by simp, ?_, ?_⟩
  · simpa only [htable, release_ctxPtr] using hinv.known
  · simpa only [htable, release_ctxPtr] using fun _ => hinv.live (by simp [hctx])
  · exact fun h => absurd (congrArg SharedCell.frees hctx') h
  · intro slot hslot
    have hold := hinv.slots slot (by simpa only [htable] using hslot)
    simpa [MayHold, hpc] using hold
  · simpa only [release_workers] using hinv.started
  · simpa only [release_workers] using fun _ => hinv.joined (.inl hpc)

omit [DecidableEq Slot] in
/-- The last reference goes, and the allocation of the context with it. -/
theorem TableInv.dropLast (hprog : prog.Lawful) (hinv : TableInv prog b)
    (hpc : b.pc = .dropContext) (hctx : b.ctx = ⟨[.localRef], [.rawRef], 0⟩) :
    TableInv prog { b.release .localRef with pc := .clearing prog.clears } := by
  have htable := release_table_of_last b .localRef (by simp [hctx])
  have hctx' : (b.release .localRef).ctx = ⟨[], [.rawRef, .localRef], 1⟩ := by
    rw [release_ctx, hctx]
    rfl
  refine ⟨by simp [Pc.beforeContext], ?_, ?_, fun _ => ?_, ?_, by simp, ?_, ?_⟩
  · simpa only [htable, release_ctxPtr] using
      fun pair hknown => hinv.known pair (CallbackTable.known_free hknown)
  · exact fun h => absurd (congrArg SharedCell.held hctx') h
  · simpa only [htable, release_ctxPtr] using
      CallbackTable.free_heap (hinv.live (by simp [hctx]))
  · exact fun slot h => hinv.clears_of_slot hprog hpc slot
      (by simpa only [htable, CallbackTable.free_slots] using h)
  · simpa only [release_workers] using hinv.started
  · simpa only [release_workers] using fun _ => hinv.joined (.inr (by simp [hctx]))

omit [DecidableEq Slot] in
/-- The raw reference is still there, so that the context stays allocated. -/
theorem TableInv.dropShared (hprog : prog.Lawful) (hinv : TableInv prog b)
    (hpc : b.pc = .dropContext) (hctx : b.ctx = ⟨[.localRef, .rawRef], [], 0⟩) :
    TableInv prog { b.release .localRef with pc := .clearing prog.clears } := by
  have htable := release_table_of_shared b .localRef (by simp [hctx])
  have hctx' : (b.release .localRef).ctx = ⟨[.rawRef], [.localRef], 0⟩ := by
    rw [release_ctx, hctx]
    rfl
  refine ⟨by simp [Pc.beforeContext], ?_, ?_, ?_, ?_, by simp, ?_, ?_⟩
  · simpa only [htable, release_ctxPtr] using hinv.known
  · simpa only [htable, release_ctxPtr] using fun _ => hinv.live (by simp [hctx])
  · exact fun h => absurd (congrArg SharedCell.frees hctx') h
  · exact fun slot h => hinv.clears_of_slot hprog hpc slot (by simpa only [htable] using h)
  · simpa only [release_workers] using hinv.started
  · rintro (h | h)
    · contradiction
    · exact absurd (congrArg SharedCell.released hctx' ▸ h) (by simp)

theorem TableInv.move (hprog : prog.Lawful) (hinv : TableInv prog b)
    (hstate : ContextState prog b) {a : BridgeAction Slot Cmd Args}
    (hmove : Move prog b a b') : TableInv prog b' := by
  have hkeep : CtxRef.rawRef ∈ b.ctx.released → b.workers = false :=
    fun h => hinv.joined (.inr h)
  cases hmove with
  | cloneTx | dropTx | send | path | invoke =>
      exact ⟨hinv.before, hinv.known, hinv.live, hinv.freed, hinv.slots,
        hinv.registering, hinv.started, hinv.joined⟩
  | read slot hrunning =>
      exact hinv.of_known (fun _ => CallbackTable.known_readSlot)
        (CallbackTable.readSlot_heap slot) (CallbackTable.readSlot_slots slot)
  | fault t pair args origin hrunning hread hcallee hfault =>
      exact hinv.of_known (fun _ => CallbackTable.known_invoke)
        CallbackTable.invoke_heap CallbackTable.invoke_slots
  | created r hidle hpc | createFailed r hidle hpc | configure hpc =>
      exact hinv.enter ⟨rfl, rfl, rfl⟩ (by simp [hpc, Pc.beforeContext])
        (by simp [MayHold, hpc]) (by simp) hinv.started
        (fun h => hkeep (h.resolve_left (by simp)))
  | opened r hidle hpc | executed r c hidle hpc | polled r hidle hpc
  | updated r hidle hpc | take c cmd hpc | tick hpc | wake hpc =>
      exact hinv.enter ⟨rfl, rfl, rfl⟩ (by simp [Pc.beforeContext])
        (by simp [MayHold, hpc]) (by simp) hinv.started
        (fun h => hkeep (h.resolve_left (by simp)))
  | enterDestroy hpc | dropCommands hpc =>
      exact hinv.enter ⟨rfl, rfl, rfl⟩ (by simp [Pc.beforeContext])
        (by simp [MayHold, hpc]) (by simp) hinv.started
        (fun h => hkeep (h.resolve_left (by simp)))
  | destroyed r hidle hpc | stopped r c hidle hpc =>
      exact hinv.enter ⟨rfl, rfl, rfl⟩ (by simp [Pc.beforeContext])
        (by simp [MayHold, hpc]) (by simp) (by simp) (fun _ => rfl)
  | openFailed r hidle hpc hresult =>
      cases hreclaims : prog.reclaimsOnFailure with
      | true =>
          have hworkers : b.workers = false := by
            rw [← Bool.not_eq_true]
            intro h
            exact absurd ((hinv.started h).symm.trans (hprog.joined hreclaims)) (by decide)
          exact hinv.enter ⟨rfl, rfl, rfl⟩ (by simp [Pc.beforeContext])
            (by simp [MayHold, hpc]) (by simp) hinv.started (fun _ => hworkers)
      | false =>
          exact hinv.enter ⟨rfl, rfl, rfl⟩ (by simp [Pc.beforeContext])
            (by simp [MayHold, hpc]) (by simp) hinv.started
            (fun h => hkeep (h.resolve_left (by simp)))
  | enterOpen hpc =>
      obtain ⟨hctx, _⟩ := hstate.shared_of_pc (by simp [hpc, Pc.sharesContext])
      exact hinv.enter ⟨rfl, rfl, rfl⟩ (by simp [Pc.beforeContext])
        (by simp [MayHold, hpc]) (by simp) id (by simp [hctx])
  | context hpc =>
      cases hstate with
      | absent p c t o => exact hinv.context hpc c
      | _ => simp_all [Pc.sharesContext, Pc.afterContext]
  | register slot trampoline rest hpc => exact hinv.register hprog hpc
  | reclaim hpc =>
      obtain ⟨hctx, _⟩ := hstate.shared_of_pc (by simp [hpc, Pc.sharesContext])
      exact hinv.reclaim hpc hctx
  | dropContext hpc =>
      cases hstate with
      | reclaimed p c t o => exact hinv.dropLast hprog hpc c
      | unwinding p c t o n => exact hinv.dropShared hprog hpc c
      | _ => simp_all [Pc.beforeContext, Pc.sharesContext, Pc.afterContext]
  | clear slot rest hpc => exact hinv.clear hpc

theorem Reachable.tableInv {channelBuffer : ℕ} (hprog : prog.Lawful)
    (hreach : Reachable prog channelBuffer b) : TableInv prog b := by
  refine (hreach.invariant (I := fun b => ContextState prog b ∧ TableInv prog b) ?_ ?_).2
  · intro hpos mem
    refine ⟨.absent rfl rfl rfl rfl, ?_⟩
    constructor <;> simp [spawn, CallbackTable.Known, CallbackTable.empty, SharedCell.empty]
  · rintro b a b' ⟨hstate, hinv⟩ hmove
    exact ⟨hstate.move hprog hmove, hinv.move hprog hstate hmove⟩

theorem Reachable.registers {channelBuffer : ℕ} (hprog : prog.Lawful)
    (hreach : Reachable prog channelBuffer b) {slot : Slot}
    (hslot : b.table.slots slot ≠ none) : prog.Registers slot := by
  have hmay := (hreach.tableInv hprog).slots slot hslot
  unfold MayHold at hmay
  split at hmay
  all_goals first | contradiction | exact hmay.2 | exact hmay

theorem Reachable.slots_cleared {channelBuffer : ℕ} (hprog : prog.Lawful)
    (hreach : Reachable prog channelBuffer b) (hpc : b.pc = .destroying) (slot : Slot) :
    b.table.slots slot = none := by
  by_contra hslot
  have hmay := (hreach.tableInv hprog).slots slot hslot
  simp [MayHold, hpc] at hmay

/-- A callback of C meets its context alive, except inside a `destroy` that
comes after both references were released. -/
theorem Reachable.sound_iff {channelBuffer : ℕ} (hprog : prog.Lawful)
    (hreach : Reachable prog channelBuffer b) {t : CThread} (hrunning : b.Running t)
    {pair : CallbackPair} (hread : pair ∈ b.table.read) :
    b.table.Sound pair ↔ (b.pc = .destroying → b.OpenFailed ∧ prog.reclaimsOnFailure = false) := by
  have hinv := hreach.tableInv hprog
  have hthreads := hreach.threadsInv
  obtain ⟨huser, htype⟩ := hinv.known pair (.inr hread)
  have hlive : b.ctx.held ≠ [] → b.table.Sound pair := by
    intro hheld
    unfold CallbackTable.Sound
    rw [huser, htype]
    exact hinv.live hheld
  cases hreach.contextState hprog with
  | absent p c tx o => exact absurd (.inr hread) (hinv.before p pair)
  | never p c tx o =>
      cases t with
      | own => rcases p with p | p <;> simp [Running, p, Pc.inCall] at hrunning
      | worker i =>
          have hholds := hthreads.workers hrunning
          rcases p with p | p <;> simp [p, Pc.holdsObject] at hholds
  | shared p c tx o =>
      refine ⟨fun _ hpc => ?_, fun _ => hlive (by simp [c])⟩
      simp [hpc, Pc.sharesContext] at p
  | reclaimed p c tx o => exact ⟨fun _ hpc => by simp [p] at hpc, fun _ => hlive (by simp [c])⟩
  | unwinding p c tx o n => exact ⟨fun _ _ => ⟨o, n⟩, fun _ => hlive (by simp [c])⟩
  | leaked p c tx o n => exact ⟨fun _ _ => ⟨o, n⟩, fun _ => hlive (by simp [c])⟩
  | freed p c tx o =>
      have hworkers := hinv.joined (.inr (by simp [c]))
      have hpc : b.pc = .destroying := by
        cases t with
        | own =>
            cases h : b.pc <;> simp_all [Running, Pc.inCall, Pc.afterContext]
        | worker i => exact absurd (hworkers.symm.trans hrunning) (by decide)
      constructor
      · intro hsound
        have hdead := hinv.freed (by simp [c])
        rw [CallbackTable.Sound, huser, hdead] at hsound
        simp at hsound
      · intro hlate
        obtain ⟨hfailed, hpanic⟩ := hlate hpc
        exact absurd ((o hfailed).symm.trans hpanic) (by decide)

/-! ## Runs without an unsound call -/

/-- Inside `destroy` C uses no pair that it read before the slots were cleared,
unless a panicking open has left the context alive. -/
def NoLateUse (prog : BridgeProgram Slot Cmd Args Evt Call)
    (b : Bridge Slot Cmd Args Evt Call) (a : BridgeAction Slot Cmd Args) : Prop :=
  (∃ t pair args origin, a = .invoke t pair args origin) → b.pc = .destroying →
    b.OpenFailed ∧ prog.reclaimsOnFailure = false

theorem Reachable.faults_step {channelBuffer : ℕ} (hprog : prog.Lawful)
    (hreach : Reachable prog channelBuffer b) {a : BridgeAction Slot Cmd Args}
    (hmove : Move prog b a b') :
    (NoLateUse prog b a → b'.table.faults = b.table.faults) ∧
      (¬ NoLateUse prog b a → b'.table.faults ≠ []) := by
  cases hmove with
  | invoke t pair args origin path hrunning hread hcallee hsound hpath =>
      refine ⟨fun _ => rfl, fun hlate => absurd ?_ hlate⟩
      exact fun _ => (hreach.sound_iff hprog hrunning hread).mp hsound
  | fault t pair args origin hrunning hread hcallee hfault =>
      refine ⟨fun hnone => absurd ?_ hfault, fun _ => ?_⟩
      · exact (hreach.sound_iff hprog hrunning hread).mpr
          (hnone ⟨t, pair, args, origin, rfl⟩)
      · simp [CallbackTable.invoke_faults_of_not_sound hfault]
  | path _ pa path ha hpath =>
      refine ⟨fun _ => rfl, fun hlate => absurd ?_ hlate⟩
      rintro ⟨t, pair, args, origin, rfl⟩
      simp [BridgeAction.pathAction] at ha
  | read slot hrunning =>
      exact ⟨fun _ => CallbackTable.readSlot_faults slot, fun hlate => by simp [NoLateUse] at hlate⟩
  | reclaim hpc =>
      refine ⟨fun _ => ?_, fun hlate => by simp [NoLateUse] at hlate⟩
      simp only [release]
      split <;> rfl
  | dropContext hpc =>
      refine ⟨fun _ => ?_, fun hlate => by simp [NoLateUse] at hlate⟩
      simp only [release]
      split <;> rfl
  | _ => exact ⟨fun _ => rfl, fun hlate => by simp [NoLateUse] at hlate⟩

theorem Move.faults_kept {a : BridgeAction Slot Cmd Args} (hmove : Move prog b a b') :
    b.table.faults <+: b'.table.faults := by
  cases hmove with
  | read slot hrunning => exact CallbackTable.readSlot_faults slot ▸ List.prefix_rfl
  | fault t pair args origin hrunning hread hcallee hfault =>
      rw [CallbackTable.invoke_faults_of_not_sound hfault]
      exact List.prefix_append _ _
  | reclaim hpc | dropContext hpc =>
      simp only [release]
      split <;> exact List.prefix_rfl
  | _ => exact List.prefix_rfl

theorem Reachable.faults_iff {channelBuffer : ℕ} (hprog : prog.Lawful)
    (hreach : Reachable prog channelBuffer b) (hnone : b.table.faults = [])
    {as : List (BridgeAction Slot Cmd Args)} (hrun : (machine prog).run b as = some b') :
    b'.table.faults = [] ↔ (machine prog).Follows (NoLateUse prog) b as := by
  induction as generalizing b with
  | nil =>
      obtain rfl : b = b' := by simpa using hrun
      exact ⟨fun _ => trivial, fun _ => hnone⟩
  | cons a as ih =>
      obtain ⟨c, hstep, hrest⟩ := (machine prog).run_cons_eq_some.mp hrun
      obtain ⟨hsame, hfault⟩ := hreach.faults_step hprog (step_move hstep)
      have hc : Reachable prog channelBuffer c :=
        hreach.next hstep
      rw [Machine.Follows.cons_iff hstep]
      by_cases hlate : NoLateUse prog b a
      · rw [ih hc ((hsame hlate).trans hnone) hrest]
        exact ⟨fun h => ⟨hlate, h⟩, fun h => h.2⟩
      · refine ⟨fun hend => ?_, fun h => absurd h.1 hlate⟩
        have hprefix : c.table.faults <+: b'.table.faults := by
          refine Machine.run_invariant (I := fun d => c.table.faults <+: d.table.faults)
            ?_ List.prefix_rfl hrest
          intro d a d' hd hstep
          exact hd.trans (step_move hstep).faults_kept
        rw [hend] at hprefix
        exact absurd (List.prefix_nil.mp hprefix) (hfault hlate)

structure CallbacksSound (prog : BridgeProgram Slot Cmd Args Evt Call)
    (channelBuffer : ℕ) : Prop where
  runs : ∀ (hpos : 0 < channelBuffer) (mem : CMemory) as b,
    (machine prog).run (spawn prog channelBuffer hpos mem) as = some b →
    (b.table.faults = [] ↔
      (machine prog).Follows (NoLateUse prog) (spawn prog channelBuffer hpos mem) as)
  cleared : ∀ b, Reachable prog channelBuffer b → b.pc = .destroying →
    ∀ slot, b.table.slots slot = none

theorem callbacksSound (hprog : prog.Lawful) (channelBuffer : ℕ) :
    CallbacksSound prog channelBuffer where
  runs := fun hpos mem _ _ hrun =>
    Reachable.faults_iff hprog ⟨hpos, mem, Machine.Reaches.refl _⟩ rfl hrun
  cleared := fun _ hreach hpc => hreach.slots_cleared hprog hpc

end Bridge

section

variable (codes : ErrorCodes) (address : String) (port : UInt16)
variable (workerCount : Int32) (config : SpawnConfig)

/-- No callback of an object with closures ever meets released or wrongly typed
`user_data`; on a bridge none does exactly if C uses, in the `destroy` that ends
the thread, no pair it has kept. -/
theorem callbacks_sound_iff :
    (∀ o, (ClosureObject.machine EntServer.closureApi).Reaches .new o →
      o.table.faults = [] ∧ (o.phase = .destroying →
        ∀ s ∈ EntServer.closureApi.setters, o.table.slots s.slot = none)) ∧
    (∀ o, (ClosureObject.machine EntClient.closureApi).Reaches .new o →
      o.table.faults = [] ∧ (o.phase = .destroying →
        ∀ s ∈ EntClient.closureApi.setters, o.table.slots s.slot = none)) ∧
    Bridge.CallbacksSound (spawnServerWithConfig codes address port workerCount config)
      config.channelBuffer ∧
    Bridge.CallbacksSound (spawnClientWithConfig codes address port config)
      config.channelBuffer :=
  ⟨fun _ hreach => ClosureObject.calls_sound EntServer.closureApi_lawful hreach,
    fun _ hreach => ClosureObject.calls_sound EntClient.closureApi_lawful hreach,
    Bridge.callbacksSound
      (spawnServerWithConfig_lawful codes address port workerCount config) _,
    Bridge.callbacksSound (spawnClientWithConfig_lawful codes address port config) _⟩

end

/-- C reads the pair for disconnections during `connect`, and uses it inside the
`destroy` after `Stop`: its `user_data` is the freed context. -/
theorem spawnClient_late_use_unsound :
    let client := spawnClientWithConfig .numbered "" 9876 .default
    let pair : CallbackPair := ⟨.onDisconnectedTrampoline, 0⟩
    ∃ b, Bridge.Reachable client SpawnConfig.default.channelBuffer b ∧
      b.pc = .destroying ∧ (∀ slot, b.table.slots slot = none) ∧
      b.table.heap = [⟨.clientCallbackCtx, false⟩] ∧ b.table.faults = [pair] := by
  intro client pair
  have hrun : ∃ b, (Bridge.machine client).run
      (Bridge.spawn client SpawnConfig.default.channelBuffer (by decide) .zero)
      ([.return_ {}] ++ List.replicate 6 .thread ++
        [.read .disconnected, .return_ {}, .send .stop, .thread, .return_ {}] ++
        List.replicate 11 .thread ++ [.invoke .own pair .disconnected none]) = some b ∧
      b.pc = .destroying ∧ b.table.heap = [⟨.clientCallbackCtx, false⟩] ∧
      b.table.faults = [pair] :=
    ⟨_, rfl, rfl, rfl, rfl⟩
  obtain ⟨b, hrun, hpc, hheap, hfaults⟩ := hrun
  have hreach : Bridge.Reachable client SpawnConfig.default.channelBuffer b :=
    ⟨by decide, .zero, _, hrun⟩
  exact ⟨b, hreach, hpc,
    hreach.slots_cleared (spawnClientWithConfig_lawful _ _ _ _) hpc, hheap, hfaults⟩

end EntanglementRs
