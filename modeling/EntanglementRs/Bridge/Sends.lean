import EntanglementRs.Bridge.Commands

/-!
# What becomes of a rejected message

The drain loop drops the result of every send.  The code that C returned for a
message therefore never reaches the owner of the handle: two runs that differ in
these codes only look the same from the handle, now and later.
-/

namespace EntanglementRs

open Transition

namespace Bridge

variable {Slot Cmd Args Evt Call : Type} [DecidableEq Slot]
variable {prog : BridgeProgram Slot Cmd Args Evt Call}
variable {b b' : Bridge Slot Cmd Args Evt Call}

/-- What the owner of the handle can see: its `Sender`s with what they sent, its
receiver with what it received, and whether either has been disconnected. -/
structure OwnerView (Cmd Evt : Type) where
  senders : ℕ
  commands : Channel Cmd
  events : Channel Evt
  evtTx : Bool

def ownerView (b : Bridge Slot Cmd Args Evt Call) : OwnerView Cmd Evt where
  senders := b.senders
  commands := b.cmd
  events := b.path.chan
  evtTx := b.evtTx

/-- In some continuation of the run the owner can tell that C rejected the
`i`th message, because it did in every run that looks the same. -/
def RejectionShown (prog : BridgeProgram Slot Cmd Args Evt Call) (channelBuffer : ℕ)
    (b : Bridge Slot Cmd Args Evt Call) (i : ℕ) : Prop :=
  ∃ b₁, (machine prog).Reaches b b₁ ∧
    ∀ b₂, Reachable prog channelBuffer b₂ → b₂.ownerView = b₁.ownerView →
      ∀ q, b₂.results[i]? = some q → ¬ 0 ≤ q.2

/-- In some continuation of the run the command has been tried more often than
it was taken from the queue. -/
def Retried [DecidableEq Cmd] (prog : BridgeProgram Slot Cmd Args Evt Call)
    (b : Bridge Slot Cmd Args Evt Call) (c : Cmd) : Prop :=
  ∃ b₁, (machine prog).Reaches b b₁ ∧
    b₁.cmd.received.count c < (b₁.results.map Prod.fst).count c

def returned (b : Bridge Slot Cmd Args Evt Call) : List Cmd :=
  match b.pc with
  | .exec _ => b.cmd.received.dropLast
  | _ => b.cmd.received

def acceptedByC (b : Bridge Slot Cmd Args Evt Call) : List Cmd :=
  (b.results.filter fun q => 0 ≤ q.2).map Prod.fst

/-! ## Every message is tried exactly once -/

theorem returned_move (hstate : CommandState prog b) (hprog : prog.Lawful)
    {a : BridgeAction Slot Cmd Args} (hmove : Move prog b a b')
    (hresults : b.results.map Prod.fst =
      b.returned.filter fun c => (prog.message c).isSome) :
    b'.results.map Prod.fst = b'.returned.filter fun c => (prog.message c).isSome := by
  cases hmove with
  | cloneTx | dropTx | path | read | invoke | fault => exact hresults
  | send c cmd hsenders hsent =>
      simpa only [returned, hsent.received] using hresults
  | take c cmd hpc hreceived =>
      simpa only [returned, hpc, hreceived.received, List.dropLast_concat] using hresults
  | executed r c hidle hpc hstop =>
      cases hstate with
      | executing done d p rec s o =>
          obtain rfl : c = d := by simpa [hpc] using p
          simp only [returned, hpc, rec, List.dropLast_concat] at hresults ⊢
          rw [List.filter_append, ← hresults]
          by_cases hmessage : (prog.message c).isSome = true <;> simp [hmessage]
      | _ => simp_all [Pc.beforeLoop, Pc.inLoop, Pc.afterLoop]
  | stopped r c hidle hpc hstop hjoined =>
      cases hstate with
      | executing done d p rec s o =>
          obtain rfl : c = d := by simpa [hpc] using p
          simp only [returned, hpc, rec, List.dropLast_concat] at hresults ⊢
          rw [List.filter_append, ← hresults]
          simp [hprog.stop_silent c hstop]
      | _ => simp_all [Pc.beforeLoop, Pc.inLoop, Pc.afterLoop]
  | openFailed r hidle hpc hresult =>
      simp only [returned, hpc] at hresults ⊢
      cases prog.reclaimsOnFailure <;> exact hresults
  | reclaim hpc | dropContext hpc =>
      simp only [returned, hpc, release_results, release_cmd] at hresults ⊢
      exact hresults
  | created r hidle hpc | createFailed r hidle hpc | opened r hidle hpc
  | polled r hidle hpc | updated r hidle hpc | destroyed r hidle hpc | configure hpc
  | context hpc | register _ _ _ hpc | enterOpen hpc | tick hpc | wake hpc
  | clear _ _ hpc | enterDestroy hpc | dropCommands hpc =>
      simp only [returned, hpc] at hresults ⊢
      exact hresults

theorem Reachable.results_eq {channelBuffer : ℕ} (hprog : prog.Lawful)
    (hreach : Reachable prog channelBuffer b) :
    b.results.map Prod.fst = b.returned.filter fun c => (prog.message c).isSome :=
  (hreach.invariant (I := fun b => CommandState prog b ∧
      b.results.map Prod.fst = b.returned.filter fun c => (prog.message c).isSome)
    (fun _ _ => ⟨.starting rfl rfl, rfl⟩)
    fun _ _ _ hinv hmove =>
      ⟨hinv.1.move hprog hmove, returned_move hinv.1 hprog hmove hinv.2⟩).2

theorem Reachable.not_retried [DecidableEq Cmd] {channelBuffer : ℕ} (hprog : prog.Lawful)
    (hreach : Reachable prog channelBuffer b) (c : Cmd) : ¬ b.Retried prog c := by
  rintro ⟨b₁, hrest, hmore⟩
  rw [(hreach.tail hrest).results_eq hprog] at hmore
  have hsub : b₁.returned.Sublist b₁.cmd.received := by
    unfold returned
    split
    · exact List.dropLast_sublist _
    · exact List.Sublist.refl _
  have hle := ((List.filter_sublist (p := fun c => (prog.message c).isSome)).trans
    hsub).count_le c
  exact absurd hmore (Nat.not_lt.mpr hle)

/-! ## The codes do not matter to anyone -/

/-- The same state, with other codes returned for the same messages. -/
def Recoded (b b' : Bridge Slot Cmd Args Evt Call) : Prop :=
  ∃ results, results.map Prod.fst = b.results.map Prod.fst ∧
    b' = { b with results := results }

theorem threadStep_results (results : List (Cmd × Int32)) :
    threadStep prog { b with results := results } =
      (threadStep prog b).map fun c => { c with results := results } := by
  unfold threadStep
  cases hpc : b.pc with
  | register rest | clearing rest => cases rest <;> rfl
  | drain =>
      dsimp only
      cases b.cmd.recv? <;> rfl
  | reclaim | dropContext =>
      dsimp only [release]
      split <;> rfl
  | _ => rfl

omit [DecidableEq Slot] in
theorem returnStep_results (r : Reply) (results : List (Cmd × Int32))
    (hpc : ∀ c, b.pc ≠ .exec c) :
    returnStep prog { b with results := results } r =
      (returnStep prog b r).map fun c => { c with results := results } := by
  unfold returnStep
  dsimp only
  split
  next => rfl
  next =>
    cases h : b.pc with
    | exec c => exact absurd h (hpc c)
    | creating => dsimp only; cases prog.create.result r <;> rfl
    | opening => dsimp only; split <;> rfl
    | destroying => dsimp only; split <;> rfl
    | _ => rfl

theorem step_results {a : BridgeAction Slot Cmd Args} (results : List (Cmd × Int32))
    (ha : ∀ r c, a = .return_ r → b.pc ≠ .exec c) :
    step prog { b with results := results } a =
      (step prog b a).map fun c => { c with results := results } := by
  cases a with
  | thread => exact threadStep_results results
  | return_ r => exact returnStep_results r results fun c => ha r c rfl
  | cloneTx | dropTx | read => simp only [step]; split <;> rfl
  | send c =>
      simp only [step]
      split
      next => cases b.cmd.send? c <;> rfl
      next => rfl
  | invoke t pair args origin =>
      simp only [step]
      by_cases hcall : b.Running t ∧ pair ∈ b.table.read ∧
          pair.trampoline = prog.callee args
      · have hcall' : Running { b with results := results } t ∧
            pair ∈ b.table.read ∧ pair.trampoline = prog.callee args := hcall
        rw [if_pos hcall, if_pos hcall']
        split
        next => cases b.path.step prog.event (.invoke t args origin) <;> rfl
        next => rfl
      · have hcall' : ¬ (Running { b with results := results } t ∧
            pair ∈ b.table.read ∧ pair.trampoline = prog.callee args) := hcall
        rw [if_neg hcall, if_neg hcall']
        rfl
  | recv | closeRx | dropRx | write | deliver | fail =>
      simp only [step, pathStep, Option.map_map]
      rfl

theorem Move.results_eq {a : BridgeAction Slot Cmd Args} (hmove : Move prog b a b')
    (ha : ∀ r c, a = .return_ r → b.pc ≠ .exec c) : b'.results = b.results := by
  cases hmove with
  | executed r c hidle hpc hstop => exact absurd hpc (ha r c rfl)
  | reclaim hpc => exact release_results b .rawRef
  | dropContext hpc => exact release_results b .localRef
  | _ => rfl

/-- A step into a state has a counterpart into every recoding of that state:
where a code is recorded, C returned the other one. -/
theorem Recoded.step_back {a : BridgeAction Slot Cmd Args}
    {c c' : Bridge Slot Cmd Args Evt Call} (hstep : step prog b a = some c)
    (hrecoded : Recoded c c') :
    ∃ b' a', Recoded b b' ∧ step prog b' a' = some c' := by
  obtain ⟨results, hsame, rfl⟩ := hrecoded
  have hmove := step_move hstep
  by_cases hreturn : ∀ r k, a = .return_ r → b.pc ≠ .exec k
  · refine ⟨{ b with results := results }, a, ⟨results, ?_, rfl⟩, ?_⟩
    · rw [hsame, hmove.results_eq hreturn]
    · rw [step_results results hreturn, hstep]
      rfl
  · simp only [not_forall, not_not] at hreturn
    obtain ⟨r, k, rfl, hexec⟩ := hreturn
    cases hmove with
    | stopped r k' hidle hpc hstop hjoined =>
        refine ⟨{ b with results := results }, .return_ r, ⟨results, hsame, rfl⟩, ?_⟩
        simp only [step, returnStep, if_neg hidle, hpc, hstop, hjoined]
        rfl
    | executed r k' hidle hpc hstop =>
        by_cases hmessage : (prog.message k').isSome = true
        · simp only [hmessage, if_true, List.map_append] at hsame
          obtain ⟨before, last, rfl, hbefore, hlast⟩ := List.map_eq_append_iff.mp hsame
          obtain ⟨⟨k'', code⟩, rfl, hk⟩ := List.map_eq_singleton_iff.mp hlast
          obtain rfl : k'' = k' := hk
          refine ⟨{ b with results := before }, .return_ { r with code := code },
            ⟨before, hbefore, rfl⟩, ?_⟩
          simp only [step, returnStep, if_neg hidle, hpc, hstop, hmessage]
          rfl
        · simp only [hmessage] at hsame
          refine ⟨{ b with results := results }, .return_ r, ⟨results, hsame, rfl⟩, ?_⟩
          simp only [step, returnStep, if_neg hidle, hpc, hstop, hmessage]
          rfl
    | path _ pa path ha hpath => simp [BridgeAction.pathAction] at ha
    | _ => simp_all

theorem Reachable.recoded {channelBuffer : ℕ} (hreach : Reachable prog channelBuffer b)
    (hrecoded : Recoded b b') : Reachable prog channelBuffer b' := by
  obtain ⟨hpos, mem, hreach⟩ := hreach
  obtain ⟨s, ⟨results, hnone, rfl⟩, hreach'⟩ := hreach.backward (R := Recoded)
    (fun _ _ _ _ hstep hrecoded => Recoded.step_back hstep hrecoded) hrecoded
  obtain rfl : results = [] := by simpa [spawn] using hnone
  exact ⟨hpos, mem, hreach'⟩

theorem Move.results_kept {a : BridgeAction Slot Cmd Args} (hmove : Move prog b a b') :
    b.results <+: b'.results := by
  by_cases ha : ∀ r c, a = .return_ r → b.pc ≠ .exec c
  · exact hmove.results_eq ha ▸ List.prefix_rfl
  · cases hmove with
    | executed r c hidle hpc hstop =>
        dsimp only
        split
        · exact List.prefix_append _ _
        · exact List.prefix_rfl
    | _ => simp_all

/-- The owner is never shown a rejection: in a run that looks the same C
returned zero for every message. -/
theorem Reachable.not_rejectionShown {channelBuffer : ℕ}
    (hreach : Reachable prog channelBuffer b) {i : ℕ} (hi : i < b.results.length) :
    ¬ b.RejectionShown prog channelBuffer i := by
  rintro ⟨b₁, hrest, hshown⟩
  have hprefix : b.results <+: b₁.results := by
    refine hrest.invariant (I := fun t => b.results <+: t.results) ?_ List.prefix_rfl
    intro s a t hs hstep
    exact hs.trans (step_move hstep).results_kept
  have hi₁ : i < b₁.results.length := Nat.lt_of_lt_of_le hi hprefix.length_le
  let results := b₁.results.map fun q => (q.1, (0 : Int32))
  have hlook : Reachable prog channelBuffer { b₁ with results := results } :=
    (hreach.tail hrest).recoded ⟨results, by simp [results, Function.comp_def], rfl⟩
  have hrejected := hshown { b₁ with results := results } hlook rfl
    (b₁.results[i].1, 0) (by simp [results, hi₁])
  exact hrejected (Int32.le_refl 0)

/-! ## No silent loss -/

structure NoSilentLoss [DecidableEq Cmd] (prog : BridgeProgram Slot Cmd Args Evt Call)
    (channelBuffer : ℕ) (b : Bridge Slot Cmd Args Evt Call) : Prop where
  each : ∀ i c code, b.results[i]? = some (c, code) →
    0 ≤ code ∨ b.Retried prog c ∨ b.RejectionShown prog channelBuffer i
  whole : ∀ shown : ℕ → Bool,
    (∀ i, i < b.results.length →
      (shown i = true ↔ b.RejectionShown prog channelBuffer i)) →
    b.acceptedByC = ((b.returned.filter fun c => (prog.message c).isSome).zipIdx.filter
      fun q => shown q.2 = false).map Prod.fst

theorem Reachable.noSilentLoss_iff [DecidableEq Cmd] {channelBuffer : ℕ}
    (hprog : prog.Lawful) (hreach : Reachable prog channelBuffer b) :
    b.NoSilentLoss prog channelBuffer ↔ ∀ q ∈ b.results, 0 ≤ q.2 := by
  constructor
  · rintro ⟨heach, _⟩ ⟨c, code⟩ hq
    obtain ⟨i, hi, hget⟩ := List.mem_iff_getElem.mp hq
    rcases heach i c code (by rw [List.getElem?_eq_getElem hi, hget]) with
      hok | hretried | hshown
    · exact hok
    · exact absurd hretried (hreach.not_retried hprog c)
    · exact absurd hshown (hreach.not_rejectionShown hi)
  · intro hall
    refine ⟨fun i c code hget => ?_, fun shown hshown => ?_⟩
    · exact .inl (hall (c, code) (List.mem_of_getElem? hget))
    · have hnever : ∀ i, i < b.results.length → shown i = false := by
        intro i hi
        rw [← Bool.not_eq_true, hshown i hi]
        exact hreach.not_rejectionShown hi
      have haccepted : b.acceptedByC = b.results.map Prod.fst := by
        unfold acceptedByC
        rw [List.filter_eq_self.mpr fun q hq => by simpa using hall q hq]
      have hkeep : (b.results.map Prod.fst).zipIdx.filter (fun q => shown q.2 = false) =
          (b.results.map Prod.fst).zipIdx := by
        apply List.filter_eq_self.mpr
        intro q hq
        have hlt := (List.mem_zipIdx hq).2.1
        simp only [List.length_map, Nat.zero_add] at hlt
        simp [hnever q.2 hlt]
      rw [haccepted, ← hreach.results_eq hprog, hkeep]
      simp

end Bridge

/-! ## Messages in the calls of C -/

/-- The `n`th message that C was handed, if it took it. -/
def Bridge.message {Slot Cmd Args Evt Call : Type}
    (prog : BridgeProgram Slot Cmd Args Evt Call)
    (b : Bridge Slot Cmd Args Evt Call) (n : ℕ) : Option (List UInt8) :=
  match b.results[n]? with
  | some (c, code) => if 0 ≤ code then prog.message c else none
  | none => none

structure BridgeProgram.MessageCalls {Slot Cmd Args Evt Call : Type}
    (prog : BridgeProgram Slot Cmd Args Evt Call) (kind : Call → CallKind)
    (call : Cmd → Call) (data? : Call → Option (List UInt8)) : Prop where
  lawful : prog.Lawful
  calls : prog.Calls kind call
  message : ∀ c, data? (call c) = prog.message c
  silent : ∀ x, kind x ≠ .command → data? x = none

section

variable (codes : ErrorCodes) (address : String) (port : UInt16)
variable (workerCount : Int32) (config : SpawnConfig)

theorem spawnServerWithConfig_messageCalls :
    (spawnServerWithConfig codes address port workerCount config).MessageCalls
      ServerCall.kind ServerCommand.call ServerCall.data? where
  lawful := spawnServerWithConfig_lawful codes address port workerCount config
  calls := spawnServerWithConfig_calls codes address port workerCount config
  message := fun c => by cases c <;> rfl
  silent := fun x hkind => by cases x <;> first | rfl | exact absurd rfl hkind

theorem spawnClientWithConfig_messageCalls :
    (spawnClientWithConfig codes address port config).MessageCalls
      ClientCall.kind ClientCommand.call ClientCall.data? where
  lawful := spawnClientWithConfig_lawful codes address port config
  calls := spawnClientWithConfig_calls codes address port config
  message := fun c => by cases c <;> rfl
  silent := fun x hkind => by cases x <;> first | rfl | exact absurd rfl hkind

end

namespace Bridge

variable {Slot Cmd Args Evt Call : Type} [DecidableEq Slot]
variable {prog : BridgeProgram Slot Cmd Args Evt Call}
variable {b : Bridge Slot Cmd Args Evt Call} {kind : Call → CallKind} {call : Cmd → Call}
variable {data? : Call → Option (List UInt8)} {channelBuffer : ℕ}

omit [DecidableEq Slot] in
theorem returned_prefix (b : Bridge Slot Cmd Args Evt Call) :
    b.returned <+: b.cmd.received := by
  unfold returned
  split
  next => exact List.dropLast_prefix _
  next => exact List.prefix_rfl

theorem Reachable.message_calls (hprog : prog.MessageCalls kind call data?)
    (hreach : Reachable prog channelBuffer b) :
    b.calls.filterMap data? = b.cmd.received.filterMap prog.message := by
  have hcommands : (b.calls.filter fun x => kind x = .command).filterMap data? =
      b.calls.filterMap data? := by
    rw [List.filterMap_filter]
    apply List.filterMap_congr
    intro x _
    by_cases hkind : kind x = .command
    · simp [hkind]
    · simp [hkind, hprog.silent x hkind]
  rw [← hcommands, hreach.command_calls hprog.calls, List.filterMap_map]
  exact List.filterMap_congr fun c _ => hprog.message c

/-- The messages C has answered are the data of its message calls, one by one. -/
theorem Reachable.results_calls (hprog : prog.MessageCalls kind call data?)
    (hreach : Reachable prog channelBuffer b) :
    b.results.map (fun q => prog.message q.1) <+: (b.calls.filterMap data?).map some := by
  have hresults := congrArg (List.map prog.message) (hreach.results_eq hprog.lawful)
  rw [List.map_map] at hresults
  have hanswered : (b.returned.filter fun c => (prog.message c).isSome).map prog.message =
      (b.returned.filterMap prog.message).map some := by
    rw [List.map_filterMap_some_eq_filter_map_isSome, List.filter_map]
    rfl
  rw [hreach.message_calls hprog]
  exact (hresults.trans hanswered) ▸ (b.returned_prefix.filterMap prog.message).map some

/-- The `n`th message that C took is the data of its `n`th message call. -/
theorem Reachable.message_call (hprog : prog.MessageCalls kind call data?)
    (hreach : Reachable prog channelBuffer b) {n : ℕ} {data : List UInt8}
    (hmessage : b.message prog n = some data) :
    (b.calls.filterMap data?)[n]? = some data := by
  unfold message at hmessage
  split at hmessage
  next c code hget =>
    split at hmessage
    next =>
      obtain ⟨more, hmore⟩ := hreach.results_calls hprog
      have hlt : n < (b.results.map fun q => prog.message q.1).length := by
        rw [List.length_map]
        exact (List.getElem?_eq_some_iff.mp hget).1
      have hnth := congrArg (fun xs => xs[n]?) hmore
      simp only [List.getElem?_append_left hlt, List.getElem?_map, hget, Option.map_some,
        hmessage] at hnth
      cases hcall : (b.calls.filterMap data?)[n]? with
      | none => simp [hcall] at hnth
      | some data' => simpa [hcall, eq_comm] using hnth
    next => contradiction
  next => contradiction

end Bridge

section

variable (codes : ErrorCodes) (address : String) (port : UInt16)
variable (workerCount : Int32) (config : SpawnConfig)

/-- A bridge loses no message silently exactly when C has rejected none: it
neither tries a rejected message again nor lets its owner see the rejection. -/
theorem spawn_noSilentLoss_iff :
    (∀ b, Bridge.Reachable (spawnServerWithConfig codes address port workerCount config)
        config.channelBuffer b →
      (b.NoSilentLoss (spawnServerWithConfig codes address port workerCount config)
          config.channelBuffer ↔
        ∀ q ∈ b.results, 0 ≤ q.2)) ∧
    ∀ b, Bridge.Reachable (spawnClientWithConfig codes address port config)
        config.channelBuffer b →
      (b.NoSilentLoss (spawnClientWithConfig codes address port config)
          config.channelBuffer ↔
        ∀ q ∈ b.results, 0 ≤ q.2) :=
  ⟨fun _ hreach => hreach.noSilentLoss_iff
      (spawnServerWithConfig_lawful codes address port workerCount config),
    fun _ hreach => hreach.noSilentLoss_iff
      (spawnClientWithConfig_lawful codes address port config)⟩

end

theorem spawnClient_noSilentLoss_accepted :
    let client := spawnClientWithConfig .numbered "" 9876 .default
    ∃ b, Bridge.Reachable client SpawnConfig.default.channelBuffer b ∧
      b.acceptedByC = [.send [1] 1 0] ∧
      b.NoSilentLoss client SpawnConfig.default.channelBuffer := by
  intro client
  have hrun : ∃ b, (Bridge.machine client).run
      (Bridge.spawn client SpawnConfig.default.channelBuffer (by decide) .zero)
      (openMoves 0 ++ [.send (.send [1] 1 0), .thread, .return_ { code := 1 }]) = some b ∧
      b.results = [(.send [1] 1 0, 1)] :=
    ⟨_, rfl, rfl⟩
  obtain ⟨b, hrun, hresults⟩ := hrun
  have hreach : Bridge.Reachable client SpawnConfig.default.channelBuffer b :=
    ⟨by decide, .zero, _, hrun⟩
  refine ⟨b, hreach, ?_, ?_⟩
  · simp only [Bridge.acceptedByC, hresults]
    decide
  · refine ((spawn_noSilentLoss_iff .numbered "" 9876 1 .default).2 b hreach).mpr ?_
    intro q hq
    obtain rfl := List.mem_singleton.mp (hresults ▸ hq)
    decide

/-- Two messages in one burst, of which C rejects the second for backpressure:
nothing is left of it. -/
theorem spawnClient_backpressured_message_lost :
    let client := spawnClientWithConfig .numbered "" 9876 .default
    ∃ b, Bridge.Reachable client SpawnConfig.default.channelBuffer b ∧
      b.cmd.accepted = [.send [1] 1 0, .send [2] 1 0] ∧ b.cmd.queue = [] ∧
      b.results = [(.send [1] 1 0, 1), (.send [2] 1 0, -5)] ∧
      ¬ b.NoSilentLoss client SpawnConfig.default.channelBuffer := by
  intro client
  have hrun : ∃ b, (Bridge.machine client).run
      (Bridge.spawn client SpawnConfig.default.channelBuffer (by decide) .zero)
      (openMoves 0 ++ [.send (.send [1] 1 0), .send (.send [2] 1 0), .thread,
        .return_ { code := 1 }, .thread, .return_ { code := -5 }]) = some b ∧
      b.cmd.accepted = [.send [1] 1 0, .send [2] 1 0] ∧ b.cmd.queue = [] ∧
      b.results = [(.send [1] 1 0, 1), (.send [2] 1 0, -5)] :=
    ⟨_, rfl, rfl, rfl, rfl⟩
  obtain ⟨b, hrun, haccepted, hqueue, hresults⟩ := hrun
  have hreach : Bridge.Reachable client SpawnConfig.default.channelBuffer b :=
    ⟨by decide, .zero, _, hrun⟩
  refine ⟨b, hreach, haccepted, hqueue, hresults, fun hloss => ?_⟩
  have hall := (hreach.noSilentLoss_iff (spawnClientWithConfig_lawful _ _ _ _)).mp hloss
  exact absurd (hall (.send [2] 1 0, -5) (by simp [hresults])) (by decide)

end EntanglementRs
