import EntanglementRs.Bridge.Steps

/-!
# Where callbacks can be running

A call that waits in `blocking_send` waits on a thread on which C is running:
on the bridge thread only inside a C call, and on a worker only between the
open call and the return of `stop` or `destroy`.  Once the thread has ended no
callback is left.
-/

namespace EntanglementRs

open Transition

namespace EventPath

variable {T Args Evt : Type} [DecidableEq T]
variable {event : CMemory → Args → Evt} {p q : EventPath T Args Evt}

theorem waiting_of_step {a : PathAction T Args} (hstep : step event p a = some q)
    {w : Waiting T Args Evt} (hw : w ∈ q.waiting) :
    w ∈ p.waiting ∨ ∃ args origin, a = .invoke w.thread args origin := by
  cases step_move hstep with
  | invoke t args origin hfree =>
      rcases List.mem_append.mp hw with hw | hw
      · exact .inl hw
      · obtain rfl := List.mem_singleton.mp hw
        exact .inr ⟨args, origin, rfl⟩
  | deliver v chan hmem hsent => exact .inl (List.mem_of_mem_filter hw)
  | fail v hmem hclosed => exact .inl (List.mem_of_mem_filter hw)
  | _ => exact .inl hw

end EventPath

theorem BridgeAction.pathAction_ne_invoke {Slot Cmd Args : Type}
    {a : BridgeAction Slot Cmd Args} {t : CThread} {args : Args} {origin : Option ℕ} :
    a.pathAction ≠ some (.invoke t args origin) := by
  cases a <;> simp [pathAction]

def Pc.holdsObject {Slot Cmd : Type} : Pc Slot Cmd → Bool
  | .creating | .configure | .context | .register _ | .dropCommands | .ended => false
  | _ => true

namespace Bridge

variable {Slot Cmd Args Evt Call : Type} [DecidableEq Slot]

structure ThreadsInv (b : Bridge Slot Cmd Args Evt Call) : Prop where
  running : ∀ w ∈ b.path.waiting, b.Running w.thread
  workers : b.workers = true → b.pc.holdsObject = true

variable {prog : BridgeProgram Slot Cmd Args Evt Call}
variable {b b' : Bridge Slot Cmd Args Evt Call}

omit [DecidableEq Slot] in
/-- While the bridge thread itself is in no callback, all waiting calls are on
workers, so the thread may move on. -/
theorem ThreadsInv.advance (hinv : b.ThreadsInv) (hidle : ¬ b.path.Busy .own)
    (hpath : b'.path = b.path) (hworkers : b'.workers = b.workers)
    (hholds : b.workers = true → b'.pc.holdsObject = true) : b'.ThreadsInv := by
  refine ⟨?_, fun h => hholds (hworkers ▸ h)⟩
  intro w hw
  rw [hpath] at hw
  have hrunning := hinv.running w hw
  cases hthread : w.thread with
  | own => exact absurd ⟨w, hw, hthread⟩ hidle
  | worker i =>
      rw [hthread] at hrunning
      exact hworkers.trans hrunning

omit [DecidableEq Slot] in
theorem ThreadsInv.idle (hinv : b.ThreadsInv) (hpc : b.pc.inCall = false) :
    ¬ b.path.Busy .own := by
  rintro ⟨w, hw, hthread⟩
  have hrunning := hinv.running w hw
  rw [hthread] at hrunning
  exact absurd (hpc.symm.trans hrunning) (by decide)

omit [DecidableEq Slot] in
theorem ThreadsInv.of_joined (hwaiting : b.path.waiting = [])
    (hworkers : b.workers = false) : b.ThreadsInv := by
  refine ⟨fun w hw => ?_, fun h => absurd (hworkers.symm.trans h) (by decide)⟩
  rw [hwaiting] at hw
  contradiction

theorem ThreadsInv.move (hinv : b.ThreadsInv) {a : BridgeAction Slot Cmd Args}
    (hmove : Move prog b a b') : b'.ThreadsInv := by
  cases hmove with
  | cloneTx | dropTx | send | read | fault => exact ⟨hinv.running, hinv.workers⟩
  | path _ pa path ha hpath =>
      refine ⟨fun w hw => ?_, hinv.workers⟩
      rcases EventPath.waiting_of_step hpath hw with hold | ⟨args, origin, rfl⟩
      · exact hinv.running w hold
      · exact absurd ha BridgeAction.pathAction_ne_invoke
  | invoke t pair args origin path hrunning hread hcallee hsound hpath =>
      refine ⟨fun w hw => ?_, hinv.workers⟩
      rcases EventPath.waiting_of_step hpath hw with hold | ⟨_, _, heq⟩
      · exact hinv.running w hold
      · obtain rfl : t = w.thread := by
          simp only [PathAction.invoke.injEq] at heq
          exact heq.1
        exact hrunning
  | created r hidle hpc | createFailed r hidle hpc =>
      exact hinv.advance hidle rfl rfl fun h =>
        absurd (hinv.workers h) (by simp [hpc, Pc.holdsObject])
  | opened r hidle hpc | executed r c hidle hpc | polled r hidle hpc
  | updated r hidle hpc => exact hinv.advance hidle rfl rfl fun _ => rfl
  | openFailed r hidle hpc hresult =>
      refine hinv.advance hidle rfl rfl fun _ => ?_
      dsimp only
      split <;> rfl
  | stopped r c hidle hpc hstop hjoined => exact .of_joined hjoined rfl
  | destroyed r hidle hpc hjoined => exact .of_joined hjoined rfl
  | configure hpc | context hpc | register slot trampoline rest hpc | dropCommands hpc =>
      exact hinv.advance (hinv.idle (by simp [hpc, Pc.inCall])) rfl rfl fun h =>
        absurd (hinv.workers h) (by simp [hpc, Pc.holdsObject])
  | enterOpen hpc =>
      -- the workers that start here are in no callback yet
      have hidle := hinv.idle (by simp [hpc, Pc.inCall])
      have hnone : b.workers = false := by
        rw [← Bool.not_eq_true]
        exact fun h => absurd (hinv.workers h) (by simp [hpc, Pc.holdsObject])
      refine ⟨fun w hw => ?_, fun _ => rfl⟩
      have hrunning := hinv.running w hw
      cases hthread : w.thread with
      | own => exact absurd ⟨w, hw, hthread⟩ hidle
      | worker i =>
          rw [hthread] at hrunning
          exact absurd (hnone.symm.trans hrunning) (by decide)
  | take c cmd hpc | tick hpc | wake hpc | clear slot rest hpc | enterDestroy hpc =>
      exact hinv.advance (hinv.idle (by simp [hpc, Pc.inCall])) rfl rfl fun _ => rfl
  | reclaim hpc =>
      exact hinv.advance (hinv.idle (by simp [hpc, Pc.inCall]))
        (release_path b .rawRef) (release_workers b .rawRef) fun _ => rfl
  | dropContext hpc =>
      exact hinv.advance (hinv.idle (by simp [hpc, Pc.inCall]))
        (release_path b .localRef) (release_workers b .localRef) fun _ => rfl

theorem Reachable.threadsInv {channelBuffer : ℕ}
    (hreach : Reachable prog channelBuffer b) : b.ThreadsInv :=
  hreach.invariant (fun _ _ => .of_joined rfl rfl) fun _ _ _ hinv hmove => hinv.move hmove

omit [DecidableEq Slot] in
theorem ThreadsInv.waiting_eq_nil (hinv : b.ThreadsInv)
    (hholds : b.pc.holdsObject = false) (hpc : b.pc.inCall = false) :
    b.path.waiting = [] := by
  have hworkers : ¬ b.workers = true := fun h =>
    absurd (hholds.symm.trans (hinv.workers h)) (by decide)
  rw [List.eq_nil_iff_forall_not_mem]
  intro w hw
  have hrunning := hinv.running w hw
  cases hthread : w.thread with
  | own => exact hinv.idle hpc ⟨w, hw, hthread⟩
  | worker i =>
      rw [hthread] at hrunning
      exact hworkers hrunning

/-- After the thread has ended no step adds an event. -/
theorem ThreadsInv.ended_accepted (hinv : b.ThreadsInv) (hpc : b.pc = .ended)
    {a : BridgeAction Slot Cmd Args} (hmove : Move prog b a b') :
    b'.pc = .ended ∧ b'.path.chan.accepted = b.path.chan.accepted := by
  have hwaiting := hinv.waiting_eq_nil (by simp [hpc, Pc.holdsObject])
    (by simp [hpc, Pc.inCall])
  have hworkers : ¬ b.workers = true := fun h =>
    absurd (hinv.workers h) (by simp [hpc, Pc.holdsObject])
  cases hmove with
  | path _ pa path ha hpath =>
      refine ⟨hpc, ?_⟩
      cases EventPath.step_move hpath with
      | deliver w chan hmem hsent => simp [hwaiting] at hmem
      | recv e chan hreceived => exact hreceived.accepted
      | _ => rfl
  | invoke t pair args origin path hrunning hread hcallee hsound hpath =>
      cases t with
      | own => simp [Running, hpc, Pc.inCall] at hrunning
      | worker i => exact absurd hrunning hworkers
  | cloneTx | dropTx | send | read | fault => exact ⟨hpc, rfl⟩
  -- every other move starts from another statement of the thread
  | _ => simp_all

end Bridge

end EntanglementRs
