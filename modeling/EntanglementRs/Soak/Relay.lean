import EntanglementRs.Soak.EchoServer

/-!
# What the echo server sends back

Through every interleaving of the callbacks with the server thread, the thread
sends back what the callbacks were passed, each message at most once and each
thread's messages in their order.  A message that is not sent back is waiting or
queued, or was dropped when the thread ended.
-/

namespace EntanglementRs

open Transition

namespace EventPath

variable {T Args Evt : Type} [DecidableEq T] {p : EventPath T Args Evt}

omit [DecidableEq T] in
theorem not_busy_of_waiting_eq_nil (hnone : p.waiting = []) (t : T) : ¬ p.Busy t := by
  rintro ⟨w, hw, _⟩
  simp [hnone] at hw

theorem complete_busy {w : Waiting T Args Evt} {chan : Channel Evt} {sent : Bool} {t : T} :
    (p.complete w chan sent).Busy t ↔ p.Busy t ∧ t ≠ w.thread := by
  constructor
  · rintro ⟨v, hv, rfl⟩
    obtain ⟨hmem, hne⟩ := List.mem_filter.mp hv
    exact ⟨⟨v, hmem, rfl⟩, by simpa using hne⟩
  · rintro ⟨⟨v, hmem, rfl⟩, hne⟩
    exact ⟨v, List.mem_filter.mpr ⟨hmem, by simpa using hne⟩, rfl⟩

omit [DecidableEq T] in
theorem invoke_busy {t t' : T} {inv : Invocation Args} {e : Evt}
    {invoked : List (T × Invocation Args)} :
    EventPath.Busy { p with waiting := p.waiting ++ [⟨t, inv, e⟩], invoked := invoked } t' ↔
      p.Busy t' ∨ t' = t := by
  simp only [Busy, List.mem_append, List.mem_singleton, or_and_right, exists_or,
    exists_eq_left, eq_comm]

end EventPath

namespace Soak

/-- The message of a `send_to` that has not returned. -/
def EchoPc.message : EchoPc → List Echo
  | .sending m => [m]
  | _ => []

def Echo.call (m : Echo) : ServerCall := .sendTo m.data m.ch m.dest.toRaw 0

namespace EchoServer

variable {codes : ErrorCodes} {capacity : ℕ} {s s' : EchoServer}

/-! ## Who is where -/

structure Threads (s : EchoServer) : Prop where
  path : EventPath.Inv EchoArgs.echo s.path
  lock : ∀ t, s.lock = some t → s.path.Busy t
  own : s.path.Busy .own → s.pc.inCall = true
  worker : ∀ i, s.path.Busy (.worker i) → s.workers = true
  alive : s.workers = false → s.pc = .destroying ∨ s.pc = .dropReceiver ∨ s.pc = .ended
  joined : s.pc = .dropReceiver ∨ s.pc = .ended → s.workers = false
  closed : s.path.chan.closed = true → s.pc = .ended

theorem spawn_threads (hpos : 0 < capacity) (mem : CMemory) :
    (spawn capacity hpos mem).Threads where
  path := EventPath.new_inv capacity hpos mem
  lock := by simp [spawn]
  own := by simp [spawn, EventPath.Busy, EventPath.new]
  worker := by simp [spawn]
  alive := by simp [spawn]
  joined := by simp [spawn]
  closed := by simp [spawn, EventPath.new, Channel.new]

/-- Nobody waits once the workers are joined and the object is destroyed. -/
theorem Threads.waiting_eq_nil (hs : s.Threads)
    (hpc : s.pc = .dropReceiver ∨ s.pc = .ended) : s.path.waiting = [] := by
  apply List.eq_nil_iff_forall_not_mem.mpr
  intro w hw
  have hbusy : s.path.Busy w.thread := ⟨w, hw, rfl⟩
  cases hthread : w.thread with
  | own =>
      have hcall := hs.own (hthread ▸ hbusy)
      rcases hpc with hpc | hpc <;> simp [hpc, EchoPc.inCall] at hcall
  | worker i =>
      have hworkers := hs.worker i (hthread ▸ hbusy)
      rw [hs.joined hpc] at hworkers
      contradiction

/-- A callback that lets go of the mutex has queued its message. -/
theorem Threads.unlock (hs : s.Threads) {t : CThread} {a : EchoAction}
    {pa : PathAction CThread EchoArgs} {path : EventPath CThread EchoArgs Echo}
    (ha : a = .send t ∧ pa = .deliver t ∨ a = .sendFails t ∧ pa = .fail t)
    (hpath : s.path.step EchoArgs.echo pa = some path) :
    ∃ w chan, w ∈ s.path.waiting ∧ w.thread = t ∧ s.path.chan.Sent w.event chan ∧
      path = s.path.complete w chan true := by
  rcases ha with ⟨_, rfl⟩ | ⟨_, rfl⟩
  · generalize hpa : (PathAction.deliver t : PathAction CThread EchoArgs) = pa at hpath
    cases EventPath.step_move hpath with
    | deliver w chan hmem hsent =>
        exact ⟨w, chan, hmem, (PathAction.deliver.inj hpa).symm, hsent, rfl⟩
    | _ => simp at hpa
  · generalize hpa : (PathAction.fail t : PathAction CThread EchoArgs) = pa at hpath
    cases EventPath.step_move hpath with
    | fail w hmem hclosed =>
        have hnone := hs.waiting_eq_nil (.inr (hs.closed hclosed))
        simp [hnone] at hmem
    | _ => simp at hpa

theorem invoke_path {t : CThread} {args : EchoArgs}
    {path : EventPath CThread EchoArgs Echo}
    (hpath : s.path.step EchoArgs.echo (.invoke t args none) = some path) :
    ¬ s.path.Busy t ∧
      path = { s.path with
        waiting := s.path.waiting ++
          [⟨t, ⟨args, s.path.mem, none⟩, EchoArgs.echo s.path.mem args⟩]
        invoked := s.path.invoked ++ [(t, ⟨args, s.path.mem, none⟩)] } := by
  simp only [EventPath.step] at hpath
  split at hpath
  next => contradiction
  next hfree => exact ⟨hfree, (Option.some.inj hpath).symm⟩

theorem Threads.workers_eq_true (hs : s.Threads)
    (hpc : s.pc ≠ .destroying ∧ s.pc ≠ .dropReceiver ∧ s.pc ≠ .ended) :
    s.workers = true := by
  by_contra hworkers
  rcases hs.alive (Bool.eq_false_iff.mpr hworkers) with h | h | h
  · exact hpc.1 h
  · exact hpc.2.1 h
  · exact hpc.2.2 h

theorem Threads.not_busy (hs : s.Threads) (hpc : s.pc.inCall = false) :
    ¬ s.path.Busy .own := fun hbusy =>
  absurd (hs.own hbusy) (by simp [hpc])

/-- The thread goes on, with no callback of its own under way. -/
theorem Threads.goto (hs : s.Threads) (hidle : ¬ s.path.Busy .own)
    (hfrom : s.pc ≠ .destroying ∧ s.pc ≠ .dropReceiver ∧ s.pc ≠ .ended) {pc : EchoPc}
    (hto : pc ≠ .dropReceiver ∧ pc ≠ .ended) : Threads { s with pc := pc } where
  path := hs.path
  lock := hs.lock
  own := fun hbusy => absurd hbusy hidle
  worker := hs.worker
  alive := fun hworkers => by
    rw [hs.workers_eq_true hfrom] at hworkers
    contradiction
  joined := by
    rintro (hpc | hpc)
    · exact absurd hpc hto.1
    · exact absurd hpc hto.2
  closed := fun hclosed => absurd (hs.closed hclosed) hfrom.2.2

theorem Threads.move (hs : s.Threads) {a : EchoAction} (hmove : Move codes s a s') :
    s'.Threads := by
  cases hmove with
  | write mem =>
      have hpath : s.path.step EchoArgs.echo (.write mem) = some { s.path with mem := mem } :=
        rfl
      exact ⟨hs.path.step hpath, hs.lock, hs.own, hs.worker, hs.alive, hs.joined, hs.closed⟩
  | callback t args path hrunning hpath =>
      have hinv := hs.path.step hpath
      obtain ⟨_, rfl⟩ := invoke_path hpath
      refine ⟨hinv, ?_, ?_, ?_, hs.alive, hs.joined, hs.closed⟩
      · intro t' hlock
        exact EventPath.invoke_busy.mpr (.inl (hs.lock t' hlock))
      · intro hbusy
        rcases EventPath.invoke_busy.mp hbusy with hbusy | rfl
        · exact hs.own hbusy
        · exact hrunning
      · intro i hbusy
        rcases EventPath.invoke_busy.mp hbusy with hbusy | rfl
        · exact hs.worker i hbusy
        · exact hrunning
  | lock t hfree hbusy =>
      refine ⟨hs.path, ?_, hs.own, hs.worker, hs.alive, hs.joined, hs.closed⟩
      intro t' hlock
      exact Option.some.inj hlock ▸ hbusy
  | unlock _ t pa path ha hlock hpath =>
      have hinv := hs.path.step hpath
      obtain ⟨w, chan, hmem, rfl, hsent, rfl⟩ := hs.unlock ha hpath
      refine ⟨hinv, by simp, ?_, ?_, hs.alive, hs.joined, ?_⟩
      · exact fun hbusy => hs.own (EventPath.complete_busy.mp hbusy).1
      · exact fun i hbusy => hs.worker i (EventPath.complete_busy.mp hbusy).1
      · intro hclosed
        exact hs.closed (hsent.closed.symm.trans hclosed)
  | stopRunning =>
      exact ⟨hs.path, hs.lock, hs.own, hs.worker, hs.alive, hs.joined, hs.closed⟩
  | loop hpc =>
      have hto : (if s.running then EchoPc.taking else .stopping) ≠ .dropReceiver ∧
          (if s.running then EchoPc.taking else .stopping) ≠ .ended := by
        cases s.running <;> simp
      exact hs.goto (hs.not_busy (by simp [hpc, EchoPc.inCall])) (by simp [hpc]) hto
  | take m chan hpc hreceived =>
      have hsending : Threads { s with pc := .sending m } :=
        hs.goto (hs.not_busy (by simp [hpc, EchoPc.inCall])) (by simp [hpc]) (by simp)
      refine ⟨hs.path.of_chan hreceived.accepted fun hopen => hreceived.closed ▸ hopen,
        hs.lock, hsending.own, hs.worker, hsending.alive, hsending.joined, ?_⟩
      intro hclosed
      exact hsending.closed (hreceived.closed ▸ hclosed)
  | empty hpc =>
      exact hs.goto (hs.not_busy (by simp [hpc, EchoPc.inCall])) (by simp [hpc]) (by simp)
  | wake hpc =>
      exact hs.goto (hs.not_busy (by simp [hpc, EchoPc.inCall])) (by simp [hpc]) (by simp)
  | dropReceiver hpc =>
      refine ⟨hs.path.of_chan rfl (fun hopen => nomatch hopen), hs.lock, ?_, hs.worker,
        fun _ => by simp, fun _ => hs.joined (.inl hpc), fun _ => rfl⟩
      exact fun hbusy => absurd hbusy (hs.not_busy (by simp [hpc, EchoPc.inCall]))
  | started r hidle hpc hcode => exact hs.goto hidle (by simp [hpc]) (by simp)
  | startFailed r hidle hpc hcode => exact hs.goto hidle (by simp [hpc]) (by simp)
  | sent r m hidle hpc =>
      have htaking : Threads { s with pc := .taking } :=
        hs.goto hidle (by simp [hpc]) (by simp)
      exact ⟨htaking.path, htaking.lock, htaking.own, htaking.worker, htaking.alive,
        htaking.joined, htaking.closed⟩
  | polled r hidle hpc => exact hs.goto hidle (by simp [hpc]) (by simp)
  | updated r hidle hpc => exact hs.goto hidle (by simp [hpc]) (by simp)
  | stopped r hidle hpc hjoined =>
      refine ⟨hs.path, hs.lock, fun hbusy => absurd hbusy hidle, ?_, fun _ => .inl rfl,
        fun _ => rfl, ?_⟩
      · exact fun i hbusy => absurd hbusy (EventPath.not_busy_of_waiting_eq_nil hjoined _)
      · intro hclosed
        have hended := hs.closed hclosed
        simp [hpc] at hended
  | destroyed r hidle hpc hjoined =>
      refine ⟨hs.path, hs.lock, fun hbusy => absurd hbusy hidle, ?_,
        fun _ => .inr (.inl rfl), fun _ => rfl, ?_⟩
      · exact fun i hbusy => absurd hbusy (EventPath.not_busy_of_waiting_eq_nil hjoined _)
      · intro hclosed
        have hended := hs.closed hclosed
        simp [hpc] at hended

/-! ## What became of each message -/

structure Accounts (s : EchoServer) : Prop where
  received : s.serverRecv = s.path.invoked.length
  invoked : s.path.invoked.length = s.path.completed.length + s.path.waiting.length
  queued : ∀ c ∈ s.path.completed, c.sent = true
  taken : s.path.chan.received = s.results.map Prod.fst ++ s.pc.message
  calls : s.calls = s.path.chan.received.map Echo.call
  echoes : s.serverEcho = (s.results.filter fun r => 0 ≤ r.2).length

theorem spawn_accounts (hpos : 0 < capacity) (mem : CMemory) :
    (spawn capacity hpos mem).Accounts := by
  constructor <;> simp [spawn, EventPath.new, Channel.new, EchoPc.message]

/-- The thread goes on without a message in its hands. -/
theorem Accounts.goto (hs : s.Accounts) (hfrom : s.pc.message = []) {pc : EchoPc}
    (hto : pc.message = []) (workers : Bool) :
    Accounts { s with pc := pc, workers := workers } where
  received := hs.received
  invoked := hs.invoked
  queued := hs.queued
  taken := by
    have htaken := hs.taken
    rw [hfrom] at htaken
    rw [hto]
    exact htaken
  calls := hs.calls
  echoes := hs.echoes

theorem Accounts.move (hs : s.Accounts) (hthreads : s.Threads) {a : EchoAction}
    (hmove : Move codes s a s') : s'.Accounts := by
  cases hmove with
  | write mem => exact ⟨hs.received, hs.invoked, hs.queued, hs.taken, hs.calls, hs.echoes⟩
  | callback t args path hrunning hpath =>
      obtain ⟨_, rfl⟩ := invoke_path hpath
      refine ⟨?_, ?_, hs.queued, hs.taken, hs.calls, hs.echoes⟩
      · simp [hs.received]
      · simp only [List.length_append, List.length_singleton, hs.invoked]
        omega
  | lock t hfree hbusy =>
      exact ⟨hs.received, hs.invoked, hs.queued, hs.taken, hs.calls, hs.echoes⟩
  | unlock _ t pa path ha hlock hpath =>
      obtain ⟨w, chan, hmem, rfl, hsent, rfl⟩ := hthreads.unlock ha hpath
      refine ⟨hs.received, ?_, ?_, hsent.received.trans hs.taken, ?_, hs.echoes⟩
      · have hfewer :=
          EventPath.complete_waiting_length hthreads.path.unique hmem chan true
        have hinvoked := hs.invoked
        have hcompleted :
            (s.path.complete w chan true).completed.length =
              s.path.completed.length + 1 := by
          simp [EventPath.complete]
        change s.path.invoked.length = (s.path.complete w chan true).completed.length +
          (s.path.complete w chan true).waiting.length
        omega
      · intro c hc
        rcases List.mem_append.mp hc with hc | hc
        · exact hs.queued c hc
        · rw [List.mem_singleton.mp hc]
      · change s.calls = chan.received.map Echo.call
        rw [hsent.received]
        exact hs.calls
  | stopRunning =>
      exact ⟨hs.received, hs.invoked, hs.queued, hs.taken, hs.calls, hs.echoes⟩
  | loop hpc =>
      refine hs.goto (by simp [hpc, EchoPc.message]) ?_ s.workers
      cases s.running <;> rfl
  | take m chan hpc hreceived =>
      have htaken : s.path.chan.received = s.results.map Prod.fst := by
        simp [hs.taken, hpc, EchoPc.message]
      refine ⟨hs.received, hs.invoked, hs.queued, ?_, ?_, hs.echoes⟩
      · change chan.received = _
        rw [hreceived.received, htaken]
        rfl
      · change s.calls ++ _ = chan.received.map Echo.call
        rw [hreceived.received, List.map_append, hs.calls]
        rfl
  | empty hpc => exact hs.goto (by simp [hpc, EchoPc.message]) rfl s.workers
  | wake hpc => exact hs.goto (by simp [hpc, EchoPc.message]) rfl s.workers
  | dropReceiver hpc =>
      have hended : Accounts { s with pc := .ended, workers := s.workers } :=
        hs.goto (by simp [hpc, EchoPc.message]) rfl s.workers
      exact ⟨hended.received, hended.invoked, hended.queued, hended.taken, hended.calls,
        hended.echoes⟩
  | started r hidle hpc hcode => exact hs.goto (by simp [hpc, EchoPc.message]) rfl s.workers
  | startFailed r hidle hpc hcode =>
      exact hs.goto (by simp [hpc, EchoPc.message]) rfl s.workers
  | sent r m hidle hpc =>
      have htaken := hs.taken
      rw [hpc] at htaken
      refine ⟨hs.received, hs.invoked, hs.queued, ?_, hs.calls, ?_⟩
      · change s.path.chan.received = _
        rw [htaken]
        simp [EchoPc.message]
      · simp only [List.filter_append, List.length_append, hs.echoes]
        by_cases hcode : 0 ≤ r.code <;> simp [hcode]
  | polled r hidle hpc => exact hs.goto (by simp [hpc, EchoPc.message]) rfl s.workers
  | updated r hidle hpc => exact hs.goto (by simp [hpc, EchoPc.message]) rfl s.workers
  | stopped r hidle hpc hjoined => exact hs.goto (by simp [hpc, EchoPc.message]) rfl false
  | destroyed r hidle hpc hjoined => exact hs.goto (by simp [hpc, EchoPc.message]) rfl false

/-! ## Every run -/

theorem Reachable.next {a : EchoAction} (hs : Reachable codes capacity s)
    (hstep : (machine codes).step s a = some s') : Reachable codes capacity s' := by
  obtain ⟨hpos, mem, hreach⟩ := hs
  exact ⟨hpos, mem, hreach.tail hstep⟩

theorem Reachable.invariant {I : EchoServer → Prop} (hs : Reachable codes capacity s)
    (hspawn : ∀ (hpos : 0 < capacity) (mem : CMemory), I (spawn capacity hpos mem))
    (hmove : ∀ s s' a, I s → Move codes s a s' → I s') : I s := by
  obtain ⟨hpos, mem, hreach⟩ := hs
  exact hreach.invariant (fun s a s' hI hstep => hmove s s' a hI (step_move hstep))
    (hspawn hpos mem)

theorem Reachable.threads (hs : Reachable codes capacity s) : s.Threads :=
  hs.invariant spawn_threads fun _ _ _ hthreads hmove => hthreads.move hmove

theorem Reachable.accounts (hs : Reachable codes capacity s) : s.Accounts :=
  (hs.invariant (I := fun s => s.Threads ∧ s.Accounts)
    (fun hpos mem => ⟨spawn_threads hpos mem, spawn_accounts hpos mem⟩)
    fun _ _ _ hI hmove => ⟨hI.1.move hmove, hI.2.move hI.1 hmove⟩).2

/-- The `n`th result is that of the `n`th call. -/
theorem Accounts.results_calls (hs : s.Accounts) :
    s.results.map (fun r => r.1.call) <+: s.calls := by
  refine ⟨s.pc.message.map Echo.call, ?_⟩
  rw [hs.calls, hs.taken, List.map_append, List.map_map]
  rfl

theorem Accounts.accepted (hs : s.Accounts) (hthreads : s.Threads) :
    s.path.chan.accepted =
      s.path.completed.map fun c => EchoArgs.echo c.inv.mem c.inv.args := by
  rw [hthreads.path.accepted, List.filter_eq_self.mpr hs.queued]

theorem Accounts.account (hs : s.Accounts) (hthreads : s.Threads) :
    s.serverRecv =
      s.calls.length + s.path.chan.queue.length + s.path.waiting.length +
        s.path.chan.discarded.length := by
  have haccepted := congrArg List.length s.path.chan.account
  rw [hs.accepted hthreads] at haccepted
  simp only [List.length_map, List.length_append] at haccepted
  have hcalls : s.calls.length = s.path.chan.received.length := by
    rw [hs.calls, List.length_map]
  rw [hs.received, hs.invoked]
  omega

end EchoServer

end Soak

end EntanglementRs
