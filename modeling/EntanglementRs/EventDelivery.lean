import EntanglementRs.EventPath

/-!
# Events are lossless, duplicate-free and ordered

The consequences of the event-path invariant for an application: what it
receives, together with what is queued for it, is one event for every
trampoline call that has returned, in an order that keeps every C thread's own
order.
-/

namespace EntanglementRs

open Transition

namespace EventPath

variable {T Args Evt : Type} [DecidableEq T]
variable {event : CMemory → Args → Evt} {p q : EventPath T Args Evt}

/-- What the application can rely on, in a state of the event path of the given
capacity. -/
structure Lossless (event : CMemory → Args → Evt)
    (carries : CMemory → Args → Evt → Prop) (capacity : ℕ)
    (p : EventPath T Args Evt) : Prop where
  exact_events : p.chan.closed = false →
    p.chan.received ++ p.chan.queue =
      p.completed.map fun c => event c.inv.mem c.inv.args
  carried : ∀ c ∈ p.completed, carries c.inv.mem c.inv.args (event c.inv.mem c.inv.args)
  /-- A thread's calls return in the order in which it made them, and at most
  its last one has not returned. -/
  ordered : ∀ t, ∃ last,
    (p.invoked.filter fun i => i.1 = t).map Prod.snd =
      (p.completed.filter fun c => c.thread = t).map Completed.inv ++ last ∧
    last.length ≤ 1
  /-- Calls of any kind that all come from one thread, such as those for one
  endpoint, return in the order in which they were made. -/
  together : ∀ (kind : Invocation Args → Bool) (t : T),
    (∀ i ∈ p.invoked, kind i.2 = true → i.1 = t) →
    (p.completed.map Completed.inv).filter kind <+:
      (p.invoked.map Prod.snd).filter kind
  bounded : p.chan.queue.length ≤ capacity
  closed_adds_nothing : p.chan.closed = true → ∀ a q, step event p a = some q →
    q.chan.accepted = p.chan.accepted ∧ q.chan.closed = true
  closed_unblocks : p.chan.closed = true → ∀ w ∈ p.waiting,
    ∃ q, step event p (.fail w.thread) = some q ∧ ¬ q.Busy w.thread

theorem step_of_closed (hclosed : p.chan.closed = true) {a : PathAction T Args}
    (hstep : step event p a = some q) :
    q.chan.accepted = p.chan.accepted ∧ q.chan.closed = true := by
  cases step_move hstep with
  | write mem => exact ⟨rfl, hclosed⟩
  | invoke t args origin hfree => exact ⟨rfl, hclosed⟩
  | deliver w chan hmem hsent =>
      exact absurd (hclosed.symm.trans hsent.was_open) (by decide)
  | fail w hmem _ => exact ⟨rfl, hclosed⟩
  | recv e chan hreceived =>
      exact ⟨hreceived.accepted, hreceived.closed.trans hclosed⟩
  | close => exact ⟨rfl, rfl⟩
  | dropReceiver => exact ⟨rfl, rfl⟩

theorem complete_not_busy (w : Waiting T Args Evt) (chan : Channel Evt)
    (sent : Bool) : ¬ (p.complete w chan sent).Busy w.thread := by
  rintro ⟨v, hv, heq⟩
  have hne := (List.mem_filter.mp hv).2
  simp [heq] at hne

theorem Inv.exact_events (hinv : Inv event p) (hopen : p.chan.closed = false) :
    p.chan.received ++ p.chan.queue =
      p.completed.map fun c => event c.inv.mem c.inv.args := by
  rw [← Channel.accepted_eq_of_open hopen, hinv.accepted,
    List.filter_eq_self.mpr (hinv.sent hopen)]

theorem Inv.waiting_of_thread_le_one (hinv : Inv event p) (t : T) :
    (p.waiting.filter fun w => w.thread = t).length ≤ 1 := by
  cases hfilter : p.waiting.filter fun w => w.thread = t with
  | nil => simp
  | cons w rest =>
      have hw : w ∈ p.waiting.filter fun w => w.thread = t := by simp [hfilter]
      obtain ⟨hmem, hthread⟩ := List.mem_filter.mp hw
      obtain rfl : w.thread = t := by simpa using hthread
      rw [filter_thread_eq_singleton hinv.unique hmem] at hfilter
      simp [← hfilter]

theorem Inv.completed_invoked (hinv : Inv event p) {c : Completed T Args}
    (hc : c ∈ p.completed) : (c.thread, c.inv) ∈ p.invoked := by
  have hmem : c.inv ∈
      (p.invoked.filter fun i => i.1 = c.thread).map Prod.snd := by
    rw [hinv.order c.thread, List.mem_append]
    left
    exact List.mem_map.mpr ⟨c, List.mem_filter.mpr ⟨hc, by simp⟩, rfl⟩
  obtain ⟨⟨t, inv⟩, hi, hinv'⟩ := List.mem_map.mp hmem
  obtain ⟨hi, ht⟩ := List.mem_filter.mp hi
  simp only [decide_eq_true_eq] at ht hinv'
  exact ht ▸ hinv' ▸ hi

theorem Inv.together (hinv : Inv event p) (kind : Invocation Args → Bool) (t : T)
    (hkind : ∀ i ∈ p.invoked, kind i.2 = true → i.1 = t) :
    (p.completed.map Completed.inv).filter kind <+:
      (p.invoked.map Prod.snd).filter kind := by
  have hinvoked : (p.invoked.map Prod.snd).filter kind =
      ((p.invoked.filter fun i => i.1 = t).map Prod.snd).filter kind := by
    rw [List.filter_map, List.filter_map, List.filter_filter]
    congr 1
    apply List.filter_congr
    intro i hi
    cases hk : kind i.2 with
    | false => simp [hk]
    | true => simp [hk, hkind i hi hk]
  have hcompleted : (p.completed.map Completed.inv).filter kind =
      ((p.completed.filter fun c => c.thread = t).map Completed.inv).filter kind := by
    rw [List.filter_map, List.filter_map, List.filter_filter]
    congr 1
    apply List.filter_congr
    intro c hc
    cases hk : kind c.inv with
    | false => simp [hk]
    | true =>
        have hthread : c.thread = t := hkind _ (hinv.completed_invoked hc) hk
        simp [hk, hthread]
  rw [hinvoked, hcompleted, hinv.order t, List.filter_append]
  exact List.prefix_append _ _

theorem Inv.lossless (hinv : Inv event p)
    {carries : CMemory → Args → Evt → Prop}
    (hcarries : ∀ mem args, carries mem args (event mem args)) {capacity : ℕ}
    (hcapacity : p.chan.capacity = capacity) :
    Lossless event carries capacity p where
  exact_events := hinv.exact_events
  carried := fun c _ => hcarries c.inv.mem c.inv.args
  ordered := fun t =>
    ⟨_, hinv.order t, by simpa using hinv.waiting_of_thread_le_one t⟩
  together := hinv.together
  bounded := hcapacity ▸ p.chan.fits
  closed_adds_nothing := fun hclosed _ _ hstep => step_of_closed hclosed hstep
  closed_unblocks := by
    intro hclosed w hw
    obtain ⟨q, hstep⟩ := step_fail_of_closed event hw hclosed
    refine ⟨q, hstep, ?_⟩
    generalize hthread : w.thread = t at hstep ⊢
    cases step_move hstep with
    | fail v hmem _ => exact complete_not_busy v p.chan false

end EventPath

/-- Through every interleaving of any number of C threads with the application,
both bridges deliver one faithful event for each returned trampoline call, in
each thread's order, never more than the capacity at once, and nothing after
the receiver is closed. -/
theorem trampolines_events_lossless {T : Type} [DecidableEq T] {capacity : ℕ}
    (hpos : 0 < capacity) (mem : CMemory) :
    (∀ p : EventPath T ServerCallback ServerEvent,
      (EventPath.machine ServerCallback.event).Reaches
        (EventPath.new capacity hpos mem) p →
      p.Lossless ServerCallback.event
        (fun mem call => ServerCallback.Carries mem call) capacity) ∧
    ∀ p : EventPath T ClientCallback ClientEvent,
      (EventPath.machine ClientCallback.event).Reaches
        (EventPath.new capacity hpos mem) p →
      p.Lossless ClientCallback.event
        (fun mem call => ClientCallback.Carries mem call) capacity := by
  constructor
  · intro p hreach
    exact (EventPath.inv_of_reaches hreach).lossless ServerCallback.event_carries
      (EventPath.capacity_of_reaches hreach)
  · intro p hreach
    exact (EventPath.inv_of_reaches hreach).lossless ClientCallback.event_carries
      (EventPath.capacity_of_reaches hreach)

/-- C's memory while the text of an address stands in it. -/
def CMemory.addressed : CMemory where
  header := CMemory.zero.header
  bytes := CMemory.zero.bytes
  cstr := fun p => if p = 8 then [0x31, 0x30, 0x2E, 0x30, 0x2E, 0x30, 0x2E, 0x31] else []

theorem trampolines_events_lossless_two_threads :
    ∃ p : EventPath ℕ ServerCallback ServerEvent,
      (EventPath.machine ServerCallback.event).Reaches
        (EventPath.new 1 (by decide) .addressed) p ∧
      p.chan.received = [.clientConnected ⟨1, 2⟩ "10.0.0.1" 2] ∧
      p.chan.queue = [.clientDisconnected ⟨1, 2⟩ "10.0.0.1" 2] ∧
      p.Lossless ServerCallback.event
        (fun mem call => ServerCallback.Carries mem call) 1 := by
  have hrun : ∃ p : EventPath ℕ ServerCallback ServerEvent,
      (EventPath.machine ServerCallback.event).run (EventPath.new 1 (by decide) .addressed)
        [.invoke 0 (.clientConnected ⟨1, 2⟩ (some 8) 2) none,
          .invoke 1 (.clientDisconnected ⟨1, 2⟩ (some 8) 2) none, .write .zero,
          .deliver 0, .recv, .deliver 1] = some p ∧
      p.chan.received = [.clientConnected ⟨1, 2⟩ "10.0.0.1" 2] ∧
      p.chan.queue = [.clientDisconnected ⟨1, 2⟩ "10.0.0.1" 2] :=
    ⟨_, rfl, rfl, rfl⟩
  obtain ⟨p, hrun, hreceived, hqueue⟩ := hrun
  have hreach : (EventPath.machine ServerCallback.event).Reaches
      (EventPath.new 1 (by decide) .addressed) p := ⟨_, hrun⟩
  exact ⟨p, hreach, hreceived, hqueue,
    (trampolines_events_lossless (by decide) .addressed).1 p hreach⟩

end EntanglementRs
