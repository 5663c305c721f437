import EntanglementRs.Lib.Machine
import EntanglementRs.Lib.Channel
import EntanglementRs.Trampolines

/-!
# From callbacks to events

Any number of C threads call the trampolines of a bridge.  A trampoline copies
what it is passed, waits in `blocking_send` while the event channel is full,
and returns once the event is queued or the receiver is closed.  The
application takes events and closes or drops the receiver at any moment; C
rewrites its memory at any moment.
-/

namespace EntanglementRs

open Transition

/-- One call of a trampoline: its arguments and C's memory at the time. -/
structure Invocation (Args : Type) where
  args : Args
  mem : CMemory
  /-- The number of the transferred message the call is made for, if any. -/
  origin : Option ℕ

/-- A call that waits in `blocking_send` with the event it built. -/
structure Waiting (T Args Evt : Type) where
  thread : T
  inv : Invocation Args
  event : Evt

structure Completed (T Args : Type) where
  thread : T
  inv : Invocation Args
  sent : Bool

structure EventPath (T Args Evt : Type) where
  mem : CMemory
  chan : Channel Evt
  waiting : List (Waiting T Args Evt)
  invoked : List (T × Invocation Args)
  completed : List (Completed T Args)

inductive PathAction (T Args : Type) where
  | write (mem : CMemory)
  | invoke (t : T) (args : Args) (origin : Option ℕ)
  | deliver (t : T)
  | fail (t : T)
  | recv
  | close
  | dropReceiver

namespace EventPath

variable {T Args Evt : Type} [DecidableEq T]

def new (capacity : ℕ) (hpos : 0 < capacity) (mem : CMemory) :
    EventPath T Args Evt where
  mem := mem
  chan := Channel.new capacity hpos
  waiting := []
  invoked := []
  completed := []

def Busy (p : EventPath T Args Evt) (t : T) : Prop :=
  ∃ w ∈ p.waiting, w.thread = t

instance (p : EventPath T Args Evt) (t : T) : Decidable (p.Busy t) :=
  inferInstanceAs (Decidable (∃ w ∈ p.waiting, w.thread = t))

def complete (p : EventPath T Args Evt) (w : Waiting T Args Evt) (chan : Channel Evt)
    (sent : Bool) : EventPath T Args Evt :=
  { p with
    chan := chan
    waiting := p.waiting.filter fun other => other.thread ≠ w.thread
    completed := p.completed ++ [⟨w.thread, w.inv, sent⟩] }

def step (event : CMemory → Args → Evt) (p : EventPath T Args Evt) :
    PathAction T Args → Option (EventPath T Args Evt)
  | .write mem => some { p with mem := mem }
  | .invoke t args origin =>
      if p.Busy t then none
      else
        let inv : Invocation Args := ⟨args, p.mem, origin⟩
        some { p with
          waiting := p.waiting ++ [⟨t, inv, event p.mem args⟩]
          invoked := p.invoked ++ [(t, inv)] }
  | .deliver t =>
      match p.waiting.find? fun w => w.thread = t with
      | none => none
      | some w => (p.chan.send? w.event).map fun chan => p.complete w chan true
  | .fail t =>
      match p.waiting.find? fun w => w.thread = t with
      | none => none
      | some w => if p.chan.closed then some (p.complete w p.chan false) else none
  | .recv => p.chan.recv?.map fun result => { p with chan := result.2 }
  | .close => some { p with chan := p.chan.close }
  | .dropReceiver => some { p with chan := p.chan.dropReceiver }

inductive Move (event : CMemory → Args → Evt) (p : EventPath T Args Evt) :
    PathAction T Args → EventPath T Args Evt → Prop where
  | write (mem : CMemory) : Move event p (.write mem) { p with mem := mem }
  | invoke (t : T) (args : Args) (origin : Option ℕ) (hfree : ¬ p.Busy t) :
      Move event p (.invoke t args origin)
        { p with
          waiting := p.waiting ++ [⟨t, ⟨args, p.mem, origin⟩, event p.mem args⟩]
          invoked := p.invoked ++ [(t, ⟨args, p.mem, origin⟩)] }
  | deliver (w : Waiting T Args Evt) (chan : Channel Evt) (hmem : w ∈ p.waiting)
      (hsent : p.chan.Sent w.event chan) :
      Move event p (.deliver w.thread) (p.complete w chan true)
  | fail (w : Waiting T Args Evt) (hmem : w ∈ p.waiting)
      (hclosed : p.chan.closed = true) :
      Move event p (.fail w.thread) (p.complete w p.chan false)
  | recv (e : Evt) (chan : Channel Evt) (hreceived : p.chan.Received e chan) :
      Move event p .recv { p with chan := chan }
  | close : Move event p .close { p with chan := p.chan.close }
  | dropReceiver :
      Move event p .dropReceiver { p with chan := p.chan.dropReceiver }

variable {event : CMemory → Args → Evt} {p q : EventPath T Args Evt}

private theorem find_thread {t : T} {w : Waiting T Args Evt}
    (hfind : p.waiting.find? (fun w => w.thread = t) = some w) :
    w ∈ p.waiting ∧ w.thread = t := by
  refine ⟨List.mem_of_find?_eq_some hfind, ?_⟩
  simpa using List.find?_some hfind

theorem step_move {a : PathAction T Args} (hstep : step event p a = some q) :
    Move event p a q := by
  cases a with
  | write mem =>
      obtain rfl := Option.some.inj hstep
      exact .write mem
  | invoke t args origin =>
      simp only [step] at hstep
      split at hstep
      next => contradiction
      next hfree =>
        obtain rfl := Option.some.inj hstep
        exact .invoke t args origin hfree
  | deliver t =>
      simp only [step] at hstep
      split at hstep
      next => contradiction
      next w hfind =>
        obtain ⟨chan, hsend, rfl⟩ := Option.map_eq_some_iff.mp hstep
        obtain ⟨hmem, rfl⟩ := find_thread hfind
        exact .deliver w chan hmem (Channel.sent_of_send? hsend)
  | fail t =>
      simp only [step] at hstep
      split at hstep
      next => contradiction
      next w hfind =>
        split at hstep
        next hclosed =>
          obtain rfl := Option.some.inj hstep
          obtain ⟨hmem, rfl⟩ := find_thread hfind
          exact .fail w hmem hclosed
        next => contradiction
  | recv =>
      obtain ⟨⟨e, chan⟩, hrecv, rfl⟩ := Option.map_eq_some_iff.mp hstep
      exact .recv e chan (Channel.received_of_recv? hrecv)
  | close =>
      obtain rfl := Option.some.inj hstep
      exact .close
  | dropReceiver =>
      obtain rfl := Option.some.inj hstep
      exact .dropReceiver

variable (event) in
theorem step_deliver_of_room {w : Waiting T Args Evt} (hmem : w ∈ p.waiting)
    (hopen : p.chan.closed = false) (hroom : p.chan.queue.length < p.chan.capacity) :
    ∃ q, step event p (.deliver w.thread) = some q := by
  simp only [step]
  cases hfind : p.waiting.find? fun other => other.thread = w.thread with
  | none =>
      have hnone := List.find?_eq_none.mp hfind w hmem
      simp at hnone
  | some found =>
      obtain ⟨chan, hsend⟩ := Channel.send?_of_room found.event hopen hroom
      exact ⟨p.complete found chan true, by simp [hsend]⟩

variable (event) in
theorem step_fail_of_closed {w : Waiting T Args Evt} (hmem : w ∈ p.waiting)
    (hclosed : p.chan.closed = true) :
    ∃ q, step event p (.fail w.thread) = some q := by
  simp only [step]
  cases hfind : p.waiting.find? fun other => other.thread = w.thread with
  | none =>
      have hnone := List.find?_eq_none.mp hfind w hmem
      simp at hnone
  | some found => exact ⟨p.complete found p.chan false, by simp [hclosed]⟩

variable (event) in
def machine : Machine (EventPath T Args Evt) (PathAction T Args) where
  step := step event

/-! ## The invariant of the event path -/

variable (event) in
/-- What the ghost logs say about the channel and the waiting calls. -/
structure Inv (p : EventPath T Args Evt) : Prop where
  unique : (p.waiting.map Waiting.thread).Nodup
  built : ∀ w ∈ p.waiting, w.event = event w.inv.mem w.inv.args
  accepted : p.chan.accepted =
    (p.completed.filter Completed.sent).map fun c => event c.inv.mem c.inv.args
  order : ∀ t,
    (p.invoked.filter fun i => i.1 = t).map Prod.snd =
      (p.completed.filter fun c => c.thread = t).map Completed.inv ++
        (p.waiting.filter fun w => w.thread = t).map Waiting.inv
  sent : p.chan.closed = false → ∀ c ∈ p.completed, c.sent = true

theorem new_inv (capacity : ℕ) (hpos : 0 < capacity) (mem : CMemory) :
    Inv event (new capacity hpos mem : EventPath T Args Evt) := by
  constructor <;> simp [new]

theorem filter_thread_eq_singleton {ws : List (Waiting T Args Evt)}
    {w : Waiting T Args Evt} (hunique : (ws.map Waiting.thread).Nodup)
    (hmem : w ∈ ws) :
    ws.filter (fun other => other.thread = w.thread) = [w] := by
  induction ws with
  | nil => simp at hmem
  | cons v ws ih =>
      rw [List.map_cons, List.nodup_cons] at hunique
      rcases List.mem_cons.mp hmem with rfl | hmem
      · have hnone : ws.filter (fun other => other.thread = w.thread) = [] := by
          apply List.filter_eq_nil_iff.mpr
          intro other hother heq
          apply hunique.1
          exact List.mem_map.mpr ⟨other, hother, by simpa using heq⟩
        simp [hnone]
      · have hne : v.thread ≠ w.thread := by
          intro heq
          apply hunique.1
          exact List.mem_map.mpr ⟨w, hmem, heq.symm⟩
        simpa [hne] using ih hunique.2 hmem

/-- A returning call moves from the waiting calls of its thread to the end of
the completed ones, and no other thread's logs change. -/
theorem Inv.order_complete (hinv : Inv event p) {w : Waiting T Args Evt}
    (hmem : w ∈ p.waiting) (chan : Channel Evt) (sent : Bool) (t : T) :
    ((p.complete w chan sent).invoked.filter fun i => i.1 = t).map Prod.snd =
      ((p.complete w chan sent).completed.filter fun c => c.thread = t).map
          Completed.inv ++
        ((p.complete w chan sent).waiting.filter fun v => v.thread = t).map
          Waiting.inv := by
  have horder := hinv.order t
  simp only [complete, List.filter_append, List.map_append, List.filter_filter]
  by_cases heq : w.thread = t
  · subst t
    have hwaiting := filter_thread_eq_singleton hinv.unique hmem
    rw [hwaiting] at horder
    have hnone : p.waiting.filter
        (fun v => decide (v.thread = w.thread) && decide (v.thread ≠ w.thread)) = [] := by
      apply List.filter_eq_nil_iff.mpr
      intro v _
      by_cases hv : v.thread = w.thread <;> simp [hv]
    rw [horder, hnone]
    simp
  · have hsame : p.waiting.filter
        (fun v => decide (v.thread = t) && decide (v.thread ≠ w.thread)) =
          p.waiting.filter fun v => v.thread = t := by
      apply List.filter_congr
      intro v _
      by_cases hv : v.thread = t
      · simp [hv, Ne.symm heq]
      · simp [hv]
    rw [horder, hsame]
    simp [heq]

theorem Inv.complete_unique (hinv : Inv event p) (w : Waiting T Args Evt)
    (chan : Channel Evt) (sent : Bool) :
    ((p.complete w chan sent).waiting.map Waiting.thread).Nodup :=
  hinv.unique.sublist (List.filter_sublist.map _)

theorem Inv.complete_built (hinv : Inv event p) (w : Waiting T Args Evt)
    (chan : Channel Evt) (sent : Bool) :
    ∀ v ∈ (p.complete w chan sent).waiting, v.event = event v.inv.mem v.inv.args :=
  fun v hv => hinv.built v (List.mem_of_mem_filter hv)

theorem Inv.of_chan (hinv : Inv event p) {chan : Channel Evt}
    (haccepted : chan.accepted = p.chan.accepted)
    (hclosed : chan.closed = false → p.chan.closed = false) :
    Inv event { p with chan := chan } where
  unique := hinv.unique
  built := hinv.built
  accepted := haccepted.trans hinv.accepted
  order := hinv.order
  sent := fun hopen => hinv.sent (hclosed hopen)

theorem Inv.step (hinv : Inv event p) {a : PathAction T Args}
    (hstep : EventPath.step event p a = some q) : Inv event q := by
  cases step_move hstep with
  | write mem => exact ⟨hinv.unique, hinv.built, hinv.accepted, hinv.order, hinv.sent⟩
  | invoke t args origin hfree =>
      refine ⟨?_, ?_, hinv.accepted, ?_, hinv.sent⟩
      · rw [List.map_append]
        refine List.nodup_append.mpr ⟨hinv.unique, by simp, ?_⟩
        intro other hother new hnew heq
        obtain rfl : new = t := by simpa using hnew
        obtain ⟨w, hw, hthread⟩ := List.mem_map.mp hother
        exact hfree ⟨w, hw, hthread.trans heq⟩
      · intro w hw
        rcases List.mem_append.mp hw with hw | hw
        · exact hinv.built w hw
        · obtain rfl := List.mem_singleton.mp hw
          rfl
      · intro other
        simp only [List.filter_append, List.map_append]
        rw [hinv.order other, List.append_assoc]
        by_cases heq : t = other <;> simp [heq]
  | deliver w chan hmem hsent =>
      refine ⟨hinv.complete_unique w chan true, hinv.complete_built w chan true, ?_,
        hinv.order_complete hmem chan true, ?_⟩
      · change chan.accepted = _
        rw [hsent.accepted, hinv.accepted, hinv.built w hmem]
        simp [complete]
      · intro hopen c hc
        rcases List.mem_append.mp hc with hc | hc
        · exact hinv.sent hsent.was_open c hc
        · obtain rfl := List.mem_singleton.mp hc
          rfl
  | fail w hmem hclosed =>
      refine ⟨hinv.complete_unique w p.chan false,
        hinv.complete_built w p.chan false, ?_,
        hinv.order_complete hmem p.chan false, ?_⟩
      · change p.chan.accepted = _
        rw [hinv.accepted]
        simp [complete]
      · intro hopen
        exact absurd (hclosed.symm.trans hopen) (by decide)
  | recv e chan hreceived =>
      exact hinv.of_chan hreceived.accepted fun hopen => hreceived.closed ▸ hopen
  | close => exact hinv.of_chan rfl fun hopen => nomatch hopen
  | dropReceiver => exact hinv.of_chan rfl fun hopen => nomatch hopen

theorem inv_of_reaches {capacity : ℕ} {hpos : 0 < capacity} {mem : CMemory}
    (hreach : (machine event).Reaches (new capacity hpos mem) p) : Inv event p :=
  hreach.invariant (fun _ _ _ hinv hstep => hinv.step hstep) (new_inv _ _ _)

theorem complete_waiting_length (hunique : (p.waiting.map Waiting.thread).Nodup)
    {w : Waiting T Args Evt} (hmem : w ∈ p.waiting) (chan : Channel Evt) (sent : Bool) :
    (p.complete w chan sent).waiting.length + 1 = p.waiting.length := by
  have hsplit := List.length_eq_length_filter_add (l := p.waiting)
    fun other => decide (other.thread = w.thread)
  rw [filter_thread_eq_singleton hunique hmem] at hsplit
  simp only [complete, List.length_singleton, decide_not] at hsplit ⊢
  omega

theorem invoked_of_step {a : PathAction T Args} (hstep : step event p a = some q) :
    (q.invoked = p.invoked ∧ ∀ t args origin, a ≠ .invoke t args origin) ∨
      ∃ t args origin, a = .invoke t args origin ∧
        q.invoked = p.invoked ++ [(t, ⟨args, p.mem, origin⟩)] := by
  cases step_move hstep with
  | invoke t args origin hfree => exact .inr ⟨t, args, origin, rfl, rfl⟩
  | _ => exact .inl ⟨rfl, by simp⟩

theorem completed_kept {a : PathAction T Args} (hstep : step event p a = some q) :
    q.completed = p.completed ∨ ∃ w sent, w ∈ p.waiting ∧
      q.completed = p.completed ++ [⟨w.thread, w.inv, sent⟩] ∧
      (sent = true → q.chan.closed = false) := by
  cases step_move hstep with
  | deliver w chan hmem hsent =>
      exact .inr ⟨w, true, hmem, rfl, fun _ => hsent.closed.trans hsent.was_open⟩
  | fail w hmem hclosed => exact .inr ⟨w, false, hmem, rfl, nofun⟩
  | _ => exact .inl rfl

theorem step_capacity {a : PathAction T Args} (hstep : step event p a = some q) :
    q.chan.capacity = p.chan.capacity := by
  cases step_move hstep with
  | write mem => rfl
  | invoke t args origin hfree => rfl
  | deliver w chan hmem hsent => exact hsent.capacity
  | fail w hmem hclosed => rfl
  | recv e chan hreceived => exact hreceived.capacity
  | close => rfl
  | dropReceiver => rfl

theorem capacity_of_reaches {capacity : ℕ} {hpos : 0 < capacity} {mem : CMemory}
    (hreach : (machine event).Reaches (new capacity hpos mem) p) :
    p.chan.capacity = capacity :=
  hreach.invariant (I := fun p => p.chan.capacity = capacity)
    (fun _ _ _ hcapacity hstep => (step_capacity hstep).trans hcapacity) rfl

end EventPath

end EntanglementRs
