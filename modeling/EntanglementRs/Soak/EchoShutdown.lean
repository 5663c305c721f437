import EntanglementRs.Bridge.Shutdown
import EntanglementRs.Soak.Relay

/-!
# When the echo server can end

The thread is the only one that takes from the bounded channel.  A callback in
one of its own calls that finds the channel full waits for the thread it runs
on, with the mutex in its hands or behind a worker that has it; and once the
thread will not take again before `stop`, every callback that `stop` joins needs
a place in the channel.  In all other states the thread can end.
-/

namespace EntanglementRs.Soak.EchoServer

open Transition

variable {codes : ErrorCodes} {capacity : ℕ} {s s' : EchoServer}

def CanEnd (codes : ErrorCodes) (s : EchoServer) : Prop :=
  ∃ s', (machine codes).Reaches s s' ∧ s'.pc = .ended

/-- The thread tries the channel again before it stops. -/
def Drains (s : EchoServer) : Prop :=
  match s.pc with
  | .taking | .sending _ => True
  | .starting | .head | .polling | .updating | .sleeping => s.running = true
  | _ => False

instance (s : EchoServer) : Decidable s.Drains := by
  unfold Drains
  split <;> infer_instance

/-- The messages that are queued before one of the thread's own: that of a worker
which has the mutex. -/
def ahead (s : EchoServer) : ℕ :=
  match s.lock with
  | some (.worker _) => 1
  | _ => 0

/-- The callbacks the thread has to wait for find room without it. -/
def HasRoom (s : EchoServer) : Prop :=
  if s.Drains then
    s.path.Busy .own → s.path.chan.queue.length + s.ahead < s.path.chan.capacity
  else s.path.load ≤ s.path.chan.capacity

instance (s : EchoServer) : Decidable s.HasRoom :=
  inferInstanceAs (Decidable (if s.Drains then _ else _))

theorem hasRoom_of_drains (hdrains : s.Drains)
    (hroom : s.path.Busy .own →
      s.path.chan.queue.length + s.ahead < s.path.chan.capacity) : s.HasRoom := by
  rw [HasRoom, if_pos hdrains]
  exact hroom

theorem hasRoom_of_last (hlast : ¬ s.Drains)
    (hload : s.path.load ≤ s.path.chan.capacity) : s.HasRoom := by
  rw [HasRoom, if_neg hlast]
  exact hload

theorem HasRoom.lt (hroom : s.HasRoom) (hdrains : s.Drains) (hbusy : s.path.Busy .own) :
    s.path.chan.queue.length + s.ahead < s.path.chan.capacity := by
  rw [HasRoom, if_pos hdrains] at hroom
  exact hroom hbusy

theorem HasRoom.load_le (hroom : s.HasRoom) (hlast : ¬ s.Drains) :
    s.path.load ≤ s.path.chan.capacity := by
  rw [HasRoom, if_neg hlast] at hroom
  exact hroom

theorem ahead_le_one (s : EchoServer) : s.ahead ≤ 1 := by
  unfold ahead
  split <;> omega

theorem load_eq_of_waiting_eq_nil (hnone : s.path.waiting = []) :
    s.path.load = s.path.chan.queue.length := by
  simp [EventPath.load, hnone]

/-! ## Without room the thread never ends -/

/-- A callback of the thread's own that nothing can make room for. -/
structure OwnStuck (s : EchoServer) : Prop where
  busy : s.path.Busy .own
  full : s.path.chan.capacity ≤ s.path.chan.queue.length + s.ahead

theorem OwnStuck.move (hs : s.OwnStuck) (hthreads : s.Threads) {a : EchoAction}
    (hmove : Move codes s a s') : s'.OwnStuck := by
  have hcall := hthreads.own hs.busy
  cases hmove with
  | write mem => exact ⟨hs.busy, hs.full⟩
  | callback t args path hrunning hpath =>
      obtain ⟨_, rfl⟩ := invoke_path hpath
      exact ⟨EventPath.invoke_busy.mpr (.inl hs.busy), hs.full⟩
  | lock t hfree hbusy =>
      refine ⟨hs.busy, ?_⟩
      have hnone : s.ahead = 0 := by simp [ahead, hfree]
      have hfull := hs.full
      dsimp only
      omega
  | unlock _ t pa path ha hlock hpath =>
      obtain ⟨w, chan, hmem, rfl, hsent, rfl⟩ := hthreads.unlock ha hpath
      have hroom := hsent.room
      have hfull := hs.full
      cases hthread : w.thread with
      | own =>
          -- the thread's own callback has the mutex, and there is no room
          have hnone : s.ahead = 0 := by simp [ahead, hlock, hthread]
          omega
      | worker i =>
          refine ⟨EventPath.complete_busy.mpr ⟨hs.busy, by simp [hthread]⟩, ?_⟩
          have hone := s.ahead_le_one
          change chan.capacity ≤ chan.queue.length + 0
          rw [hsent.capacity, hsent.queue, List.length_append, List.length_singleton]
          omega
  | stopRunning => exact ⟨hs.busy, hs.full⟩
  | loop hpc | empty hpc | wake hpc | dropReceiver hpc => simp [hpc, EchoPc.inCall] at hcall
  | take m chan hpc hreceived => simp [hpc, EchoPc.inCall] at hcall
  | started r hidle | startFailed r hidle | sent r m hidle | polled r hidle
  | updated r hidle | stopped r hidle | destroyed r hidle => exact absurd hs.busy hidle

/-- More callbacks to join than the channel has places, and no more takes. -/
structure JoinStuck (s : EchoServer) : Prop where
  last : ¬ s.Drains
  overfull : s.path.chan.capacity < s.path.load

theorem JoinStuck.waiting_ne_nil (hs : s.JoinStuck) : s.path.waiting ≠ [] := by
  intro hnone
  have hfull := hs.overfull
  rw [load_eq_of_waiting_eq_nil hnone] at hfull
  have hfits := s.path.chan.fits
  omega

theorem JoinStuck.goto (hs : s.JoinStuck) {pc : EchoPc} {running : Bool}
    (hlast : ¬ Drains { s with pc := pc, running := running }) :
    JoinStuck { s with pc := pc, running := running } :=
  ⟨hlast, hs.overfull⟩

theorem JoinStuck.move (hs : s.JoinStuck) (hthreads : s.Threads) {a : EchoAction}
    (hmove : Move codes s a s') : s'.JoinStuck := by
  have hlast := hs.last
  have hopen : s.path.chan.closed = false := by
    apply Bool.eq_false_iff.mpr
    intro hclosed
    exact hs.waiting_ne_nil (hthreads.waiting_eq_nil (.inr (hthreads.closed hclosed)))
  cases hmove with
  | write mem => exact ⟨hs.last, hs.overfull⟩
  | callback t args path hrunning hpath =>
      have hload := (EventPath.load_step hthreads.path hopen hpath (by simp)).1
      have hcapacity := EventPath.step_capacity hpath
      exact ⟨hs.last, hcapacity ▸ Nat.lt_of_lt_of_le hs.overfull hload⟩
  | lock t hfree hbusy => exact ⟨hs.last, hs.overfull⟩
  | unlock _ t pa path ha hlock hpath =>
      have hquiet : pa ≠ .recv ∧ pa ≠ .close ∧ pa ≠ .dropReceiver := by
        rcases ha with ⟨_, rfl⟩ | ⟨_, rfl⟩ <;> simp
      have hload := (EventPath.load_step hthreads.path hopen hpath hquiet).1
      have hcapacity := EventPath.step_capacity hpath
      exact ⟨hs.last, hcapacity ▸ Nat.lt_of_lt_of_le hs.overfull hload⟩
  | stopRunning =>
      apply hs.goto
      unfold Drains at hlast ⊢
      cases hpc : s.pc <;> simp_all
  | loop hpc =>
      have hrunning : s.running = false := by simpa [Drains, hpc] using hlast
      exact hs.goto (by simp [Drains, hrunning])
  | take m chan hpc hreceived => simp [Drains, hpc] at hlast
  | empty hpc hempty => simp [Drains, hpc] at hlast
  | sent r m hidle hpc => simp [Drains, hpc] at hlast
  | wake hpc => exact hs.goto (by simpa [Drains, hpc] using hlast)
  | dropReceiver hpc =>
      exact absurd (hthreads.waiting_eq_nil (.inl hpc)) hs.waiting_ne_nil
  | started r hidle hpc hcode => exact hs.goto (by simpa [Drains, hpc] using hlast)
  | startFailed r hidle hpc hcode => exact hs.goto (by simp [Drains])
  | polled r hidle hpc => exact hs.goto (by simpa [Drains, hpc] using hlast)
  | updated r hidle hpc => exact hs.goto (by simpa [Drains, hpc] using hlast)
  | stopped r hidle hpc hjoined => exact absurd hjoined hs.waiting_ne_nil
  | destroyed r hidle hpc hjoined => exact absurd hjoined hs.waiting_ne_nil

theorem Reachable.not_canEnd (hs : Reachable codes capacity s) (hroom : ¬ s.HasRoom) :
    ¬ s.CanEnd codes := by
  rintro ⟨t, hreach, hpc⟩
  have hstuck : s.OwnStuck ∨ s.JoinStuck := by
    unfold HasRoom at hroom
    split at hroom
    next =>
      obtain ⟨hbusy, hfull⟩ := Classical.not_imp.mp hroom
      exact .inl ⟨hbusy, Nat.le_of_not_lt hfull⟩
    next hlast => exact .inr ⟨hlast, Nat.lt_of_not_le hroom⟩
  have hlater := hreach.invariant
    (I := fun t => t.Threads ∧ (t.OwnStuck ∨ t.JoinStuck))
    (fun t a u hI hstep => by
      have hmove := step_move hstep
      exact ⟨hI.1.move hmove,
        hI.2.imp (fun h => h.move hI.1 hmove) fun h => h.move hI.1 hmove⟩)
    ⟨hs.threads, hstuck⟩
  rcases hlater.2 with hown | hjoin
  · have hcall := hlater.1.own hown.busy
    simp [hpc, EchoPc.inCall] at hcall
  · exact hjoin.waiting_ne_nil (hlater.1.waiting_eq_nil (.inr hpc))

/-! ## With room the thread ends -/

/-- How many statements the thread has before its end when it finds the channel
empty; the main thread is to clear `running` while it takes. -/
def distance : Bool → EchoPc → ℕ
  | _, .ended => 0
  | _, .dropReceiver => 1
  | _, .destroying => 2
  | _, .stopping => 3
  | false, .head => 4
  | false, .starting => 5
  | false, .sleeping => 5
  | false, .updating => 6
  | false, .polling => 7
  | false, .taking => 8
  | false, .sending _ => 10
  | true, .taking => 11
  | true, .head => 12
  | true, .sending _ => 13
  | true, .starting => 13
  | true, .sleeping => 13
  | true, .updating => 14
  | true, .polling => 15

/-- A callback under way has to get the mutex, to queue its message and to see
it taken and sent. -/
def rank (s : EchoServer) : ℕ :=
  if s.pc = .ended then 0
  else
    distance s.running s.pc + 3 * s.path.chan.queue.length +
      (5 * s.path.waiting.length - if s.lock = none then 0 else 1)

theorem rank_eq_zero (hrank : s.rank = 0) : s.pc = .ended := by
  unfold rank at hrank
  split at hrank
  next hpc => exact hpc
  next hpc =>
    exfalso
    apply hpc
    cases hrunning : s.running <;> cases h : s.pc <;>
      simp [h, hrunning, distance] at hrank ⊢

theorem rank_of_ne (hpc : s.pc ≠ .ended) :
    s.rank = distance s.running s.pc + 3 * s.path.chan.queue.length +
      (5 * s.path.waiting.length - if s.lock = none then 0 else 1) := by
  rw [rank, if_neg hpc]

/-- What holds along a run to the end. -/
structure Ending (codes : ErrorCodes) (capacity : ℕ) (s : EchoServer) : Prop where
  reach : Reachable codes capacity s
  room : s.HasRoom

/-- One step nearer to the end. -/
def Nearer (codes : ErrorCodes) (capacity : ℕ) (s : EchoServer) : Prop :=
  ∃ a s', (machine codes).step s a = some s' ∧ Ending codes capacity s' ∧
    s'.rank < s.rank

theorem Ending.nearer (hs : Ending codes capacity s) {a : EchoAction}
    (hstep : (machine codes).step s a = some s') (hroom : s'.HasRoom)
    (hrank : s'.rank < s.rank) : Nearer codes capacity s :=
  ⟨a, s', hstep, ⟨hs.reach.next hstep, hroom⟩, hrank⟩

theorem Ending.open_of_waiting (hs : Ending codes capacity s)
    (hwaiting : s.path.waiting ≠ []) : s.pc ≠ .ended ∧ s.path.chan.closed = false := by
  have hpc : s.pc ≠ .ended := fun hpc =>
    hwaiting (hs.reach.threads.waiting_eq_nil (.inr hpc))
  exact ⟨hpc, Bool.eq_false_iff.mpr fun hclosed => hpc (hs.reach.threads.closed hclosed)⟩

/-- A callback gets the mutex. -/
theorem Ending.nearer_lock (hs : Ending codes capacity s) {t : CThread}
    (hbusy : s.path.Busy t) (hfree : s.lock = none)
    (hroom : HasRoom { s with lock := some t }) : Nearer codes capacity s := by
  have hpos : 0 < s.path.waiting.length := by
    obtain ⟨w, hmem, _⟩ := hbusy
    exact List.length_pos_of_mem hmem
  have hpc := (hs.open_of_waiting (List.length_pos_iff.mp hpos)).1
  have hstep : (machine codes).step s (.lock t) = some { s with lock := some t } := by
    simp only [machine, step]
    exact if_pos ⟨hfree, hbusy⟩
  refine hs.nearer hstep hroom ?_
  rw [rank_of_ne hpc, rank_of_ne (s := { s with lock := some t }) hpc, hfree]
  simp only [if_true, reduceCtorEq, if_false]
  omega

/-- The callback that has the mutex queues its message. -/
theorem Ending.nearer_send (hs : Ending codes capacity s) {t : CThread}
    (hlock : s.lock = some t) (hlt : s.path.chan.queue.length < s.path.chan.capacity)
    (hroom : ∀ (w : Waiting CThread EchoArgs Echo) (chan : Channel Echo),
      w.thread = t → w ∈ s.path.waiting → s.path.chan.Sent w.event chan →
      HasRoom { s with path := s.path.complete w chan true, lock := none }) :
    Nearer codes capacity s := by
  obtain ⟨v, hv, rfl⟩ := hs.reach.threads.lock t hlock
  have hopen := hs.open_of_waiting (List.ne_nil_of_mem hv)
  obtain ⟨path, hpath⟩ :=
    EventPath.step_deliver_of_room EchoArgs.echo hv hopen.2 hlt
  have hstep : (machine codes).step s (.send v.thread) =
      some { s with path := path, lock := none } := by
    simp [machine, step, unlockStep, hlock, hpath]
  obtain ⟨w, chan, hw, hthread, hsent, rfl⟩ :=
    hs.reach.threads.unlock (a := .send v.thread) (.inl ⟨rfl, rfl⟩) hpath
  refine hs.nearer hstep (hroom w chan hthread hw hsent) ?_
  have hfewer :=
    EventPath.complete_waiting_length hs.reach.threads.path.unique hw chan true
  have hqueue : (s.path.complete w chan true).chan.queue.length =
      s.path.chan.queue.length + 1 := by
    change chan.queue.length = _
    rw [hsent.queue, List.length_append, List.length_singleton]
  rw [rank_of_ne hopen.1,
    rank_of_ne (s := { s with path := s.path.complete w chan true, lock := none }) hopen.1,
    hlock]
  simp only [if_true, reduceCtorEq, if_false, hqueue]
  omega

theorem Ending.load_complete (hs : Ending codes capacity s)
    (hroom : s.path.load ≤ s.path.chan.capacity) {w : Waiting CThread EchoArgs Echo}
    {chan : Channel Echo} (hw : w ∈ s.path.waiting) (hsent : s.path.chan.Sent w.event chan) :
    (s.path.complete w chan true).load ≤ chan.capacity := by
  have hfewer :=
    EventPath.complete_waiting_length hs.reach.threads.path.unique hw chan true
  have hqueue : (s.path.complete w chan true).chan.queue.length =
      s.path.chan.queue.length + 1 := by
    change chan.queue.length = _
    rw [hsent.queue, List.length_append, List.length_singleton]
  rw [hsent.capacity]
  unfold EventPath.load at hroom ⊢
  omega

/-- One of the callbacks that `stop` is to join goes on. -/
theorem Ending.nearer_joined (hs : Ending codes capacity s) (hlast : ¬ s.Drains)
    (hwaiting : s.path.waiting ≠ []) : Nearer codes capacity s := by
  have hload := hs.room.load_le hlast
  obtain ⟨v, hv⟩ := List.exists_mem_of_ne_nil _ hwaiting
  cases hlock : s.lock with
  | none => exact hs.nearer_lock ⟨v, hv, rfl⟩ hlock (hasRoom_of_last hlast hload)
  | some t =>
      have hpos := List.length_pos_of_mem hv
      have hlt : s.path.chan.queue.length < s.path.chan.capacity := by
        unfold EventPath.load at hload
        omega
      apply hs.nearer_send hlock hlt
      intro w chan _ hw hsent
      exact hasRoom_of_last hlast (hs.load_complete hload hw hsent)

/-- A callback of the thread's own that has room goes on, or the worker with the
mutex before it. -/
theorem Ending.nearer_own (hs : Ending codes capacity s) (hbusy : s.path.Busy .own) :
    Nearer codes capacity s := by
  have hpos : 0 < s.path.waiting.length := by
    obtain ⟨w, hmem, _⟩ := hbusy
    exact List.length_pos_of_mem hmem
  by_cases hdrains : s.Drains
  · have hlt := hs.room.lt hdrains hbusy
    cases hlock : s.lock with
    | none =>
        apply hs.nearer_lock hbusy hlock
        refine hasRoom_of_drains hdrains ?_
        intro _
        rw [ahead, hlock] at hlt
        exact hlt
    | some t =>
        apply hs.nearer_send hlock (by omega)
        intro w chan hthread hw hsent
        refine hasRoom_of_drains hdrains ?_
        intro hbusy'
        -- the thread's own callback still waits, so a worker had the mutex
        have hne := (EventPath.complete_busy.mp hbusy').2
        have hone : s.ahead = 1 := by
          rw [ahead, hlock, ← hthread]
          cases h : w.thread with
          | own => exact absurd h.symm hne
          | worker i => rfl
        change chan.queue.length + 0 < chan.capacity
        rw [hsent.capacity, hsent.queue, List.length_append, List.length_singleton]
        omega
  · exact hs.nearer_joined hdrains (List.length_pos_iff.mp hpos)

/-- While the thread takes, the channel is empty, so a worker finds room. -/
theorem Ending.nearer_worker (hs : Ending codes capacity s) (hpc : s.pc = .taking)
    (hempty : s.path.chan.queue = []) (hwaiting : s.path.waiting ≠ []) :
    Nearer codes capacity s := by
  obtain ⟨v, hv⟩ := List.exists_mem_of_ne_nil _ hwaiting
  have hdrains : s.Drains := by simp [Drains, hpc]
  have hidle := hs.reach.threads.not_busy (by simp [hpc, EchoPc.inCall])
  cases hlock : s.lock with
  | none =>
      apply hs.nearer_lock ⟨v, hv, rfl⟩ hlock
      exact hasRoom_of_drains hdrains fun hbusy => absurd hbusy hidle
  | some t =>
      have hlt : s.path.chan.queue.length < s.path.chan.capacity := by
        rw [hempty]
        exact s.path.chan.positive
      apply hs.nearer_send hlock hlt
      intro w chan _ hw hsent
      refine hasRoom_of_drains hdrains ?_
      exact fun hbusy => absurd (EventPath.complete_busy.mp hbusy).1 hidle

/-- A step of the thread itself, or the return of its C call. -/
theorem Ending.nearer_thread (hs : Ending codes capacity s) {a : EchoAction}
    (hstep : (machine codes).step s a = some s') (hidle : ¬ s'.path.Busy .own)
    (hlast : ¬ s'.Drains → s'.path.load ≤ s'.path.chan.capacity)
    (hrank : s'.rank < s.rank) : Nearer codes capacity s := by
  apply hs.nearer hstep _ hrank
  by_cases hdrains : s'.Drains
  · exact hasRoom_of_drains hdrains fun hbusy => absurd hbusy hidle
  · exact hasRoom_of_last hdrains (hlast hdrains)

theorem rank_lt_of_distance (hpc : s.pc ≠ .ended) (hpath : s'.path = s.path)
    (hlock : s'.lock = s.lock)
    (hlt : distance s'.running s'.pc < distance s.running s.pc) : s'.rank < s.rank := by
  rw [rank_of_ne hpc, rank, hpath, hlock]
  split <;> omega

/-- The thread goes on and its callbacks stay as they are. -/
theorem Ending.nearer_goto (hs : Ending codes capacity s) (hidle : ¬ s.path.Busy .own)
    {a : EchoAction} (hstep : (machine codes).step s a = some s')
    (hpath : s'.path = s.path) (hlock : s'.lock = s.lock) (hdrains : s.Drains → s'.Drains)
    (hlt : distance s'.running s'.pc < distance s.running s.pc) :
    Nearer codes capacity s := by
  have hne : s.pc ≠ .ended := by
    intro hpc
    simp [hpc, distance] at hlt
  apply hs.nearer_thread hstep (hpath ▸ hidle) _ (rank_lt_of_distance hne hpath hlock hlt)
  intro hlast
  rw [hpath]
  exact hs.room.load_le fun h => hlast (hdrains h)

/-- The thread takes a message and sends it back, or goes on to `poll`. -/
theorem Ending.nearer_taking (hs : Ending codes capacity s) (hpc : s.pc = .taking)
    (hrunning : s.running = false) : Nearer codes capacity s := by
  have hidle := hs.reach.threads.not_busy (by simp [hpc, EchoPc.inCall])
  have hne : s.pc ≠ .ended := by simp [hpc]
  cases hqueue : s.path.chan.queue with
  | cons m rest =>
      obtain ⟨chan, hrecv, hrest⟩ := Channel.recv?_of_cons hqueue
      have hstep : (machine codes).step s .thread = some { s with
          pc := .sending m
          path := { s.path with chan := chan }
          calls := s.calls ++ (m.sendTo codes).calls } := by
        simp [machine, step, threadStep, hpc, hrecv]
      apply hs.nearer_thread hstep hidle
      · intro hlast
        simp [Drains] at hlast
      · rw [rank_of_ne hne, rank_of_ne (by simp)]
        simp only [hpc, hrunning, distance, hqueue, hrest, List.length_cons]
        omega
  | nil =>
      by_cases hwaiting : s.path.waiting = []
      · have hrecv := Channel.recv?_eq_none_iff.mpr hqueue
        have hstep : (machine codes).step s .thread = some { s with pc := .polling } := by
          simp [machine, step, threadStep, hpc, hrecv]
        apply hs.nearer_thread hstep hidle
        · intro _
          change s.path.load ≤ s.path.chan.capacity
          rw [load_eq_of_waiting_eq_nil hwaiting]
          exact s.path.chan.fits
        · exact rank_lt_of_distance hne rfl rfl (by simp [hpc, hrunning, distance])
      · exact hs.nearer_worker hpc hqueue hwaiting

theorem Ending.progress (hs : Ending codes capacity s) (hrank : s.rank ≠ 0) :
    Nearer codes capacity s := by
  have hne : s.pc ≠ .ended := fun hpc => hrank (by simp [rank, hpc])
  by_cases hbusy : s.path.Busy .own
  · exact hs.nearer_own hbusy
  by_cases hwaiting : s.path.waiting ≠ [] ∧ ¬ s.Drains
  · exact hs.nearer_joined hwaiting.2 hwaiting.1
  have hjoined : ¬ s.Drains → s.path.waiting = [] := fun hlast =>
    Classical.not_not.mp fun h => hwaiting ⟨h, hlast⟩
  -- the thread's own step is next, with `running` cleared while it takes
  cases hpc : s.pc with
  | ended => exact absurd hpc hne
  | starting =>
      have hstep : (machine codes).step s (.return_ {}) = some { s with pc := .head } := by
        simp only [machine, step, returnStep, if_neg hbusy, hpc]
        rfl
      exact hs.nearer_goto hbusy hstep rfl rfl (by simp [Drains, hpc])
        (by cases s.running <;> simp [hpc, distance])
  | head =>
      have hstep : (machine codes).step s .thread =
          some { s with pc := if s.running then .taking else .stopping } := by
        simp [machine, step, threadStep, hpc]
      apply hs.nearer_goto hbusy hstep rfl rfl
      · cases hrunning : s.running <;> simp [Drains, hpc, hrunning]
      · cases s.running <;> simp [hpc, distance]
  | taking =>
      cases hrunning : s.running with
      | true =>
          have hstep : (machine codes).step s .stopRunning =
              some { s with running := false } := rfl
          exact hs.nearer_goto hbusy hstep rfl rfl (by simp [Drains, hpc])
            (by simp [hpc, hrunning, distance])
      | false => exact hs.nearer_taking hpc hrunning
  | sending m =>
      have hstep : (machine codes).step s (.return_ {}) = some { s with
          pc := .taking
          serverEcho := s.serverEcho + 1
          results := s.results ++ [(m, 0)] } := by
        simp only [machine, step, returnStep, if_neg hbusy, hpc]
        rfl
      exact hs.nearer_goto hbusy hstep rfl rfl (by simp [Drains])
        (by cases s.running <;> simp [hpc, distance])
  | polling =>
      have hstep : (machine codes).step s (.return_ {}) =
          some { s with pc := .updating } := by
        simp [machine, step, returnStep, hbusy, hpc]
      exact hs.nearer_goto hbusy hstep rfl rfl (by simp [Drains, hpc])
        (by cases s.running <;> simp [hpc, distance])
  | updating =>
      have hstep : (machine codes).step s (.return_ {}) =
          some { s with pc := .sleeping } := by
        simp [machine, step, returnStep, hbusy, hpc]
      exact hs.nearer_goto hbusy hstep rfl rfl (by simp [Drains, hpc])
        (by cases s.running <;> simp [hpc, distance])
  | sleeping =>
      have hstep : (machine codes).step s .thread = some { s with pc := .head } := by
        simp [machine, step, threadStep, hpc]
      exact hs.nearer_goto hbusy hstep rfl rfl (by simp [Drains, hpc])
        (by cases s.running <;> simp [hpc, distance])
  | stopping =>
      have hnone := hjoined (by simp [Drains, hpc])
      have hstep : (machine codes).step s (.return_ {}) =
          some { s with pc := .destroying, workers := false } := by
        simp [machine, step, returnStep, hbusy, hpc, hnone]
      exact hs.nearer_goto hbusy hstep rfl rfl (by simp [Drains, hpc])
        (by simp [hpc, distance])
  | destroying =>
      have hnone := hjoined (by simp [Drains, hpc])
      have hstep : (machine codes).step s (.return_ {}) =
          some { s with pc := .dropReceiver, workers := false } := by
        simp [machine, step, returnStep, hbusy, hpc, hnone]
      exact hs.nearer_goto hbusy hstep rfl rfl (by simp [Drains, hpc])
        (by simp [hpc, distance])
  | dropReceiver =>
      have hstep : (machine codes).step s .thread = some { s with
          pc := .ended
          path := { s.path with chan := s.path.chan.dropReceiver } } := by
        simp [machine, step, threadStep, hpc]
      have hnone := hs.reach.threads.waiting_eq_nil (.inl hpc)
      apply hs.nearer_thread hstep hbusy
      · intro _
        change s.path.waiting.length + 0 ≤ s.path.chan.capacity
        simp [hnone]
      · rw [rank_of_ne hne, hpc]
        simp only [rank, if_true, distance]
        omega

/-- From a reachable state the server thread can end exactly when the callbacks
it has to wait for find room in the channel without it. -/
theorem echoServer_canEnd_iff (hs : Reachable codes capacity s) :
    s.CanEnd codes ↔ s.HasRoom := by
  constructor
  · intro hend
    by_contra hroom
    exact hs.not_canEnd hroom hend
  · intro hroom
    obtain ⟨t, hreach, _, hzero⟩ := Machine.reaches_rank_zero (M := machine codes)
      (I := Ending codes capacity) rank (fun _ hend hrank => hend.progress hrank) s
      ⟨hs, hroom⟩
    exact ⟨t, hreach, rank_eq_zero hzero⟩

/-- A worker whose message has no place left keeps `stop` from returning, and a
second callback inside one `poll` keeps that `poll` from returning. -/
theorem echoServer_wedged :
    (∃ s, Reachable .numbered 1 s ∧ s.pc = .stopping ∧ ¬ s.CanEnd .numbered) ∧
      ∃ s, Reachable .numbered 1 s ∧ s.pc = .polling ∧ s.running = true ∧
        ¬ s.CanEnd .numbered := by
  let data : EchoArgs := .clientData 0 0 9 ⟨1, 2⟩
  constructor
  · have hrun : ∃ s, (machine .numbered).run (spawn 1 (by decide) .zero)
        [.return_ {}, .thread, .thread, .callback (.worker 0) data, .lock (.worker 0),
          .send (.worker 0), .callback (.worker 1) data, .stopRunning, .return_ {},
          .return_ {}, .thread, .thread] = some s ∧
        s.pc = .stopping ∧ ¬ s.HasRoom :=
      ⟨_, rfl, rfl, by decide⟩
    obtain ⟨s, hrun, hpc, hroom⟩ := hrun
    have hreach : Reachable .numbered 1 s := ⟨by decide, .zero, _, hrun⟩
    exact ⟨s, hreach, hpc, (echoServer_canEnd_iff hreach).not.mpr hroom⟩
  · have hrun : ∃ s, (machine .numbered).run (spawn 1 (by decide) .zero)
        [.return_ {}, .thread, .thread, .callback .own data, .lock .own, .send .own,
          .callback .own data] = some s ∧
        s.pc = .polling ∧ s.running = true ∧ ¬ s.HasRoom :=
      ⟨_, rfl, rfl, rfl, by decide⟩
    obtain ⟨s, hrun, hpc, hrunning, hroom⟩ := hrun
    have hreach : Reachable .numbered 1 s := ⟨by decide, .zero, _, hrun⟩
    exact ⟨s, hreach, hpc, hrunning, (echoServer_canEnd_iff hreach).not.mpr hroom⟩

end EntanglementRs.Soak.EchoServer
