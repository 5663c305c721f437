import EntanglementRs.Bridge.Link

/-!
# What arrives of a message

A message that the library has handed over is one event of the peer's handle,
with the bytes C was given, if it needed no fragmentation and the receiver was
open for it; otherwise there is none.
-/

namespace EntanglementRs

open Transition

namespace Link

variable {Slot Cmd Args Evt Call Slot' Cmd' Args' Evt' Call' : Type}
variable [DecidableEq Slot] [DecidableEq Slot']
variable {mtu : ℕ} {prog : BridgeProgram Slot Cmd Args Evt Call}
variable {peer : BridgeProgram Slot' Cmd' Args' Evt' Call'}
variable {recv : Receiving Slot' Args' Evt'}
variable {l l' : Link Slot Cmd Args Evt Call Slot' Cmd' Args' Evt' Call'}

def eventsFor (peer : BridgeProgram Slot' Cmd' Args' Evt' Call')
    (l : Link Slot Cmd Args Evt Call Slot' Cmd' Args' Evt' Call') (n : ℕ) : List Evt' :=
  (l.receiver.path.completed.filter fun c => c.sent && c.inv.origin = some n).map
    fun c => peer.event c.inv.mem c.inv.args

/-- Exactly one event was made for message `n`, with its data, and the channel of
the handle took it; while the receiver is open it is received or queued. -/
def Delivered (peer : BridgeProgram Slot' Cmd' Args' Evt' Call')
    (recv : Receiving Slot' Args' Evt')
    (l : Link Slot Cmd Args Evt Call Slot' Cmd' Args' Evt' Call') (n : ℕ)
    (data : List UInt8) : Prop :=
  ∃ e, l.eventsFor peer n = [e] ∧ recv.payload e = some data ∧
    e ∈ l.receiver.path.chan.accepted ∧
    (l.receiver.path.chan.closed = false →
      e ∈ l.receiver.path.chan.received ++ l.receiver.path.chan.queue)

/-- The receiving object has handed message `n` over, and no callback for it is
still under way. -/
def HandedOver (l : Link Slot Cmd Args Evt Call Slot' Cmd' Args' Evt' Call') (n : ℕ) :
    Prop :=
  l.Handed n ∧ ∀ w ∈ l.receiver.path.waiting, w.inv.origin ≠ some n

/-- On the way to this state the receiver was still open when the callback for
message `n` had returned. -/
def HandedOverOpen (mtu : ℕ) (prog : BridgeProgram Slot Cmd Args Evt Call)
    (peer : BridgeProgram Slot' Cmd' Args' Evt' Call')
    (recv : Receiving Slot' Args' Evt') (channelBuffer channelBuffer' : ℕ)
    (l : Link Slot Cmd Args Evt Call Slot' Cmd' Args' Evt' Call') (n : ℕ) : Prop :=
  ∃ l₀ : Link Slot Cmd Args Evt Call Slot' Cmd' Args' Evt' Call',
    Reachable mtu prog peer recv channelBuffer channelBuffer' l₀ ∧
      (machine mtu prog peer recv).Reaches l₀ l ∧ l₀.HandedOver n ∧
      l₀.receiver.path.chan.closed = false

/-- The callbacks for message `n` that have returned. -/
def returnedFor (l : Link Slot Cmd Args Evt Call Slot' Cmd' Args' Evt' Call') (n : ℕ) :
    List (Completed CThread Args') :=
  l.receiver.path.completed.filter fun c => c.inv.origin = some n

omit [DecidableEq Slot] [DecidableEq Slot'] in
theorem eventsFor_eq (n : ℕ) : l.eventsFor peer n =
    ((l.returnedFor n).filter Completed.sent).map
      fun c => peer.event c.inv.mem c.inv.args := by
  rw [eventsFor, returnedFor, List.filter_filter]

omit [DecidableEq Slot] [DecidableEq Slot'] in
theorem mem_callbacksFor (hpath : EventPath.Inv peer.event l.receiver.path) {n : ℕ}
    {c : Completed CThread Args'} (hc : c ∈ l.returnedFor n) :
    (c.thread, c.inv) ∈ l.callbacksFor n := by
  obtain ⟨hc, horigin⟩ := List.mem_filter.mp hc
  exact List.mem_filter.mpr ⟨hpath.completed_invoked hc, horigin⟩

omit [DecidableEq Slot] [DecidableEq Slot'] in
theorem eventsFor_eq_nil (hpath : EventPath.Inv peer.event l.receiver.path) {n : ℕ}
    (hnone : l.callbacksFor n = []) : l.eventsFor peer n = [] := by
  have hreturned : l.returnedFor n = [] := by
    apply List.eq_nil_iff_forall_not_mem.mpr
    intro c hc
    have hin := mem_callbacksFor hpath hc
    rw [hnone] at hin
    contradiction
  rw [eventsFor_eq, hreturned]
  rfl

section OneCallback

variable {n : ℕ} {t : CThread} {inv : Invocation Args'}

omit [DecidableEq Slot] [DecidableEq Slot'] in
/-- The calls of the one thread that carries message `n`, for that message. -/
theorem order_of_one (hpath : EventPath.Inv peer.event l.receiver.path)
    (hone : l.callbacksFor n = [(t, inv)]) :
    ((l.receiver.path.completed.filter fun c => c.thread = t).map Completed.inv).filter
        (fun i => i.origin = some n) ++
      ((l.receiver.path.waiting.filter fun w => w.thread = t).map Waiting.inv).filter
        (fun i => i.origin = some n) = [inv] := by
  have hinvoked : ((l.receiver.path.invoked.filter fun i => i.1 = t).map Prod.snd).filter
      (fun i => i.origin = some n) = [inv] := by
    have hfor : (l.receiver.path.invoked.filter fun i => i.1 = t).filter
        (fun i => i.2.origin = some n) = (l.callbacksFor n).filter fun i => i.1 = t := by
      rw [callbacksFor, List.filter_filter, List.filter_filter]
      exact List.filter_congr fun i _ => Bool.and_comm _ _
    rw [List.filter_map]
    refine (congrArg (List.map Prod.snd) hfor).trans ?_
    simp [hone]
  rw [← List.filter_append, ← hpath.order t]
  exact hinvoked

omit [DecidableEq Slot] [DecidableEq Slot'] in
theorem of_returned (hpath : EventPath.Inv peer.event l.receiver.path)
    (hone : l.callbacksFor n = [(t, inv)]) {c : Completed CThread Args'}
    (hc : c ∈ l.returnedFor n) : c.thread = t ∧ c.inv = inv := by
  have hin := mem_callbacksFor hpath hc
  rw [hone, List.mem_singleton, Prod.mk.injEq] at hin
  exact hin

omit [DecidableEq Slot] [DecidableEq Slot'] in
theorem returnedFor_length_le (hpath : EventPath.Inv peer.event l.receiver.path)
    (hone : l.callbacksFor n = [(t, inv)]) : (l.returnedFor n).length +
      (((l.receiver.path.waiting.filter fun w => w.thread = t).map Waiting.inv).filter
        fun i => i.origin = some n).length = 1 := by
  have horder := congrArg List.length (order_of_one hpath hone)
  have hreturned : l.returnedFor n = (l.receiver.path.completed.filter fun c =>
      c.thread = t).filter fun c => c.inv.origin = some n := by
    rw [returnedFor, List.filter_filter]
    apply List.filter_congr
    intro c hc
    by_cases horigin : c.inv.origin = some n
    · have hthread := (of_returned hpath hone (List.mem_filter.mpr
        ⟨hc, decide_eq_true horigin⟩)).1
      simp [horigin, hthread]
    · simp [horigin]
  rw [List.length_append, List.filter_map, List.length_map] at horder
  rw [hreturned]
  exact horder

omit [DecidableEq Slot] [DecidableEq Slot'] in
theorem handedOver_iff (hpath : EventPath.Inv peer.event l.receiver.path)
    (hhanded : l.Handed n) (hone : l.callbacksFor n = [(t, inv)]) :
    l.HandedOver n ↔ ∃ c, l.returnedFor n = [c] := by
  have hlength := returnedFor_length_le hpath hone
  constructor
  · rintro ⟨_, hwaiting⟩
    have hnone : ((l.receiver.path.waiting.filter fun w => w.thread = t).map
        Waiting.inv).filter (fun i => i.origin = some n) = [] := by
      apply List.filter_eq_nil_iff.mpr
      intro i hi
      obtain ⟨w, hw, rfl⟩ := List.mem_map.mp hi
      simpa using hwaiting w (List.mem_of_mem_filter hw)
    rw [hnone] at hlength
    exact List.length_eq_one_iff.mp hlength
  · rintro ⟨c, hc⟩
    refine ⟨hhanded, fun w hw horigin => ?_⟩
    -- the thread of a waiting call is the one that made the returned call
    have hthread : w.thread = t := by
      have hin : (w.thread, w.inv) ∈ l.callbacksFor n := by
        refine List.mem_filter.mpr ⟨?_, by simpa using horigin⟩
        have hmem : w.inv ∈ (l.receiver.path.invoked.filter fun i =>
            i.1 = w.thread).map Prod.snd := by
          rw [hpath.order w.thread, List.mem_append]
          exact .inr (List.mem_map.mpr ⟨w, List.mem_filter.mpr ⟨hw, by simp⟩, rfl⟩)
        obtain ⟨⟨u, i⟩, hi, rfl⟩ := List.mem_map.mp hmem
        obtain ⟨hi, hu⟩ := List.mem_filter.mp hi
        obtain rfl : u = w.thread := by simpa using hu
        exact hi
      rw [hone, List.mem_singleton, Prod.mk.injEq] at hin
      exact hin.1
    have hin : w.inv ∈ ((l.receiver.path.waiting.filter fun w => w.thread = t).map
        Waiting.inv).filter fun i => i.origin = some n := by
      refine List.mem_filter.mpr ⟨List.mem_map.mpr ⟨w, ?_, rfl⟩, by simpa using horigin⟩
      exact List.mem_filter.mpr ⟨hw, by simpa using hthread⟩
    have hpos := List.length_pos_of_mem hin
    rw [hc, List.length_singleton] at hlength
    omega

end OneCallback

/-! ## Whether the receiver was open -/

/-- A step lets at most one call return, and the event of that one is queued only
while the receiver is open. -/
theorem Move.completed_cases {a : LinkAction Slot Cmd Args Slot' Cmd' Args'}
    (hmove : Move mtu prog peer recv l a l') :
    l'.receiver.path.completed = l.receiver.path.completed ∨
      ∃ c, l'.receiver.path.completed = l.receiver.path.completed ++ [c] ∧
        (c.sent = true → l'.receiver.path.chan.closed = false) := by
  have hbridge : ∀ {a : BridgeAction Slot' Cmd' Args'}
      {b : Bridge Slot' Cmd' Args' Evt' Call'}, Bridge.Move peer l.receiver a b →
      b.path.completed = l.receiver.path.completed ∨
        ∃ c, b.path.completed = l.receiver.path.completed ++ [c] ∧
          (c.sent = true → b.path.chan.closed = false) := by
    intro a b hmove
    rcases hmove.path_cases with hsame | ⟨pa, hpath, _⟩
    · exact .inl (by rw [hsame])
    · rcases EventPath.completed_kept hpath with hsame | ⟨w, sent, _, hnew, hopen⟩
      · exact .inl hsame
      · exact .inr ⟨_, hnew, hopen⟩
  cases hmove with
  | sender a b hstep => exact .inl rfl
  | receiver a b horigin hstep => exact hbridge (Bridge.step_move hstep)
  | whole n t pair args data b hmessage hnew hrunning hpc hfits hpasses hstep =>
      exact hbridge (Bridge.step_move hstep)
  | fragmented n t pair args data pairs hmessage hnew hlong hpairs => exact .inl rfl

theorem completed_of_reaches (hreach : (machine mtu prog peer recv).Reaches l l')
    {c : Completed CThread Args'} (hc : c ∈ l.receiver.path.completed) :
    c ∈ l'.receiver.path.completed := by
  refine hreach.invariant (I := fun l : Link Slot Cmd Args Evt Call Slot' Cmd' Args' Evt'
    Call' => c ∈ l.receiver.path.completed) ?_ hc
  intro l a l' hc hnext
  rcases (step_move hnext).completed_cases with hsame | ⟨d, hnew, _⟩
  · exact hsame ▸ hc
  · exact hnew ▸ List.mem_append_left _ hc

theorem message_of_reaches (hreach : (machine mtu prog peer recv).Reaches l l') {n : ℕ}
    {data : List UInt8} (hmessage : l.sender.message prog n = some data) :
    l'.sender.message prog n = some data := by
  refine hreach.invariant (I := fun l : Link Slot Cmd Args Evt Call Slot' Cmd' Args' Evt'
    Call' => l.sender.message prog n = some data) ?_ hmessage
  intro l a l' hmessage hnext
  cases step_move hnext with
  | sender a b hstep => exact message_of_move (Bridge.step_move hstep) hmessage
  | _ => exact hmessage

section

variable {channelBuffer channelBuffer' : ℕ}

theorem Reachable.next
    (hreach : Reachable mtu prog peer recv channelBuffer channelBuffer' l)
    {a : LinkAction Slot Cmd Args Slot' Cmd' Args'}
    (hstep : step mtu prog peer recv l a = some l') :
    Reachable mtu prog peer recv channelBuffer channelBuffer' l' := by
  obtain ⟨hpos, mem, hpos', mem', hreach⟩ := hreach
  exact ⟨hpos, mem, hpos', mem', hreach.tail hstep⟩

/-- A callback with an origin that has returned is the only one for its message. -/
theorem Inv.one_of_returned
    (hinv : Inv mtu prog peer recv channelBuffer channelBuffer' l) {n : ℕ}
    {c : Completed CThread Args'} (hc : c ∈ l.returnedFor n) :
    l.Handed n ∧ l.callbacksFor n = [(c.thread, c.inv)] := by
  have hin := mem_callbacksFor hinv.receiver.pathInv hc
  have hhanded : l.Handed n := by
    by_contra hnot
    rw [hinv.untouched n hnot] at hin
    contradiction
  obtain ⟨data, _, hfate⟩ := hinv.fate n hhanded
  unfold Fate at hfate
  split at hfate
  next =>
    obtain ⟨t, inv, hone, _⟩ := hfate
    rw [hone, List.mem_singleton] at hin
    exact ⟨hhanded, hin ▸ hone⟩
  next =>
    rw [hfate.1] at hin
    contradiction

theorem Inv.returnedFor_eq
    (hinv : Inv mtu prog peer recv channelBuffer channelBuffer' l) {n : ℕ}
    {c : Completed CThread Args'} (hc : c ∈ l.returnedFor n) : l.returnedFor n = [c] := by
  have hlength := returnedFor_length_le hinv.receiver.pathInv (hinv.one_of_returned hc).2
  have hpos := List.length_pos_of_mem hc
  obtain ⟨d, hd⟩ := List.length_eq_one_iff.mp (by omega : (l.returnedFor n).length = 1)
  rw [hd, List.mem_singleton] at hc
  rw [hc, hd]

/-- What the channel took was handed over while the receiver was open. -/
theorem Reachable.open_of_sent (hpeer : peer.Lawful) (hnone : Unassembled peer recv)
    (hreach : Reachable mtu prog peer recv channelBuffer channelBuffer' l) {n : ℕ}
    {c : Completed CThread Args'} (hc : c ∈ l.returnedFor n) (hsent : c.sent = true) :
    l.HandedOverOpen mtu prog peer recv channelBuffer channelBuffer' n := by
  obtain ⟨hpos, mem, hpos', mem', hrun⟩ := hreach
  have hboth : Reachable mtu prog peer recv channelBuffer channelBuffer' l ∧
      ∀ n, ∀ c ∈ l.returnedFor n, c.sent = true →
        l.HandedOverOpen mtu prog peer recv channelBuffer channelBuffer' n := by
    refine hrun.invariant (I := fun l => Reachable mtu prog peer recv channelBuffer
      channelBuffer' l ∧ ∀ n, ∀ c ∈ l.returnedFor n, c.sent = true →
        l.HandedOverOpen mtu prog peer recv channelBuffer channelBuffer' n) ?_
      ⟨⟨hpos, mem, hpos', mem', Machine.Reaches.refl _⟩, fun n c hc => ?_⟩
    · rintro l a l' ⟨hreach, hopen⟩ hstep
      have hnext := hreach.next hstep
      refine ⟨hnext, fun n c hc hsent => ?_⟩
      obtain ⟨hcompleted, horigin⟩ := List.mem_filter.mp hc
      have hcases : c ∈ l.receiver.path.completed ∨
          (c.sent = true → l'.receiver.path.chan.closed = false) := by
        rcases (step_move hstep).completed_cases with hsame | ⟨d, hnew, hopen'⟩
        · exact .inl (hsame ▸ hcompleted)
        · rw [hnew, List.mem_append, List.mem_singleton] at hcompleted
          rcases hcompleted with hold | rfl
          · exact .inl hold
          · exact .inr hopen'
      rcases hcases with hold | hnow
      · obtain ⟨l₀, hreach₀, hrest, hover, hopen₀⟩ :=
          hopen n c (List.mem_filter.mpr ⟨hold, horigin⟩) hsent
        exact ⟨l₀, hreach₀, hrest.tail hstep, hover, hopen₀⟩
      · have hinv := hnext.inv hpeer hnone
        obtain ⟨hhanded, hone⟩ := hinv.one_of_returned hc
        have hover := (handedOver_iff hinv.receiver.pathInv hhanded hone).mpr
          ⟨c, hinv.returnedFor_eq hc⟩
        exact ⟨l', hnext, Machine.Reaches.refl _, hover, hnow hsent⟩
    · simp [returnedFor, Bridge.spawn, EventPath.new] at hc
  exact hboth.2 n c hc hsent

/-- Through a receiver that was open the event of a whole message was queued. -/
theorem Reachable.sent_of_open (hpeer : peer.Lawful) (hnone : Unassembled peer recv)
    (hreach : Reachable mtu prog peer recv channelBuffer channelBuffer' l) {n : ℕ}
    {c : Completed CThread Args'} (hc : c ∈ l.returnedFor n)
    (hopen : l.HandedOverOpen mtu prog peer recv channelBuffer channelBuffer' n) :
    c.sent = true := by
  obtain ⟨l₀, hreach₀, hrest, hover, hopen⟩ := hopen
  have hinv := hreach.inv hpeer hnone
  have hinv₀ := hreach₀.inv hpeer hnone
  obtain ⟨data, hmessage, hfate⟩ := hinv₀.fate n hover.1
  unfold Fate at hfate
  split at hfate
  next =>
    obtain ⟨t, inv, hone, _⟩ := hfate
    obtain ⟨d, hd⟩ := (handedOver_iff hinv₀.receiver.pathInv hover.1 hone).mp hover
    have hin : d ∈ l₀.returnedFor n := by simp [hd]
    obtain ⟨hcompleted, horigin⟩ := List.mem_filter.mp hin
    have hlater : d ∈ l.returnedFor n :=
      List.mem_filter.mpr ⟨completed_of_reaches hrest hcompleted, horigin⟩
    rw [hinv.returnedFor_eq hc, List.mem_singleton] at hlater
    rw [← hlater]
    exact hinv₀.receiver.pathInv.sent hopen d hcompleted
  next hlong =>
    -- a fragmented message never has a callback
    obtain ⟨data', hmessage', hfate'⟩ := hinv.fate n (hinv.one_of_returned hc).1
    obtain rfl : data = data' :=
      Option.some.inj ((message_of_reaches hrest hmessage).symm.trans hmessage')
    rw [Fate, if_neg hlong] at hfate'
    have hin := mem_callbacksFor hinv.receiver.pathInv hc
    rw [hfate'.1] at hin
    contradiction

theorem Reachable.delivered_iff {kind : Call → CallKind} {call : Cmd → Call}
    {data? : Call → Option (List UInt8)} (hprog : prog.MessageCalls kind call data?)
    (hpeer : peer.Lawful) (hnone : Unassembled peer recv)
    (hpayload : ∀ mem args, recv.payload (peer.event mem args) = recv.passes mem args)
    (hreach : Reachable mtu prog peer recv channelBuffer channelBuffer' l) {n : ℕ}
    {data : List UInt8} (hcall : (l.sender.calls.filterMap data?)[n]? = some data)
    (hover : l.HandedOver n) :
    l.Delivered peer recv n data ↔ data.length ≤ mtu ∧
      l.HandedOverOpen mtu prog peer recv channelBuffer channelBuffer' n := by
  have hinv := hreach.inv hpeer hnone
  have hpath := hinv.receiver.pathInv
  obtain ⟨data', hmessage, hfate⟩ := hinv.fate n hover.1
  obtain rfl : data' = data :=
    Option.some.inj ((hinv.sender.message_call hprog hmessage).symm.trans hcall)
  unfold Fate at hfate
  split at hfate
  next hfits =>
    obtain ⟨t, inv, hone, hpasses⟩ := hfate
    obtain ⟨c, hc⟩ := (handedOver_iff hpath hover.1 hone).mp hover
    have hin : c ∈ l.returnedFor n := by simp [hc]
    constructor
    · rintro ⟨e, hevents, _⟩
      refine ⟨hfits, hreach.open_of_sent hpeer hnone hin ?_⟩
      by_contra hsent
      rw [eventsFor_eq, hc, List.filter_cons_of_neg hsent] at hevents
      contradiction
    · rintro ⟨_, hopen⟩
      have hsent := hreach.sent_of_open hpeer hnone hin hopen
      have haccepted : peer.event c.inv.mem c.inv.args ∈ l.receiver.path.chan.accepted := by
        rw [hpath.accepted]
        exact List.mem_map.mpr ⟨c, List.mem_filter.mpr ⟨List.mem_of_mem_filter hin, hsent⟩,
          rfl⟩
      refine ⟨_, ?_, ?_, haccepted, fun hopen => ?_⟩
      · rw [eventsFor_eq, hc, List.filter_cons_of_pos hsent]
        rfl
      · rw [hpayload, (of_returned hpath hone hin).2]
        exact hpasses
      · rw [← Channel.accepted_eq_of_open hopen]
        exact haccepted
  next hlong =>
    constructor
    · rintro ⟨e, hevents, _⟩
      rw [eventsFor_eq_nil hpath hfate.1] at hevents
      contradiction
    · exact fun h => absurd h.1 hlong

end

end Link

section

variable (codes : ErrorCodes) (address : String) (port : UInt16)
variable (workerCount : Int32) (config clientConfig : SpawnConfig)

/-- In both directions the message of the `n`th send call, once the library has
transferred it to the peer bridge, becomes one event with its data exactly if it
needed no fragmentation and the receiver was open until its callback had returned. -/
theorem spawn_delivers_iff :
    (∀ mtu l, Link.Reachable mtu
        (spawnClientWithConfig codes address port clientConfig)
        (spawnServerWithConfig codes address port workerCount config) serverReceiving
        clientConfig.channelBuffer config.channelBuffer l →
      ∀ n data, (l.sender.calls.filterMap ClientCall.data?)[n]? = some data →
        l.HandedOver n →
        (l.Delivered (spawnServerWithConfig codes address port workerCount config)
            serverReceiving n data ↔
          data.length ≤ mtu ∧ l.HandedOverOpen mtu
            (spawnClientWithConfig codes address port clientConfig)
            (spawnServerWithConfig codes address port workerCount config) serverReceiving
            clientConfig.channelBuffer config.channelBuffer n)) ∧
    ∀ mtu l, Link.Reachable mtu
        (spawnServerWithConfig codes address port workerCount config)
        (spawnClientWithConfig codes address port clientConfig) clientReceiving
        config.channelBuffer clientConfig.channelBuffer l →
      ∀ n data, (l.sender.calls.filterMap ServerCall.data?)[n]? = some data →
        l.HandedOver n →
        (l.Delivered (spawnClientWithConfig codes address port clientConfig)
            clientReceiving n data ↔
          data.length ≤ mtu ∧ l.HandedOverOpen mtu
            (spawnServerWithConfig codes address port workerCount config)
            (spawnClientWithConfig codes address port clientConfig) clientReceiving
            config.channelBuffer clientConfig.channelBuffer n) :=
  ⟨fun _ _ hreach _ _ => hreach.delivered_iff
      (spawnClientWithConfig_messageCalls codes address port clientConfig)
      (spawnServerWithConfig_lawful codes address port workerCount config)
      (spawnServerWithConfig_unassembled codes address port workerCount config)
      serverReceiving_payload,
    fun _ _ hreach _ _ => hreach.delivered_iff
      (spawnServerWithConfig_messageCalls codes address port workerCount config)
      (spawnClientWithConfig_lawful codes address port clientConfig)
      (spawnClientWithConfig_unassembled codes address port clientConfig)
      clientReceiving_payload⟩

end

def transferMoves (data : List UInt8) :
    List (LinkAction ClientSlot ClientCommand ClientCallback ServerSlot ServerCommand
      ServerCallback) :=
  let send : List (BridgeAction ClientSlot ClientCommand ClientCallback) :=
    openMoves 0 ++ [.send (.send data 1 0), .thread, .return_ {}]
  let poll : List (BridgeAction ServerSlot ServerCommand ServerCallback) :=
    openMoves 0 ++ [.thread, .read .clientData]
  send.map .sender ++ poll.map .receiver

theorem spawn_delivers_one_byte :
    let server := spawnServerWithConfig .numbered "" 9876 1 .default
    let client := spawnClientWithConfig .numbered "" 9876 .default
    ∃ l, Link.Reachable 1200 client server serverReceiving
        SpawnConfig.default.channelBuffer SpawnConfig.default.channelBuffer l ∧
      l.Delivered server serverReceiving 0 [0] := by
  intro server client
  have hrun : ∃ l, (Link.machine 1200 client server serverReceiving).run
      ⟨.spawn client SpawnConfig.default.channelBuffer (by decide) .zero,
        .spawn server SpawnConfig.default.channelBuffer (by decide) .zero, []⟩
      (transferMoves [0] ++
        [.hand 0 .own ⟨.onClientDataTrampoline, 0⟩ (.clientData 0 0 1 ⟨0, 0⟩),
          .receiver (.deliver .own)]) = some l ∧
      l.sender.calls.filterMap ClientCall.data? = [[0]] ∧ l.handed.map Prod.fst = [0] ∧
      l.receiver.path.waiting = [] ∧ l.receiver.path.chan.closed = false :=
    ⟨_, rfl, rfl, rfl, rfl, rfl⟩
  obtain ⟨l, hrun, hcalls, hhanded, hwaiting, hopen⟩ := hrun
  have hreach : Link.Reachable 1200 client server serverReceiving
      SpawnConfig.default.channelBuffer SpawnConfig.default.channelBuffer l :=
    ⟨by decide, .zero, by decide, .zero, _, hrun⟩
  have hover : l.HandedOver 0 :=
    ⟨by simp [Link.Handed, hhanded], by simp [hwaiting]⟩
  have hcall : (l.sender.calls.filterMap ClientCall.data?)[0]? = some [0] := by
    rw [hcalls]
    rfl
  refine ⟨l, hreach, ?_⟩
  exact ((spawn_delivers_iff .numbered "" 9876 1 .default .default).1 1200 l hreach 0 [0]
    hcall hover).mpr ⟨by decide, l, hreach, Machine.Reaches.refl l, hover, hopen⟩

/-- A message of 2500 bytes, as large as those of the fragmented streams, over an MTU
of 1200: C transfers it, calls nothing at the server bridge, and nobody learns of it. -/
theorem spawn_fragmented_message_vanishes :
    let server := spawnServerWithConfig .numbered "" 9876 1 .default
    let client := spawnClientWithConfig .numbered "" 9876 .default
    let data := List.replicate 2500 0
    ∃ l, Link.Reachable 1200 client server serverReceiving
        SpawnConfig.default.channelBuffer SpawnConfig.default.channelBuffer l ∧
      l.sender.calls.filterMap ClientCall.data? = [data] ∧ l.HandedOver 0 ∧
      l.handed = [(0, [])] ∧ l.receiver.path.chan.closed = false ∧
      l.receiver.path.chan.accepted = [] ∧
      ¬ l.Delivered server serverReceiving 0 data := by
  intro server client data
  have hlong : ¬ data.length ≤ 1200 := by
    rw [show data.length = 2500 from List.length_replicate]
    omega
  generalize data = data at hlong ⊢
  have hrun : ∃ l, (Link.machine 1200 client server serverReceiving).run
      ⟨.spawn client SpawnConfig.default.channelBuffer (by decide) .zero,
        .spawn server SpawnConfig.default.channelBuffer (by decide) .zero, []⟩
      (transferMoves data) = some l ∧
      l.sender.message client 0 = some data ∧
      l.sender.calls.filterMap ClientCall.data? = [data] ∧ l.handed = [] ∧
      l.receiver.Running .own ∧ l.receiver.pc.isDestroying = false ∧
      [serverReceiving.allocateMessage, serverReceiving.messageComplete].filterMap
        l.receiver.table.slots = [] ∧
      l.receiver.path.waiting = [] ∧ l.receiver.path.completed = [] ∧
      l.receiver.path.chan.closed = false ∧ l.receiver.path.chan.accepted = [] :=
    ⟨_, rfl, rfl, rfl, rfl, rfl, rfl, rfl, rfl, rfl, rfl, rfl⟩
  obtain ⟨l, hrun, hmessage, hcalls, hhanded, hrunning, hpc, hslots, hwaiting, hcompleted,
    hopen, haccepted⟩ := hrun
  have hnew : ¬ l.Handed 0 := by simp [Link.Handed, hhanded]
  have hstep : Link.step 1200 client server serverReceiving l
      (.hand 0 .own ⟨.onClientDataTrampoline, 0⟩ (.clientData 0 0 2500 ⟨0, 0⟩)) =
        some { l with handed := [(0, [])] } := by
    simp only [Link.step, hmessage]
    rw [if_pos ⟨hnew, hrunning, hpc⟩, if_neg hlong, hslots, hhanded]
    rfl
  have hreach : Link.Reachable 1200 client server serverReceiving
      SpawnConfig.default.channelBuffer SpawnConfig.default.channelBuffer l :=
    ⟨by decide, .zero, by decide, .zero, _, hrun⟩
  refine ⟨_, hreach.next hstep, hcalls, ⟨by simp [Link.Handed], by simp [hwaiting]⟩, rfl,
    hopen, haccepted, ?_⟩
  rintro ⟨e, he, _⟩
  simp [Link.eventsFor, hcompleted] at he

end EntanglementRs
