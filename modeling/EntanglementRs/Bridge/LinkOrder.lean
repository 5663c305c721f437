import EntanglementRs.Bridge.Link
import EntanglementRs.Lib.Delivery

/-!
# The messages of a link, in order

A library that hands the messages of one bridge to the other in order and on
one thread: whatever is queued, delayed or refused on the way, the handle of
the peer gets a part of what the application queued, in the order of its
commands, and between callbacks exactly the messages that needed no
fragmentation.
-/

namespace EntanglementRs

open Transition

namespace Bridge

variable {Slot Cmd Args Evt Call : Type} [DecidableEq Slot]
variable {prog : BridgeProgram Slot Cmd Args Evt Call}
variable {b b' : Bridge Slot Cmd Args Evt Call}

end Bridge

namespace Link

variable {Slot Cmd Args Evt Call Slot' Cmd' Args' Evt' Call' : Type}
variable [DecidableEq Slot] [DecidableEq Slot']
variable {mtu : ℕ} {prog : BridgeProgram Slot Cmd Args Evt Call}
variable {peer : BridgeProgram Slot' Cmd' Args' Evt' Call'}
variable {recv : Receiving Slot' Args' Evt'}
variable {l l' : Link Slot Cmd Args Evt Call Slot' Cmd' Args' Evt' Call'}

/-- The numbers of the messages handed over, in that order. -/
def numbers (l : Link Slot Cmd Args Evt Call Slot' Cmd' Args' Evt' Call') : List ℕ :=
  l.handed.map Prod.fst

/-- The message needs no fragmentation. -/
def fits (mtu : ℕ) (prog : BridgeProgram Slot Cmd Args Evt Call)
    (l : Link Slot Cmd Args Evt Call Slot' Cmd' Args' Evt' Call') (n : ℕ) : Bool :=
  match l.sender.message prog n with
  | some data => decide (data.length ≤ mtu)
  | none => false

/-- What the events of the link carry, in the order of the event channel. -/
def payloads (peer : BridgeProgram Slot' Cmd' Args' Evt' Call')
    (recv : Receiving Slot' Args' Evt')
    (l : Link Slot Cmd Args Evt Call Slot' Cmd' Args' Evt' Call') : List (List UInt8) :=
  (l.receiver.path.completed.filter Completed.sent).filterMap fun c =>
    c.inv.origin.bind fun _ => recv.payload (peer.event c.inv.mem c.inv.args)

/-- All callbacks for messages of the link are made on one thread. -/
def OneThread (l : Link Slot Cmd Args Evt Call Slot' Cmd' Args' Evt' Call')
    (t : CThread) : Prop :=
  ∀ i ∈ l.receiver.path.invoked, i.2.origin.isSome = true → i.1 = t

/-! ## Callbacks in the order of the hand-over -/

theorem origins_of_move {b b' : Bridge Slot' Cmd' Args' Evt' Call'}
    {a : BridgeAction Slot' Cmd' Args'} (hmove : Bridge.Move peer b a b')
    (horigin : a.origin = none) :
    b'.path.invoked.filterMap (fun i => i.2.origin) =
      b.path.invoked.filterMap fun i => i.2.origin := by
  rcases hmove.path_cases with hsame | ⟨pa, hpath, ha⟩
  · rw [hsame]
  · rcases EventPath.invoked_of_step hpath with ⟨hsame, _⟩ | ⟨t, args, origin, rfl, hnew⟩
    · rw [hsame]
    · rcases ha with ha | ⟨t', pair, args', origin', rfl, heq⟩
      · exact absurd ha BridgeAction.pathAction_ne_invoke
      · obtain ⟨_, _, rfl⟩ := PathAction.invoke.inj heq
        obtain rfl : origin = none := horigin
        rw [hnew, List.filterMap_append]
        simp

/-- The callbacks made for messages are those of the whole ones, in order. -/
def InHandOrder (mtu : ℕ) (prog : BridgeProgram Slot Cmd Args Evt Call)
    (l : Link Slot Cmd Args Evt Call Slot' Cmd' Args' Evt' Call') : Prop :=
  l.receiver.path.invoked.filterMap (fun i => i.2.origin) =
    l.numbers.filter (l.fits mtu prog)

omit [DecidableEq Slot] [DecidableEq Slot'] in
theorem fits_of_message {n : ℕ} {data : List UInt8}
    (hmessage : l.sender.message prog n = some data) :
    l.fits mtu prog n = decide (data.length ≤ mtu) := by
  simp [fits, hmessage]

theorem InHandOrder.move (hpeer : peer.Lawful) {channelBuffer channelBuffer' : ℕ}
    (hinv : Inv mtu prog peer recv channelBuffer channelBuffer' l)
    (horder : l.InHandOrder mtu prog) {a : LinkAction Slot Cmd Args Slot' Cmd' Args'}
    (hmove : Move mtu prog peer recv l a l') : l'.InHandOrder mtu prog := by
  unfold InHandOrder at horder ⊢
  cases hmove with
  | sender a b hstep =>
      refine horder.trans (List.filter_congr fun n hn => ?_)
      obtain ⟨data, hmessage, _⟩ := hinv.fate n hn
      rw [fits_of_message hmessage]
      exact (fits_of_message (l := { l with sender := b })
        (message_of_move (Bridge.step_move hstep) hmessage)).symm
  | receiver a b horigin hstep =>
      exact (origins_of_move (Bridge.step_move hstep) horigin).trans horder
  | whole n t pair args data b hmessage hnew hrunning hpc hfits hpasses hstep =>
      have hwhole : l.fits mtu prog n = true := by
        rw [fits_of_message hmessage]
        exact decide_eq_true hfits
      have hinvoked := invoked_of_callback hpeer hinv.receiver hpc hstep
      simp only [numbers, List.map_append, List.filter_append] at horder ⊢
      rw [hinvoked, List.filterMap_append, horder]
      congr 1
      change [n] = [n].filter (l.fits mtu prog)
      rw [List.filter_cons_of_pos hwhole, List.filter_nil]
  | fragmented n t pair args data pairs hmessage hnew hlong hpairs =>
      have hpart : l.fits mtu prog n = false := by
        rw [fits_of_message hmessage]
        exact decide_eq_false hlong
      simp only [numbers, List.map_append, List.filter_append] at horder ⊢
      refine horder.trans ?_
      rw [← List.append_nil (List.filter _ _)]
      congr 1
      change [] = [n].filter (l.fits mtu prog)
      rw [List.filter_cons_of_neg (by simpa using hpart), List.filter_nil]

theorem Reachable.inHandOrder (hpeer : peer.Lawful) (hnone : Unassembled peer recv)
    {channelBuffer channelBuffer' : ℕ}
    (hreach : Reachable mtu prog peer recv channelBuffer channelBuffer' l) :
    l.InHandOrder mtu prog := by
  obtain ⟨hpos, mem, hpos', mem', hreach⟩ := hreach
  have hboth : Inv mtu prog peer recv channelBuffer channelBuffer' l ∧
      l.InHandOrder mtu prog := by
    refine hreach.invariant (I := fun l => Inv mtu prog peer recv channelBuffer
      channelBuffer' l ∧ l.InHandOrder mtu prog) ?_ ⟨?_, rfl⟩
    · rintro l a l' ⟨hinv, horder⟩ hstep
      have hmove := step_move hstep
      exact ⟨hinv.move hpeer hnone hmove, horder.move hpeer hinv hmove⟩
    · refine ⟨⟨hpos, mem, Machine.Reaches.refl _⟩, ⟨hpos', mem', Machine.Reaches.refl _⟩,
        fun n hn => ?_, fun _ _ => rfl⟩
      simp [Handed] at hn
  exact hboth.2

/-! ## Events in the order of the hand-over -/

omit [DecidableEq Slot] [DecidableEq Slot'] in
/-- A callback for a message was passed the data of that message. -/
theorem passes_of_origin (hfate : ∀ n, l.Handed n →
      ∃ data, l.sender.message prog n = some data ∧ l.Fate mtu recv n data)
    (huntouched : ∀ n, ¬ l.Handed n → l.callbacksFor n = [])
    {i : CThread × Invocation Args'} (hi : i ∈ l.receiver.path.invoked) {n : ℕ}
    (horigin : i.2.origin = some n) :
    recv.passes i.2.mem i.2.args = l.sender.message prog n := by
  have hin : i ∈ l.callbacksFor n := List.mem_filter.mpr ⟨hi, by simpa using horigin⟩
  have hhanded : l.Handed n := by
    by_contra hnot
    rw [huntouched n hnot] at hin
    contradiction
  obtain ⟨data, hmessage, hdata⟩ := hfate n hhanded
  unfold Fate at hdata
  split at hdata
  next =>
    obtain ⟨t, inv, hone, hpasses⟩ := hdata
    rw [hone, List.mem_singleton] at hin
    rw [hin, hmessage]
    exact hpasses
  next =>
    rw [hdata.1] at hin
    contradiction

/-- The numbers of the messages whose events were queued, in that order. -/
def arrivals (l : Link Slot Cmd Args Evt Call Slot' Cmd' Args' Evt' Call') : List ℕ :=
  (l.receiver.path.completed.filter Completed.sent).filterMap fun c => c.inv.origin

omit [DecidableEq Slot] [DecidableEq Slot'] in
theorem payloads_eq (hpayload : ∀ mem args,
      recv.payload (peer.event mem args) = recv.passes mem args)
    (hpath : EventPath.Inv peer.event l.receiver.path)
    (hpasses : ∀ i ∈ l.receiver.path.invoked, ∀ n, i.2.origin = some n →
      recv.passes i.2.mem i.2.args = l.sender.message prog n) :
    l.payloads peer recv = l.arrivals.filterMap (l.sender.message prog) := by
  unfold payloads arrivals
  rw [List.filterMap_filterMap]
  apply List.filterMap_congr
  intro c hc
  cases horigin : c.inv.origin with
  | none => rfl
  | some n =>
      have hinvoked := hpath.completed_invoked (List.mem_of_mem_filter hc)
      exact (hpayload _ _).trans (hpasses _ hinvoked n horigin)

/-- A filter that keeps whatever is selected may be left out. -/
theorem filterMap_filter_of_isSome {α β : Type} {xs : List α} {keep : α → Bool}
    {select : α → Option β} (hkeep : ∀ x ∈ xs, (select x).isSome = true → keep x = true) :
    (xs.filter keep).filterMap select = xs.filterMap select := by
  rw [List.filterMap_filter]
  apply List.filterMap_congr
  intro x hx
  split
  next => rfl
  next hdropped =>
    cases hselect : select x with
    | none => rfl
    | some b => exact absurd (hkeep x hx (by rw [hselect]; rfl)) hdropped

omit [DecidableEq Slot] [DecidableEq Slot'] in
/-- On one thread events are queued in the order of the hand-over. -/
theorem arrivals_sublist (hpath : EventPath.Inv peer.event l.receiver.path)
    (horder : l.InHandOrder mtu prog) {t : CThread} (hthread : l.OneThread t) :
    l.arrivals.Sublist (l.numbers.filter (l.fits mtu prog)) := by
  have hprefix := hpath.together (fun i => i.origin.isSome) t hthread
  have hall := hprefix.filterMap fun i => i.origin
  rw [filterMap_filter_of_isSome fun _ _ hsome => hsome,
    filterMap_filter_of_isSome fun _ _ hsome => hsome, List.filterMap_map,
    List.filterMap_map] at hall
  rw [← horder]
  exact (List.filter_sublist.filterMap _).trans hall.sublist

omit [DecidableEq Slot] [DecidableEq Slot'] in
/-- With the receiver open and no callback under way, all of them are queued. -/
theorem arrivals_eq (hpath : EventPath.Inv peer.event l.receiver.path)
    (horder : l.InHandOrder mtu prog) {t : CThread} (hthread : l.OneThread t)
    (hopen : l.receiver.path.chan.closed = false)
    (hreturned : ∀ w ∈ l.receiver.path.waiting, w.inv.origin = none) :
    l.arrivals = l.numbers.filter (l.fits mtu prog) := by
  let origin : Invocation Args' → Option ℕ := fun i => i.origin
  have hcompleted : (l.receiver.path.completed.filter fun c => c.thread = t).filterMap
      (origin ∘ Completed.inv) = l.arrivals := by
    rw [arrivals, List.filter_eq_self.mpr (hpath.sent hopen)]
    apply filterMap_filter_of_isSome
    intro c hc hsome
    exact decide_eq_true (hthread _ (hpath.completed_invoked hc) hsome)
  have hinvoked : (l.receiver.path.invoked.filter fun i => i.1 = t).filterMap
      (origin ∘ Prod.snd) = l.receiver.path.invoked.filterMap fun i => i.2.origin := by
    apply filterMap_filter_of_isSome
    intro i hi hsome
    exact decide_eq_true (hthread i hi hsome)
  have hwaiting : (l.receiver.path.waiting.filter fun w => w.thread = t).filterMap
      (origin ∘ Waiting.inv) = [] := by
    apply List.filterMap_eq_nil_iff.mpr
    intro w hw
    exact hreturned w (List.mem_of_mem_filter hw)
  have hsplit := congrArg (List.filterMap origin) (hpath.order t)
  rw [List.filterMap_append, List.filterMap_map, List.filterMap_map, List.filterMap_map,
    hcompleted, hinvoked, hwaiting, List.append_nil] at hsplit
  rw [← hsplit]
  exact horder

/-! ## What the application of the sender queued -/

omit [DecidableEq Slot'] in
theorem messages_sublist {channelBuffer : ℕ} (hprog : prog.Lawful)
    (hreach : Bridge.Reachable prog channelBuffer l.sender)
    (hknown : ∀ n ∈ l.numbers, (l.sender.message prog n).isSome = true)
    (hascending : l.numbers.Pairwise (· < ·)) :
    (l.numbers.filterMap (l.sender.message prog)).Sublist
      (l.sender.cmd.accepted.filterMap prog.message) := by
  let accepted : Cmd × Int32 → Option (List UInt8) := fun q =>
    if 0 ≤ q.2 then prog.message q.1 else none
  have hmessage : ∀ n, l.sender.message prog n = l.sender.results[n]?.bind accepted := by
    intro n
    unfold Bridge.message
    cases l.sender.results[n]? <;> rfl
  have hvalid : Delivery.Valid l.sender.results l.numbers := by
    intro n hn
    have hsome := hknown n hn
    rw [hmessage] at hsome
    cases hget : l.sender.results[n]? with
    | none => simp [hget] at hsome
    | some q => exact (List.getElem?_eq_some_iff.mp hget).1
  calc
    l.numbers.filterMap (l.sender.message prog)
        = (Delivery.arrived l.sender.results l.numbers).filterMap accepted := by
          rw [Delivery.arrived, List.filterMap_filterMap]
          exact List.filterMap_congr fun n _ => hmessage n
    List.Sublist _ (l.sender.results.filterMap accepted) :=
          (Delivery.arrived_sublist hvalid hascending).filterMap accepted
    _ = (l.sender.results.filter fun q => decide (0 ≤ q.2)).filterMap
          (prog.message ∘ Prod.fst) := by
          rw [List.filterMap_filter]
          apply List.filterMap_congr
          intro q _
          simp [accepted]
    List.Sublist _ ((l.sender.results.map Prod.fst).filterMap prog.message) := by
          rw [List.filterMap_map]
          exact List.filter_sublist.filterMap _
    List.Sublist _ (l.sender.cmd.accepted.filterMap prog.message) := by
          rw [hreach.results_eq hprog]
          exact ((List.filter_sublist.trans l.sender.returned_prefix.sublist).trans
            l.sender.cmd.received_prefix.sublist).filterMap _

/-! ## The link keeps the order -/

/-- What reaches the handle of the peer, of a library that keeps the order. -/
structure Ordered (mtu : ℕ) (prog : BridgeProgram Slot Cmd Args Evt Call)
    (peer : BridgeProgram Slot' Cmd' Args' Evt' Call')
    (recv : Receiving Slot' Args' Evt')
    (l : Link Slot Cmd Args Evt Call Slot' Cmd' Args' Evt' Call') : Prop where
  commands : (l.payloads peer recv).Sublist
    (l.sender.cmd.accepted.filterMap prog.message)
  events : (l.payloads peer recv).Sublist
    (l.receiver.path.chan.accepted.filterMap recv.payload)
  whole : l.receiver.path.chan.closed = false →
    (∀ w ∈ l.receiver.path.waiting, w.inv.origin = none) →
      l.payloads peer recv = (l.numbers.filterMap (l.sender.message prog)).filter
        fun data => decide (data.length ≤ mtu)

omit [DecidableEq Slot] [DecidableEq Slot'] in
theorem filterMap_fits (ns : List ℕ) :
    (ns.filter (l.fits mtu prog)).filterMap (l.sender.message prog) =
      (ns.filterMap (l.sender.message prog)).filter
        fun data => decide (data.length ≤ mtu) := by
  rw [List.filterMap_filter, List.filter_filterMap]
  apply List.filterMap_congr
  intro n _
  cases hmessage : l.sender.message prog n with
  | none => simp
  | some data =>
      rw [fits_of_message hmessage]
      by_cases hfits : data.length ≤ mtu <;> simp [Option.filter, hfits]

theorem Reachable.ordered (hprog : prog.Lawful) (hpeer : peer.Lawful)
    (hnone : Unassembled peer recv)
    (hpayload : ∀ mem args, recv.payload (peer.event mem args) = recv.passes mem args)
    {channelBuffer channelBuffer' : ℕ}
    (hreach : Reachable mtu prog peer recv channelBuffer channelBuffer' l)
    {t : CThread} (hthread : l.OneThread t) (hascending : l.numbers.Pairwise (· < ·)) :
    l.Ordered mtu prog peer recv := by
  have hinv := hreach.inv hpeer hnone
  have hpath := hinv.receiver.pathInv
  have horder := hreach.inHandOrder hpeer hnone
  have hpayloads := payloads_eq hpayload hpath fun i hi n horigin =>
    passes_of_origin hinv.fate hinv.untouched hi horigin
  have harrivals := arrivals_sublist hpath horder hthread
  constructor
  · rw [hpayloads]
    refine ((harrivals.trans List.filter_sublist).filterMap _).trans ?_
    apply messages_sublist hprog hinv.sender _ hascending
    intro n hn
    obtain ⟨data, hmessage, _⟩ := hinv.fate n hn
    rw [hmessage]
    rfl
  · rw [hpath.accepted, List.filterMap_map]
    have hlinked : l.payloads peer recv =
        ((l.receiver.path.completed.filter Completed.sent).filter fun c =>
          c.inv.origin.isSome).filterMap fun c =>
            recv.payload (peer.event c.inv.mem c.inv.args) := by
      symm
      rw [List.filterMap_filter]
      apply List.filterMap_congr
      intro c _
      cases c.inv.origin <;> rfl
    rw [hlinked]
    exact List.filter_sublist.filterMap _
  · intro hopen hreturned
    rw [hpayloads, arrivals_eq hpath horder hthread hopen hreturned]
    exact filterMap_fits l.numbers

end Link

section

variable (codes : ErrorCodes) (address : String) (port : UInt16)
variable (workerCount : Int32) (config clientConfig : SpawnConfig)

end

end EntanglementRs
