import EntanglementRs.Bridge.Callbacks
import EntanglementRs.Bridge.Sends
import EntanglementRs.EventDelivery

/-!
# A message from one bridge to another

Two bridges of which one sends to the other.  The C library fragments a message
longer than the MTU, and hands a fragmented message to the receiving object only
through the allocate-message and message-complete callbacks.  The bridges
register neither, so such a message never becomes an event.
-/

namespace EntanglementRs

open Transition

/-- Where a receiving object hands over what it receives. -/
structure Receiving (Slot Args Evt : Type) where
  allocateMessage : Slot
  messageComplete : Slot
  passes : CMemory → Args → Option (List UInt8)
  payload : Evt → Option (List UInt8)

def serverReceiving : Receiving ServerSlot ServerCallback ServerEvent where
  allocateMessage := .allocateMessage
  messageComplete := .messageComplete
  passes := fun mem call =>
    match call with
    | .clientData _ payload size _ => some (mem.slice payload size)
    | _ => none
  payload := fun event =>
    match event with
    | .dataReceived _ payload _ => some payload
    | _ => none

def clientReceiving : Receiving ClientSlot ClientCallback ClientEvent where
  allocateMessage := .allocateMessage
  messageComplete := .messageComplete
  passes := fun mem call =>
    match call with
    | .dataReceived _ payload size => some (mem.slice payload size)
    | _ => none
  payload := fun event =>
    match event with
    | .dataReceived _ payload => some payload
    | _ => none

def BridgeAction.origin {Slot Cmd Args : Type} : BridgeAction Slot Cmd Args → Option ℕ
  | .invoke _ _ _ origin => origin
  | _ => none

def Pc.isDestroying {Slot Cmd : Type} : Pc Slot Cmd → Bool
  | .destroying => true
  | _ => false

section Defs

variable (Slot Cmd Args Evt Call Slot' Cmd' Args' Evt' Call' : Type)

structure Link where
  sender : Bridge Slot Cmd Args Evt Call
  receiver : Bridge Slot' Cmd' Args' Evt' Call'
  /-- The messages that were transferred completely and handed to the receiving
  object, with the pairs C called for them. -/
  handed : List (ℕ × List CallbackPair)

inductive LinkAction where
  | sender (a : BridgeAction Slot Cmd Args)
  | receiver (a : BridgeAction Slot' Cmd' Args')
  /-- C hands over message `n`, if unfragmented by this callback. -/
  | hand (n : ℕ) (t : CThread) (pair : CallbackPair) (args : Args')

end Defs

namespace Link

variable {Slot Cmd Args Evt Call Slot' Cmd' Args' Evt' Call' : Type}
variable [DecidableEq Slot] [DecidableEq Slot']
variable (mtu : ℕ) (prog : BridgeProgram Slot Cmd Args Evt Call)
variable (peer : BridgeProgram Slot' Cmd' Args' Evt' Call')
variable (recv : Receiving Slot' Args' Evt')

def Handed (l : Link Slot Cmd Args Evt Call Slot' Cmd' Args' Evt' Call') (n : ℕ) : Prop :=
  n ∈ l.handed.map Prod.fst

instance (l : Link Slot Cmd Args Evt Call Slot' Cmd' Args' Evt' Call') (n : ℕ) :
    Decidable (l.Handed n) :=
  inferInstanceAs (Decidable (n ∈ l.handed.map Prod.fst))

def step (l : Link Slot Cmd Args Evt Call Slot' Cmd' Args' Evt' Call') :
    LinkAction Slot Cmd Args Slot' Cmd' Args' →
    Option (Link Slot Cmd Args Evt Call Slot' Cmd' Args' Evt' Call')
  | .sender a => (l.sender.step prog a).map fun b => { l with sender := b }
  | .receiver a =>
      if a.origin = none then
        (l.receiver.step peer a).map fun b => { l with receiver := b }
      else none
  | .hand n t pair args =>
      match l.sender.message prog n with
      | none => none
      | some data =>
          if ¬ l.Handed n ∧ l.receiver.Running t ∧
              l.receiver.pc.isDestroying = false then
            if data.length ≤ mtu then
              if recv.passes l.receiver.path.mem args = some data then
                (l.receiver.step peer (.invoke t pair args (some n))).map fun b =>
                  { l with receiver := b, handed := l.handed ++ [(n, [pair])] }
              else none
            else
              -- fragmented: only what these two slots hold is called
              let pairs := [recv.allocateMessage, recv.messageComplete].filterMap
                l.receiver.table.slots
              some { l with
                receiver := { l.receiver with
                  table := pairs.foldl CallbackTable.invoke l.receiver.table }
                handed := l.handed ++ [(n, pairs)] }
          else none

def machine :
    Machine (Link Slot Cmd Args Evt Call Slot' Cmd' Args' Evt' Call')
      (LinkAction Slot Cmd Args Slot' Cmd' Args') where
  step := step mtu prog peer recv

def Reachable (channelBuffer channelBuffer' : ℕ)
    (l : Link Slot Cmd Args Evt Call Slot' Cmd' Args' Evt' Call') : Prop :=
  ∃ (hpos : 0 < channelBuffer) (mem : CMemory) (hpos' : 0 < channelBuffer')
    (mem' : CMemory),
    (machine mtu prog peer recv).Reaches
      ⟨.spawn prog channelBuffer hpos mem, .spawn peer channelBuffer' hpos' mem', []⟩ l

variable {mtu prog peer recv}
variable {l l' : Link Slot Cmd Args Evt Call Slot' Cmd' Args' Evt' Call'}

inductive Move (mtu : ℕ) (prog : BridgeProgram Slot Cmd Args Evt Call)
    (peer : BridgeProgram Slot' Cmd' Args' Evt' Call')
    (recv : Receiving Slot' Args' Evt')
    (l : Link Slot Cmd Args Evt Call Slot' Cmd' Args' Evt' Call') :
    LinkAction Slot Cmd Args Slot' Cmd' Args' →
    Link Slot Cmd Args Evt Call Slot' Cmd' Args' Evt' Call' → Prop where
  | sender (a : BridgeAction Slot Cmd Args) (b : Bridge Slot Cmd Args Evt Call)
      (hstep : l.sender.step prog a = some b) :
      Move mtu prog peer recv l (.sender a) { l with sender := b }
  | receiver (a : BridgeAction Slot' Cmd' Args') (b : Bridge Slot' Cmd' Args' Evt' Call')
      (horigin : a.origin = none) (hstep : l.receiver.step peer a = some b) :
      Move mtu prog peer recv l (.receiver a) { l with receiver := b }
  | whole (n : ℕ) (t : CThread) (pair : CallbackPair) (args : Args')
      (data : List UInt8) (b : Bridge Slot' Cmd' Args' Evt' Call')
      (hmessage : l.sender.message prog n = some data) (hnew : ¬ l.Handed n)
      (hrunning : l.receiver.Running t) (hpc : l.receiver.pc.isDestroying = false)
      (hfits : data.length ≤ mtu)
      (hpasses : recv.passes l.receiver.path.mem args = some data)
      (hstep : l.receiver.step peer (.invoke t pair args (some n)) = some b) :
      Move mtu prog peer recv l (.hand n t pair args)
        { l with receiver := b, handed := l.handed ++ [(n, [pair])] }
  | fragmented (n : ℕ) (t : CThread) (pair : CallbackPair) (args : Args')
      (data : List UInt8) (pairs : List CallbackPair)
      (hmessage : l.sender.message prog n = some data) (hnew : ¬ l.Handed n)
      (hlong : ¬ data.length ≤ mtu)
      (hpairs : pairs = [recv.allocateMessage, recv.messageComplete].filterMap
        l.receiver.table.slots) :
      Move mtu prog peer recv l (.hand n t pair args)
        { l with
          receiver := { l.receiver with
            table := pairs.foldl CallbackTable.invoke l.receiver.table }
          handed := l.handed ++ [(n, pairs)] }

theorem step_move {a : LinkAction Slot Cmd Args Slot' Cmd' Args'}
    (hstep : step mtu prog peer recv l a = some l') : Move mtu prog peer recv l a l' := by
  cases a with
  | sender a =>
      obtain ⟨b, hb, rfl⟩ := Option.map_eq_some_iff.mp hstep
      exact .sender a b hb
  | receiver a =>
      simp only [step] at hstep
      split at hstep
      next horigin =>
        obtain ⟨b, hb, rfl⟩ := Option.map_eq_some_iff.mp hstep
        exact .receiver a b horigin hb
      next => contradiction
  | hand n t pair args =>
      simp only [step] at hstep
      split at hstep
      next => contradiction
      next data hmessage =>
        split at hstep
        next hguard =>
          obtain ⟨hnew, hrunning, hpc⟩ := hguard
          split at hstep
          next hfits =>
            split at hstep
            next hpasses =>
              obtain ⟨b, hb, rfl⟩ := Option.map_eq_some_iff.mp hstep
              exact .whole n t pair args data b hmessage hnew hrunning hpc hfits hpasses hb
            next => contradiction
          next hlong =>
            exact Option.some.inj hstep ▸
              .fragmented n t pair args data _ hmessage hnew hlong rfl
        next => contradiction

/-! ## The callbacks made for a message -/

def callbacksFor (l : Link Slot Cmd Args Evt Call Slot' Cmd' Args' Evt' Call') (n : ℕ) :
    List (CThread × Invocation Args') :=
  l.receiver.path.invoked.filter fun i => i.2.origin = some n

/-- What has been called for a message of the link that was handed over. -/
def Fate (mtu : ℕ) (recv : Receiving Slot' Args' Evt')
    (l : Link Slot Cmd Args Evt Call Slot' Cmd' Args' Evt' Call') (n : ℕ)
    (data : List UInt8) : Prop :=
  if data.length ≤ mtu then
    ∃ t inv, l.callbacksFor n = [(t, inv)] ∧ recv.passes inv.mem inv.args = some data
  else l.callbacksFor n = [] ∧ ∀ h ∈ l.handed, h.1 = n → h.2 = []

/-- The programs register no trampoline for fragmented messages. -/
def Unassembled (peer : BridgeProgram Slot' Cmd' Args' Evt' Call')
    (recv : Receiving Slot' Args' Evt') : Prop :=
  ¬ peer.Registers recv.allocateMessage ∧ ¬ peer.Registers recv.messageComplete

structure Inv (mtu : ℕ) (prog : BridgeProgram Slot Cmd Args Evt Call)
    (peer : BridgeProgram Slot' Cmd' Args' Evt' Call')
    (recv : Receiving Slot' Args' Evt') (channelBuffer channelBuffer' : ℕ)
    (l : Link Slot Cmd Args Evt Call Slot' Cmd' Args' Evt' Call') : Prop where
  sender : Bridge.Reachable prog channelBuffer l.sender
  receiver : Bridge.Reachable peer channelBuffer' l.receiver
  fate : ∀ n, l.Handed n →
    ∃ data, l.sender.message prog n = some data ∧ l.Fate mtu recv n data
  untouched : ∀ n, ¬ l.Handed n → l.callbacksFor n = []

theorem message_of_move {b b' : Bridge Slot Cmd Args Evt Call}
    {a : BridgeAction Slot Cmd Args} (hmove : Bridge.Move prog b a b') {n : ℕ}
    {data : List UInt8} (hmessage : b.message prog n = some data) :
    b'.message prog n = some data := by
  unfold Bridge.message at hmessage ⊢
  split at hmessage
  next c code hget =>
    obtain ⟨more, hmore⟩ := hmove.results_kept
    rw [← hmore, List.getElem?_append_left (List.getElem?_eq_some_iff.mp hget).1, hget]
    exact hmessage
  next => contradiction

theorem invoked_of_move {b b' : Bridge Slot' Cmd' Args' Evt' Call'}
    {a : BridgeAction Slot' Cmd' Args'} (hmove : Bridge.Move peer b a b') {n : ℕ}
    (horigin : a.origin ≠ some n) :
    b'.path.invoked.filter (fun i => i.2.origin = some n) =
      b.path.invoked.filter fun i => i.2.origin = some n := by
  rcases hmove.path_cases with hsame | ⟨pa, hpath, ha⟩
  · rw [hsame]
  · rcases EventPath.invoked_of_step hpath with ⟨hsame, _⟩ | ⟨t, args, origin, rfl, hnew⟩
    · rw [hsame]
    · rcases ha with ha | ⟨t', pair, args', origin', rfl, heq⟩
      · exact absurd ha BridgeAction.pathAction_ne_invoke
      · obtain ⟨_, _, rfl⟩ := PathAction.invoke.inj heq
        have hother : origin ≠ some n := horigin
        rw [hnew, List.filter_append]
        simp [hother]

theorem invoked_of_callback (hpeer : peer.Lawful) {channelBuffer' : ℕ}
    {b b' : Bridge Slot' Cmd' Args' Evt' Call'}
    (hreach : Bridge.Reachable peer channelBuffer' b) (hpc : b.pc.isDestroying = false)
    {t : CThread} {pair : CallbackPair} {args : Args'} {origin : Option ℕ}
    (hstep : b.step peer (.invoke t pair args origin) = some b') :
    b'.path.invoked = b.path.invoked ++ [(t, ⟨args, b.path.mem, origin⟩)] := by
  cases Bridge.step_move hstep with
  | invoke _ _ _ _ path hrunning hread hcallee hsound hpath =>
      rcases EventPath.invoked_of_step hpath with ⟨_, hne⟩ | ⟨_, _, _, heq, hnew⟩
      · exact absurd rfl (hne t args origin)
      · obtain ⟨rfl, rfl, rfl⟩ := PathAction.invoke.inj heq
        exact hnew
  | fault _ _ _ _ hrunning hread hcallee hfault =>
      refine absurd ((hreach.sound_iff hpeer hrunning hread).mpr fun h => ?_) hfault
      simp [h, Pc.isDestroying] at hpc
  | path _ pa path ha hpath => simp [BridgeAction.pathAction] at ha

omit [DecidableEq Slot] [DecidableEq Slot'] in
theorem Fate.of_hand {n m : ℕ} {pairs : List CallbackPair} {data : List UInt8}
    (hfate : l.Fate mtu recv m data) (hne : n ≠ m)
    (hhanded : l'.handed = l.handed ++ [(n, pairs)])
    (hsame : l'.callbacksFor m = l.callbacksFor m) : l'.Fate mtu recv m data := by
  unfold Fate at hfate ⊢
  rw [hsame]
  split
  next hfits =>
    rw [if_pos hfits] at hfate
    exact hfate
  next hlong =>
    rw [if_neg hlong] at hfate
    refine ⟨hfate.1, fun h hh hfirst => ?_⟩
    rw [hhanded, List.mem_append, List.mem_singleton] at hh
    rcases hh with hh | rfl
    · exact hfate.2 h hh hfirst
    · exact absurd hfirst hne

omit [DecidableEq Slot] [DecidableEq Slot'] in
theorem handed_append {n m : ℕ} {pairs : List CallbackPair}
    (hhanded : l'.handed = l.handed ++ [(n, pairs)]) : l'.Handed m ↔ l.Handed m ∨ m = n := by
  simp [Handed, hhanded]

theorem Unassembled.slots_eq_none (hpeer : peer.Lawful) (hnone : Unassembled peer recv)
    {channelBuffer' : ℕ} {b : Bridge Slot' Cmd' Args' Evt' Call'}
    (hreach : Bridge.Reachable peer channelBuffer' b) :
    [recv.allocateMessage, recv.messageComplete].filterMap b.table.slots = [] := by
  have hallocate : b.table.slots recv.allocateMessage = none := by
    by_contra hslot
    exact hnone.1 (hreach.registers hpeer hslot)
  have hcomplete : b.table.slots recv.messageComplete = none := by
    by_contra hslot
    exact hnone.2 (hreach.registers hpeer hslot)
  simp [hallocate, hcomplete]

/-- Message `n` is handed over, and what was called for the others stays. -/
theorem Inv.hand {channelBuffer channelBuffer' : ℕ}
    (hinv : Inv mtu prog peer recv channelBuffer channelBuffer' l) {n : ℕ}
    {pairs : List CallbackPair} {data : List UInt8} (hsender : l'.sender = l.sender)
    (hreceiver : Bridge.Reachable peer channelBuffer' l'.receiver)
    (hhanded : l'.handed = l.handed ++ [(n, pairs)])
    (hmessage : l.sender.message prog n = some data) (hfate : l'.Fate mtu recv n data)
    (hothers : ∀ m, n ≠ m → l'.callbacksFor m = l.callbacksFor m) :
    Inv mtu prog peer recv channelBuffer channelBuffer' l' := by
  refine ⟨hsender ▸ hinv.sender, hreceiver, fun m hm => ?_, fun m hm => ?_⟩
  · rw [hsender]
    by_cases hne : n = m
    · exact ⟨data, hne ▸ hmessage, hne ▸ hfate⟩
    · have hold : l.Handed m := by
        rcases (handed_append hhanded).mp hm with hold | rfl
        · exact hold
        · exact absurd rfl hne
      obtain ⟨data, hmessage, hfate⟩ := hinv.fate m hold
      exact ⟨data, hmessage, hfate.of_hand hne hhanded (hothers m hne)⟩
  · rw [handed_append hhanded, not_or] at hm
    rw [hothers m (Ne.symm hm.2)]
    exact hinv.untouched m hm.1

theorem Inv.move (hpeer : peer.Lawful) (hnone : Unassembled peer recv)
    {channelBuffer channelBuffer' : ℕ}
    (hinv : Inv mtu prog peer recv channelBuffer channelBuffer' l)
    {a : LinkAction Slot Cmd Args Slot' Cmd' Args'}
    (hmove : Move mtu prog peer recv l a l') :
    Inv mtu prog peer recv channelBuffer channelBuffer' l' := by
  cases hmove with
  | sender a b hstep =>
      refine ⟨hinv.sender.next hstep,
        hinv.receiver, fun n hn => ?_, hinv.untouched⟩
      obtain ⟨data, hmessage, hfate⟩ := hinv.fate n hn
      exact ⟨data, message_of_move (Bridge.step_move hstep) hmessage, hfate⟩
  | receiver a b horigin hstep =>
      have hsame : ∀ n, ({ l with receiver := b } :
          Link Slot Cmd Args Evt Call Slot' Cmd' Args' Evt' Call').callbacksFor n =
            l.callbacksFor n := by
        intro n
        exact invoked_of_move (Bridge.step_move hstep) (by simp [horigin])
      refine ⟨hinv.sender,
        hinv.receiver.next hstep,
        fun n hn => ?_, fun n hn => (hsame n).trans (hinv.untouched n hn)⟩
      obtain ⟨data, hmessage, hfate⟩ := hinv.fate n hn
      refine ⟨data, hmessage, ?_⟩
      unfold Fate at hfate ⊢
      rw [hsame n]
      exact hfate
  | whole n t pair args data b hmessage hnew hrunning hpc hfits hpasses hstep =>
      have hinvoked := invoked_of_callback hpeer hinv.receiver hpc hstep
      refine hinv.hand rfl (hinv.receiver.next hstep) rfl hmessage ?_ fun m hne => ?_
      · rw [Fate, if_pos hfits]
        refine ⟨t, ⟨args, l.receiver.path.mem, some n⟩, ?_, hpasses⟩
        have hbefore := hinv.untouched n hnew
        unfold callbacksFor at hbefore ⊢
        dsimp only
        rw [hinvoked, List.filter_append, hbefore]
        simp
      · have horigin : (some n : Option ℕ) ≠ some m := by simpa using hne
        exact invoked_of_move (Bridge.step_move hstep) horigin
  | fragmented n t pair args data pairs hmessage hnew hlong hpairs =>
      rw [hnone.slots_eq_none hpeer hinv.receiver] at hpairs
      subst hpairs
      refine hinv.hand rfl hinv.receiver rfl hmessage ?_ fun _ _ => rfl
      rw [Fate, if_neg hlong]
      refine ⟨hinv.untouched n hnew, fun h hh hfirst => ?_⟩
      rcases List.mem_append.mp hh with hh | hh
      · exact absurd (List.mem_map.mpr ⟨h, hh, hfirst⟩) hnew
      · obtain rfl := List.mem_singleton.mp hh
        rfl

theorem Reachable.inv (hpeer : peer.Lawful) (hnone : Unassembled peer recv)
    {channelBuffer channelBuffer' : ℕ}
    (hreach : Reachable mtu prog peer recv channelBuffer channelBuffer' l) :
    Inv mtu prog peer recv channelBuffer channelBuffer' l := by
  obtain ⟨hpos, mem, hpos', mem', hreach⟩ := hreach
  refine hreach.invariant (fun _ _ _ hinv hstep => hinv.move hpeer hnone (step_move hstep)) ?_
  refine ⟨⟨hpos, mem, Machine.Reaches.refl _⟩, ⟨hpos', mem', Machine.Reaches.refl _⟩,
    fun n hn => ?_, fun _ _ => rfl⟩
  simp [Handed] at hn

end Link

section

variable (codes : ErrorCodes) (address : String) (port : UInt16)
variable (workerCount : Int32) (config : SpawnConfig)

theorem spawnServerWithConfig_unassembled :
    Link.Unassembled (spawnServerWithConfig codes address port workerCount config)
      serverReceiving := by
  simp [Link.Unassembled, BridgeProgram.Registers, spawnServerWithConfig, serverReceiving]

theorem spawnClientWithConfig_unassembled :
    Link.Unassembled (spawnClientWithConfig codes address port config)
      clientReceiving := by
  simp [Link.Unassembled, BridgeProgram.Registers, spawnClientWithConfig, clientReceiving]

theorem serverReceiving_payload (mem : CMemory) (call : ServerCallback) :
    serverReceiving.payload (call.event mem) = serverReceiving.passes mem call := by
  cases call <;> rfl

theorem clientReceiving_payload (mem : CMemory) (call : ClientCallback) :
    clientReceiving.payload (call.event mem) = clientReceiving.passes mem call := by
  cases call <;> rfl

end

end EntanglementRs
