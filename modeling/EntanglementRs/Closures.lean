import EntanglementRs.CallbackTable
import EntanglementRs.Lib.Machine

/-!
# Closures registered with a C object

The life of an `EntServer` or `EntClient` whose callbacks are Rust closures.
Setter calls box a closure, register the box with C and keep it in
`_callbacks`; any number of them may be in progress at once.  C reads slots and
calls what it has read at any moment until `destroy` returns.  `Drop` clears
the slots, destroys the object and only then frees the boxes.
-/

namespace EntanglementRs

open Transition

/-- One `set_on_*` method: the slot it fills, the trampoline it registers there
and the type it boxes. -/
structure SetOn (Slot : Type) where
  slot : Slot
  trampoline : Trampoline
  closureType : AllocType
  deriving DecidableEq

inductive SetStep where
  | register
  | store
  deriving DecidableEq

structure ClosureApi (Slot : Type) where
  setters : List (SetOn Slot)
  body : List SetStep
  clears : List Slot

/-- Each setter boxes the type its trampoline casts to, and `Drop` clears every
slot that a setter can fill. -/
structure ClosureApi.Lawful {Slot : Type} (api : ClosureApi Slot) : Prop where
  typed : ∀ s ∈ api.setters, s.trampoline.castType = s.closureType
  clears : ∀ s ∈ api.setters, s.slot ∈ api.clears

namespace EntServer

def setOnClientData : SetOn ServerSlot :=
  ⟨.clientData, .srvDataCb, .boxDynFn [.packetHeaderRef, .byteSlice, .endpoint] none⟩

def setOnClientConnected : SetOn ServerSlot :=
  ⟨.clientConnected, .srvConnectedCb, .boxDynFn [.endpoint, .strRef, .u16] none⟩

def setOnClientDisconnected : SetOn ServerSlot :=
  ⟨.clientDisconnected, .srvDisconnectedCb, .boxDynFn [.endpoint, .strRef, .u16] none⟩

def setOnPacketLost : SetOn ServerSlot :=
  ⟨.packetLost, .srvLostCb, .boxDynFn [.lostPacketInfoRef, .endpoint] none⟩

def setOnCoalescedData : SetOn ServerSlot :=
  ⟨.coalescedData, .srvCoalescedDataCb,
    .boxDynFn [.packetHeaderRef, .byteSlice, .i32, .endpoint] none⟩

def setOnAllocateMessage : SetOn ServerSlot :=
  ⟨.allocateMessage, .srvAllocMsgCb,
    .boxDynFn [.endpoint, .u32, .u8, .u8, .usize] (some .mutU8)⟩

def setOnMessageComplete : SetOn ServerSlot :=
  ⟨.messageComplete, .srvMsgCompleteCb,
    .boxDynFn [.endpoint, .u32, .u8, .mutU8, .usize] none⟩

def setOnMessageFailed : SetOn ServerSlot :=
  ⟨.messageFailed, .srvMsgFailedCb, .boxDynFn [.endpoint, .u32, .u8, .mutU8] none⟩

def dropClears : List ServerSlot :=
  [.clientData, .coalescedData, .clientConnected, .clientDisconnected,
    .channelRequested, .packetLost, .allocateMessage, .messageComplete,
    .messageFailed]

/-- `EntServer`: the box goes through `into_raw`, is registered, and is taken
back by `from_raw` into `_callbacks`. -/
def closureApi : ClosureApi ServerSlot where
  setters := [setOnClientData, setOnClientConnected, setOnClientDisconnected,
    setOnPacketLost, setOnCoalescedData, setOnAllocateMessage,
    setOnMessageComplete, setOnMessageFailed]
  body := [.register, .store]
  clears := dropClears

theorem closureApi_lawful : closureApi.Lawful := by
  constructor <;> decide

end EntServer

namespace EntClient

def setOnDataReceived : SetOn ClientSlot :=
  ⟨.dataReceived, .cliDataCb, .boxDynFn [.packetHeaderRef, .byteSlice] none⟩

def setOnConnected : SetOn ClientSlot :=
  ⟨.connected, .cliConnectedCb, .boxDynFn [] none⟩

def setOnDisconnected : SetOn ClientSlot :=
  ⟨.disconnected, .cliDisconnectedCb, .boxDynFn [] none⟩

def setOnPacketLost : SetOn ClientSlot :=
  ⟨.packetLost, .cliLostCb, .boxDynFn [.lostPacketInfoRef] none⟩

def setOnAllocateMessage : SetOn ClientSlot :=
  ⟨.allocateMessage, .cliAllocMsgCb,
    .boxDynFn [.endpoint, .u32, .u8, .u8, .usize] (some .mutU8)⟩

def setOnMessageComplete : SetOn ClientSlot :=
  ⟨.messageComplete, .cliMsgCompleteCb,
    .boxDynFn [.endpoint, .u32, .u8, .mutU8, .usize] none⟩

def setOnMessageFailed : SetOn ClientSlot :=
  ⟨.messageFailed, .cliMsgFailedCb, .boxDynFn [.endpoint, .u32, .u8, .mutU8] none⟩

def dropClears : List ClientSlot :=
  [.dataReceived, .connected, .disconnected, .packetLost, .allocateMessage,
    .messageComplete, .messageFailed, .messageAcked]

/-- `EntClient`: `store_callback` keeps the box before it is registered. -/
def closureApi : ClosureApi ClientSlot where
  setters := [setOnDataReceived, setOnConnected, setOnDisconnected,
    setOnPacketLost, setOnAllocateMessage, setOnMessageComplete,
    setOnMessageFailed]
  body := [.store, .register]
  clears := dropClears

theorem closureApi_lawful : closureApi.Lawful := by
  constructor <;> decide

end EntClient

/-! ## The machine -/

/-- A setter call in progress, or finished once nothing is left to do. -/
structure SetCall (Slot : Type) where
  setOn : SetOn Slot
  address : ℕ
  rest : List SetStep

def SetCall.pair {Slot : Type} (call : SetCall Slot) : CallbackPair :=
  ⟨call.setOn.trampoline, call.address⟩

inductive ObjectPhase (Slot : Type) where
  | alive
  | clearing (rest : List Slot)
  | destroying
  | dropBoxes (rest : List ℕ)

structure ClosureObject (Slot : Type) where
  table : CallbackTable Slot
  calls : List (SetCall Slot)
  boxes : List ℕ
  phase : ObjectPhase Slot

inductive ClosureAction (Slot : Type) where
  | beginSet (setOn : SetOn Slot)
  | setStep (k : ℕ)
  | readSlot (slot : Slot)
  | invoke (pair : CallbackPair)
  | beginDrop
  | dropStep

namespace ClosureObject

variable {Slot : Type} [DecidableEq Slot]

def new : ClosureObject Slot where
  table := .empty
  calls := []
  boxes := []
  phase := .alive

def CanCall (o : ClosureObject Slot) : Prop :=
  match o.phase with
  | .dropBoxes _ => False
  | _ => True

instance (o : ClosureObject Slot) : Decidable o.CanCall := by
  unfold CanCall
  cases o.phase <;> infer_instance

def step (api : ClosureApi Slot) (o : ClosureObject Slot) :
    ClosureAction Slot → Option (ClosureObject Slot)
  | .beginSet setOn =>
      match o.phase with
      | .alive =>
          if setOn ∈ api.setters then
            some { o with
              table := o.table.alloc setOn.closureType
              calls := o.calls ++ [⟨setOn, o.table.fresh, api.body⟩] }
          else none
      | _ => none
  | .setStep k =>
      match o.phase, o.calls[k]? with
      | .alive, some call =>
          match call.rest with
          | [] => none
          | .register :: rest =>
              some { o with
                table := o.table.set call.setOn.slot (some call.pair)
                calls := o.calls.set k { call with rest := rest } }
          | .store :: rest =>
              some { o with
                calls := o.calls.set k { call with rest := rest }
                boxes := o.boxes ++ [call.address] }
      | _, _ => none
  | .readSlot slot =>
      if o.CanCall then some { o with table := o.table.readSlot slot } else none
  | .invoke pair =>
      if o.CanCall ∧ pair ∈ o.table.read then
        some { o with table := o.table.invoke pair }
      else none
  | .beginDrop =>
      match o.phase with
      | .alive =>
          -- `drop` has `&mut self`: no setter call is in progress
          if ∀ call ∈ o.calls, call.rest = [] then
            some { o with phase := .clearing api.clears }
          else none
      | _ => none
  | .dropStep =>
      match o.phase with
      | .alive => none
      | .clearing (slot :: rest) =>
          some { o with table := o.table.set slot none, phase := .clearing rest }
      | .clearing [] => some { o with phase := .destroying }
      | .destroying => some { o with phase := .dropBoxes o.boxes }
      | .dropBoxes (address :: rest) =>
          some { o with table := o.table.free address, phase := .dropBoxes rest }
      | .dropBoxes [] => none

def machine (api : ClosureApi Slot) :
    Machine (ClosureObject Slot) (ClosureAction Slot) where
  step := step api

/-! ## Soundness of every call -/

/-- The slot need not be empty yet: `Drop` has not begun, or has still to clear
it. -/
def MayBeSet (o : ClosureObject Slot) (slot : Slot) : Prop :=
  match o.phase with
  | .alive => True
  | .clearing rest => slot ∈ rest
  | _ => False

structure Inv (api : ClosureApi Slot) (o : ClosureObject Slot) : Prop where
  setters : ∀ call ∈ o.calls, call.setOn ∈ api.setters
  boxed : o.CanCall → ∀ call ∈ o.calls, o.table.Sound call.pair
  known : o.CanCall → ∀ pair, o.table.Known pair → o.table.Sound pair
  sound : o.table.faults = []
  cleared : ∀ s ∈ api.setters, o.table.slots s.slot ≠ none → o.MayBeSet s.slot

omit [DecidableEq Slot] in
theorem new_inv (api : ClosureApi Slot) : Inv api new := by
  constructor <;> simp [new, CallbackTable.Known, CallbackTable.empty]

variable {api : ClosureApi Slot} {o o' : ClosureObject Slot}

omit [DecidableEq Slot] in
theorem Inv.beginSet (hapi : api.Lawful) (hinv : Inv api o) {s : SetOn Slot}
    (hs : s ∈ api.setters) (halive : o.phase = .alive) :
    Inv api { o with
      table := o.table.alloc s.closureType
      calls := o.calls ++ [⟨s, o.table.fresh, api.body⟩] } := by
  have hcan : o.CanCall := by simp [CanCall, halive]
  refine ⟨?_, ?_, ?_, hinv.sound, hinv.cleared⟩
  · intro call hcall
    rcases List.mem_append.mp hcall with hcall | hcall
    · exact hinv.setters call hcall
    · obtain rfl := List.mem_singleton.mp hcall
      exact hs
  · intro _ call hcall
    rcases List.mem_append.mp hcall with hcall | hcall
    · exact (hinv.boxed hcan call hcall).alloc s.closureType
    · obtain rfl := List.mem_singleton.mp hcall
      exact CallbackTable.sound_fresh s.closureType (hapi.typed s hs) rfl
  · intro _ pair hknown
    exact (hinv.known hcan pair (CallbackTable.known_alloc hknown)).alloc s.closureType

omit [DecidableEq Slot] in
theorem mem_calls_set {k : ℕ} {call c : SetCall Slot} {rest : List SetStep}
    (hcall : o.calls[k]? = some call)
    (hc : c ∈ o.calls.set k { call with rest := rest }) :
    ∃ d ∈ o.calls, c.setOn = d.setOn ∧ c.pair = d.pair := by
  rcases List.mem_or_eq_of_mem_set hc with hmem | rfl
  · exact ⟨c, hmem, rfl, rfl⟩
  · exact ⟨call, List.mem_of_getElem? hcall, rfl, rfl⟩

theorem Inv.register (hinv : Inv api o) {k : ℕ} {call : SetCall Slot}
    {rest : List SetStep} (hcall : o.calls[k]? = some call)
    (halive : o.phase = .alive) :
    Inv api { o with
      table := o.table.set call.setOn.slot (some call.pair)
      calls := o.calls.set k { call with rest := rest } } := by
  have hcan : o.CanCall := by simp [CanCall, halive]
  refine ⟨?_, ?_, ?_, hinv.sound, ?_⟩
  · intro c hc
    obtain ⟨d, hd, hset, _⟩ := mem_calls_set hcall hc
    exact hset ▸ hinv.setters d hd
  · intro _ c hc
    obtain ⟨d, hd, _, hpair⟩ := mem_calls_set hcall hc
    rw [hpair]
    exact (hinv.boxed hcan d hd).of_heap rfl
  · intro _ pair hknown
    rcases CallbackTable.known_set hknown with hold | hnew
    · exact (hinv.known hcan pair hold).of_heap rfl
    · obtain rfl := Option.some.inj hnew
      exact (hinv.boxed hcan call (List.mem_of_getElem? hcall)).of_heap rfl
  · intro s _ _
    simp [MayBeSet, halive]

omit [DecidableEq Slot] in
theorem Inv.store (hinv : Inv api o) {k : ℕ} {call : SetCall Slot}
    {rest : List SetStep} (hcall : o.calls[k]? = some call) :
    Inv api { o with
      calls := o.calls.set k { call with rest := rest }
      boxes := o.boxes ++ [call.address] } := by
  refine ⟨?_, ?_, hinv.known, hinv.sound, hinv.cleared⟩
  · intro c hc
    obtain ⟨d, hd, hset, _⟩ := mem_calls_set hcall hc
    exact hset ▸ hinv.setters d hd
  · intro hcan c hc
    obtain ⟨d, hd, _, hpair⟩ := mem_calls_set hcall hc
    exact hpair ▸ hinv.boxed hcan d hd

theorem Inv.clear (hinv : Inv api o) {slot : Slot} {rest : List Slot}
    (hphase : o.phase = .clearing (slot :: rest)) :
    Inv api { o with table := o.table.set slot none, phase := .clearing rest } := by
  have hcan : o.CanCall := by simp [CanCall, hphase]
  refine ⟨hinv.setters, fun _ call hcall => (hinv.boxed hcan call hcall).of_heap rfl,
    ?_, hinv.sound, ?_⟩
  · intro _ pair hknown
    rcases CallbackTable.known_set hknown with hold | hnew
    · exact (hinv.known hcan pair hold).of_heap rfl
    · contradiction
  · intro s hs hset
    by_cases heq : s.slot = slot
    · simp [heq] at hset
    · have hmay : o.MayBeSet s.slot := by
        apply hinv.cleared s hs
        simpa [Function.update_of_ne heq] using hset
      simpa [MayBeSet, hphase, heq] using hmay

omit [DecidableEq Slot] in
theorem Inv.enter (hinv : Inv api o) {phase : ObjectPhase Slot}
    (hcan : { o with phase := phase }.CanCall → o.CanCall)
    (hmay : ∀ s ∈ api.setters, o.MayBeSet s.slot →
      { o with phase := phase }.MayBeSet s.slot) :
    Inv api { o with phase := phase } where
  setters := hinv.setters
  boxed := fun h => hinv.boxed (hcan h)
  known := fun h => hinv.known (hcan h)
  sound := hinv.sound
  cleared := fun s hs hset => hmay s hs (hinv.cleared s hs hset)

omit [DecidableEq Slot] in
theorem Inv.read (hinv : Inv api o) (hcan : o.CanCall) (slot : Slot) :
    Inv api { o with table := o.table.readSlot slot } := by
  refine ⟨hinv.setters, fun _ call hcall => ?_, fun _ pair hknown => ?_, ?_, ?_⟩
  · exact (hinv.boxed hcan call hcall).of_heap (CallbackTable.readSlot_heap slot)
  · exact (hinv.known hcan pair (CallbackTable.known_readSlot hknown)).of_heap
      (CallbackTable.readSlot_heap slot)
  · exact (CallbackTable.readSlot_faults slot).trans hinv.sound
  · intro s hs hset
    rw [CallbackTable.readSlot_slots] at hset
    exact hinv.cleared s hs hset

omit [DecidableEq Slot] in
/-- After `destroy` the boxes go one by one, and C is not running any more. -/
theorem Inv.dropBox (hinv : Inv api o) {address : ℕ} {rest : List ℕ}
    (hphase : o.phase = .dropBoxes (address :: rest)) :
    Inv api { o with
      phase := .dropBoxes rest
      table := o.table.free address } := by
  refine ⟨hinv.setters, fun hcan => hcan.elim, fun hcan => hcan.elim, hinv.sound, ?_⟩
  intro s hs hset
  have hmay := hinv.cleared s hs hset
  simp [MayBeSet, hphase] at hmay

theorem Inv.step (hapi : api.Lawful) (hinv : Inv api o) {a : ClosureAction Slot}
    (hstep : ClosureObject.step api o a = some o') : Inv api o' := by
  cases a with
  | beginSet setOn =>
      simp only [ClosureObject.step] at hstep
      split at hstep
      next halive =>
        split at hstep
        next hs =>
          obtain rfl := Option.some.inj hstep
          exact hinv.beginSet hapi hs halive
        next => contradiction
      next => contradiction
  | setStep k =>
      simp only [ClosureObject.step] at hstep
      split at hstep
      next call halive hcall =>
        split at hstep
        next => contradiction
        next rest _ =>
          obtain rfl := Option.some.inj hstep
          exact hinv.register hcall halive
        next rest _ =>
          obtain rfl := Option.some.inj hstep
          exact hinv.store hcall
      next => contradiction
  | readSlot slot =>
      simp only [ClosureObject.step] at hstep
      split at hstep
      next hcan =>
        obtain rfl := Option.some.inj hstep
        exact hinv.read hcan slot
      next => contradiction
  | invoke pair =>
      simp only [ClosureObject.step] at hstep
      split at hstep
      next hcall =>
        obtain rfl := Option.some.inj hstep
        have hsound := hinv.known hcall.1 pair (.inr hcall.2)
        rw [CallbackTable.invoke_of_sound hsound]
        exact hinv
      next => contradiction
  | beginDrop =>
      simp only [ClosureObject.step] at hstep
      split at hstep
      next halive =>
        split at hstep
        next =>
          obtain rfl := Option.some.inj hstep
          refine hinv.enter (fun _ => by simp [CanCall, halive]) fun s hs _ => ?_
          exact hapi.clears s hs
        next => contradiction
      next => contradiction
  | dropStep =>
      simp only [ClosureObject.step] at hstep
      split at hstep
      next => contradiction
      next slot rest hphase =>
        obtain rfl := Option.some.inj hstep
        exact hinv.clear hphase
      next hphase =>
        obtain rfl := Option.some.inj hstep
        refine hinv.enter (fun _ => by simp [CanCall, hphase]) fun s _ hmay => ?_
        simp [MayBeSet, hphase] at hmay
      next hphase =>
        obtain rfl := Option.some.inj hstep
        refine hinv.enter (fun hcan => hcan.elim) fun s _ hmay => ?_
        simp [MayBeSet, hphase] at hmay
      next address rest hphase =>
        obtain rfl := Option.some.inj hstep
        exact hinv.dropBox hphase
      next => contradiction

theorem inv_of_reaches (hapi : api.Lawful)
    (hreach : (machine api).Reaches new o) : Inv api o :=
  hreach.invariant (fun _ _ _ hinv hstep => hinv.step hapi hstep) (new_inv api)

/-- Through every sequence of setter calls, reads and calls of C and the final
`Drop`, no call of a closure trampoline meets a freed or wrongly typed box, and
`destroy` finds every slot empty that a setter can fill. -/
theorem calls_sound (hapi : api.Lawful) (hreach : (machine api).Reaches new o) :
    o.table.faults = [] ∧
      (o.phase = .destroying → ∀ s ∈ api.setters, o.table.slots s.slot = none) := by
  have hinv := inv_of_reaches hapi hreach
  refine ⟨hinv.sound, fun hphase s hs => ?_⟩
  by_contra hset
  have hmay := hinv.cleared s hs hset
  simp [MayBeSet, hphase] at hmay

/-! ## What C can call -/

/-- C gets to know a pair only from a setter call. -/
def KnowsOnlySet (o : ClosureObject Slot) : Prop :=
  ∀ pair, o.table.Known pair → ∃ call ∈ o.calls, call.pair = pair

omit [DecidableEq Slot] in
theorem new_knowsOnlySet : (new : ClosureObject Slot).KnowsOnlySet := by
  intro pair hknown
  simp [new, CallbackTable.Known, CallbackTable.empty] at hknown

theorem KnowsOnlySet.step (hknows : o.KnowsOnlySet) {a : ClosureAction Slot}
    (hstep : ClosureObject.step api o a = some o') : o'.KnowsOnlySet := by
  cases a with
  | beginSet setOn =>
      simp only [ClosureObject.step] at hstep
      split at hstep
      next =>
        split at hstep
        next =>
          obtain rfl := Option.some.inj hstep
          intro pair hpair
          obtain ⟨call, hcall, heq⟩ := hknows pair (CallbackTable.known_alloc hpair)
          exact ⟨call, List.mem_append_left _ hcall, heq⟩
        next => contradiction
      next => contradiction
  | setStep k =>
      simp only [ClosureObject.step] at hstep
      split at hstep
      next call _ hcall =>
        have hlt := (List.getElem?_eq_some_iff.mp hcall).1
        -- the setter call keeps its pair whatever it has left to do
        have hset : ∀ rest, ∀ c ∈ o.calls,
            ∃ d ∈ o.calls.set k { call with rest := rest }, d.pair = c.pair := by
          intro rest c hc
          obtain ⟨j, hj⟩ := List.mem_iff_getElem?.mp hc
          by_cases hjk : k = j
          · subst hjk
            rw [hcall, Option.some.injEq] at hj
            subst hj
            exact ⟨_, List.mem_set hlt _, rfl⟩
          · refine ⟨c, List.mem_iff_getElem?.mpr ⟨j, ?_⟩, rfl⟩
            rw [List.getElem?_set_ne hjk, hj]
        split at hstep
        next => contradiction
        next rest _ =>
          obtain rfl := Option.some.inj hstep
          intro pair hpair
          rcases CallbackTable.known_set hpair with hold | hnew
          · obtain ⟨c, hc, rfl⟩ := hknows pair hold
            exact hset rest c hc
          · obtain rfl := Option.some.inj hnew
            exact hset rest call (List.mem_of_getElem? hcall)
        next rest _ =>
          obtain rfl := Option.some.inj hstep
          intro pair hpair
          obtain ⟨c, hc, rfl⟩ := hknows pair hpair
          exact hset rest c hc
      next => contradiction
  | readSlot slot =>
      simp only [ClosureObject.step] at hstep
      split at hstep
      next =>
        obtain rfl := Option.some.inj hstep
        intro pair hpair
        exact hknows pair (CallbackTable.known_readSlot hpair)
      next => contradiction
  | invoke called =>
      simp only [ClosureObject.step] at hstep
      split at hstep
      next =>
        obtain rfl := Option.some.inj hstep
        intro pair hpair
        exact hknows pair (CallbackTable.known_invoke hpair)
      next => contradiction
  | beginDrop =>
      simp only [ClosureObject.step] at hstep
      split at hstep
      next =>
        split at hstep
        next =>
          obtain rfl := Option.some.inj hstep
          exact hknows
        next => contradiction
      next => contradiction
  | dropStep =>
      simp only [ClosureObject.step] at hstep
      split at hstep
      next => contradiction
      next slot rest _ =>
        obtain rfl := Option.some.inj hstep
        intro pair hpair
        rcases CallbackTable.known_set hpair with hold | hnew
        · exact hknows pair hold
        · contradiction
      next =>
        obtain rfl := Option.some.inj hstep
        exact hknows
      next =>
        obtain rfl := Option.some.inj hstep
        exact hknows
      next address rest _ =>
        obtain rfl := Option.some.inj hstep
        intro pair hpair
        exact hknows pair (CallbackTable.known_free hpair)
      next => contradiction

end ClosureObject

end EntanglementRs
