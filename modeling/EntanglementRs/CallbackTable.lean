import EntanglementRs.Packet
import Mathlib.Data.List.Basic
import Mathlib.Logic.Function.Basic

/-!
# The callback slots of a C object

The C object keeps one pair of a trampoline and a `user_data` pointer per
slot.  A trampoline casts its `user_data` to one fixed Rust type, so a call is
sound when the pointer denotes a live allocation of exactly that type.  The
table remembers every pair C has read, because C may use a pair after the slot
was replaced or cleared.
-/

namespace EntanglementRs

inductive ArgType where
  | packetHeaderRef
  | lostPacketInfoRef
  | byteSlice
  | strRef
  | endpoint
  | u8
  | u16
  | u32
  | i32
  | usize
  | mutU8
  deriving DecidableEq

inductive AllocType where
  | boxDynFn (args : List ArgType) (ret : Option ArgType)
  | serverCallbackCtx
  | clientCallbackCtx
  deriving DecidableEq

inductive ServerSlot where
  | clientData
  | coalescedData
  | clientConnected
  | clientDisconnected
  | channelRequested
  | packetLost
  | allocateMessage
  | messageComplete
  | messageFailed
  deriving DecidableEq, Repr

inductive ClientSlot where
  | dataReceived
  | connected
  | disconnected
  | packetLost
  | allocateMessage
  | messageComplete
  | messageFailed
  | messageAcked
  deriving DecidableEq, Repr

inductive Trampoline where
  | srvDataCb
  | srvConnectedCb
  | srvDisconnectedCb
  | srvLostCb
  | srvCoalescedDataCb
  | srvAllocMsgCb
  | srvMsgCompleteCb
  | srvMsgFailedCb
  | cliDataCb
  | cliConnectedCb
  | cliDisconnectedCb
  | cliLostCb
  | cliAllocMsgCb
  | cliMsgCompleteCb
  | cliMsgFailedCb
  | onClientConnectedTrampoline
  | onClientDisconnectedTrampoline
  | onClientDataTrampoline
  | onConnectedTrampoline
  | onDisconnectedTrampoline
  | onDataReceivedTrampoline
  deriving DecidableEq, Repr

/-- The type each trampoline casts its `user_data` to. -/
def Trampoline.castType : Trampoline → AllocType
  | .srvDataCb => .boxDynFn [.packetHeaderRef, .byteSlice, .endpoint] none
  | .srvConnectedCb => .boxDynFn [.endpoint, .strRef, .u16] none
  | .srvDisconnectedCb => .boxDynFn [.endpoint, .strRef, .u16] none
  | .srvLostCb => .boxDynFn [.lostPacketInfoRef, .endpoint] none
  | .srvCoalescedDataCb =>
      .boxDynFn [.packetHeaderRef, .byteSlice, .i32, .endpoint] none
  | .srvAllocMsgCb => .boxDynFn [.endpoint, .u32, .u8, .u8, .usize] (some .mutU8)
  | .srvMsgCompleteCb => .boxDynFn [.endpoint, .u32, .u8, .mutU8, .usize] none
  | .srvMsgFailedCb => .boxDynFn [.endpoint, .u32, .u8, .mutU8] none
  | .cliDataCb => .boxDynFn [.packetHeaderRef, .byteSlice] none
  | .cliConnectedCb => .boxDynFn [] none
  | .cliDisconnectedCb => .boxDynFn [] none
  | .cliLostCb => .boxDynFn [.lostPacketInfoRef] none
  | .cliAllocMsgCb => .boxDynFn [.endpoint, .u32, .u8, .u8, .usize] (some .mutU8)
  | .cliMsgCompleteCb => .boxDynFn [.endpoint, .u32, .u8, .mutU8, .usize] none
  | .cliMsgFailedCb => .boxDynFn [.endpoint, .u32, .u8, .mutU8] none
  | .onClientConnectedTrampoline => .serverCallbackCtx
  | .onClientDisconnectedTrampoline => .serverCallbackCtx
  | .onClientDataTrampoline => .serverCallbackCtx
  | .onConnectedTrampoline => .clientCallbackCtx
  | .onDisconnectedTrampoline => .clientCallbackCtx
  | .onDataReceivedTrampoline => .clientCallbackCtx

/-- What a slot holds: the trampoline and the allocation `user_data` denotes. -/
structure CallbackPair where
  trampoline : Trampoline
  userData : ℕ
  deriving DecidableEq

structure Alloc where
  type : AllocType
  live : Bool
  deriving DecidableEq

/-- The slots of one C object over the Rust allocations they point to. -/
structure CallbackTable (Slot : Type) where
  /-- Allocations in order of creation; addresses are never reused, so that a
  stale pointer stays recognisable. -/
  heap : List Alloc
  slots : Slot → Option CallbackPair
  read : List CallbackPair
  /-- The calls that reached a trampoline with an unsound `user_data`. -/
  faults : List CallbackPair

namespace CallbackTable

variable {Slot : Type}

def empty : CallbackTable Slot where
  heap := []
  slots := fun _ => none
  read := []
  faults := []

def fresh (t : CallbackTable Slot) : ℕ := t.heap.length

def alloc (t : CallbackTable Slot) (type : AllocType) : CallbackTable Slot :=
  { t with heap := t.heap ++ [⟨type, true⟩] }

def free (t : CallbackTable Slot) (address : ℕ) : CallbackTable Slot :=
  { t with heap := t.heap.modify address fun a => { a with live := false } }

def set [DecidableEq Slot] (t : CallbackTable Slot)
    (slot : Slot) (pair : Option CallbackPair) : CallbackTable Slot :=
  { t with slots := Function.update t.slots slot pair }

def readSlot (t : CallbackTable Slot) (slot : Slot) : CallbackTable Slot :=
  match t.slots slot with
  | none => t
  | some pair => { t with read := t.read ++ [pair] }

def Sound (t : CallbackTable Slot) (pair : CallbackPair) : Prop :=
  t.heap[pair.userData]? = some ⟨pair.trampoline.castType, true⟩

instance (t : CallbackTable Slot) (pair : CallbackPair) :
    Decidable (t.Sound pair) :=
  inferInstanceAs (Decidable (_ = _))

/-- What a call of the pair's trampoline does to the table: nothing if it is
sound, and otherwise undefined behaviour, of which only the fact is kept. -/
def invoke (t : CallbackTable Slot) (pair : CallbackPair) : CallbackTable Slot :=
  if t.Sound pair then t else { t with faults := t.faults ++ [pair] }

/-- The pair is in a slot or was read from one: C can call it now or later. -/
def Known (t : CallbackTable Slot) (pair : CallbackPair) : Prop :=
  (∃ slot, t.slots slot = some pair) ∨ pair ∈ t.read

/-! ## How soundness moves through the operations -/

variable {t : CallbackTable Slot} {pair : CallbackPair}

@[simp] theorem free_slots (address : ℕ) :
    (t.free address).slots = t.slots := rfl

@[simp] theorem set_slots [DecidableEq Slot]
    (slot : Slot) (pair : Option CallbackPair) :
    (t.set slot pair).slots = Function.update t.slots slot pair := rfl

@[simp] theorem readSlot_heap (slot : Slot) :
    (t.readSlot slot).heap = t.heap := by
  unfold readSlot
  split <;> rfl

@[simp] theorem readSlot_slots (slot : Slot) :
    (t.readSlot slot).slots = t.slots := by
  unfold readSlot
  split <;> rfl

@[simp] theorem readSlot_faults (slot : Slot) :
    (t.readSlot slot).faults = t.faults := by
  unfold readSlot
  split <;> rfl

@[simp] theorem invoke_heap : (t.invoke pair).heap = t.heap := by
  unfold invoke
  split <;> rfl

@[simp] theorem invoke_slots : (t.invoke pair).slots = t.slots := by
  unfold invoke
  split <;> rfl

@[simp] theorem invoke_read : (t.invoke pair).read = t.read := by
  unfold invoke
  split <;> rfl

theorem invoke_of_sound (hsound : t.Sound pair) : t.invoke pair = t := by
  simp [invoke, hsound]

theorem invoke_faults_of_not_sound (hsound : ¬ t.Sound pair) :
    (t.invoke pair).faults = t.faults ++ [pair] := by
  simp [invoke, hsound]

theorem Sound.of_heap {u : CallbackTable Slot} (hsound : t.Sound pair)
    (hheap : u.heap = t.heap) : u.Sound pair := by
  unfold Sound
  rw [hheap]
  exact hsound

theorem Sound.alloc (hsound : t.Sound pair) (type : AllocType) :
    (t.alloc type).Sound pair := by
  unfold Sound CallbackTable.alloc
  rw [List.getElem?_append_left (List.getElem?_eq_some_iff.mp hsound).1]
  exact hsound

theorem sound_fresh (type : AllocType) (htype : pair.trampoline.castType = type)
    (hfresh : pair.userData = t.fresh) : (t.alloc type).Sound pair := by
  unfold Sound CallbackTable.alloc
  rw [hfresh, fresh, htype]
  simp

theorem known_alloc {type : AllocType} (hknown : (t.alloc type).Known pair) :
    t.Known pair :=
  hknown

theorem known_set [DecidableEq Slot]
    {slot : Slot} {new : Option CallbackPair}
    (hknown : (t.set slot new).Known pair) : t.Known pair ∨ new = some pair := by
  rcases hknown with ⟨other, hother⟩ | hread
  · by_cases heq : other = slot
    · subst other
      rw [set_slots, Function.update_self] at hother
      exact .inr hother
    · rw [set_slots, Function.update_of_ne heq] at hother
      exact .inl (.inl ⟨other, hother⟩)
  · exact .inl (.inr hread)

theorem known_readSlot {slot : Slot}
    (hknown : (t.readSlot slot).Known pair) : t.Known pair := by
  unfold readSlot at hknown
  split at hknown
  next => exact hknown
  next found hslot =>
    rcases hknown with hin | hread
    · exact .inl hin
    · rw [List.mem_append, List.mem_singleton] at hread
      rcases hread with hread | rfl
      · exact .inr hread
      · exact .inl ⟨slot, hslot⟩

theorem known_free {address : ℕ} (hknown : (t.free address).Known pair) :
    t.Known pair :=
  hknown

theorem known_invoke {called : CallbackPair}
    (hknown : (t.invoke called).Known pair) : t.Known pair := by
  unfold Known at hknown ⊢
  rw [invoke_slots, invoke_read] at hknown
  exact hknown

theorem alloc_heap_fresh (type : AllocType) :
    (t.alloc type).heap[t.fresh]? = some ⟨type, true⟩ := by
  simp [alloc, fresh]

theorem free_heap {address : ℕ} {type : AllocType}
    (hlive : t.heap[address]? = some ⟨type, true⟩) :
    (t.free address).heap[address]? = some ⟨type, false⟩ := by
  simp [free, List.getElem?_modify_eq, hlive]

end CallbackTable

end EntanglementRs
