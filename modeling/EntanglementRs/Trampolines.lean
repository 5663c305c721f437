import EntanglementRs.Wrappers
import EntanglementRs.Lib.WellFormedText

/-!
# The trampolines of the bridges

The `extern "C"` functions that the bridges register: each copies what C passes
by pointer out of C's memory and builds the event it then sends.
-/

namespace EntanglementRs

open LossyText (Reads utf8Bytes)

/-- The memory behind the pointers C passes to a callback.  C may rewrite all
of it once the callback has returned. -/
structure CMemory where
  header : Ptr → RawPacketHeader
  bytes : Ptr → UInt8
  cstr : Ptr → List UInt8

def CMemory.zero : CMemory where
  header := fun _ => ⟨0, 0, 0, 0, 0, 0, 0, 0, 0, 0, 0⟩
  bytes := fun _ => 0
  cstr := fun _ => []

/-- `std::slice::from_raw_parts(payload, size).to_vec()`. -/
def CMemory.slice (mem : CMemory) (payload : Ptr) (size : ℕ) : List UInt8 :=
  (List.range size).map fun i => mem.bytes (payload + i)

@[simp] theorem CMemory.slice_length (mem : CMemory) (payload : Ptr) (size : ℕ) :
    (mem.slice payload size).length = size := by
  simp [slice]

theorem CMemory.slice_getElem? (mem : CMemory) (payload : Ptr) (size i : ℕ)
    (hi : i < size) :
    (mem.slice payload size)[i]? = some (mem.bytes (payload + i)) := by
  simp [slice, hi]

/-! ## Server -/

inductive ServerEvent where
  | clientConnected (endpoint : EntEndpoint) (address : String) (port : UInt16)
  | clientDisconnected (endpoint : EntEndpoint) (address : String) (port : UInt16)
  | dataReceived (header : EntPacketHeader) (payload : List UInt8) (sender : EntEndpoint)
  deriving DecidableEq

/-- The text of an address: empty for null, lossy otherwise. -/
def addrStr (mem : CMemory) (address : Option Ptr) : String :=
  match address with
  | none => String.ofList []
  | some p => LossyText.decode (mem.cstr p)

def onClientConnectedTrampoline (mem : CMemory)
    (key : RawEndpoint) (address : Option Ptr) (port : UInt16) : ServerEvent :=
  .clientConnected (EntEndpoint.ofRaw key) (addrStr mem address) port

def onClientDisconnectedTrampoline (mem : CMemory)
    (key : RawEndpoint) (address : Option Ptr) (port : UInt16) : ServerEvent :=
  .clientDisconnected (EntEndpoint.ofRaw key) (addrStr mem address) port

def onClientDataTrampoline (mem : CMemory) (header payload : Ptr)
    (payloadSize : ℕ) (sender : RawEndpoint) : ServerEvent :=
  .dataReceived (EntPacketHeader.ofRaw (mem.header header))
    (mem.slice payload payloadSize) (EntEndpoint.ofRaw sender)

inductive ServerCallback where
  | clientConnected (key : RawEndpoint) (address : Option Ptr) (port : UInt16)
  | clientDisconnected (key : RawEndpoint) (address : Option Ptr) (port : UInt16)
  | clientData (header payload : Ptr) (payloadSize : ℕ) (sender : RawEndpoint)
  deriving DecidableEq

def ServerCallback.callee : ServerCallback → Trampoline
  | .clientConnected _ _ _ => .onClientConnectedTrampoline
  | .clientDisconnected _ _ _ => .onClientDisconnectedTrampoline
  | .clientData _ _ _ _ => .onClientDataTrampoline

def ServerCallback.event (mem : CMemory) : ServerCallback → ServerEvent
  | .clientConnected key address port => onClientConnectedTrampoline mem key address port
  | .clientDisconnected key address port =>
      onClientDisconnectedTrampoline mem key address port
  | .clientData header payload size sender =>
      onClientDataTrampoline mem header payload size sender

/-! ## Client -/

inductive ClientEvent where
  | connected
  | disconnected
  | dataReceived (header : EntPacketHeader) (payload : List UInt8)
  deriving DecidableEq

def onConnectedTrampoline : ClientEvent := .connected

def onDisconnectedTrampoline : ClientEvent := .disconnected

def onDataReceivedTrampoline (mem : CMemory) (header payload : Ptr)
    (payloadSize : ℕ) : ClientEvent :=
  .dataReceived (EntPacketHeader.ofRaw (mem.header header))
    (mem.slice payload payloadSize)

inductive ClientCallback where
  | connected
  | disconnected
  | dataReceived (header payload : Ptr) (payloadSize : ℕ)
  deriving DecidableEq

def ClientCallback.callee : ClientCallback → Trampoline
  | .connected => .onConnectedTrampoline
  | .disconnected => .onDisconnectedTrampoline
  | .dataReceived _ _ _ => .onDataReceivedTrampoline

def ClientCallback.event (mem : CMemory) : ClientCallback → ClientEvent
  | .connected => onConnectedTrampoline
  | .disconnected => onDisconnectedTrampoline
  | .dataReceived header payload size => onDataReceivedTrampoline mem header payload size

/-! ## What an event owes the call -/

structure CarriesHeader (raw : RawPacketHeader) (header : EntPacketHeader) : Prop where
  magic : header.magic = raw.magic
  version : header.version = raw.version
  flags : header.flags = raw.flags
  shardId : header.shardId = raw.shardId
  channelId : header.channelId = raw.channelId
  reserved : header.reserved = raw.reserved
  sequence : header.sequence = raw.sequence
  ack : header.ack = raw.ack
  ackBitmap : header.ackBitmap = raw.ackBitmap
  channelSequence : header.channelSequence = raw.channelSequence
  payloadSize : header.payloadSize = raw.payloadSize

structure CarriesEndpoint (raw : RawEndpoint) (endpoint : EntEndpoint) : Prop where
  address : endpoint.address = raw.address
  port : endpoint.port = raw.port

structure CarriesBytes (mem : CMemory) (start : Ptr) (size : ℕ)
    (payload : List UInt8) : Prop where
  length : payload.length = size
  bytes : ∀ i < size, payload[i]? = some (mem.bytes (start + i))

/-- A null address is the empty text, the UTF-8 bytes of a text are that text, and
in any other bytes each ill-formed piece is one mark. -/
structure CarriesText (mem : CMemory) (address : Option Ptr) (text : String) : Prop where
  null : address = none → text = ""
  encoded : ∀ p s, address = some p → mem.cstr p = utf8Bytes s → text = s
  lossy : ∀ p, address = some p → Reads (mem.cstr p) text.toList

def ServerCallback.Carries (mem : CMemory) : ServerCallback → ServerEvent → Prop
  | .clientConnected key address port, .clientConnected endpoint text p =>
      CarriesEndpoint key endpoint ∧ CarriesText mem address text ∧ p = port
  | .clientDisconnected key address port, .clientDisconnected endpoint text p =>
      CarriesEndpoint key endpoint ∧ CarriesText mem address text ∧ p = port
  | .clientData header start size sender, .dataReceived h payload ep =>
      CarriesHeader (mem.header header) h ∧ CarriesBytes mem start size payload ∧
        CarriesEndpoint sender ep
  | _, _ => False

def ClientCallback.Carries (mem : CMemory) : ClientCallback → ClientEvent → Prop
  | .connected, .connected => True
  | .disconnected, .disconnected => True
  | .dataReceived header start size, .dataReceived h payload =>
      CarriesHeader (mem.header header) h ∧ CarriesBytes mem start size payload
  | _, _ => False

theorem carriesHeader_ofRaw (raw : RawPacketHeader) :
    CarriesHeader raw (EntPacketHeader.ofRaw raw) :=
  ⟨rfl, rfl, rfl, rfl, rfl, rfl, rfl, rfl, rfl, rfl, rfl⟩

theorem carriesEndpoint_ofRaw (raw : RawEndpoint) :
    CarriesEndpoint raw (EntEndpoint.ofRaw raw) :=
  ⟨rfl, rfl⟩

theorem carriesBytes_slice (mem : CMemory) (start : Ptr) (size : ℕ) :
    CarriesBytes mem start size (mem.slice start size) :=
  ⟨mem.slice_length start size, mem.slice_getElem? start size⟩

theorem carriesText_addrStr (mem : CMemory) (address : Option Ptr) :
    CarriesText mem address (addrStr mem address) where
  null := by
    rintro rfl
    rfl
  encoded := by
    rintro p s rfl htext
    rw [addrStr, htext, LossyText.decode_utf8Bytes]
  lossy := by
    rintro p rfl
    exact LossyText.reads_decode (mem.cstr p)

theorem ServerCallback.event_carries (mem : CMemory) (call : ServerCallback) :
    call.Carries mem (call.event mem) := by
  cases call with
  | clientConnected key address port =>
      exact ⟨carriesEndpoint_ofRaw key, carriesText_addrStr mem address, rfl⟩
  | clientDisconnected key address port =>
      exact ⟨carriesEndpoint_ofRaw key, carriesText_addrStr mem address, rfl⟩
  | clientData header payload size sender =>
      exact ⟨carriesHeader_ofRaw _, carriesBytes_slice mem payload size,
        carriesEndpoint_ofRaw sender⟩

theorem ClientCallback.event_carries (mem : CMemory) (call : ClientCallback) :
    call.Carries mem (call.event mem) := by
  cases call with
  | connected => trivial
  | disconnected => trivial
  | dataReceived header payload size =>
      exact ⟨carriesHeader_ofRaw _, carriesBytes_slice mem payload size⟩

end EntanglementRs
