import EntanglementRs.FFI
import EntanglementRs.CallbackTable

/-!
# The wrappers of `EntServer` and `EntClient`

The methods of the two low-level wrappers that the bridges and the raw-pointer
calls use.  The receiver's `inner` pointer is left implicit; a slice passed by
pointer and length is the list of its bytes.
-/

namespace EntanglementRs

/-- A pointer of the C side that is only handed on. -/
abbrev Ptr := ℕ

inductive ServerCall where
  | create (port : UInt16) (bindAddress : String)
  | setWorkerCount (count : Int32)
  | registerDefaultChannels
  | setOn (slot : ServerSlot) (pair : Option CallbackPair)
  | start
  | stop
  | poll (maxPackets : Int32)
  | update
  | sendTo (data : List UInt8) (channelId : UInt8) (dest : RawEndpoint) (flags : UInt8)
  | disconnectClient (key : RawEndpoint)
  /-- C gets the payload pointer only; its length is `header.payloadSize`. -/
  | sendRawTo (header : RawPacketHeader) (payload : List UInt8) (dest : RawEndpoint)
  /-- C gets the pointer to the first context only. -/
  | dispatchToWorkers (task : Ptr) (contexts : List Ptr)
  | destroy
  deriving DecidableEq

inductive ClientCall where
  | create (serverAddress : String) (serverPort : UInt16)
  | registerDefaultChannels
  | setOn (slot : ClientSlot) (pair : Option CallbackPair)
  | connect
  | disconnect
  | poll (maxPackets : Int32)
  | update
  | send (data : List UInt8) (channelId : UInt8) (flags : UInt8)
  | sendWithReset (data : List UInt8) (channelId : UInt8) (flags : UInt8)
  | sendRaw (header : RawPacketHeader) (payload : List UInt8)
  | destroy
  deriving DecidableEq

/-- The bytes of a call that sends a message. -/
def ServerCall.data? : ServerCall → Option (List UInt8)
  | .sendTo data _ _ _ => some data
  | _ => none

def ClientCall.data? : ClientCall → Option (List UInt8)
  | .send data _ _ => some data
  | .sendWithReset data _ _ => some data
  | _ => none

def cString? (s : String) : Option String :=
  if s.toList.contains (Char.ofNat 0) then none else some s

namespace EntServer

variable (codes : ErrorCodes)

def new (port : UInt16) (bindAddress : String) : FFI ServerCall Unit :=
  match cString? bindAddress with
  | none => .panics
  | some cAddr =>
      .call (.create port cAddr) fun r => if r.handle = 0 then none else some ()

def start : FFI ServerCall (EntResult Unit) :=
  .call .start fun r => some ((checkErr codes r.code).map fun _ => ())

def stop : FFI ServerCall Unit := .void .stop

def poll (maxPackets : Int32) : FFI ServerCall Int32 :=
  .call (.poll maxPackets) fun r => some r.code

def update : FFI ServerCall Int32 := .call .update fun r => some r.code

def sendTo (data : List UInt8) (channelId : UInt8) (dest : EntEndpoint)
    (flags : UInt8) : FFI ServerCall (EntResult UInt32) :=
  .call (.sendTo data channelId dest.toRaw flags) fun r =>
    some ((checkErr codes r.code).map fun _ => r.msgId)

def disconnectClient (key : EntEndpoint) : FFI ServerCall Unit :=
  .void (.disconnectClient key.toRaw)

def setWorkerCount (count : Int32) : FFI ServerCall Unit :=
  .void (.setWorkerCount count)

def registerDefaultChannels : FFI ServerCall Unit :=
  .void .registerDefaultChannels

/-- `send_raw_to`: the result and the header the caller is left with. -/
def sendRawTo (header : EntPacketHeader) (payload : List UInt8)
    (dest : EntEndpoint) : FFI ServerCall (EntResult Unit × EntPacketHeader) :=
  .call (.sendRawTo header.toRaw payload dest.toRaw) fun r =>
    some ((checkErr codes r.code).map fun _ => (), EntPacketHeader.ofRaw r.header)

def dispatchToWorkers (task : Ptr) (contexts : List Ptr) : FFI ServerCall Unit :=
  .void (.dispatchToWorkers task contexts)

end EntServer

namespace EntClient

variable (codes : ErrorCodes)

def new (serverAddress : String) (serverPort : UInt16) : FFI ClientCall Unit :=
  match cString? serverAddress with
  | none => .panics
  | some cAddr =>
      .call (.create cAddr serverPort) fun r =>
        if r.handle = 0 then none else some ()

def connect : FFI ClientCall (EntResult Unit) :=
  .call .connect fun r => some ((checkErr codes r.code).map fun _ => ())

def disconnect : FFI ClientCall Unit := .void .disconnect

def send (data : List UInt8) (channelId flags : UInt8) :
    FFI ClientCall (EntResult UInt32) :=
  .call (.send data channelId flags) fun r =>
    some ((checkErr codes r.code).map fun _ => r.msgId)

def sendWithReset (data : List UInt8) (channelId flags : UInt8) :
    FFI ClientCall (EntResult UInt32) :=
  .call (.sendWithReset data channelId flags) fun r =>
    some ((checkErr codes r.code).map fun _ => r.msgId)

def poll (maxPackets : Int32) : FFI ClientCall Int32 :=
  .call (.poll maxPackets) fun r => some r.code

def update : FFI ClientCall Int32 := .call .update fun r => some r.code

def registerDefaultChannels : FFI ClientCall Unit :=
  .void .registerDefaultChannels

def sendRaw (header : EntPacketHeader) (payload : List UInt8) :
    FFI ClientCall (EntResult Unit × EntPacketHeader) :=
  .call (.sendRaw header.toRaw payload) fun r =>
    some ((checkErr codes r.code).map fun _ => (), EntPacketHeader.ofRaw r.header)

end EntClient

/-! ## Sends report every rejection -/

variable {codes : ErrorCodes}

theorem map_checkErr_isOk {α : Type} (f : Int32 → α) (code : Int32) :
    ((checkErr codes code).map f).isOk = decide (0 ≤ code) := by
  unfold checkErr
  split <;> simp_all [Except.map, Except.isOk, Except.toBool]

/-- The direct server send returns `Ok` exactly when C accepted the message. -/
theorem EntServer.sendTo_isOk (data : List UInt8) (channelId : UInt8)
    (dest : EntEndpoint) (flags : UInt8) (r : Reply) :
    ∃ result, (EntServer.sendTo codes data channelId dest flags).result r = some result ∧
      result.isOk = decide (0 ≤ r.code) :=
  ⟨_, rfl, map_checkErr_isOk _ r.code⟩

end EntanglementRs
