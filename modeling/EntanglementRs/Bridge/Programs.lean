import EntanglementRs.Bridge.Model
import EntanglementRs.Closures

/-!
# The two bridges

The commands of the handles, the spawn configuration, and the two programs
`spawn_server_with_config` and `spawn_client_with_config` run on their threads.
-/

namespace EntanglementRs

inductive ServerCommand where
  | sendTo (data : List UInt8) (channelId : UInt8) (dest : EntEndpoint) (flags : UInt8)
  | disconnect (endpoint : EntEndpoint)
  | stop
  deriving DecidableEq

inductive ClientCommand where
  | send (data : List UInt8) (channelId : UInt8) (flags : UInt8)
  | sendWithReset (data : List UInt8) (channelId : UInt8) (flags : UInt8)
  | disconnect
  | stop
  deriving DecidableEq

structure SpawnConfig where
  channelBuffer : ℕ
  /-- Sleep between tick iterations, in milliseconds. -/
  tickInterval : ℕ
  pollBatch : Int32

def SpawnConfig.default : SpawnConfig :=
  { channelBuffer := 1024, tickInterval := 33, pollBatch := 256 }

/-! ## Server -/

def ServerCommand.exec (codes : ErrorCodes) : ServerCommand → FFI ServerCall Unit
  | .sendTo data channelId dest flags =>
      (EntServer.sendTo codes data channelId dest flags).ignore
  | .disconnect endpoint => EntServer.disconnectClient endpoint
  | .stop => EntServer.stop

def ServerCommand.isStop : ServerCommand → Bool
  | .stop => true
  | _ => false

def ServerCommand.message : ServerCommand → Option (List UInt8)
  | .sendTo data _ _ _ => some data
  | _ => none

/-- The thread of `spawn_server_with_config`. -/
def spawnServerWithConfig (codes : ErrorCodes) (bindAddress : String) (port : UInt16)
    (workerCount : Int32) (config : SpawnConfig) :
    BridgeProgram ServerSlot ServerCommand ServerCallback ServerEvent ServerCall where
  create := EntServer.new port bindAddress
  configure := (EntServer.setWorkerCount workerCount).calls ++
    EntServer.registerDefaultChannels.calls
  contextType := .serverCallbackCtx
  registrations :=
    [(.clientConnected, .onClientConnectedTrampoline),
      (.clientDisconnected, .onClientDisconnectedTrampoline),
      (.clientData, .onClientDataTrampoline)]
  setOn := .setOn
  openObject := EntServer.start codes
  hasWorkers := true
  -- `server.start().expect(..)`
  reclaimsOnFailure := false
  exec := ServerCommand.exec codes
  isStop := ServerCommand.isStop
  message := ServerCommand.message
  poll := EntServer.poll config.pollBatch
  update := EntServer.update
  clears := EntServer.dropClears
  destroy := .destroy
  callee := ServerCallback.callee
  event := ServerCallback.event

/-! ## Client -/

def ClientCommand.exec (codes : ErrorCodes) : ClientCommand → FFI ClientCall Unit
  | .send data channelId flags => (EntClient.send codes data channelId flags).ignore
  | .sendWithReset data channelId flags =>
      (EntClient.sendWithReset codes data channelId flags).ignore
  | .disconnect => EntClient.disconnect
  | .stop => EntClient.disconnect

def ClientCommand.isStop : ClientCommand → Bool
  | .stop => true
  | _ => false

def ClientCommand.message : ClientCommand → Option (List UInt8)
  | .send data _ _ => some data
  | .sendWithReset data _ _ => some data
  | _ => none

/-- The thread of `spawn_client_with_config`. -/
def spawnClientWithConfig (codes : ErrorCodes) (serverAddress : String)
    (serverPort : UInt16) (config : SpawnConfig) :
    BridgeProgram ClientSlot ClientCommand ClientCallback ClientEvent ClientCall where
  create := EntClient.new serverAddress serverPort
  configure := EntClient.registerDefaultChannels.calls
  contextType := .clientCallbackCtx
  registrations :=
    [(.connected, .onConnectedTrampoline),
      (.disconnected, .onDisconnectedTrampoline),
      (.dataReceived, .onDataReceivedTrampoline)]
  setOn := .setOn
  openObject := EntClient.connect codes
  hasWorkers := false
  -- `if client.connect().is_err() { Arc::from_raw(..); return; }`
  reclaimsOnFailure := true
  exec := ClientCommand.exec codes
  isStop := ClientCommand.isStop
  message := ClientCommand.message
  poll := EntClient.poll config.pollBatch
  update := EntClient.update
  clears := EntClient.dropClears
  destroy := .destroy
  callee := ClientCallback.callee
  event := ClientCallback.event

/-! ## What both programs have in common -/

/-- The facts about a bridge program that do not depend on which bridge it is. -/
structure BridgeProgram.Lawful {Slot Cmd Args Evt Call : Type}
    (prog : BridgeProgram Slot Cmd Args Evt Call) : Prop where
  opens_iff : ∀ r, prog.openObject.result r = some (.ok ()) ↔ 0 ≤ r.code
  typed : ∀ q ∈ prog.registrations, q.2.castType = prog.contextType
  clears : ∀ q ∈ prog.registrations, q.1 ∈ prog.clears
  /-- Where a failed open reclaims the context, no worker is left running. -/
  joined : prog.reclaimsOnFailure = true → prog.hasWorkers = false
  stop_silent : ∀ c, prog.isStop c = true → prog.message c = none

theorem map_checkErr_eq_ok_iff (codes : ErrorCodes) {code : Int32} :
    (checkErr codes code).map (fun _ => ()) = .ok () ↔ 0 ≤ code := by
  by_cases hcode : 0 ≤ code
  · simp [checkErr_of_nonneg hcode, hcode, Except.map]
  · simp [checkErr_of_neg hcode, hcode, Except.map]

section

variable (codes : ErrorCodes) (address : String) (port : UInt16)
variable (workerCount : Int32) (config : SpawnConfig)

theorem spawnServerWithConfig_lawful :
    (spawnServerWithConfig codes address port workerCount config).Lawful where
  opens_iff := fun r => by
    rw [← map_checkErr_eq_ok_iff codes]
    exact Option.some_inj
  typed := by simp [spawnServerWithConfig, Trampoline.castType]
  clears := by simp [spawnServerWithConfig, EntServer.dropClears]
  joined := fun h => nomatch h
  stop_silent := fun c hstop => by cases c <;> first | rfl | contradiction

theorem spawnClientWithConfig_lawful :
    (spawnClientWithConfig codes address port config).Lawful where
  opens_iff := fun r => by
    rw [← map_checkErr_eq_ok_iff codes]
    exact Option.some_inj
  typed := by simp [spawnClientWithConfig, Trampoline.castType]
  clears := by simp [spawnClientWithConfig, EntClient.dropClears]
  joined := fun _ => rfl
  stop_silent := fun c hstop => by cases c <;> first | rfl | contradiction

end

end EntanglementRs
