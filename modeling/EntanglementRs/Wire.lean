import EntanglementRs.Lib.Layout
import EntanglementRs.Packet

/-!
# Packets on the wire

The raw packets with which `client_restart.rs` and `foreign_sender.rs` play a
client or an impostor, against the packed layout of `ent_packet_header`: its
fields in the order of their declaration, least significant byte first.
-/

namespace EntanglementRs

open ByteLayout

def packetHeaderSize : ℕ := 34

def flagControl : UInt8 := (1 : UInt8) <<< (1 : UInt8)

def controlConnectionRequest : UInt8 := 0x01

/-! ## The layout of the header -/

abbrev HeaderFields : Type :=
  UInt16 × UInt8 × UInt8 × UInt16 × UInt8 × UInt8 × UInt64 × UInt64 × UInt32 × UInt32 × UInt16

def RawPacketHeader.fields : RawPacketHeader ≃ HeaderFields where
  toFun h := (h.magic, h.version, h.flags, h.shardId, h.channelId, h.reserved, h.sequence,
    h.ack, h.ackBitmap, h.channelSequence, h.payloadSize)
  invFun := fun (magic, version, flags, shardId, channelId, reserved, sequence, ack,
      ackBitmap, channelSequence, payloadSize) =>
    ⟨magic, version, flags, shardId, channelId, reserved, sequence, ack, ackBitmap,
      channelSequence, payloadSize⟩
  left_inv _ := rfl
  right_inv _ := rfl

def headerLayout : Layout RawPacketHeader :=
  (u16.beside <| u8.beside <| u8.beside <| u16.beside <| u8.beside <| u8.beside <|
    u64.beside <| u64.beside <| u32.beside <| u32.beside u16).through RawPacketHeader.fields

/-! ## The packets of the tests -/

def packet (flags channel : UInt8) (sequence : UInt64) (payload : List UInt8) : List UInt8 :=
  u16.put 0xE7A9 ++ -- magic
    [1] ++ -- version
    [flags] ++
    u16.put 0 ++ -- shard_id
    [channel] ++
    [0] ++ -- reserved
    u64.put sequence ++
    u64.put 0 ++ -- ack
    u32.put 0 ++ -- ack_bitmap
    u32.put 0 ++ -- channel_sequence
    u16.put (UInt16.ofNat payload.length) ++
    payload

def connectionRequest (sequence : UInt64) (inst : Option UInt64) : List UInt8 :=
  let payload := [controlConnectionRequest]
  let payload := match inst with
    | some id => payload ++ u64.put id
    | none => payload
  packet flagControl 0 sequence payload

def foreignHeartbeat (sequence : UInt64) : List UInt8 :=
  u16.put 0xE7A9 ++ -- magic
    [1] ++ -- version
    [(1 : UInt8) <<< (1 : UInt8)] ++ -- FLAG_CONTROL
    u16.put 0 ++ -- shard_id
    [0] ++ -- channel_id = CONTROL
    [0] ++ -- reserved
    u64.put sequence ++
    u64.put 0 ++ -- ack
    u32.put 0 ++ -- ack_bitmap
    u32.put 0 ++ -- channel_sequence
    u16.put 1 ++ -- payload_size
    [0x05] -- CONTROL_HEARTBEAT

/-- The header that `packet` writes. -/
def packetHeader (flags channel : UInt8) (sequence : UInt64) (payload : List UInt8) :
    RawPacketHeader where
  magic := 0xE7A9
  version := 1
  flags := flags
  shardId := 0
  channelId := channel
  reserved := 0
  sequence := sequence
  ack := 0
  ackBitmap := 0
  channelSequence := 0
  payloadSize := UInt16.ofNat payload.length

/-! ## What the layout says of them -/

theorem headerLayout_size : headerLayout.size = packetHeaderSize := rfl

section

variable (flags channel : UInt8) (sequence : UInt64) (payload : List UInt8)

theorem packet_eq :
    packet flags channel sequence payload =
      headerLayout.put (packetHeader flags channel sequence payload) ++ payload := by
  have hbyte : ∀ b : UInt8, u8.put b = [b] := fun b => by
    simp [u8, littleEndian, digits]
  simp only [packet, headerLayout, Layout.through, Layout.beside, RawPacketHeader.fields,
    Equiv.coe_fn_mk, packetHeader, hbyte, List.append_assoc]

theorem packet_take :
    headerLayout.get ((packet flags channel sequence payload).take packetHeaderSize) =
      packetHeader flags channel sequence payload := by
  rw [packet_eq, ← headerLayout_size, headerLayout.get_put_append]

theorem packet_drop :
    (packet flags channel sequence payload).drop packetHeaderSize = payload := by
  rw [packet_eq, ← headerLayout_size, headerLayout.drop_put_append]

/-- The length is cast to an `u16`. -/
theorem packetHeader_payloadSize_iff :
    (packetHeader flags channel sequence payload).payloadSize.toNat = payload.length ↔
      payload.length < 2 ^ 16 := by
  have hsize : (packetHeader flags channel sequence payload).payloadSize.toNat =
      payload.length % 2 ^ 16 := UInt16.toNat_ofNat'
  rw [hsize]
  exact ⟨fun h => h ▸ Nat.mod_lt _ (by decide), Nat.mod_eq_of_lt⟩

end

theorem packet_inj {flags flags' channel channel' : UInt8} {sequence sequence' : UInt64}
    {payload payload' : List UInt8} :
    packet flags channel sequence payload = packet flags' channel' sequence' payload' ↔
      flags = flags' ∧ channel = channel' ∧ sequence = sequence' ∧ payload = payload' := by
  rw [packet_eq, packet_eq, headerLayout.put_append_inj]
  constructor
  · rintro ⟨hheader, rfl⟩
    simp only [packetHeader, RawPacketHeader.mk.injEq] at hheader
    exact ⟨hheader.2.2.1, hheader.2.2.2.2.1, hheader.2.2.2.2.2.2.1, rfl⟩
  · rintro ⟨rfl, rfl, rfl, rfl⟩
    exact ⟨rfl, rfl⟩

theorem foreignHeartbeat_eq (sequence : UInt64) :
    foreignHeartbeat sequence = packet flagControl 0 sequence [0x05] := rfl

theorem connectionRequest_eq (sequence : UInt64) (inst : Option UInt64) :
    connectionRequest sequence inst =
      packet flagControl 0 sequence (controlConnectionRequest :: inst.elim [] u64.put) := by
  cases inst with
  | none => rfl
  | some id => rfl

theorem connectionRequest_drop (sequence id : UInt64) :
    u64.get ((connectionRequest sequence (some id)).drop (packetHeaderSize + 1)) = id := by
  rw [connectionRequest_eq, ← List.drop_drop, packet_drop]
  exact u64.get_put id

theorem connectionRequest_length (sequence : UInt64) (inst : Option UInt64) :
    (connectionRequest sequence inst).length =
      packetHeaderSize + 1 + if inst.isSome then 8 else 0 := by
  rw [connectionRequest_eq, packet_eq, List.length_append, headerLayout.put_length,
    headerLayout_size]
  cases inst with
  | none => rfl
  | some id => rw [Option.elim_some, List.length_cons, u64.put_length]; rfl

theorem connectionRequest_inj {sequence sequence' : UInt64} {inst inst' : Option UInt64} :
    connectionRequest sequence inst = connectionRequest sequence' inst' ↔
      sequence = sequence' ∧ inst = inst' := by
  constructor
  · intro hsame
    have hlength := congrArg List.length hsame
    rw [connectionRequest_length, connectionRequest_length] at hlength
    refine ⟨(packet_inj.mp hsame).2.2.1, ?_⟩
    cases inst with
    | none =>
        cases inst' with
        | none => rfl
        | some id' => simp at hlength
    | some id =>
        cases inst' with
        | none => simp at hlength
        | some id' => rw [← connectionRequest_drop sequence id, hsame, connectionRequest_drop]
  · rintro ⟨rfl, rfl⟩
    rfl

theorem foreignHeartbeat_ne_connectionRequest (sequence sequence' : UInt64)
    (inst : Option UInt64) : foreignHeartbeat sequence ≠ connectionRequest sequence' inst := by
  intro hsame
  have hpayload := congrArg (List.drop packetHeaderSize) hsame
  rw [foreignHeartbeat_eq, connectionRequest_eq, packet_drop, packet_drop] at hpayload
  exact absurd (List.cons.inj hpayload).1 (by decide)

/-- The bytes of `packet` as a header and a payload. -/
structure PacketBytes (flags channel : UInt8) (sequence : UInt64) (payload bytes : List UInt8) :
    Prop where
  layout : bytes = headerLayout.put (packetHeader flags channel sequence payload) ++ payload
  header : headerLayout.get (bytes.take packetHeaderSize) =
    packetHeader flags channel sequence payload
  body : bytes.drop packetHeaderSize = payload
  size : (headerLayout.get (bytes.take packetHeaderSize)).payloadSize.toNat =
      (bytes.drop packetHeaderSize).length ↔
    payload.length < 2 ^ 16

theorem packetBytes_packet (flags channel : UInt8) (sequence : UInt64)
    (payload : List UInt8) :
    PacketBytes flags channel sequence payload (packet flags channel sequence payload) where
  layout := packet_eq flags channel sequence payload
  header := packet_take flags channel sequence payload
  body := packet_drop flags channel sequence payload
  size := by
    rw [packet_take, packet_drop]
    exact packetHeader_payloadSize_iff flags channel sequence payload

/-- What tells the packets of the tests apart on the wire. -/
structure ToldApart : Prop where
  packets : ∀ flags channel sequence payload flags' channel' sequence' payload',
    packet flags channel sequence payload = packet flags' channel' sequence' payload' ↔
      flags = flags' ∧ channel = channel' ∧ sequence = sequence' ∧ payload = payload'
  requests : ∀ sequence inst sequence' inst',
    connectionRequest sequence inst = connectionRequest sequence' inst' ↔
      sequence = sequence' ∧ inst = inst'
  instances : ∀ sequence id,
    u64.get ((connectionRequest sequence (some id)).drop (packetHeaderSize + 1)) = id
  heartbeats : ∀ sequence, foreignHeartbeat sequence = packet flagControl 0 sequence [0x05]
  foreign : ∀ sequence sequence' inst,
    foreignHeartbeat sequence ≠ connectionRequest sequence' inst

/-- The packets of the tests are laid out as a header and its payload, the size in the header is
true up to 65535 bytes, and different packets differ. -/
theorem packets_round_trip :
    (∀ flags channel sequence payload,
      PacketBytes flags channel sequence payload (packet flags channel sequence payload)) ∧
      ToldApart where
  left := packetBytes_packet
  right :=
    { packets := fun _ _ _ _ _ _ _ _ => packet_inj
      requests := fun _ _ _ _ => connectionRequest_inj
      instances := connectionRequest_drop
      heartbeats := foreignHeartbeat_eq
      foreign := foreignHeartbeat_ne_connectionRequest }

end EntanglementRs
