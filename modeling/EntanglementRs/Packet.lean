import Mathlib.Tactic.Common

/-!
# Endpoints and packet headers

The value types that cross the C boundary, in their C layout (`Raw…`) and as
the Rust side hands them to callbacks, with the field-by-field conversions of
`server.rs`.
-/

namespace EntanglementRs

/-- `ent_endpoint` of the C header. -/
structure RawEndpoint where
  address : UInt32
  port : UInt16
  deriving DecidableEq, Repr

structure EntEndpoint where
  address : UInt32
  port : UInt16
  deriving DecidableEq, Repr

def EntEndpoint.ofRaw (ep : RawEndpoint) : EntEndpoint :=
  { address := ep.address, port := ep.port }

def EntEndpoint.toRaw (ep : EntEndpoint) : RawEndpoint :=
  { address := ep.address, port := ep.port }

/-- `ent_packet_header` of the C header. -/
structure RawPacketHeader where
  magic : UInt16
  version : UInt8
  flags : UInt8
  shardId : UInt16
  channelId : UInt8
  reserved : UInt8
  sequence : UInt64
  ack : UInt64
  ackBitmap : UInt32
  channelSequence : UInt32
  payloadSize : UInt16
  deriving DecidableEq, Repr

structure EntPacketHeader where
  magic : UInt16
  version : UInt8
  flags : UInt8
  shardId : UInt16
  channelId : UInt8
  reserved : UInt8
  sequence : UInt64
  ack : UInt64
  ackBitmap : UInt32
  channelSequence : UInt32
  payloadSize : UInt16
  deriving DecidableEq, Repr

def EntPacketHeader.ofRaw (h : RawPacketHeader) : EntPacketHeader where
  magic := h.magic
  version := h.version
  flags := h.flags
  shardId := h.shardId
  channelId := h.channelId
  reserved := h.reserved
  sequence := h.sequence
  ack := h.ack
  ackBitmap := h.ackBitmap
  channelSequence := h.channelSequence
  payloadSize := h.payloadSize

def EntPacketHeader.toRaw (h : EntPacketHeader) : RawPacketHeader where
  magic := h.magic
  version := h.version
  flags := h.flags
  shardId := h.shardId
  channelId := h.channelId
  reserved := h.reserved
  sequence := h.sequence
  ack := h.ack
  ackBitmap := h.ackBitmap
  channelSequence := h.channelSequence
  payloadSize := h.payloadSize

@[simp] theorem EntEndpoint.ofRaw_toRaw (ep : EntEndpoint) :
    EntEndpoint.ofRaw ep.toRaw = ep := rfl

@[simp] theorem EntEndpoint.toRaw_ofRaw (ep : RawEndpoint) :
    (EntEndpoint.ofRaw ep).toRaw = ep := rfl

/-- A header survives the way to C and back, which is what `send_raw` relies
on when it overwrites the caller's header with the one C returned. -/
@[simp] theorem EntPacketHeader.ofRaw_toRaw (h : EntPacketHeader) :
    EntPacketHeader.ofRaw h.toRaw = h := rfl

@[simp] theorem EntPacketHeader.toRaw_ofRaw (h : RawPacketHeader) :
    (EntPacketHeader.ofRaw h).toRaw = h := rfl

end EntanglementRs
