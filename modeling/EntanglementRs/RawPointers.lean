import EntanglementRs.Wrappers

/-!
# Pointers passed without a length

Three wrappers hand C a pointer but not the length of the slice behind it:
`send_raw_to`, `send_raw` and `dispatch_to_workers`.  C takes the length from
elsewhere, from the header's `payload_size` or from its own number of workers.
This file states what a safe wrapper owes its caller and when these three
provide it.
-/

namespace EntanglementRs

structure RawAccess where
  length : ℕ
  indices : List ℕ

def RawAccess.InBounds (access : RawAccess) : Prop :=
  ∀ i ∈ access.indices, i < access.length

instance (access : RawAccess) : Decidable access.InBounds :=
  inferInstanceAs (Decidable (∀ i ∈ access.indices, i < access.length))

/-- What C reads through the bare pointer of a call: `payload_size` bytes of a
raw payload, and one context for every worker. -/
def ServerCall.rawAccess (workerCount : Int32) : ServerCall → Option RawAccess
  | .sendRawTo header payload _ =>
      some ⟨payload.length, List.range header.payloadSize.toNat⟩
  | .dispatchToWorkers _ contexts =>
      some ⟨contexts.length, List.range workerCount.toInt.toNat⟩
  | _ => none

def ClientCall.rawAccess : ClientCall → Option RawAccess
  | .sendRaw header payload =>
      some ⟨payload.length, List.range header.payloadSize.toNat⟩
  | _ => none

/-- A raw send that cannot make C read past the payload: it calls C only when
the header's size fits the slice, C then stays inside it, and otherwise the
caller gets an error and its header back. -/
structure SafeRawSend {Call : Type} (access : Call → Option RawAccess)
    (f : FFI Call (EntResult Unit × EntPacketHeader))
    (header : EntPacketHeader) (payload : List UInt8) : Prop where
  guarded : f.calls ≠ [] → header.payloadSize.toNat ≤ payload.length
  inBounds : ∀ c ∈ f.calls, ∀ a ∈ access c, a.InBounds
  refuses : payload.length < header.payloadSize.toNat → f.calls = [] ∧
    ∀ r, ∃ error, f.result r = some (.error error, header)

structure SafeDispatch (f : FFI ServerCall Unit) (workerCount : Int32)
    (contexts : List Ptr) : Prop where
  guarded : f.calls ≠ [] → workerCount.toInt ≤ contexts.length
  inBounds : ∀ c ∈ f.calls, ∀ a ∈ c.rawAccess workerCount, a.InBounds

theorem RawAccess.inBounds_range_iff (length n : ℕ) :
    RawAccess.InBounds ⟨length, List.range n⟩ ↔ n ≤ length := by
  unfold RawAccess.InBounds
  simp only [List.mem_range]
  constructor
  · intro hall
    by_contra hlt
    exact absurd (hall length (by omega)) (Nat.lt_irrefl length)
  · intro hle i hi
    omega

variable {codes : ErrorCodes}

theorem safeRawSend_of_call_iff {Call : Type} {access : Call → Option RawAccess}
    {f : FFI Call (EntResult Unit × EntPacketHeader)}
    {header : EntPacketHeader} {payload : List UInt8} {c : Call}
    (hcalls : f.calls = [c])
    (haccess : access c =
      some ⟨payload.length, List.range header.payloadSize.toNat⟩) :
    SafeRawSend access f header payload ↔
      header.payloadSize.toNat ≤ payload.length := by
  constructor
  · intro hsafe
    exact hsafe.guarded (by simp [hcalls])
  · intro hfits
    refine ⟨fun _ => hfits, ?_, fun hlt => absurd hfits (Nat.not_le.mpr hlt)⟩
    intro c' hc' a ha
    obtain rfl : c' = c := by simpa [hcalls] using hc'
    rw [haccess, Option.mem_some_iff] at ha
    subst a
    exact (RawAccess.inBounds_range_iff _ _).mpr hfits

theorem EntServer.sendRawTo_safe_iff (header : EntPacketHeader)
    (payload : List UInt8) (dest : EntEndpoint) (workerCount : Int32) :
    SafeRawSend (ServerCall.rawAccess workerCount)
        (EntServer.sendRawTo codes header payload dest) header payload ↔
      header.payloadSize.toNat ≤ payload.length :=
  safeRawSend_of_call_iff rfl rfl

theorem EntClient.sendRaw_safe_iff (header : EntPacketHeader)
    (payload : List UInt8) :
    SafeRawSend ClientCall.rawAccess
        (EntClient.sendRaw codes header payload) header payload ↔
      header.payloadSize.toNat ≤ payload.length :=
  safeRawSend_of_call_iff rfl rfl

theorem EntServer.dispatchToWorkers_safe_iff (task : Ptr)
    (contexts : List Ptr) (workerCount : Int32) :
    SafeDispatch (EntServer.dispatchToWorkers task contexts) workerCount contexts ↔
      workerCount.toInt ≤ contexts.length := by
  constructor
  · intro hsafe
    exact hsafe.guarded (by simp [EntServer.dispatchToWorkers])
  · intro hfits
    refine ⟨fun _ => hfits, ?_⟩
    intro c hc a ha
    obtain rfl : c = .dispatchToWorkers task contexts := by
      simpa [EntServer.dispatchToWorkers] using hc
    rw [ServerCall.rawAccess, Option.mem_some_iff] at ha
    subst a
    exact (RawAccess.inBounds_range_iff _ _).mpr (by omega)

/-- The three wrappers keep C inside the caller's slice exactly for the inputs
that already fit: none of them compares the two lengths. -/
theorem rawPointers_safe_iff (codes : ErrorCodes) :
    (∀ (header : EntPacketHeader) (payload : List UInt8) (dest : EntEndpoint)
        (workerCount : Int32),
      SafeRawSend (ServerCall.rawAccess workerCount)
          (EntServer.sendRawTo codes header payload dest) header payload ↔
        header.payloadSize.toNat ≤ payload.length) ∧
    (∀ (header : EntPacketHeader) (payload : List UInt8),
      SafeRawSend ClientCall.rawAccess
          (EntClient.sendRaw codes header payload) header payload ↔
        header.payloadSize.toNat ≤ payload.length) ∧
    ∀ (task : Ptr) (contexts : List Ptr) (workerCount : Int32),
      SafeDispatch (EntServer.dispatchToWorkers task contexts) workerCount contexts ↔
        workerCount.toInt ≤ contexts.length :=
  ⟨EntServer.sendRawTo_safe_iff, EntClient.sendRaw_safe_iff,
    EntServer.dispatchToWorkers_safe_iff⟩

def oversizedHeader : EntPacketHeader where
  magic := 0xE7A9
  version := 1
  flags := 0
  shardId := 0
  channelId := 1
  reserved := 0
  sequence := 0
  ack := 0
  ackBitmap := 0
  channelSequence := 0
  payloadSize := 8

/-- Eight bytes claimed over one, and two workers over one context: all three
wrappers call C, and C reads outside the slice. -/
theorem rawPointers_unsafe_mismatch :
    let codes : ErrorCodes := .numbered
    let dest : EntEndpoint := ⟨0x7F000001, 9876⟩
    ¬ SafeRawSend (ServerCall.rawAccess 2)
        (EntServer.sendRawTo codes oversizedHeader [0] dest) oversizedHeader [0] ∧
    ¬ SafeRawSend ClientCall.rawAccess
        (EntClient.sendRaw codes oversizedHeader [0]) oversizedHeader [0] ∧
    ¬ SafeDispatch (EntServer.dispatchToWorkers 0 [0]) 2 [0] := by
  refine ⟨fun hsafe => ?_, fun hsafe => ?_, fun hsafe => ?_⟩
  · exact absurd (hsafe.guarded (by simp [EntServer.sendRawTo, FFI.calls])) (by decide)
  · exact absurd (hsafe.guarded (by simp [EntClient.sendRaw, FFI.calls])) (by decide)
  · exact absurd (hsafe.guarded (by simp [EntServer.dispatchToWorkers])) (by decide)

end EntanglementRs
