import EntanglementRs.Trampolines
import Mathlib.Algebra.Group.Nat.Defs

/-!
# Direct sends through a paused worker

`worker_send_to` hands C one payload by pointer and `usize` length;
`worker_send_to_multi` hands over up to 64 payloads through two fixed arrays,
whose lengths are `u16`.
-/

namespace EntanglementRs

/-- A `&[u8]`: where its bytes start and how many there are. -/
structure Slice where
  start : Ptr
  len : ℕ
  deriving DecidableEq, Repr

def Slice.bytes (mem : CMemory) (p : Slice) : List UInt8 := mem.slice p.start p.len

def maxGsoPayloads : ℕ := 64

inductive WorkerCall where
  | sendTo (workerIdx : ℕ) (data : Ptr) (size : ℕ) (channelId : UInt8)
      (dest : RawEndpoint) (flags : UInt8)
  | sendToMulti (workerIdx : ℕ) (ptrs : Vector Ptr maxGsoPayloads)
      (sizes : Vector UInt16 maxGsoPayloads) (count : UInt32) (channelId : UInt8)
      (dest : RawEndpoint) (flags : UInt8)
  deriving DecidableEq

/-- The regions of the caller's memory that C reads. -/
def WorkerCall.regions : WorkerCall → List Slice
  | .sendTo _ data size _ _ _ => [⟨data, size⟩]
  | .sendToMulti _ ptrs sizes count _ _ _ =>
      ((ptrs.toList.take count.toNat).zip (sizes.toList.take count.toNat)).map
        fun r => ⟨r.1, r.2.toNat⟩

def WorkerCall.reads (mem : CMemory) (c : WorkerCall) : List UInt8 :=
  c.regions.flatMap fun r => r.bytes mem

/-- The two arrays on the stack of `worker_send_to_multi`. -/
structure GsoArrays where
  ptrs : Vector Ptr maxGsoPayloads
  sizes : Vector UInt16 maxGsoPayloads

namespace EntServer

def gsoArrays : GsoArrays :=
  ⟨Vector.replicate maxGsoPayloads 0, Vector.replicate maxGsoPayloads 0⟩

/-- The loop over `payloads.iter().enumerate()`, from index `i` on. -/
def fillGsoArrays (i : ℕ) (a : GsoArrays) : List Slice → GsoArrays
  | [] => a
  | p :: payloads =>
      fillGsoArrays (i + 1)
        { ptrs := a.ptrs.setIfInBounds i p.start
          -- `as u16` keeps the low sixteen bits
          sizes := a.sizes.setIfInBounds i (UInt16.ofNat p.len) }
        payloads

variable (codes : ErrorCodes)

def workerSendTo (workerIdx : ℕ) (data : Slice) (channelId : UInt8)
    (dest : EntEndpoint) (flags : UInt8) : FFI WorkerCall (EntResult UInt32) :=
  .call (.sendTo workerIdx data.start data.len channelId dest.toRaw flags) fun r =>
    some ((checkErr codes r.code).map fun n => n.toUInt32)

/-- The arguments of `ent_server_worker_send_to_multi`. -/
def multiCall (workerIdx : ℕ) (payloads : List Slice) (channelId : UInt8)
    (dest : EntEndpoint) (flags : UInt8) : WorkerCall :=
  .sendToMulti workerIdx (fillGsoArrays 0 gsoArrays payloads).ptrs
    (fillGsoArrays 0 gsoArrays payloads).sizes (UInt32.ofNat payloads.length)
    channelId dest.toRaw flags

def workerSendToMulti (workerIdx : ℕ) (payloads : List Slice) (channelId : UInt8)
    (dest : EntEndpoint) (flags : UInt8) : FFI WorkerCall (EntResult UInt32) :=
  if payloads.isEmpty then .done (.ok 0)
  -- `assert!(payloads.len() <= MAX_GSO_PAYLOADS)`
  else if maxGsoPayloads < payloads.length then .panics
  else
    .call (multiCall workerIdx payloads channelId dest flags) fun r =>
      some ((checkErr codes r.code).map fun n => n.toUInt32)

end EntServer

/-! ## Consecutive stores -/

section Stores

variable {α : Type} {n : ℕ}

def storeFrom (i : ℕ) (a : Vector α n) : List α → Vector α n
  | [] => a
  | v :: values => storeFrom (i + 1) (a.setIfInBounds i v) values

/-- Stores that stay in bounds leave the values one after another, behind
what was there before. -/
theorem storeFrom_take (values : List α) (i : ℕ) (a : Vector α n)
    (hroom : i + values.length ≤ n) :
    (storeFrom i a values).toList.take (i + values.length) =
      a.toList.take i ++ values := by
  induction values generalizing i a with
  | nil => simp [storeFrom]
  | cons v values ih =>
      simp only [List.length_cons] at hroom
      have hrest := ih (i + 1) (a.setIfInBounds i v) (by omega)
      have hput :
          (a.setIfInBounds i v).toList.take (i + 1) = a.toList.take i ++ [v] := by
        have hi : i < a.toList.length := by
          simp only [Vector.length_toList]
          omega
        rw [Vector.toList_setIfInBounds, List.take_add_one,
          List.take_set_of_le (Nat.le_refl i), List.getElem?_set_self hi]
        rfl
      rw [hput, List.append_assoc] at hrest
      rw [List.length_cons, Nat.add_comm values.length 1, ← Nat.add_assoc]
      exact hrest

end Stores

namespace EntServer

theorem fillGsoArrays_ptrs (payloads : List Slice) (i : ℕ) (a : GsoArrays) :
    (fillGsoArrays i a payloads).ptrs =
      storeFrom i a.ptrs (payloads.map Slice.start) := by
  induction payloads generalizing i a with
  | nil => rfl
  | cons p payloads ih => exact ih (i + 1) _

theorem fillGsoArrays_sizes (payloads : List Slice) (i : ℕ) (a : GsoArrays) :
    (fillGsoArrays i a payloads).sizes =
      storeFrom i a.sizes (payloads.map fun p => UInt16.ofNat p.len) := by
  induction payloads generalizing i a with
  | nil => rfl
  | cons p payloads ih => exact ih (i + 1) _

theorem fillGsoArrays_take (payloads : List Slice)
    (hlen : payloads.length ≤ maxGsoPayloads) :
    (fillGsoArrays 0 gsoArrays payloads).ptrs.toList.take payloads.length =
        payloads.map Slice.start ∧
      (fillGsoArrays 0 gsoArrays payloads).sizes.toList.take payloads.length =
        payloads.map fun p => UInt16.ofNat p.len := by
  have hptrs := storeFrom_take (payloads.map Slice.start) 0 gsoArrays.ptrs
    (by simpa using hlen)
  have hsizes := storeFrom_take (payloads.map fun p => UInt16.ofNat p.len) 0
    gsoArrays.sizes (by simpa using hlen)
  constructor
  · rw [fillGsoArrays_ptrs]
    simpa using hptrs
  · rw [fillGsoArrays_sizes]
    simpa using hsizes

/-! ## What C is told -/

variable {codes : ErrorCodes} {workerIdx : ℕ} {channelId flags : UInt8}
  {dest : EntEndpoint} {payloads : List Slice}

theorem payloadCount_toNat (hlen : payloads.length ≤ maxGsoPayloads) :
    (UInt32.ofNat payloads.length).toNat = payloads.length := by
  have hbound : payloads.length ≤ 64 := hlen
  rw [UInt32.toNat_ofNat']
  exact Nat.mod_eq_of_lt (by omega)

/-- C sees every payload with its length modulo 2^16. -/
theorem multiCall_regions (hlen : payloads.length ≤ maxGsoPayloads) :
    (multiCall workerIdx payloads channelId dest flags).regions =
      payloads.map fun p => ⟨p.start, p.len % 2 ^ 16⟩ := by
  obtain ⟨hptrs, hsizes⟩ := fillGsoArrays_take payloads hlen
  simp only [multiCall, WorkerCall.regions, payloadCount_toNat hlen]
  rw [hptrs, hsizes, List.zip_map', List.map_map]
  apply List.map_congr_left
  intro p _
  simp [UInt16.toNat_ofNat']

theorem workerSendToMulti_calls (hne : payloads ≠ [])
    (hlen : payloads.length ≤ maxGsoPayloads) :
    (workerSendToMulti codes workerIdx payloads channelId dest flags).calls =
      [multiCall workerIdx payloads channelId dest flags] := by
  unfold workerSendToMulti
  rw [if_neg (by simpa using hne), if_neg (by omega)]
  rfl

/-! ## Agreement with the plain path -/

/-- The i-th pointer and the i-th size are those of the i-th payload. -/
def Describes (payloads : List Slice) : WorkerCall → Prop
  | .sendTo _ _ _ _ _ _ => False
  | .sendToMulti _ ptrs sizes count _ _ _ =>
      count.toNat = payloads.length ∧
        ∀ (i : ℕ) (p : Slice), payloads[i]? = some p →
          ptrs.toList[i]? = some p.start ∧
            ∃ size : UInt16, sizes.toList[i]? = some size ∧ size.toNat = p.len

/-- The bytes that one `worker_send_to` a payload hands to C. -/
def successiveReads (codes : ErrorCodes) (workerIdx : ℕ) (payloads : List Slice)
    (channelId : UInt8) (dest : EntEndpoint) (flags : UInt8) (mem : CMemory) :
    List UInt8 :=
  payloads.flatMap fun p =>
    (workerSendTo codes workerIdx p channelId dest flags).calls.flatMap
      (WorkerCall.reads mem)

/-- What the caller of `worker_send_to_multi` may rely on: an error and no
call, or one call that hands C what the plain path would. -/
def DescribesPayloads (codes : ErrorCodes) (workerIdx : ℕ) (payloads : List Slice)
    (channelId : UInt8) (dest : EntEndpoint) (flags : UInt8)
    (send : FFI WorkerCall (EntResult UInt32)) : Prop :=
  (send.calls = [] ∧ ∀ r, ∃ e, send.result r = some (.error e)) ∨
    ∃ c, send.calls = [c] ∧ Describes payloads c ∧
      ∀ mem, c.reads mem = payloads.flatMap (Slice.bytes mem) ∧
        c.reads mem =
          successiveReads codes workerIdx payloads channelId dest flags mem

theorem successiveReads_eq (mem : CMemory) :
    successiveReads codes workerIdx payloads channelId dest flags mem =
      payloads.flatMap (Slice.bytes mem) := by
  unfold successiveReads
  congr 1
  funext p
  simp [workerSendTo, FFI.calls, WorkerCall.reads, WorkerCall.regions, Slice.bytes]

/-- From 2^16 bytes on, C reads only a prefix of a payload. -/
theorem multiCall_reads (hlen : payloads.length ≤ maxGsoPayloads) (mem : CMemory) :
    (multiCall workerIdx payloads channelId dest flags).reads mem =
      payloads.flatMap fun p => mem.slice p.start (p.len % 2 ^ 16) := by
  rw [WorkerCall.reads, multiCall_regions hlen, List.flatMap_map]
  rfl

theorem multiCall_size (hlen : payloads.length ≤ maxGsoPayloads) {i : ℕ} {p : Slice}
    (hp : payloads[i]? = some p) :
    (fillGsoArrays 0 gsoArrays payloads).ptrs.toList[i]? = some p.start ∧
      (fillGsoArrays 0 gsoArrays payloads).sizes.toList[i]? =
        some (UInt16.ofNat p.len) := by
  obtain ⟨hptrs, hsizes⟩ := fillGsoArrays_take payloads hlen
  have hi : i < payloads.length := (List.getElem?_eq_some_iff.mp hp).1
  constructor
  · rw [← List.getElem?_take_of_lt hi, hptrs, List.getElem?_map, hp]
    rfl
  · rw [← List.getElem?_take_of_lt hi, hsizes, List.getElem?_map, hp]
    rfl

theorem describes_iff (hlen : payloads.length ≤ maxGsoPayloads) :
    Describes payloads (multiCall workerIdx payloads channelId dest flags) ↔
      ∀ p ∈ payloads, p.len < 2 ^ 16 := by
  constructor
  · intro hdesc p hp
    obtain ⟨i, hi⟩ := List.mem_iff_getElem?.mp hp
    obtain ⟨_, size, hsize, hsizeLen⟩ := hdesc.2 i p hi
    rw [← hsizeLen]
    exact size.toNat_lt
  · intro hshort
    refine ⟨payloadCount_toNat hlen, ?_⟩
    intro i p hp
    obtain ⟨hptr, hsize⟩ := multiCall_size hlen hp
    refine ⟨hptr, UInt16.ofNat p.len, hsize, ?_⟩
    rw [UInt16.toNat_ofNat']
    exact Nat.mod_eq_of_lt (hshort p (List.mem_of_getElem? hp))

theorem describes_of_describesPayloads (hne : payloads ≠ [])
    (hlen : payloads.length ≤ maxGsoPayloads)
    (hsend : DescribesPayloads codes workerIdx payloads channelId dest flags
      (workerSendToMulti codes workerIdx payloads channelId dest flags)) :
    Describes payloads (multiCall workerIdx payloads channelId dest flags) := by
  have hcalls :
      (workerSendToMulti codes workerIdx payloads channelId dest flags).calls =
        [multiCall workerIdx payloads channelId dest flags] :=
    workerSendToMulti_calls hne hlen
  cases hsend with
  | inl hrefused =>
      rw [hrefused.1] at hcalls
      simp at hcalls
  | inr hcalled =>
      obtain ⟨c, hc, hdesc, _⟩ := hcalled
      rw [hc] at hcalls
      simp only [List.cons.injEq, and_true] at hcalls
      rw [← hcalls]
      exact hdesc

/-- The fast path agrees with the plain one exactly on payloads whose length
fits in sixteen bits. -/
theorem workerSendToMulti_describes_iff (hne : payloads ≠ [])
    (hlen : payloads.length ≤ maxGsoPayloads) :
    DescribesPayloads codes workerIdx payloads channelId dest flags
        (workerSendToMulti codes workerIdx payloads channelId dest flags) ↔
      ∀ p ∈ payloads, p.len < 2 ^ 16 := by
  constructor
  · intro hsend
    exact (describes_iff hlen).mp (describes_of_describesPayloads hne hlen hsend)
  · intro hshort
    apply Or.inr
    refine ⟨_, workerSendToMulti_calls hne hlen, (describes_iff hlen).mpr hshort, ?_⟩
    intro mem
    have hreads :
        (multiCall workerIdx payloads channelId dest flags).reads mem =
          payloads.flatMap (Slice.bytes mem) := by
      rw [multiCall_reads hlen]
      apply List.flatMap_congr
      intro p hp
      rw [Nat.mod_eq_of_lt (hshort p hp)]
      rfl
    rw [successiveReads_eq]
    exact ⟨hreads, hreads⟩

theorem workerSendToMulti_describes_two :
    DescribesPayloads ErrorCodes.numbered 0 [⟨4096, 1200⟩, ⟨8192, 65535⟩] 1 ⟨0, 9876⟩ 0
      (workerSendToMulti ErrorCodes.numbered 0 [⟨4096, 1200⟩, ⟨8192, 65535⟩] 1
        ⟨0, 9876⟩ 0) :=
  (workerSendToMulti_describes_iff (by decide) (by decide)).mpr (by decide)

/-- One payload of 2^16 bytes: C is told of none of them, and what it accepts
comes back as `Ok`. -/
theorem workerSendToMulti_truncates :
    (∃ c,
      (workerSendToMulti ErrorCodes.numbered 0 [⟨4096, 65536⟩] 1 ⟨0, 9876⟩ 0).calls =
          [c] ∧
        c.regions = [⟨4096, 0⟩]) ∧
      (workerSendToMulti ErrorCodes.numbered 0 [⟨4096, 65536⟩] 1 ⟨0, 9876⟩ 0).result
          { code := 1 } = some (.ok 1) ∧
      ¬ DescribesPayloads ErrorCodes.numbered 0 [⟨4096, 65536⟩] 1 ⟨0, 9876⟩ 0
        (workerSendToMulti ErrorCodes.numbered 0 [⟨4096, 65536⟩] 1 ⟨0, 9876⟩ 0) := by
  have hne : [(⟨4096, 65536⟩ : Slice)] ≠ [] := by simp
  have hlen : [(⟨4096, 65536⟩ : Slice)].length ≤ maxGsoPayloads := by decide
  refine ⟨⟨_, workerSendToMulti_calls hne hlen, multiCall_regions hlen⟩, rfl, ?_⟩
  intro hsend
  have hshort :=
    (describes_iff hlen).mp (describes_of_describesPayloads hne hlen hsend)
  simpa using hshort ⟨4096, 65536⟩ (by simp)

end EntServer

end EntanglementRs
