import Mathlib.Algebra.Group.Nat.Defs
import Mathlib.Data.List.Basic
import Mathlib.Tactic.Common

/-!
# Messages of the soak test

The six streams of `soak_test.rs` and the buffers it sends on them: a packed
`SoakMsg`, followed on the fragmented streams by a filler.
-/

namespace EntanglementRs.Soak

def chUnreliable : UInt8 := 1
def chReliable : UInt8 := 2
def chOrdered : UInt8 := 3

abbrev numStreams : ℕ := 6

abbrev StreamIdx := Fin numStreams

def sUnr : StreamIdx := 0
def sRel : StreamIdx := 1
def sOrd : StreamIdx := 2
def fUnr : StreamIdx := 3
def fRel : StreamIdx := 4
def fOrd : StreamIdx := 5

def simpleSize : ℕ := 9
def fragSize : ℕ := 2500

def streamChannels : Vector UInt8 numStreams :=
  #v[chUnreliable, chReliable, chOrdered, chUnreliable, chReliable, chOrdered]

def streamIsFrag : Vector Bool numStreams := #v[false, false, false, true, true, true]

/-! ## The packed header -/

structure SoakMsg where
  msgId : UInt32
  totalExpected : UInt32
  streamIdx : UInt8
  deriving DecidableEq, Repr

/-- The four bytes of a `u32` in memory, least significant first. -/
def u32Bytes (n : UInt32) : List UInt8 :=
  [UInt8.ofNat n.toNat, UInt8.ofNat (n.toNat / 2 ^ 8), UInt8.ofNat (n.toNat / 2 ^ 16),
    UInt8.ofNat (n.toNat / 2 ^ 24)]

def u32At (bytes : List UInt8) (i : ℕ) : UInt32 :=
  UInt32.ofNat ((bytes.getD i 0).toNat + (bytes.getD (i + 1) 0).toNat * 2 ^ 8 +
    (bytes.getD (i + 2) 0).toNat * 2 ^ 16 + (bytes.getD (i + 3) 0).toNat * 2 ^ 24)

/-- The bytes that `ptr::write_unaligned` stores. -/
def SoakMsg.bytes (msg : SoakMsg) : List UInt8 :=
  u32Bytes msg.msgId ++ u32Bytes msg.totalExpected ++ [msg.streamIdx]

/-- `ptr::read_unaligned`, behind the callbacks' check of the length. -/
def SoakMsg.read? (payload : List UInt8) : Option SoakMsg :=
  if simpleSize ≤ payload.length then
    some ⟨u32At payload 0, u32At payload 4, payload.getD 8 0⟩
  else none

/-- The loop `for i in SIMPLE_SIZE..sz`, with `n` rounds left. -/
def fill (buf : List UInt8) (i : ℕ) : ℕ → List UInt8
  | 0 => buf
  | n + 1 => fill (buf.set i (UInt8.ofNat (i &&& 0xFF))) (i + 1) n

/-- The buffer the send loop builds for the stream `idx`. -/
def message (idx : StreamIdx) (msgId : UInt32) : List UInt8 :=
  let msg : SoakMsg := ⟨msgId, 0, UInt8.ofNat idx⟩
  let sz := if streamIsFrag.get idx then fragSize else simpleSize
  let buf := List.replicate sz (0 : UInt8)
  fill (msg.bytes ++ buf.drop simpleSize) simpleSize (sz - simpleSize)

/-! ## What the callbacks read back -/

@[simp] theorem u32Bytes_length (n : UInt32) : (u32Bytes n).length = 4 := rfl

theorem u32At_bytes (n : UInt32) (rest : List UInt8) :
    u32At (u32Bytes n ++ rest) 0 = n := by
  have hbound : n.toNat < 2 ^ 32 := n.toNat_lt
  apply UInt32.toNat_inj.mp
  simp only [u32At, u32Bytes, List.cons_append, List.getD_cons_zero,
    List.getD_cons_succ, UInt8.toNat_ofNat', UInt32.toNat_ofNat', Nat.zero_add]
  omega

theorem fill_length (buf : List UInt8) (i n : ℕ) : (fill buf i n).length = buf.length := by
  induction n generalizing buf i with
  | zero => rfl
  | succ n ih =>
      rw [fill, ih]
      exact List.length_set

/-- The filler starts behind the header. -/
theorem fill_getElem? (buf : List UInt8) (i n j : ℕ) (hj : j < i) :
    (fill buf i n)[j]? = buf[j]? := by
  induction n generalizing buf i with
  | zero => rfl
  | succ n ih =>
      rw [fill, ih _ _ (by omega)]
      exact List.getElem?_set_ne (by omega)

theorem message_length (idx : StreamIdx) (msgId : UInt32) :
    (message idx msgId).length = if streamIsFrag.get idx then fragSize else simpleSize := by
  simp only [message, fill_length, List.length_append, List.length_drop,
    List.length_replicate, SoakMsg.bytes, u32Bytes_length, List.length_singleton]
  split <;> rfl

/-- The first bytes of every buffer are those of its `SoakMsg`. -/
theorem message_getD (idx : StreamIdx) (msgId : UInt32) (j : ℕ) (hj : j < simpleSize) :
    (message idx msgId).getD j 0 =
      (SoakMsg.bytes ⟨msgId, 0, UInt8.ofNat idx⟩).getD j 0 := by
  have hlength :
      j < (SoakMsg.bytes ⟨msgId, 0, UInt8.ofNat idx⟩).length := hj
  rw [List.getD_eq_getElem?_getD, List.getD_eq_getElem?_getD, message,
    fill_getElem? _ _ _ _ hj, List.getElem?_append_left hlength]

theorem u32At_message (idx : StreamIdx) (msgId : UInt32) :
    u32At (message idx msgId) 0 = msgId := by
  have hread : u32At (message idx msgId) 0 =
      u32At (SoakMsg.bytes ⟨msgId, 0, UInt8.ofNat idx⟩) 0 := by
    simp only [u32At, message_getD _ _ _ (by decide : 0 < simpleSize),
      message_getD _ _ _ (by decide : 0 + 1 < simpleSize),
      message_getD _ _ _ (by decide : 0 + 2 < simpleSize),
      message_getD _ _ _ (by decide : 0 + 3 < simpleSize)]
  rw [hread, SoakMsg.bytes, List.append_assoc]
  exact u32At_bytes msgId _

/-- What the send loop wrote is what a callback reads. -/
theorem read?_message (idx : StreamIdx) (msgId : UInt32) :
    ∃ msg, SoakMsg.read? (message idx msgId) = some msg ∧
      msg.msgId = msgId ∧ msg.streamIdx.toNat = idx := by
  have hlong : simpleSize ≤ (message idx msgId).length := by
    rw [message_length]
    split <;> decide
  refine ⟨_, if_pos hlong, u32At_message idx msgId, ?_⟩
  have hlast := message_getD idx msgId 8 (by decide)
  simp only [hlast]
  have hidx : (UInt8.ofNat idx).toNat = idx := by
    have hbound : idx.val < 6 := idx.isLt
    rw [UInt8.toNat_ofNat']
    omega
  exact hidx

end EntanglementRs.Soak
