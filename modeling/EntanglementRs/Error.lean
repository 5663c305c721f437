import Mathlib.Tactic.Common

/-!
# Error codes

`error.rs`: the translation of C return values.  The numerical values of the
error constants are generated from the C header, so they are a parameter.
-/

namespace EntanglementRs

inductive EntError where
  | socket
  | notConnected
  | connectionDenied
  | connectionTimeout
  | backpressured
  | payloadTooLarge
  | invalidArgument
  | channelInUse
  | channelNotFound
  | channelSlotsFull
  | channelRejected
  | channelTimeout
  | poolFull
  | duplicatePacket
  | alreadyStarted
  | unknown (code : Int32)
  deriving DecidableEq

structure ErrorCodes where
  socket : Int32
  notConnected : Int32
  connectionDenied : Int32
  connectionTimeout : Int32
  backpressured : Int32
  payloadTooLarge : Int32
  invalidArgument : Int32
  channelInUse : Int32
  channelNotFound : Int32
  channelSlotsFull : Int32
  channelRejected : Int32
  channelTimeout : Int32
  poolFull : Int32
  duplicatePacket : Int32
  alreadyStarted : Int32

def ErrorCodes.numbered : ErrorCodes :=
  ⟨-1, -2, -3, -4, -5, -6, -7, -8, -9, -10, -11, -12, -13, -14, -15⟩

/-- The arms of the `match` in `From<i32> for EntError`, in their order. -/
def ErrorCodes.arms (codes : ErrorCodes) : List (Int32 × EntError) :=
  [(codes.socket, .socket),
    (codes.notConnected, .notConnected),
    (codes.connectionDenied, .connectionDenied),
    (codes.connectionTimeout, .connectionTimeout),
    (codes.backpressured, .backpressured),
    (codes.payloadTooLarge, .payloadTooLarge),
    (codes.invalidArgument, .invalidArgument),
    (codes.channelInUse, .channelInUse),
    (codes.channelNotFound, .channelNotFound),
    (codes.channelSlotsFull, .channelSlotsFull),
    (codes.channelRejected, .channelRejected),
    (codes.channelTimeout, .channelTimeout),
    (codes.poolFull, .poolFull),
    (codes.duplicatePacket, .duplicatePacket),
    (codes.alreadyStarted, .alreadyStarted)]

/-- `From<i32> for EntError`: the first arm that matches wins. -/
def EntError.ofCode (codes : ErrorCodes) (code : Int32) : EntError :=
  match codes.arms.find? fun arm => code = arm.1 with
  | some arm => arm.2
  | none => .unknown code

abbrev EntResult (α : Type) := Except EntError α

def checkErr (codes : ErrorCodes) (code : Int32) : EntResult Int32 :=
  if 0 ≤ code then .ok code else .error (EntError.ofCode codes code)

variable {codes : ErrorCodes} {code : Int32}

theorem checkErr_of_nonneg (hcode : 0 ≤ code) :
    checkErr codes code = .ok code := by
  simp [checkErr, hcode]

theorem checkErr_of_neg (hcode : ¬ 0 ≤ code) :
    checkErr codes code = .error (EntError.ofCode codes code) := by
  simp [checkErr, hcode]

end EntanglementRs
