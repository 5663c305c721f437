import Mathlib.Tactic.Common

/-!
# Lossy decoding of UTF-8

Bytes become text by replacing every maximal ill-formed piece by U+FFFD.  The
well-formed ranges of second bytes are those that exclude overlong forms,
surrogates and values past U+10FFFF.
-/

namespace LossyText

def replacement : Char := Char.ofNat 0xFFFD

def isContinuation (b : UInt8) : Bool := 0x80 ≤ b && b ≤ 0xBF

def charWidth (b : UInt8) : ℕ :=
  if b < 0x80 then 1
  else if 0xC2 ≤ b && b ≤ 0xDF then 2
  else if 0xE0 ≤ b && b ≤ 0xEF then 3
  else if 0xF0 ≤ b && b ≤ 0xF4 then 4
  else 0

/-- Whether `second` may follow the lead byte `lead` of a longer sequence. -/
def secondFits (lead second : UInt8) : Bool :=
  if lead = 0xE0 then 0xA0 ≤ second && second ≤ 0xBF
  else if lead = 0xED then 0x80 ≤ second && second ≤ 0x9F
  else if lead = 0xF0 then 0x90 ≤ second && second ≤ 0xBF
  else if lead = 0xF4 then 0x80 ≤ second && second ≤ 0x8F
  else isContinuation second

def payloadBits (b : UInt8) : ℕ := b.toNat - 0x80

/-- Decode what starts at `lead`: the character, and how many of the bytes
after `lead` belong to it or to the same ill-formed piece. -/
def decodeOne (lead : UInt8) (rest : List UInt8) : Char × ℕ :=
  match charWidth lead, rest with
  | 1, _ => (Char.ofNat lead.toNat, 0)
  | 2, b :: _ =>
      if isContinuation b then
        (Char.ofNat ((lead.toNat - 0xC0) * 64 + payloadBits b), 1)
      else (replacement, 0)
  | 3, b :: tail =>
      if secondFits lead b then
        match tail with
        | c :: _ =>
            if isContinuation c then
              (Char.ofNat ((lead.toNat - 0xE0) * 4096 + payloadBits b * 64 +
                payloadBits c), 2)
            else (replacement, 1)
        | [] => (replacement, 1)
      else (replacement, 0)
  | 4, b :: tail =>
      if secondFits lead b then
        match tail with
        | c :: d :: _ =>
            if isContinuation c then
              if isContinuation d then
                (Char.ofNat ((lead.toNat - 0xF0) * 262144 + payloadBits b * 4096 +
                  payloadBits c * 64 + payloadBits d), 3)
              else (replacement, 2)
            else (replacement, 1)
        | [c] => if isContinuation c then (replacement, 2) else (replacement, 1)
        | [] => (replacement, 1)
      else (replacement, 0)
  | _, _ => (replacement, 0)

def decodeFrom : ℕ → List UInt8 → List Char
  | 0, _ => []
  | _, [] => []
  | fuel + 1, lead :: rest =>
      let (c, used) := decodeOne lead rest
      c :: decodeFrom fuel (rest.drop used)

def decode (bytes : List UInt8) : String :=
  String.ofList (decodeFrom bytes.length bytes)

theorem decodeOne_ascii {b : UInt8} (hascii : b < 0x80) (rest : List UInt8) :
    decodeOne b rest = (Char.ofNat b.toNat, 0) := by
  have hwidth : charWidth b = 1 := by simp [charWidth, hascii]
  unfold decodeOne
  rw [hwidth]
  cases rest <;> rfl

example : decodeFrom 4 [0x31, 0xE2, 0x82, 0xAC] = ['1', '€'] := by decide

example : decodeFrom 3 [0xE2, 0x82, 0x31] = [replacement, '1'] := by decide

end LossyText
