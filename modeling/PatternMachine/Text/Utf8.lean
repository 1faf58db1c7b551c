/-!
# Decoding UTF-8

Bytes are decoded one at a time. A byte either stands for itself, begins a sequence, or continues
the sequence begun before; the first byte fixes how many continuation bytes follow and narrows
the range of the first of them, so that no character has two encodings and no surrogate has one.
Decoding stops at the first byte that fits none of this; bytes that end inside a sequence are told
apart from that. The first two of the three bytes that would encode a surrogate count as a
sequence that is cut off when the bytes end there.
-/

namespace PatternMachine.Text

/-- A sequence that is not complete yet. -/
structure Utf8.Sequence where
  /-- The bytes so far, the last one first. -/
  bytes : List UInt8
  /-- The bits they carry. -/
  value : Nat
  /-- How many bytes are missing. -/
  missing : Nat
  /-- The least and the greatest byte that may come next. -/
  low : Nat := 0x80
  high : Nat := 0xbf

inductive Utf8.Reason where
  | invalidStart
  | invalidContinuation
  | unexpectedEnd
  deriving DecidableEq

structure Utf8.Problem where
  bytes : List UInt8
  position : Nat
  reason : Utf8.Reason
  deriving DecidableEq

inductive Utf8.Ending where
  /-- After a whole character. -/
  | complete
  /-- At bytes that are no character. -/
  | invalid (problem : Utf8.Problem)
  /-- Inside a sequence, whose bytes are left over; positions in the problem count from them. -/
  | cut (leftover : List UInt8) (problem : Utf8.Problem)
  deriving DecidableEq

structure Utf8.Decoded where
  text : List Char
  ending : Utf8.Ending

namespace Utf8

/-- The sequence that a byte outside ASCII begins, if it begins one. -/
def begin? (byte : UInt8) : Option Sequence :=
  let code := byte.toNat
  if code < 0xc2 then none
  else if code < 0xe0 then some { bytes := [byte], value := code - 0xc0, missing := 1 }
  else if code = 0xe0 then some { bytes := [byte], value := 0, missing := 2, low := 0xa0 }
  else if code = 0xed then some { bytes := [byte], value := 0xd, missing := 2, high := 0x9f }
  else if code < 0xf0 then some { bytes := [byte], value := code - 0xe0, missing := 2 }
  else if code = 0xf0 then some { bytes := [byte], value := 0, missing := 3, low := 0x90 }
  else if code = 0xf4 then some { bytes := [byte], value := 4, missing := 3, high := 0x8f }
  else if code < 0xf4 then some { bytes := [byte], value := code - 0xf0, missing := 3 }
  else none

def Sequence.extend (sequence : Sequence) (byte : UInt8) : Sequence :=
  { bytes := byte :: sequence.bytes
    value := 0x40 * sequence.value + (byte.toNat - 0x80)
    missing := sequence.missing - 1 }

/-- How decoding ends when the bytes end inside a sequence. -/
def Sequence.cut (sequence : Sequence) : Ending :=
  .cut sequence.bytes.reverse ⟨sequence.bytes.reverse, 0, .unexpectedEnd⟩

/-- How decoding ends at a byte before `rest` that does not continue a sequence. -/
def Sequence.refuse (sequence : Sequence) (position : Nat) (byte : UInt8) (rest : List UInt8) :
    Ending :=
  let bytes := sequence.bytes.reverse
  if bytes = [0xed] ∧ 0xa0 ≤ byte.toNat ∧ byte.toNat ≤ 0xbf ∧ rest = [] then
    .cut (bytes ++ [byte]) ⟨bytes, 0, .invalidContinuation⟩
  else .invalid ⟨bytes, position - bytes.length, .invalidContinuation⟩

/--
Decodes bytes from a position on, behind the characters decoded before, last one first. A
sequence may be pending.
-/
def decodeFrom (position : Nat) (before : List Char) (pending : Option Sequence) :
    List UInt8 → Decoded
  | [] =>
      match pending with
      | none => ⟨before.reverse, .complete⟩
      | some sequence => ⟨before.reverse, sequence.cut⟩
  | byte :: rest =>
      match pending with
      | none =>
          if byte.toNat < 0x80 then
            decodeFrom (position + 1) (Char.ofNat byte.toNat :: before) none rest
          else
            match begin? byte with
            | none => ⟨before.reverse, .invalid ⟨[byte], position, .invalidStart⟩⟩
            | some sequence => decodeFrom (position + 1) before (some sequence) rest
      | some sequence =>
          if byte.toNat < sequence.low ∨ sequence.high < byte.toNat then
            ⟨before.reverse, sequence.refuse position byte rest⟩
          else
            let longer := sequence.extend byte
            if longer.missing = 0 then
              decodeFrom (position + 1) (Char.ofNat longer.value :: before) none rest
            else decodeFrom (position + 1) before (some longer) rest

def decode (bytes : List UInt8) : Decoded :=
  decodeFrom 0 [] none bytes

end Utf8

end PatternMachine.Text
