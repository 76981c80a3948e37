import LintGate.Text.Quoted

/-!
# UTF-8

Bytes to characters and back. The decoder takes one byte at a time and refuses at the first byte
that no character allows; what it reports as bad is the longest row of bytes that could still
have begun a character.
-/

namespace LintGate.Text.Utf8

/-- What is wrong with the bad bytes. -/
inductive Reason
  | startByte
  | continuationByte
  | endOfData
  deriving DecidableEq, Repr

structure Fault where
  byte : UInt8
  offset : Nat
  count : Nat
  reason : Reason
  deriving DecidableEq, Repr

/-- A character begun: its first byte and that byte's offset, the bytes taken so far, their bits,
and the ranges that the bytes still to come must lie in. -/
structure Begun where
  byte : UInt8
  offset : Nat
  taken : Nat
  bits : Nat
  next : UInt8 × UInt8
  later : List (UInt8 × UInt8)

/-- The range of a byte that continues a character, where nothing narrows it. -/
def tail : UInt8 × UInt8 := (0x80, 0xBF)

/-- What a first byte begins; `none` when it begins nothing. -/
def begin? (b : UInt8) (offset : Nat) : Option Begun :=
  let start (base : UInt8) (next : UInt8 × UInt8) (later : List (UInt8 × UInt8)) :=
    some ⟨b, offset, 1, (b - base).toNat, next, later⟩
  if 0xC2 ≤ b && b ≤ 0xDF then start 0xC0 tail []
  else if b == 0xE0 then start 0xE0 (0xA0, 0xBF) [tail]
  else if b == 0xED then start 0xE0 (0x80, 0x9F) [tail]
  else if 0xE1 ≤ b && b ≤ 0xEF then start 0xE0 tail [tail]
  else if b == 0xF0 then start 0xF0 (0x90, 0xBF) [tail, tail]
  else if 0xF1 ≤ b && b ≤ 0xF3 then start 0xF0 tail [tail, tail]
  else if b == 0xF4 then start 0xF0 (0x80, 0x8F) [tail, tail]
  else none

def Begun.fault (s : Begun) (reason : Reason) : Fault := ⟨s.byte, s.offset, s.taken, reason⟩

/-- Decodes the bytes from `offset` on, between characters or inside one. -/
def decodeFrom : Nat → Option Begun → List UInt8 → Except Fault (List Char)
  | _, none, [] => .ok []
  | _, some s, [] => .error (s.fault .endOfData)
  | offset, none, b :: rest =>
    if b < 0x80 then (decodeFrom (offset + 1) none rest).map (Char.ofNat b.toNat :: ·)
    else match begin? b offset with
      | some s => decodeFrom (offset + 1) (some s) rest
      | none => .error ⟨b, offset, 1, .startByte⟩
  | offset, some s, b :: rest =>
    if s.next.1 ≤ b && b ≤ s.next.2 then
      let bits := 64 * s.bits + (b - 0x80).toNat
      match s.later with
      | [] => (decodeFrom (offset + 1) none rest).map (Char.ofNat bits :: ·)
      | next :: later =>
        decodeFrom (offset + 1) (some ⟨s.byte, s.offset, s.taken + 1, bits, next, later⟩) rest
    else .error (s.fault .continuationByte)

def decode (bytes : List UInt8) : Except Fault (List Char) := decodeFrom 0 none bytes

def encode (s : List Char) : List UInt8 := s.flatMap String.utf8EncodeChar

def Reason.message : Reason → String
  | .startByte => "invalid start byte"
  | .continuationByte => "invalid continuation byte"
  | .endOfData => "unexpected end of data"

def Fault.message (f : Fault) : String :=
  let bad := if f.count = 1 then
      "byte 0x" ++ String.ofList (hexDigits 2 f.byte.toNat) ++ s!" in position {f.offset}"
    else s!"bytes in position {f.offset}-{f.offset + f.count - 1}"
  s!"'utf-8' codec can't decode {bad}: {f.reason.message}"

end LintGate.Text.Utf8
