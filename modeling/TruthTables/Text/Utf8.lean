/-!
# UTF-8 — bytes to characters, with the exact place of a fault

    `Utf8.decode` reads a whole byte sequence or says where the first bad
    part is: which bytes it spans, and why it is bad.  The bad part is the
    lead byte together with the fitting continuation bytes read so far.
    Overlong forms and surrogates are faults of the second byte, because the
    lead byte narrows the range that the second byte may come from.
-/

namespace TruthTables.Utf8

/-- Why a byte sequence is no UTF-8 text. -/
inductive Reason where
  | badStart
  | badContinuation
  | endOfData
deriving DecidableEq, Repr

/-- The first bad part of a byte sequence. -/
structure Malformed where
  reason : Reason
  /-- The offset of the lead byte. -/
  start : Nat
  /-- The number of bytes in the bad part. -/
  length : Nat
  lead : UInt8
deriving DecidableEq, Repr

/-- A character of which the lead byte, and perhaps more, has been read. -/
structure Unfinished where
  lead : UInt8
  start : Nat
  /-- The bytes read so far. -/
  seen : Nat
  /-- The continuation bytes still to come, less one. -/
  missing : Nat
  /-- The bits collected so far. -/
  bits : Nat
  /-- The range that the next byte has to lie in. -/
  low : Nat
  high : Nat
deriving DecidableEq, Repr

/-- What the lead byte of a longer character announces. -/
def announce? (start : Nat) (b : UInt8) : Option Unfinished :=
  let n := b.toNat
  let expect (missing bits low high : Nat) : Option Unfinished :=
    some ⟨b, start, 1, missing, bits, low, high⟩
  if 0xC2 ≤ n ∧ n ≤ 0xDF then expect 0 (n - 0xC0) 0x80 0xBF
  else if n = 0xE0 then expect 1 0 0xA0 0xBF
  else if n = 0xED then expect 1 (n - 0xE0) 0x80 0x9F
  else if 0xE1 ≤ n ∧ n ≤ 0xEF then expect 1 (n - 0xE0) 0x80 0xBF
  else if n = 0xF0 then expect 2 0 0x90 0xBF
  else if 0xF1 ≤ n ∧ n ≤ 0xF3 then expect 2 (n - 0xF0) 0x80 0xBF
  else if n = 0xF4 then expect 2 4 0x80 0x8F
  else none

/-- The fault that an unfinished character turns out to be. -/
def Unfinished.fault (u : Unfinished) (reason : Reason) : Malformed :=
  ⟨reason, u.start, u.seen, u.lead⟩

/-- Reads bytes from the given offset, in the middle of the character `open?` if
    there is one. -/
def decodeFrom (offset : Nat) (open? : Option Unfinished) :
    List UInt8 → Except Malformed (List Char)
  | [] =>
      match open? with
      | none => .ok []
      | some u => .error (u.fault .endOfData)
  | b :: bs =>
      match open? with
      | none =>
          if b.toNat < 0x80 then do
            return Char.ofNat b.toNat :: (← decodeFrom (offset + 1) none bs)
          else
            match announce? offset b with
            | some u => decodeFrom (offset + 1) (some u) bs
            | none => .error ⟨.badStart, offset, 1, b⟩
      | some u =>
          if u.low ≤ b.toNat ∧ b.toNat ≤ u.high then
            let bits := 64 * u.bits + (b.toNat - 0x80)
            match u.missing with
            | 0 => do return Char.ofNat bits :: (← decodeFrom (offset + 1) none bs)
            | missing + 1 =>
                decodeFrom (offset + 1)
                  (some { u with seen := u.seen + 1, missing, bits, low := 0x80, high := 0xBF }) bs
          else .error (u.fault .badContinuation)

/-- The text that a byte sequence encodes. -/
def decode (bytes : List UInt8) : Except Malformed (List Char) := decodeFrom 0 none bytes

namespace Malformed

/-- The reason in words. -/
def reasonText (m : Malformed) : String :=
  match m.reason with
  | .badStart => "invalid start byte"
  | .badContinuation => "invalid continuation byte"
  | .endOfData => "unexpected end of data"

/-- The bad part in words: a single byte by its value, a longer part by its
    first and last offset. -/
def message (m : Malformed) : String :=
  let place :=
    if m.length = 1 then
      "byte 0x" ++ String.ofList (Nat.toDigits 16 m.lead.toNat) ++
        " in position " ++ toString m.start
    else
      "bytes in position " ++ toString m.start ++ "-" ++ toString (m.start + m.length - 1)
  "'utf-8' codec can't decode " ++ place ++ ": " ++ m.reasonText

end Malformed

end TruthTables.Utf8
