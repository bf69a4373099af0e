/-
FrameLisp/Text/Utf8.lean

Source files as bytes: strict UTF-8 with a precise account of what is wrong, and
one spelling for the end of a line.

A sequence starts with a byte that says how many continuation bytes follow and in
which range the first of them has to lie; the range keeps out overlong forms,
surrogates and codes above the last character.  The *bad run* of an error is the
part of the sequence that was good: one byte for a byte that cannot start a
sequence.
-/
import FrameLisp.Text.Quoted

namespace FrameLisp.Text

/-! ### Decoding -/

/-- Why bytes are not UTF-8. -/
inductive DecodeReason where
  | invalidStart
  | invalidContinuation
  | unexpectedEnd
  deriving DecidableEq

/-- Where and why decoding failed: a bad run of `run` bytes from `start` on, the
first of which is `byte`. -/
structure DecodeError where
  start : Nat
  run : Nat
  byte : UInt8
  reason : DecodeReason
  deriving DecidableEq

/-- The wording of a reason. -/
def DecodeReason.message : DecodeReason → String
  | .invalidStart => "invalid start byte"
  | .invalidContinuation => "invalid continuation byte"
  | .unexpectedEnd => "unexpected end of data"

/-- The wording of an error: a single bad byte is shown, a longer run is located. -/
def DecodeError.message (e : DecodeError) : String :=
  let what :=
    if e.run = 1 then
      "byte 0x" ++ String.ofList (hex 2 e.byte.toNat) ++ " in position " ++ toString e.start
    else "bytes in position " ++ toString e.start ++ "-" ++ toString (e.start + e.run - 1)
  "'utf-8' codec can't decode " ++ what ++ ": " ++ e.reason.message

/-- What the first byte of a sequence announces: the number of continuation bytes,
the bits it contributes, and the range of the byte that follows. -/
structure Lead where
  count : Nat
  bits : Nat
  low : Nat
  high : Nat

/-- Read the first byte of a sequence. -/
def Lead.ofByte? (b : UInt8) : Option Lead :=
  let n := b.toNat
  if n < 0x80 then some ⟨0, n, 0x80, 0xBF⟩
  else if n < 0xC2 then none
  else if n < 0xE0 then some ⟨1, n - 0xC0, 0x80, 0xBF⟩
  else if n < 0xF0 then
    some ⟨2, n - 0xE0, if n = 0xE0 then 0xA0 else 0x80, if n = 0xED then 0x9F else 0xBF⟩
  else if n < 0xF5 then
    some ⟨3, n - 0xF0, if n = 0xF0 then 0x90 else 0x80, if n = 0xF4 then 0x8F else 0xBF⟩
  else none

/-- Read `count` continuation bytes, the first of them in the given range.  On
failure the number says how many bytes were good. -/
def readContinuation (low high : Nat) : (count code : Nat) → List UInt8 →
    Except (Nat × DecodeReason) (Nat × List UInt8)
  | 0, code, bs => .ok (code, bs)
  | _ + 1, _, [] => .error (0, .unexpectedEnd)
  | n + 1, code, b :: bs =>
      if low ≤ b.toNat ∧ b.toNat ≤ high then
        match readContinuation 0x80 0xBF n (code * 64 + (b.toNat - 0x80)) bs with
        | .ok r => .ok r
        | .error (good, reason) => .error (good + 1, reason)
      else .error (0, .invalidContinuation)

/-- Continuation bytes are taken off the front, so no more bytes are left. -/
theorem readContinuation_length {low high count code : Nat} {bs : List UInt8} {r : Nat × List UInt8}
    (h : readContinuation low high count code bs = .ok r) : r.2.length ≤ bs.length := by
  induction count generalizing low high code bs with
  | zero => cases h; exact Nat.le_refl _
  | succ n ih =>
      cases bs with
      | nil => cases h
      | cons b bs =>
          rw [readContinuation] at h
          split at h
          · split at h
            · next r' hr =>
                cases h
                exact Nat.le_succ_of_le (ih hr)
            · cases h
          · cases h

/-- Decode from position `start` on, after the characters `done` (last one first). -/
def decodeFrom (start : Nat) (done : List Char) (bs : List UInt8) :
    Except DecodeError (List Char) :=
  match bs with
  | [] => .ok done.reverse
  | b :: rest =>
      match Lead.ofByte? b with
      | none => .error ⟨start, 1, b, .invalidStart⟩
      | some lead =>
          match h : readContinuation lead.low lead.high lead.count lead.bits rest with
          | .error (good, reason) => .error ⟨start, good + 1, b, reason⟩
          | .ok (code, left) =>
              decodeFrom (start + lead.count + 1) (Char.ofNat code :: done) left
termination_by bs.length
decreasing_by
  have := readContinuation_length h
  simp_all only [List.length_cons]
  omega

/-- Decode bytes as UTF-8. -/
def decode (bs : List UInt8) : Except DecodeError (List Char) := decodeFrom 0 [] bs

/-! ### Line ends -/

/-- Continue `unifyNewlines` after the characters `done` (last one first). -/
def unifyNewlinesFrom (done : List Char) : List Char → List Char
  | [] => done.reverse
  | '\r' :: '\n' :: cs => unifyNewlinesFrom ('\n' :: done) cs
  | c :: cs => unifyNewlinesFrom ((if c = '\r' then '\n' else c) :: done) cs

/-- Every line end, whether carriage return, line feed or both, as one line feed. -/
def unifyNewlines (cs : List Char) : List Char := unifyNewlinesFrom [] cs

/-- The text of a source file. -/
def ofBytes (bs : List UInt8) : Except DecodeError String :=
  match decode bs with
  | .ok cs => .ok (String.ofList (unifyNewlines cs))
  | .error e => .error e

end FrameLisp.Text
