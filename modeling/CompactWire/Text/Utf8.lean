import CompactWire.Bytes

/-!
# CompactWire.Text.Utf8 — UTF-8, with the place of the first fault

`Utf8.decode` reads a byte string as text or says where it stops being UTF-8.  A fault names the length of the longest
sound front part and the length of the ill-formed sequence after it: the longest run of bytes that could still have
begun a character (`E0 9F` stops at once, so its length is 1; `F0 9F 41` stops after two).  Bytes that end inside a
sequence that is sound so far have no such length.

The decoder is one pass over the bytes; `Sequence` is the character it is in the middle of.
-/

namespace CompactWire.Utf8

/-- Why a byte string is not UTF-8. -/
structure Fault where
  /-- Length of the longest sound front part. -/
  validUpTo : Nat
  /-- Length of the ill-formed sequence, `none` where the bytes end inside a sequence. -/
  badLength : Option Nat
deriving DecidableEq

/-- The text of a fault. -/
def Fault.message (f : Fault) : String :=
  match f.badLength with
  | some n => s!"invalid utf-8 sequence of {n} bytes from index {f.validUpTo}"
  | none => s!"incomplete utf-8 byte sequence from index {f.validUpTo}"

/-- A character of which `seen` bytes were read and `more` are to come, the next one between `low` and `high`. -/
structure Sequence where
  /-- Index of the first byte of the character. -/
  start : Nat
  seen : Nat
  more : Nat
  low : Nat
  high : Nat
  /-- The bits of the code point read so far. -/
  bits : Nat

/-- The sequence that a first byte of at least `80` opens.  The bounds on the second byte keep out overlong forms,
surrogates and code points above `10FFFF`. -/
def Sequence.open? (start lead : Nat) : Option Sequence :=
  if lead < 0xC2 then none
  else if lead < 0xE0 then some ⟨start, 1, 1, 0x80, 0xBF, lead - 0xC0⟩
  else if lead = 0xE0 then some ⟨start, 1, 2, 0xA0, 0xBF, 0⟩
  else if lead = 0xED then some ⟨start, 1, 2, 0x80, 0x9F, 0x0D⟩
  else if lead < 0xF0 then some ⟨start, 1, 2, 0x80, 0xBF, lead - 0xE0⟩
  else if lead = 0xF0 then some ⟨start, 1, 3, 0x90, 0xBF, 0⟩
  else if lead < 0xF4 then some ⟨start, 1, 3, 0x80, 0xBF, lead - 0xF0⟩
  else if lead = 0xF4 then some ⟨start, 1, 3, 0x80, 0x8F, 0x04⟩
  else none

/-- Reads on from index `pos`: `inside` is the open sequence if there is one, `read` the text before it, last character
first. -/
def scan (pos : Nat) (inside : Option Sequence) (read : List Char) : Bytes → Except Fault (List Char)
  | [] =>
    match inside with
    | none => .ok read.reverse
    | some s => .error ⟨s.start, none⟩
  | b :: bs =>
    match inside with
    | none =>
      if b.toNat < 0x80 then scan (pos + 1) none (Char.ofNat b.toNat :: read) bs
      else match Sequence.open? pos b.toNat with
        | none => .error ⟨pos, some 1⟩
        | some s => scan (pos + 1) (some s) read bs
    | some s =>
      if s.low ≤ b.toNat ∧ b.toNat ≤ s.high then
        let bits := s.bits * 64 + (b.toNat - 0x80)
        if s.more = 1 then scan (pos + 1) none (Char.ofNat bits :: read) bs
        else scan (pos + 1) (some ⟨s.start, s.seen + 1, s.more - 1, 0x80, 0xBF, bits⟩) read bs
      else .error ⟨s.start, some s.seen⟩

/-- The text of a byte string in UTF-8, or its first fault. -/
def decode (bs : Bytes) : Except Fault String := (scan 0 none [] bs).map String.ofList

/-- The bytes of a text in UTF-8. -/
def encode (s : String) : Bytes := s.toList.flatMap String.utf8EncodeChar

end CompactWire.Utf8
