/-!
# `DynCheck.Utf8` — bytes taken for a text

Bytes are a text if each character is written in one to four of them, and no character is written in
more bytes than it needs. If they are no text, the reason names the place up to which they are one,
and how many bytes there begin no character.

## Contents
- **Reasons.** `Problem` with its `message`; `problem` goes through bytes.
- **Text.** `decode`; `decode_utf8Encode`: what characters are written in is their text.
-/

namespace DynCheck.Utf8

/-! ## Reasons -/

/-- Where bytes stop being a text. The bytes in the way are counted, unless a character only lacks
    bytes that should come behind the last one. -/
structure Problem where
  index : Nat
  length : Option Nat
deriving DecidableEq, Repr

def Problem.message : Problem → String
  | ⟨index, some length⟩ =>
    "invalid utf-8 sequence of " ++ length.repr ++ " bytes from index " ++ index.repr
  | ⟨index, none⟩ => "incomplete utf-8 byte sequence from index " ++ index.repr

/-- What has to come behind a byte: so many more, of which the next is bounded. -/
structure Owed where
  count : Nat
  low : UInt8 := 0x80
  high : UInt8 := 0xbf

/-- What has to come behind the first byte of a character. The bounds keep out longer ways to write
    a character, surrogates, and what lies beyond the last character. -/
def Owed.ofFirst? (byte : UInt8) : Option Owed :=
  if byte < 0x80 then some { count := 0 }
  else if byte < 0xc2 then none
  else if byte < 0xe0 then some { count := 1 }
  else if byte = 0xe0 then some { count := 2, low := 0xa0 }
  else if byte = 0xed then some { count := 2, high := 0x9f }
  else if byte < 0xf0 then some { count := 2 }
  else if byte = 0xf0 then some { count := 3, low := 0x90 }
  else if byte < 0xf4 then some { count := 3 }
  else if byte = 0xf4 then some { count := 3, high := 0x8f }
  else none

/-- Go through bytes up to the first that is in the way. The character at hand began at `start`, and
    `seen` of its bytes have been passed. -/
def problem (start seen : Nat) (owed : Owed) : List UInt8 → Problem
  | [] => ⟨if owed.count = 0 then start + seen else start, none⟩
  | byte :: rest =>
    match owed.count with
    | 0 =>
      match Owed.ofFirst? byte with
      | some next => problem (start + seen) 1 next rest
      | none => ⟨start + seen, some 1⟩
    | count + 1 =>
      if owed.low ≤ byte ∧ byte ≤ owed.high then problem start (seen + 1) { count } rest
      else ⟨start, some seen⟩

/-! ## Text -/

/-- The text that bytes are, or why they are none. -/
def decode (bytes : ByteArray) : Except String String :=
  match String.fromUTF8? bytes with
  | some text => .ok text
  | none => .error (problem 0 0 { count := 0 } bytes.toList).message

theorem decode_utf8Encode (cs : List Char) : decode cs.utf8Encode = .ok (String.ofList cs) := by
  have hvalid : cs.utf8Encode.IsValidUTF8 := ByteArray.isValidUTF8_utf8Encode
  simp only [decode, String.fromUTF8?, dif_pos hvalid]
  rfl

end DynCheck.Utf8
