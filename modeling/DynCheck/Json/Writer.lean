import DynCheck.Json.Printer
import DynCheck.Utf8

/-!
# `DynCheck.Json.Writer` — a tree goes out as bytes

A tree is written piece by piece to a place that takes bytes, and the bytes are then taken for a
text. Two things can go wrong on that way: a piece may be refused, and the bytes may be no text.
Neither does. The place is a buffer, which refuses nothing, and the pieces are made of characters,
so that what they add up to is the text of the tree.

## Contents
- **Writing.** `Writer`, `Writer.put`; `write` for trees, `write_eq`: the pieces make up the text.
- **Text.** `written`; `written_eq`: every tree is written.
-/

namespace DynCheck

/-! ## Writing -/

/-- Writing adds to the bytes that are there, or gives a reason why it does not. -/
abbrev Writer := StateT ByteArray (Except String)

/-- Add characters to a buffer. -/
def Writer.put (cs : List Char) : Writer Unit :=
  modify fun bytes => bytes ++ (String.ofList cs).toUTF8

namespace Writer

theorem run_put (cs : List Char) (bytes : ByteArray) :
    (put cs).run bytes = .ok ((), bytes ++ cs.utf8Encode) := by
  show Except.ok ((), bytes ++ (String.ofList cs).toUTF8) = _
  rw [String.toUTF8_eq_toByteArray]
  rfl

/-- Pieces that are written one after the other are one piece. -/
theorem put_append (cs ds : List Char) : put (cs ++ ds) = (do put cs; put ds) := by
  apply StateT.ext
  intro bytes
  rw [run_put, List.utf8Encode_append, ← ByteArray.append_assoc, StateT.run_bind, run_put]
  exact (run_put ds _).symm

theorem put_nil : put [] = pure () := by
  apply StateT.ext
  intro bytes
  rw [run_put, List.utf8Encode_nil, ByteArray.append_empty]
  rfl

theorem put_cons (c : Char) (cs : List Char) : put (c :: cs) = (do put [c]; put cs) :=
  put_append [c] cs

/-- What follows a comma is left out together with it. -/
theorem put_ite (last : Bool) (cs : List Char) :
    put (if last then [] else ',' :: cs) =
      if last then pure () else (do put [',']; put cs) := by
  cases last with
  | true => exact put_nil
  | false => exact put_cons ',' cs

end Writer

namespace Json

open Writer

mutual

/-- Write a tree: brackets and commas as they come, everything else in one piece. -/
def write : Json → Writer Unit
  | array items => do put ['[']; writeItems items; put [']']
  | object members => do put ['\x7b']; writeMembers members; put ['\x7d']
  | leaf => put leaf.chars
termination_by structural j => j

def writeItems : List Json → Writer Unit
  | [] => pure ()
  | item :: rest => do
    write item
    if rest.isEmpty then pure () else do put [',']; writeItems rest
termination_by structural items => items

def writeMembers : List (String × Json) → Writer Unit
  | [] => pure ()
  | (key, j) :: rest => do
    put (quoted key)
    put [':']
    write j
    if rest.isEmpty then pure () else do put [',']; writeMembers rest
termination_by structural members => members

end

mutual

/-- The pieces of a tree make up its text. -/
theorem write_eq : (j : Json) → write j = put j.chars
  | null | boolean _ | integer _ | double _ | string _ => rfl
  | array items => by
    rw [write, writeItems_eq items, chars, List.cons_append, put_cons '[' (_ ++ _), put_append]
  | object members => by
    rw [write, writeMembers_eq members, chars, List.cons_append, put_cons '\x7b' (_ ++ _),
      put_append]

theorem writeItems_eq : (items : List Json) → writeItems items = put (itemsChars items)
  | [] => put_nil.symm
  | item :: rest => by
    rw [writeItems, write_eq item, writeItems_eq rest, itemsChars, put_append, put_ite]

theorem writeMembers_eq : (members : List (String × Json)) →
    writeMembers members = put (membersChars members)
  | [] => put_nil.symm
  | (key, j) :: rest => by
    rw [writeMembers, write_eq j, writeMembers_eq rest, membersChars, List.append_assoc, put_append,
      List.cons_append, put_cons ':' (_ ++ _), put_append, put_ite]

end

/-! ## Text -/

/-- The text of a tree, by way of a buffer. -/
def written (j : Json) : Except String String := do
  let ((), bytes) ← j.write.run ByteArray.empty
  Utf8.decode bytes

/-- **Every tree is written**, as its text. -/
theorem written_eq (j : Json) : j.written = .ok j.toText := by
  have hrun : j.write.run ByteArray.empty = .ok ((), j.chars.utf8Encode) := by
    rw [write_eq, run_put, ByteArray.empty_append]
  rw [written, hrun, toText_eq]
  exact Utf8.decode_utf8Encode j.chars

end Json

end DynCheck
