import DynCheck.Bigint
import DynCheck.Binary64.Text
import DynCheck.Json.Basic

/-!
# `DynCheck.Json.Printer` — the compact text of a JSON tree

No blanks anywhere. Strings escape what JSON requires and nothing else, and doubles are written the
way numbers are written everywhere in the library.

## Contents
- **Strings.** `escape`: one character; `quoted`: a whole string.
- **Trees.** `chars`; `charsBefore` writes the same without copying; `toText`.
-/

namespace DynCheck.Json

/-! ## Strings -/

/-- The letter of a short escape. -/
def shortEscape? (c : Char) : Option Char :=
  if c = '"' then some '"'
  else if c = '\\' then some '\\'
  else if c = '\x08' then some 'b'
  else if c = '\x0c' then some 'f'
  else if c = '\n' then some 'n'
  else if c = '\r' then some 'r'
  else if c = '\t' then some 't'
  else none

/-- A character inside a string: quotes, backslashes and control characters are escaped. -/
def escape (c : Char) : List Char :=
  match shortEscape? c with
  | some letter => ['\\', letter]
  | none =>
    if c.toNat < 0x20 then
      ['\\', 'u', '0', '0', Nat.digitChar (c.toNat / 16), Nat.digitChar (c.toNat % 16)]
    else
      [c]

/-- A string in quotes. -/
def quoted (s : String) : List Char := '"' :: s.toList.flatMap escape ++ ['"']

/-! ## Trees -/

mutual

/-- The text of a tree. -/
def chars : Json → List Char
  | null => "null".toList
  | boolean b => (if b then "true" else "false").toList
  | integer i => Bigint.chars i
  | double x => x.chars
  | string s => quoted s
  | array items => '[' :: itemsChars items ++ [']']
  | object members => '\x7b' :: membersChars members ++ ['\x7d']
termination_by structural j => j

/-- The items of an array between commas. -/
def itemsChars : List Json → List Char
  | [] => []
  | item :: rest => chars item ++ (if rest.isEmpty then [] else ',' :: itemsChars rest)
termination_by structural items => items

/-- The members of an object between commas, each with its key. -/
def membersChars : List (String × Json) → List Char
  | [] => []
  | (key, j) :: rest =>
    quoted key ++ ':' :: chars j ++ (if rest.isEmpty then [] else ',' :: membersChars rest)
termination_by structural members => members

end

mutual

/-- The text of a tree in front of a text that is already there, so that nothing is copied on the
    way out of a deep tree. -/
def charsBefore : Json → List Char → List Char
  | array items, tail => '[' :: itemsBefore items (']' :: tail)
  | object members, tail => '\x7b' :: membersBefore members ('\x7d' :: tail)
  | leaf, tail => chars leaf ++ tail
termination_by structural j => j

def itemsBefore : List Json → List Char → List Char
  | [], tail => tail
  | item :: rest, tail =>
    charsBefore item (if rest.isEmpty then tail else ',' :: itemsBefore rest tail)
termination_by structural items => items

def membersBefore : List (String × Json) → List Char → List Char
  | [], tail => tail
  | (key, j) :: rest, tail =>
    quoted key ++ ':' ::
      charsBefore j (if rest.isEmpty then tail else ',' :: membersBefore rest tail)
termination_by structural members => members

end

mutual

theorem charsBefore_eq : (j : Json) → (tail : List Char) → charsBefore j tail = chars j ++ tail
  | null, _ | boolean _, _ | integer _, _ | double _, _ | string _, _ => rfl
  | array items, tail => by
    rw [charsBefore, chars, itemsBefore_eq items, List.cons_append, List.cons_append,
      List.append_assoc, List.singleton_append]
  | object members, tail => by
    rw [charsBefore, chars, membersBefore_eq members, List.cons_append, List.cons_append,
      List.append_assoc, List.singleton_append]

theorem itemsBefore_eq : (items : List Json) → (tail : List Char) →
    itemsBefore items tail = itemsChars items ++ tail
  | [], _ => rfl
  | item :: rest, tail => by
    rw [itemsBefore, itemsChars, charsBefore_eq item, itemsBefore_eq rest, List.append_assoc]
    cases rest.isEmpty <;> rfl

theorem membersBefore_eq : (members : List (String × Json)) → (tail : List Char) →
    membersBefore members tail = membersChars members ++ tail
  | [], _ => rfl
  | (key, j) :: rest, tail => by
    rw [membersBefore, membersChars, charsBefore_eq j, membersBefore_eq rest]
    cases rest.isEmpty <;> simp

end

/-- The text of a tree as a string. -/
def toText (j : Json) : String := String.ofList (j.charsBefore [])

theorem toText_eq (j : Json) : j.toText = String.ofList j.chars := by
  rw [toText, charsBefore_eq, List.append_nil]

end DynCheck.Json
