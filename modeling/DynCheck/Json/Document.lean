import DynCheck.Numeral

/-!
# `DynCheck.Json.Document` — JSON texts, read without interpreting them

Reading a JSON text has two halves. The grammar says what is a text and how it is made up; that half
stands here and gives a `Document`, in which numbers and strings are still as they were written.
What they mean, how deep containers may nest, and what happens to a repeated key is left to those
who use the document.

## Contents
- **Documents.** `TextUnit`, `Document`.
- **Strings.** `stringBody?`: everything up to the closing quote.
- **Grammar.** `value?`, `items?`, `members?`; `Document.parse?` reads a whole text.
- **Meaning of strings.** `TextUnit.decode?` joins surrogate pairs.
-/

namespace DynCheck.Json

/-! ## Documents -/

/-- A piece of a string: a character, or a `\u` escape, which may be half of a surrogate pair. -/
inductive TextUnit where
  | char (c : Char)
  | code (unit : Nat)
deriving DecidableEq, Repr

/-- The structure of a JSON text. -/
inductive Document where
  | null
  | boolean (b : Bool)
  | number (n : Numeral)
  | string (units : List TextUnit)
  | array (items : List Document)
  | object (members : List (List TextUnit × Document))

namespace Document

/-! ## Strings -/

/-- The value of a hexadecimal digit of either case. -/
def hexDigit? (c : Char) : Option Nat :=
  if c.isDigit then some (c.toNat - '0'.toNat)
  else if 'a' ≤ c ∧ c ≤ 'f' then some (c.toNat - 'a'.toNat + 10)
  else if 'A' ≤ c ∧ c ≤ 'F' then some (c.toNat - 'A'.toNat + 10)
  else none

/-- Four hexadecimal digits as one code unit. -/
def codeUnit? (a b c d : Char) : Option Nat := do
  let a ← hexDigit? a
  let b ← hexDigit? b
  let c ← hexDigit? c
  let d ← hexDigit? d
  return ((a * 16 + b) * 16 + c) * 16 + d

/-- The character that a short escape stands for. -/
def unescape? (letter : Char) : Option Char :=
  if letter = '"' ∨ letter = '\\' ∨ letter = '/' then some letter
  else if letter = 'b' then some '\x08'
  else if letter = 'f' then some '\x0c'
  else if letter = 'n' then some '\n'
  else if letter = 'r' then some '\r'
  else if letter = 't' then some '\t'
  else none

/-- The rest of a string after its opening quote, and what follows the closing one. Control
    characters have to be escaped. -/
def stringBody? : List Char → Option (List TextUnit × List Char)
  | [] => none
  | c :: cs =>
    if c = '"' then
      some ([], cs)
    else if c = '\\' then
      match cs with
      | 'u' :: h₁ :: h₂ :: h₃ :: h₄ :: rest =>
        match codeUnit? h₁ h₂ h₃ h₄, stringBody? rest with
        | some unit, some (units, after) => some (.code unit :: units, after)
        | _, _ => none
      | letter :: rest =>
        match unescape? letter, stringBody? rest with
        | some e, some (units, after) => some (.char e :: units, after)
        | _, _ => none
      | [] => none
    else if c.toNat < 0x20 then
      none
    else
      match stringBody? cs with
      | some (units, after) => some (.char c :: units, after)
      | none => none

/-! ## Grammar -/

def isBlank (c : Char) : Bool := c == ' ' || c == '\t' || c == '\n' || c == '\r'

def skipBlanks (cs : List Char) : List Char := cs.dropWhile isBlank

/-- What follows a word, if the text starts with it. -/
def afterWord? (word cs : List Char) : Option (List Char) :=
  if word.isPrefixOf cs then some (cs.drop word.length) else none

/-- A number: a numeral without leading zeros. -/
def number? (cs : List Char) : Option (Document × List Char) :=
  match Numeral.scan? cs with
  | some (n, rest) => if n.hasLeadingZero then none else some (.number n, rest)
  | none => none

mutual

/-- One value at the front of a text, blanks before it being skipped. The fuel bounds how many
    values, items and members are started on the way. -/
def value? : Nat → List Char → Option (Document × List Char)
  | 0, _ => none
  | fuel + 1, cs =>
    match skipBlanks cs with
    | [] => none
    | c :: rest =>
      if c = 'n' then
        (afterWord? "ull".toList rest).map fun after => (.null, after)
      else if c = 't' then
        (afterWord? "rue".toList rest).map fun after => (.boolean true, after)
      else if c = 'f' then
        (afterWord? "alse".toList rest).map fun after => (.boolean false, after)
      else if c = '"' then
        (stringBody? rest).map fun (units, after) => (.string units, after)
      else if c = '[' then
        match skipBlanks rest with
        | ']' :: after => some (.array [], after)
        | inside => (items? fuel inside).map fun (items, after) => (.array items, after)
      else if c = '\x7b' then
        match skipBlanks rest with
        | '\x7d' :: after => some (.object [], after)
        | inside => (members? fuel inside).map fun (members, after) => (.object members, after)
      else
        number? (c :: rest)

/-- The items of a nonempty array up to its closing bracket. -/
def items? : Nat → List Char → Option (List Document × List Char)
  | 0, _ => none
  | fuel + 1, cs =>
    match value? fuel cs with
    | none => none
    | some (item, rest) =>
      match skipBlanks rest with
      | ',' :: more => (items? fuel more).map fun (items, after) => (item :: items, after)
      | ']' :: after => some ([item], after)
      | _ => none

/-- The members of a nonempty object up to its closing brace. -/
def members? : Nat → List Char → Option (List (List TextUnit × Document) × List Char)
  | 0, _ => none
  | fuel + 1, cs =>
    match skipBlanks cs with
    | '"' :: body =>
      match stringBody? body with
      | none => none
      | some (key, afterKey) =>
        match skipBlanks afterKey with
        | ':' :: text =>
          match value? fuel text with
          | none => none
          | some (j, rest) =>
            match skipBlanks rest with
            | ',' :: more =>
              (members? fuel more).map fun (members, after) => ((key, j) :: members, after)
            | '\x7d' :: after => some ([(key, j)], after)
            | _ => none
        | _ => none
    | _ => none

end

/-- A whole text: one value with nothing but blanks around it. Every value takes a character of the
    text and every item or member starts one value, so twice the length is fuel enough. -/
def parse? (text : String) : Option Document :=
  let cs := text.toList
  match value? (2 * cs.length + 1) cs with
  | some (document, rest) => if (skipBlanks rest).isEmpty then some document else none
  | none => none

end Document

/-! ## Meaning of strings -/

namespace TextUnit

def isHighSurrogate (unit : Nat) : Bool := decide (0xD800 ≤ unit) && decide (unit < 0xDC00)

def isLowSurrogate (unit : Nat) : Bool := decide (0xDC00 ≤ unit) && decide (unit < 0xE000)

/-- The character of a surrogate pair. -/
def joinPair (high low : Nat) : Char :=
  Char.ofNat (0x10000 + (high - 0xD800) * 0x400 + (low - 0xDC00))

/-- The characters of a string. Surrogates must come as escapes, in pairs, the high one first. -/
def decode? : List TextUnit → Option (List Char)
  | [] => some []
  | char c :: rest => (decode? rest).map (c :: ·)
  | code high :: code low :: rest =>
    if isHighSurrogate high then
      if isLowSurrogate low then (decode? rest).map (joinPair high low :: ·) else none
    else if isLowSurrogate high then
      none
    else
      (decode? (code low :: rest)).map (Char.ofNat high :: ·)
  | code unit :: rest =>
    if isHighSurrogate unit || isLowSurrogate unit then none
    else (decode? rest).map (Char.ofNat unit :: ·)

/-- The string that the pieces spell. -/
def toString? (units : List TextUnit) : Option String := (decode? units).map String.ofList

end TextUnit

end DynCheck.Json
