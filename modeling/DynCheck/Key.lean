import DynCheck.Numeral

/-!
# `DynCheck.Key` — property keys that stand for numbers

Two questions about the text of a key. Is it the canonical text of an array index, so that it
addresses an item and comes first when keys are listed? Does it merely look like a number, as the
keys do that lead from the numbers of an enum back to its names?

## Contents
- `index?`: the index that a key denotes; `indexKey`: the key of an index.
- `looksNumeric`: the looser spelling.
-/

namespace DynCheck.Key

/-- The key of the index `n`. -/
def indexKey (n : Nat) : String := n.repr

/-- Indices lie below `2³² - 1`, which is a length and no index. -/
def indexBound : Nat := 0xffffffff

/-- The array index that a key denotes. Only the canonical text counts: digits alone, no zero before
    another digit, and a value below the bound. -/
def index? (key : String) : Option Nat :=
  let cs := key.toList
  if cs ≠ [] ∧ cs.all Char.isDigit ∧ (cs.head? = some '0' → cs.length = 1) then
    let n := Nat.ofDigitChars 10 cs 0
    if n < indexBound then some n else none
  else
    none

def isIndex (key : String) : Bool := (index? key).isSome

theorem lt_of_index? {key : String} {n : Nat} (h : index? key = some n) :
    n < indexBound := by
  unfold index? at h
  dsimp only at h
  split at h
  · split at h
    · next hn =>
      simp only [Option.some.injEq] at h
      omega
    · simp at h
  · simp at h

/-- The key is one numeral: leading zeros, fractions and exponents are all allowed. -/
def looksNumeric (key : String) : Bool := Numeral.isNumeral key.toList

end DynCheck.Key
