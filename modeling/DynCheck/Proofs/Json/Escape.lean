import DynCheck.Json.Printer
import DynCheck.Proofs.Json.Syntax

/-!
# `DynCheck.Proofs.Json.Escape` — a quoted string says what it was

Every character of a string goes out as itself, behind a backslash, or as a code, and each of these
is the text of one piece. Codes stand only for control characters, so no code is half of a surrogate
pair and each piece spells the character that it came from.

## Contents
- **Pieces.** `TextUnit.ofChar`, `TextUnit.ofString`.
- **Escapes.** `unescape?_shortEscape?`, `codeUnit?_control`; `bodyText_escape` for one character,
  `isText_quoted` for a whole string.
- **Meaning.** `TextUnit.toString?_ofString`.
-/

namespace DynCheck.Json

/-! ## Pieces -/

/-- What a character of a string comes back as. -/
def TextUnit.ofChar (c : Char) : TextUnit :=
  if shortEscape? c = none ∧ c.toNat < 0x20 then code c.toNat else char c

def TextUnit.ofString (s : String) : List TextUnit := s.toList.map ofChar

namespace Document

/-! ## Escapes -/

/-- The letter of a short escape stands for its character. -/
theorem unescape?_shortEscape? {c letter : Char} (h : shortEscape? c = some letter) :
    unescape? letter = some c := by
  unfold shortEscape? at h
  repeat' split at h
  all_goals
    cases h
    try subst c
    try decide

theorem hexDigit?_digitChar {n : Nat} (h : n < 16) : hexDigit? (Nat.digitChar n) = some n := by
  have hall : ∀ n < 16, hexDigit? (Nat.digitChar n) = some n := by decide
  exact hall n h

/-- The code of a control character. -/
theorem codeUnit?_control {n : Nat} (h : n < 0x20) :
    codeUnit? '0' '0' (Nat.digitChar (n / 16)) (Nat.digitChar (n % 16)) = some n := by
  have hzero : hexDigit? '0' = some 0 := by decide
  simp only [codeUnit?, hzero, hexDigit?_digitChar (show n / 16 < 16 by omega),
    hexDigit?_digitChar (show n % 16 < 16 by omega), Option.bind_eq_bind, Option.bind_some,
    Option.pure_def, Option.some.injEq]
  omega

/-- **The escape of a character is the text of one piece.** -/
theorem bodyText_escape (c : Char) {units : List TextUnit} {cs : List Char}
    (h : BodyText units cs) : BodyText (TextUnit.ofChar c :: units) (escape c ++ cs) := by
  unfold escape TextUnit.ofChar
  cases hshort : shortEscape? c with
  | some letter => exact .escape (unescape?_shortEscape? hshort) h
  | none =>
    by_cases hcontrol : c.toNat < 0x20
    · rw [if_pos ⟨rfl, hcontrol⟩]
      simp only [if_pos hcontrol]
      exact .code (codeUnit?_control hcontrol) h
    · have hquote : c ≠ '"' := by rintro rfl; exact absurd hshort (by decide)
      have hbackslash : c ≠ '\\' := by rintro rfl; exact absurd hshort (by decide)
      rw [if_neg fun h => hcontrol h.2]
      simp only [if_neg hcontrol]
      exact .char hquote hbackslash hcontrol h

/-- A quoted string is the text of its pieces. -/
theorem isText_quoted (s : String) : IsText (.string (TextUnit.ofString s)) (quoted s) := by
  have hbody : ∀ cs : List Char, BodyText (cs.map TextUnit.ofChar) (cs.flatMap escape) := by
    intro cs
    induction cs with
    | nil => exact .nil
    | cons c cs ih => exact bodyText_escape c ih
  exact .string (hbody s.toList)

end Document

/-! ## Meaning -/

namespace TextUnit

/-- A code below the surrogates is a character of its own, whatever comes next. -/
theorem decode?_code_cons {unit : Nat} (h : unit < 0xD800) (units : List TextUnit) :
    decode? (code unit :: units) = (decode? units).map (Char.ofNat unit :: ·) := by
  have hhigh : isHighSurrogate unit = false := by
    simp only [isHighSurrogate, Bool.and_eq_false_iff, decide_eq_false_iff_not]
    omega
  have hlow : isLowSurrogate unit = false := by
    simp only [isLowSurrogate, Bool.and_eq_false_iff, decide_eq_false_iff_not]
    omega
  cases units with
  | nil => simp [decode?, hhigh, hlow]
  | cons u rest => cases u <;> simp [decode?, hhigh, hlow]

@[simp] theorem decode?_map_ofChar (cs : List Char) : decode? (cs.map ofChar) = some cs := by
  induction cs with
  | nil => rfl
  | cons c cs ih =>
    rw [List.map_cons, ofChar]
    split
    · next h => rw [decode?_code_cons (by omega), ih, Char.ofNat_toNat, Option.map_some]
    · rw [decode?, ih, Option.map_some]

/-- **A string is spelled by the pieces that it comes back as.** -/
@[simp] theorem toString?_ofString (s : String) : toString? (ofString s) = some s := by
  simp [toString?, ofString]

end TextUnit

end DynCheck.Json
