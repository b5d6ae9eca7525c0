import DynCheck.Numeral

/-!
# `DynCheck.Proofs.Numeral.Spelling` — the texts of a numeral

A numeral keeps its digits, so writing it down loses nothing; what it does not keep is how its
exponent was marked and whether a plus sign stood before the exponent. Reading takes as long a
numeral as the text allows. What it takes is always a text of the numeral that it gives, and every
text of a numeral is taken whole, if what follows cannot go on with it. That no shorter cut is made
is because no part can begin with what may still belong to the part before it: a point and a mark
for an exponent are no digits, and they are not each other.

## Contents
- **Text.** `Numeral.chars`: one text of a numeral.
- **Spelling.** `Numeral.Spelled`; `SignText`, `ExponentText` for the parts that have several texts,
  `Numeral.SpelledBy` for the whole; `Numeral.Ends`: what may follow.
- **Taking.** For each part, and in `exists_spelledBy` for the whole, that what is taken is a text of
  what is given.
- **Reading.** `scanFraction_append`, `scanExponent_append`, `scan?_append`: every text is taken.
-/

namespace DynCheck.Numeral

/-! ## Text -/

def fractionChars : Option (List Char) → List Char
  | none => []
  | some ds => '.' :: ds

def minusChars (negative : Bool) : List Char := if negative then ['-'] else []

/-- Exponents always have a sign. -/
def exponentChars : Option NumeralExponent → List Char
  | none => []
  | some e => 'e' :: (if e.negative then '-' else '+') :: e.digits

/-- The text of a numeral without a sign. -/
def unsignedChars (n : Numeral) : List Char :=
  n.whole ++ (fractionChars n.fraction ++ exponentChars n.exponent)

/-- The text of a numeral. -/
def chars (n : Numeral) : List Char :=
  if n.negative then '-' :: n.unsignedChars else n.unsignedChars

/-! ## Spelling -/

/-- Digits wherever digits have to be. -/
structure Spelled (n : Numeral) : Prop where
  whole : IsDigits n.whole
  fraction : ∀ ds ∈ n.fraction, IsDigits ds
  exponent : ∀ e ∈ n.exponent, IsDigits e.digits

/-- The texts of a sign. A plus sign may be left out. -/
inductive SignText : Bool → List Char → Prop where
  | absent : SignText false []
  | plus : SignText false ['+']
  | minus : SignText true ['-']

/-- The texts of an exponent: an `e` of either size, a sign and digits. -/
inductive ExponentText : Option NumeralExponent → List Char → Prop where
  | absent : ExponentText none []
  | present {mark : Char} {signed : List Char} {e : NumeralExponent} (hmark : mark = 'e' ∨ mark = 'E')
      (hsign : SignText e.negative signed) (h : IsDigits e.digits) :
      ExponentText (some e) (mark :: (signed ++ e.digits))

/-- The texts of a numeral. -/
inductive SpelledBy (n : Numeral) : List Char → Prop where
  | parts {exponent : List Char} (h : n.Spelled) (hexponent : ExponentText n.exponent exponent) :
      SpelledBy n (minusChars n.negative ++ (n.whole ++ (fractionChars n.fraction ++ exponent)))

/-- A text with which no numeral goes on. -/
def Ends (rest : List Char) : Prop :=
  ∀ c ∈ rest.head?, c.isDigit = false ∧ c ≠ '.' ∧ c ≠ 'e' ∧ c ≠ 'E'

theorem ends_nil : Ends [] := fun _ h => nomatch h

theorem ends_cons {c : Char} {cs : List Char}
    (h : c.isDigit = false ∧ c ≠ '.' ∧ c ≠ 'e' ∧ c ≠ 'E') : Ends (c :: cs) :=
  fun _ hd => Option.some.inj hd ▸ h

/-- A numeral that has digits where they have to be is spelled by its text. -/
theorem Spelled.spelledBy_chars {n : Numeral} (h : n.Spelled) : n.SpelledBy n.chars := by
  have hexponent : ExponentText n.exponent (exponentChars n.exponent) := by
    cases he : n.exponent with
    | none => exact .absent
    | some e =>
      have hsign : SignText e.negative [if e.negative then '-' else '+'] := by
        cases e.negative with
        | true => exact .minus
        | false => exact .plus
      exact .present (.inl rfl) hsign (h.exponent e he)
  have htext : n.chars = minusChars n.negative ++
      (n.whole ++ (fractionChars n.fraction ++ exponentChars n.exponent)) := by
    unfold chars minusChars unsignedChars
    cases n.negative <;> rfl
  exact htext ▸ .parts h hexponent

/-! ## Taking -/

theorem minus_eq (cs : List Char) : cs = minusChars (minus cs).1 ++ (minus cs).2 := by
  unfold minus
  split <;> rfl

/-- What is taken for a sign is one. -/
theorem exists_signText (cs : List Char) :
    ∃ signed, SignText (sign cs).1 signed ∧ cs = signed ++ (sign cs).2 := by
  unfold sign minus
  split
  · exact ⟨['+'], .plus, rfl⟩
  · split
    · exact ⟨['-'], .minus, rfl⟩
    · exact ⟨[], .absent, rfl⟩

theorem scanFraction_eq (cs : List Char) :
    cs = fractionChars (scanFraction cs).1 ++ (scanFraction cs).2 ∧
      ∀ ds ∈ (scanFraction cs).1, IsDigits ds := by
  unfold scanFraction
  split
  · next cs =>
    split
    · next ds rest h =>
      obtain ⟨rfl, hds⟩ := digits?_eq_some h
      exact ⟨rfl, fun _ hd => Option.some.inj hd ▸ hds⟩
    · exact ⟨rfl, fun _ hd => absurd hd (Option.not_mem_none _)⟩
  · exact ⟨rfl, fun _ hd => absurd hd (Option.not_mem_none _)⟩

theorem exists_exponentText (cs : List Char) :
    ∃ exponent, ExponentText (scanExponent cs).1 exponent ∧ cs = exponent ++ (scanExponent cs).2 := by
  cases cs with
  | nil => exact ⟨[], .absent, rfl⟩
  | cons c cs =>
    rw [scanExponent]
    split
    · next hmark =>
      split
      · next ds rest h =>
        obtain ⟨signed, hsigned, heq⟩ := exists_signText cs
        obtain ⟨hdigits, hds⟩ := digits?_eq_some h
        refine ⟨c :: (signed ++ ds), .present (e := ⟨_, ds⟩) hmark hsigned hds, ?_⟩
        rw [List.cons_append, List.append_assoc, ← hdigits, ← heq]
      · exact ⟨[], .absent, rfl⟩
    · exact ⟨[], .absent, rfl⟩

/-- **What is taken is a text of the numeral that is given.** -/
theorem exists_spelledBy {cs rest : List Char} {n : Numeral} (h : scan? cs = some (n, rest)) :
    ∃ text, n.SpelledBy text ∧ cs = text ++ rest := by
  unfold scan? at h
  dsimp only at h
  split at h
  · exact nomatch h
  · next whole afterWhole hfound =>
    obtain ⟨rfl, rfl⟩ := Prod.mk.inj (Option.some.inj h)
    obtain ⟨hunsigned, hwhole⟩ := digits?_eq_some hfound
    obtain ⟨hafter, hfraction⟩ := scanFraction_eq afterWhole
    obtain ⟨exponent, hexponent, hlast⟩ := exists_exponentText (scanFraction afterWhole).2
    have hdigits : ∀ e ∈ (scanExponent (scanFraction afterWhole).2).1, IsDigits e.digits := by
      intro e he
      rw [Option.mem_def.mp he] at hexponent
      cases hexponent with
      | present _ _ h => exact h
    refine ⟨_, .parts ⟨hwhole, hfraction, hdigits⟩ hexponent, ?_⟩
    calc cs = minusChars (minus cs).1 ++ (minus cs).2 := minus_eq cs
      _ = minusChars (minus cs).1 ++ (whole ++ (fractionChars (scanFraction afterWhole).1 ++
            (exponent ++ (scanExponent (scanFraction afterWhole).2).2))) := by
          rw [← hlast, ← hafter, ← hunsigned]
      _ = _ := by simp only [List.append_assoc]

/-- A numeral starts with a digit or with a minus sign. -/
theorem SpelledBy.eq_cons {n : Numeral} {text : List Char} (h : n.SpelledBy text) :
    ∃ c cs, text = c :: cs ∧ (c.isDigit = true ∨ c = '-') := by
  obtain ⟨hspelled, -⟩ := h
  obtain ⟨d, ds, hwhole, hd, -⟩ := hspelled.whole.eq_cons
  rw [hwhole]
  cases n.negative with
  | true => exact ⟨'-', _, rfl, .inr rfl⟩
  | false => exact ⟨d, _, rfl, .inl hd⟩

/-! ## Reading -/

theorem scanFraction_append {fraction : Option (List Char)} {rest : List Char}
    (h : ∀ ds ∈ fraction, IsDigits ds)
    (hrest : ∀ c ∈ rest.head?, c.isDigit = false ∧ c ≠ '.') :
    scanFraction (fractionChars fraction ++ rest) = (fraction, rest) := by
  cases fraction with
  | none =>
    cases rest with
    | nil => rfl
    | cons c cs =>
      rw [fractionChars, List.nil_append, scanFraction]
      rintro cs' heq
      exact (hrest c rfl).2 (List.cons.inj heq).1
  | some ds =>
    have hdigits := digits?_append (h ds rfl) fun c hc => (hrest c hc).1
    simp only [fractionChars, List.cons_append, scanFraction, hdigits]

theorem sign_append {negative : Bool} {signed ds : List Char} (h : SignText negative signed)
    (hds : IsDigits ds) (rest : List Char) :
    sign (signed ++ (ds ++ rest)) = (negative, ds ++ rest) := by
  cases h with
  | plus | minus => rfl
  | absent =>
    obtain ⟨d, ds, rfl, hdigit, hd⟩ := hds.eq_cons
    have hplus : d ≠ '+' := fun heq => absurd (heq ▸ hdigit) (by decide)
    simp [sign, minus, hd, hplus]

theorem scanExponent_append {exponent : Option NumeralExponent} {text rest : List Char}
    (h : ExponentText exponent text) (hrest : Ends rest) :
    scanExponent (text ++ rest) = (exponent, rest) := by
  cases h with
  | absent =>
    cases rest with
    | nil => rfl
    | cons c cs =>
      obtain ⟨-, -, he, hE⟩ := hrest c rfl
      rw [List.nil_append, scanExponent, if_neg (not_or.mpr ⟨he, hE⟩)]
  | @present mark signed e hmark hsign hds =>
    have hdigits := digits?_append hds fun c hc => (hrest c hc).1
    rw [List.cons_append, List.append_assoc, scanExponent, if_pos hmark]
    simp only [sign_append hsign hds, hdigits]

/-- What follows the whole part of a numeral is no digit, and what follows its fraction no point. -/
theorem ExponentText.head {exponent : Option NumeralExponent} {text rest : List Char}
    (h : ExponentText exponent text) (hrest : Ends rest) :
    ∀ c ∈ (text ++ rest).head?, c.isDigit = false ∧ c ≠ '.' := by
  cases h with
  | absent => exact fun c hc => ⟨(hrest c hc).1, (hrest c hc).2.1⟩
  | present hmark =>
    intro c hc
    obtain rfl := Option.some.inj hc
    rcases hmark with rfl | rfl <;> decide

/-- **Every text of a numeral is taken whole.** -/
theorem scan?_append {n : Numeral} {text rest : List Char} (h : n.SpelledBy text)
    (hrest : Ends rest) : scan? (text ++ rest) = some (n, rest) := by
  obtain @⟨exponent, ⟨hwhole, hfraction, -⟩, hexponent⟩ := h
  have htail := hexponent.head hrest
  have hdigits : digits? (n.whole ++ (fractionChars n.fraction ++ (exponent ++ rest))) =
      some (n.whole, fractionChars n.fraction ++ (exponent ++ rest)) := by
    refine digits?_append hwhole fun c hc => ?_
    cases hf : n.fraction with
    | none => exact (htail c (by rwa [hf] at hc)).1
    | some ds =>
      rw [hf] at hc
      obtain rfl : '.' = c := Option.some.inj hc
      decide
  have hminus : minus (minusChars n.negative ++
        (n.whole ++ (fractionChars n.fraction ++ (exponent ++ rest)))) =
      (n.negative, n.whole ++ (fractionChars n.fraction ++ (exponent ++ rest))) := by
    obtain ⟨d, ds, heq, -, hd⟩ := hwhole.eq_cons
    rw [heq]
    cases n.negative <;> simp [minusChars, minus, hd]
  unfold scan?
  simp only [List.append_assoc, hminus, hdigits, scanFraction_append hfraction htail,
    scanExponent_append hexponent hrest]

/-- What was written is read. -/
theorem scan?_chars {n : Numeral} (h : n.Spelled) {rest : List Char} (hrest : Ends rest) :
    scan? (n.chars ++ rest) = some (n, rest) := scan?_append h.spelledBy_chars hrest

end DynCheck.Numeral
