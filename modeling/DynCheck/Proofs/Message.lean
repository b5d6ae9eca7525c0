import DynCheck.Report.Rejection

/-!
# `DynCheck.Proofs.Message` — arguments stand in a message as they are

What is put into a template is not gone through again, so no argument can be taken for a
placeholder. What comes of a template is settled by going through the template once: text without an
opening brace is copied, and a placeholder gives way to its argument, whatever characters that is
made of.

## Contents
- **Filling.** `Message.filled` with `filled_text` and `filled_placeholder`.
- **Wording.** `Rejection.wording`; `Rejection.ofValue_eq`: all that a report says.
-/

namespace DynCheck

/-! ## Filling -/

namespace Message

@[simp] theorem toList_ofTemplate (template : String) (arguments : List String) :
    (ofTemplate template arguments).toList = filled arguments template.toList :=
  String.toList_ofList

variable {arguments : List String}

@[simp] theorem filled_nil : filled arguments [] = [] := by rw [filled]

theorem filled_cons {c : Char} (h : c ≠ '\x7b') (cs : List Char) :
    filled arguments (c :: cs) = c :: filled arguments cs := by
  rw [filled, if_neg h]

/-- A brace that starts no placeholder is text. -/
theorem filled_open {cs : List Char} (h : placeholder? arguments cs = none) :
    filled arguments ('\x7b' :: cs) = '\x7b' :: filled arguments cs := by
  rw [filled, if_pos rfl]
  split
  · next heq => exact absurd (h.symm.trans heq) (by simp)
  · rfl

/-- Text is copied up to the next opening brace. -/
theorem filled_text {text : List Char} (hopen : '\x7b' ∉ text) (rest : List Char) :
    filled arguments (text ++ rest) = text ++ filled arguments rest := by
  induction text with
  | nil => rfl
  | cons c cs ih =>
    have hc : c ≠ '\x7b' := (List.ne_of_not_mem_cons hopen).symm
    rw [List.cons_append, filled_cons hc, ih (List.not_mem_of_not_mem_cons hopen),
      List.cons_append]

theorem filled_self {text : List Char} (hopen : '\x7b' ∉ text) :
    filled arguments text = text := by simpa using filled_text hopen []

/-- A placeholder gives way to its argument, and what follows is filled in on its own. -/
theorem filled_placeholder {argument : String} {n : Nat} {digits : List Char}
    (hclose : '\x7d' ∉ digits) (hword : word? digits = some n) (hn : arguments[n]? = some argument)
    (rest : List Char) :
    filled arguments ('\x7b' :: (digits ++ '\x7d' :: rest)) =
      argument.toList ++ filled arguments rest := by
  have hfound : placeholder? arguments (digits ++ '\x7d' :: rest) = some (argument, rest) := by
    simp only [placeholder?, upToClose?_append hclose, hword, Option.bind_some, hn, Option.map_some]
  rw [filled, if_pos rfl]
  split
  · next argument' rest' heq =>
    obtain ⟨rfl, rfl⟩ := Prod.mk.inj (Option.some.inj (hfound.symm.trans heq))
    rfl
  · next heq => exact absurd (hfound.symm.trans heq) (by simp)

end Message

/-! ## Wording -/

/-- The message about a value, from the text of the value and the name that the caller gave. -/
def Rejection.wording (shown : String) : Option String → String
  | some name => "value `" ++ shown ++ "` is not of type `" ++ name ++ "`"
  | none => "value `" ++ shown ++ "` is of an invalid type"

/-- The code of the message. -/
def Rejection.wordingCode (expected : Option String) : Nat := if expected.isSome then 1001 else 1002

namespace Message

theorem ofTemplate_notOfType (shown name : String) :
    ofTemplate notOfType.text [shown, name] = Rejection.wording shown (some name) := by
  have htext : notOfType.text.toList =
      "value `".toList ++ '\x7b' :: (['0'] ++ '\x7d' ::
        ("` is not of type `".toList ++ '\x7b' :: (['1'] ++ '\x7d' :: "`".toList))) := by decide
  have hshown : word? ['0'] = some 0 := by decide
  have hname : word? ['1'] = some 1 := by decide
  apply String.toList_inj.mp
  rw [toList_ofTemplate, htext, filled_text (by decide), filled_placeholder (by decide) hshown rfl,
    filled_text (by decide), filled_placeholder (by decide) hname rfl, filled_self (by decide)]
  simp [Rejection.wording]

theorem ofTemplate_ofInvalidType (shown : String) :
    ofTemplate ofInvalidType.text [shown] = Rejection.wording shown none := by
  have htext : ofInvalidType.text.toList =
      "value `".toList ++ '\x7b' :: (['0'] ++ '\x7d' :: "` is of an invalid type".toList) := by
    decide
  have hshown : word? ['0'] = some 0 := by decide
  apply String.toList_inj.mp
  rw [toList_ofTemplate, htext, filled_text (by decide), filled_placeholder (by decide) hshown rfl,
    filled_self (by decide)]
  simp [Rejection.wording]

end Message

/-- **A report quotes the text of the value and the name as they are.** -/
theorem Rejection.ofValue_eq (bounds : TextBounds) (expected : Option String) (v : Value) :
    ofValue bounds expected v =
      { shown := v.render bounds
        expected := expected
        message := wording (v.render bounds) expected
        code := wordingCode expected } := by
  cases expected with
  | some name =>
    rw [ofValue, Message.ofTemplate_notOfType]
    rfl
  | none =>
    rw [ofValue, Message.ofTemplate_ofInvalidType]
    rfl

end DynCheck
