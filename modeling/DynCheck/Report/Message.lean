import DynCheck.Numeral

/-!
# `DynCheck.Report.Message` — message templates

A template is text with numbered placeholders such as `{0}`. It is gone through once, and each
placeholder gives way to its argument as it is, so an argument that looks like a placeholder is
never filled in. A placeholder that names no argument is ordinary text.

## Contents
- **Placeholders.** `word?` reads the text between braces; `upToClose?` finds it; `placeholder?`
  looks the argument up.
- **Messages.** `filled` goes through the characters of a template; `ofTemplate`.
- **Templates.** `Template` with its code, and the two templates of the library.
-/

namespace DynCheck.Message

/-! ## Placeholders -/

/-- `2⁶⁴`: arguments are numbered by machine words. -/
def wordBound : Nat := 0x10000000000000000

/-- A machine word: digits, after a plus sign or not. -/
def word? (cs : List Char) : Option Nat := Numeral.word? wordBound cs

/-- What stands before the next closing brace, and what follows it. -/
def upToClose? (cs : List Char) : Option (List Char × List Char) :=
  match cs.dropWhile (· != '\x7d') with
  | [] => none
  | _ :: rest => some (cs.takeWhile (· != '\x7d'), rest)

/-- The placeholder after an opening brace: its argument, and what follows the closing brace. -/
def placeholder? (arguments : List String) (cs : List Char) : Option (String × List Char) :=
  match upToClose? cs with
  | none => none
  | some (inside, rest) =>
    ((word? inside).bind fun n => arguments[n]?).map fun argument => (argument, rest)

/-- What stands before the closing brace has none in it. -/
theorem upToClose?_eq_some {cs inside rest : List Char} (h : upToClose? cs = some (inside, rest)) :
    cs = inside ++ '\x7d' :: rest ∧ '\x7d' ∉ inside := by
  unfold upToClose? at h
  split at h
  · exact nomatch h
  · next c tail heq =>
    obtain ⟨rfl, rfl⟩ := Prod.mk.inj (Option.some.inj h)
    have hclose : c = '\x7d' := by
      have hhead := List.head?_dropWhile_not (· != '\x7d') cs
      rw [heq] at hhead
      simpa using hhead
    subst hclose
    refine ⟨?_, fun hmem => ?_⟩
    · rw [← heq, List.takeWhile_append_dropWhile]
    · have hne := List.all_eq_true.mp (List.all_takeWhile (p := (· != '\x7d')) (l := cs)) _ hmem
      exact absurd hne (by decide)

/-- The text up to a closing brace is all that counts before it. -/
theorem upToClose?_append {inside : List Char} (hclose : '\x7d' ∉ inside) (rest : List Char) :
    upToClose? (inside ++ '\x7d' :: rest) = some (inside, rest) := by
  have hbraceless : ∀ d ∈ inside, (d != '\x7d') = true := by
    intro d hd
    rw [bne_iff_ne]
    rintro rfl
    exact hclose hd
  have hstop : ¬ ('\x7d' != '\x7d') = true := by decide
  unfold upToClose?
  rw [List.takeWhile_append_of_pos hbraceless, List.dropWhile_append_of_pos hbraceless,
    List.takeWhile_cons_of_neg (p := (· != '\x7d')) hstop,
    List.dropWhile_cons_of_neg (p := (· != '\x7d')) hstop, List.append_nil]

theorem length_of_placeholder? {arguments : List String} {cs rest : List Char} {argument : String}
    (h : placeholder? arguments cs = some (argument, rest)) : rest.length < cs.length := by
  unfold placeholder? at h
  split at h
  · exact nomatch h
  · next inside after heq =>
    obtain ⟨_, _, hrest⟩ := Option.map_eq_some_iff.mp h
    obtain ⟨hcs, -⟩ := upToClose?_eq_some heq
    rw [hcs, ← (Prod.mk.inj hrest).2, List.length_append, List.length_cons]
    omega

/-! ## Messages -/

/-- What comes of the characters of a template. After a brace that starts no placeholder the search
    goes on with the very next character. -/
def filled (arguments : List String) : List Char → List Char
  | [] => []
  | c :: cs =>
    if c = '\x7b' then
      match h : placeholder? arguments cs with
      | some (argument, rest) =>
        have := length_of_placeholder? h
        argument.toList ++ filled arguments rest
      | none => c :: filled arguments cs
    else
      c :: filled arguments cs
termination_by cs => cs.length

/-- The message that a template and its arguments make. -/
def ofTemplate (template : String) (arguments : List String) : String :=
  String.ofList (filled arguments template.toList)

/-! ## Templates -/

/-- A message template and the code it is known by. -/
structure Template where
  code : Nat
  text : String
deriving DecidableEq, Repr

/-- A value is not of the type that was named. -/
def notOfType : Template := ⟨1001, "value `\x7b0\x7d` is not of type `\x7b1\x7d`"⟩

/-- A value is not of the right type, which has no name. -/
def ofInvalidType : Template := ⟨1002, "value `\x7b0\x7d` is of an invalid type"⟩

end DynCheck.Message
