import DynCheck.Proofs.Json.Escape
import DynCheck.Proofs.Json.RoundTrip
import DynCheck.Proofs.Numeral.Denotation

/-!
# `DynCheck.Proofs.Json.Grammar` — the text of a tree is a JSON text

What the printer writes is a text of the document that has the structure of the tree, by induction on
the tree: a number is written as a numeral, a string in quotes, and containers put commas between
what is inside. Numbers that are not finite have no text, and they are the only ones. So the reader,
which knows every text, reads it back.

## Contents
- **Documents.** `Json.document`: how a tree is made up in writing.
- **Numbers.** `isText_of_denotes`, `parse?_of_denotes`; `Json.ofNumber_denotes`.
- **Trees.** `Json.Printable`; `isText_chars`, `parse?_toText_of_printable`; `parse?_toText` for
  canonical trees.
-/

namespace DynCheck.Json

/-! ## Documents -/

mutual

/-- The structure of the text of a tree. -/
def document : Json → Document
  | null => .null
  | boolean b => .boolean b
  | integer i => .number (Bigint.numeral i)
  | double x => .number x.numeral
  | string s => .string (TextUnit.ofString s)
  | array items => .array (itemDocuments items)
  | object members => .object (memberDocuments members)
termination_by structural j => j

def itemDocuments : List Json → List Document
  | [] => []
  | item :: rest => document item :: itemDocuments rest
termination_by structural items => items

def memberDocuments : List (String × Json) → List (List TextUnit × Document)
  | [] => []
  | (key, j) :: rest => (TextUnit.ofString key, document j) :: memberDocuments rest
termination_by structural members => members

end

/-- A member as the printer writes it. -/
def memberText (m : String × Json) : Document.MemberText :=
  ⟨TextUnit.ofString m.1, quoted m.1, m.2.document, m.2.chars⟩

@[simp] theorem itemDocuments_eq_map (items : List Json) : itemDocuments items = items.map document := by
  induction items with
  | nil => rfl
  | cons j rest ih => simp [itemDocuments, ih]

@[simp] theorem memberDocuments_eq_map (members : List (String × Json)) :
    memberDocuments members = (members.map memberText).map fun m => (m.key, m.document) := by
  induction members with
  | nil => rfl
  | cons m rest ih => simp [memberDocuments, ih, memberText]

theorem itemsChars_eq_intercalate (items : List Json) :
    itemsChars items = [','].intercalate (items.map chars) := by
  induction items with
  | nil => rfl
  | cons j rest ih =>
    rw [itemsChars]
    by_cases hlast : rest = []
    · subst hlast
      rw [List.map_singleton, List.intercalate_singleton]
      exact List.append_nil _
    · rw [if_neg (mt List.isEmpty_iff.mp hlast), ih, Document.intercalate_map_cons _ _ hlast]

theorem membersChars_eq_intercalate (members : List (String × Json)) :
    membersChars members =
      [','].intercalate ((members.map memberText).map Document.MemberText.chars) := by
  induction members with
  | nil => rfl
  | cons m rest ih =>
    rw [membersChars, List.map_cons]
    by_cases hlast : rest = []
    · subst hlast
      rw [List.map_nil, List.map_singleton, List.intercalate_singleton]
      exact List.append_nil _
    · rw [if_neg (mt List.isEmpty_iff.mp hlast), ih,
        Document.intercalate_map_cons _ _ (mt List.map_eq_nil_iff.mp hlast)]
      rfl

/-! ## Numbers -/

namespace Document

/-- A numeral that denotes a number is a JSON text. -/
theorem isText_of_denotes {n : Numeral} {text : List Char} {x : Binary64} (h : n.Denotes text x) :
    IsText (.number n) text :=
  .number (h.chars ▸ h.spelled.spelledBy_chars) h.canonical

theorem parse?_of_denotes {n : Numeral} {text : List Char} {x : Binary64} (h : n.Denotes text x) :
    parse? (String.ofList text) = some (.number n) := by
  rw [parse?_eq_some_iff, String.toList_ofList]
  exact isText_of_denotes h

end Document

/-- The text of a finite number in JSON is a numeral that rounds to it. -/
theorem ofNumber_denotes {x : Binary64} (h : x.isFinite = true) : ∃ n : Numeral,
    n.Denotes (ofNumber x).chars x.withoutNegativeZero ∧ (ofNumber x).document = .number n := by
  rcases ofNumber_cases x with ⟨hinfinite, -⟩ | ⟨-, i, hi, htree⟩ | ⟨-, -, htree⟩
  · exact absurd h (Bool.not_eq_true _ ▸ hinfinite)
  · rw [htree, ← hi]
    exact ⟨_, Bigint.numeral_denotes i, rfl⟩
  · rw [htree]
    exact ⟨_, Binary64.numeral_denotes h, rfl⟩

/-! ## Trees -/

open Document

/-- Every double in the tree is finite. -/
inductive Printable : Json → Prop where
  | null : Printable .null
  | boolean (b : Bool) : Printable (.boolean b)
  | integer (i : Int) : Printable (.integer i)
  | double {x : Binary64} (h : x.isFinite = true) : Printable (.double x)
  | string (s : String) : Printable (.string s)
  | array {items : List Json} (h : ∀ j ∈ items, Printable j) : Printable (.array items)
  | object {members : List (String × Json)} (h : ∀ m ∈ members, Printable m.2) :
      Printable (.object members)

/-- **The text of a tree is a text of its document.** -/
theorem isText_chars {j : Json} (h : j.Printable) : IsText j.document j.chars := by
  induction h with
  | null => exact .null
  | boolean b => cases b with
    | true => exact .yes
    | false => exact .no
  | integer i => exact isText_of_denotes (Bigint.numeral_denotes i)
  | double h => exact isText_of_denotes (Binary64.numeral_denotes h)
  | string s => exact isText_quoted s
  | @array items _ ih =>
    rw [document, chars, itemDocuments_eq_map, itemsChars_eq_intercalate]
    by_cases hempty : items = []
    · subst hempty
      exact .emptyArray nofun
    · have htext := @IsText.array (items.map fun j => (j.document, j.chars))
        (mt List.map_eq_nil_iff.mp hempty) (List.forall_mem_map.mpr ih)
      rwa [List.map_map, List.map_map] at htext
  | @object members _ ih =>
    rw [document, chars, memberDocuments_eq_map, membersChars_eq_intercalate]
    by_cases hempty : members = []
    · subst hempty
      exact .emptyObject nofun
    · exact .object (mt List.map_eq_nil_iff.mp hempty)
        (List.forall_mem_map.mpr fun m _ => isText_quoted m.1) (List.forall_mem_map.mpr ih)

/-- **What was printed is read back.** -/
theorem parse?_toText_of_printable {j : Json} (h : j.Printable) :
    Document.parse? j.toText = some j.document := by
  rw [toText_eq, parse?_eq_some_iff, String.toList_ofList]
  exact isText_chars h

theorem Canonical.printable {j : Json} (h : j.Canonical) : j.Printable := by
  induction h with
  | null => exact .null
  | boolean b => exact .boolean b
  | number x =>
    rcases ofNumber_cases x with ⟨-, htree⟩ | ⟨-, i, -, htree⟩ | ⟨hfinite, -, htree⟩
    · exact htree ▸ .null
    · exact htree ▸ .integer i
    · exact htree ▸ .double hfinite
  | string s => exact .string s
  | array _ ih => exact .array ih
  | object _ _ _ ih => exact .object ih

/-- The text of a canonical tree is read back. -/
theorem parse?_toText {j : Json} (h : j.Canonical) :
    Document.parse? j.toText = some j.document := parse?_toText_of_printable h.printable

end DynCheck.Json
