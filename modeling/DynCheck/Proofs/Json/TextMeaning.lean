import DynCheck.Json.Reader
import DynCheck.Proofs.Json.Failure
import DynCheck.Proofs.Json.Grammar

/-!
# `DynCheck.Proofs.Json.TextMeaning` — what a JSON text says about its value

A value goes out as text, and someone else reads the text. A reader that rounds each number once,
keeps members in order and has room for the containers gets a tree in which every number is a
double. That is not the tree that was written, but it comes back as the same value.

## Contents
- **Doubles.** `Json.asDoubles`; `Value.ofJson_asDoubles`.
- **Reading.** `toJson?_number`, `toJson?_document`.
- **Text.** `Value.toJsonText_reads`.
-/

namespace DynCheck

namespace Json

/-! ## Doubles -/

mutual

/-- The tree with its integers as doubles. -/
def asDoubles : Json → Json
  | integer i => double (Binary64.ofInt i)
  | array items => array (itemsAsDoubles items)
  | object members => object (membersAsDoubles members)
  | leaf => leaf
termination_by structural j => j

def itemsAsDoubles : List Json → List Json
  | [] => []
  | j :: rest => asDoubles j :: itemsAsDoubles rest
termination_by structural items => items

def membersAsDoubles : List (String × Json) → List (String × Json)
  | [] => []
  | (key, j) :: rest => (key, asDoubles j) :: membersAsDoubles rest
termination_by structural members => members

end

theorem keys_membersAsDoubles (members : List (String × Json)) :
    Properties.keys (membersAsDoubles members) = Properties.keys members := by
  induction members with
  | nil => rfl
  | cons m rest ih => exact congrArg (m.1 :: ·) ih

end Json

namespace Value

/-- A tree and the tree of its doubles come back as the same value. -/
theorem ofJson_asDoubles (j : Json) : ofJson j.asDoubles = ofJson j := by
  induction j with
  | null | boolean | integer | double | string => rfl
  | array items ih =>
    have hitems : ofJsonItems (Json.itemsAsDoubles items) = ofJsonItems items := by
      induction items with
      | nil => rfl
      | cons j rest ihrest =>
        obtain ⟨hj, hrest⟩ := List.forall_mem_cons.mp ih
        rw [Json.itemsAsDoubles, ofJsonItems, ofJsonItems, hj, ihrest hrest]
    rw [Json.asDoubles, ofJson, ofJson, hitems]
  | object members ih =>
    have hmembers : ofJsonMembers (Json.membersAsDoubles members) = ofJsonMembers members := by
      induction members with
      | nil => rfl
      | cons m rest ihrest =>
        obtain ⟨hm, hrest⟩ := List.forall_mem_cons.mp ih
        rw [Json.membersAsDoubles, ofJsonMembers, ofJsonMembers, hm, ihrest hrest]
    rw [Json.asDoubles, ofJson, ofJson, hmembers]

end Value

namespace Json

/-! ## Reading -/

open Document

theorem nearest?_of_denotes {n : Numeral} {text : List Char} {x : Binary64}
    (h : n.Denotes text x) (hfinite : x.isFinite = true) : n.nearest? = some (.double x) := by
  rw [Numeral.nearest?, h.nearest, Binary64.isInfinite_of_isFinite hfinite]
  rfl

theorem isFinite_withoutNegativeZero {x : Binary64} (h : x.isFinite = true) :
    x.withoutNegativeZero.isFinite = true := by
  unfold Binary64.withoutNegativeZero
  split
  · rfl
  · exact h

/-- The text of a number is read as the double that the number is. -/
theorem toJson?_number (x : Binary64) (levels : Nat) :
    (ofNumber x).document.toJson? Numeral.nearest? levels = some (ofNumber x).asDoubles := by
  cases hfinite : x.isFinite with
  | false =>
    rw [ofNumber, hfinite]
    rfl
  | true =>
    have hasDoubles : (ofNumber x).asDoubles = .double x.withoutNegativeZero := by
      rcases ofNumber_cases x with ⟨h, -⟩ | ⟨-, i, hi, htree⟩ | ⟨-, hsame, htree⟩
      · exact absurd hfinite (Bool.not_eq_true _ ▸ h)
      · rw [htree, asDoubles, hi]
      · rw [htree, hsame]
        rfl
    obtain ⟨n, hdenotes, hdocument⟩ := ofNumber_denotes hfinite
    rw [hdocument, hasDoubles]
    exact nearest?_of_denotes hdenotes (isFinite_withoutNegativeZero hfinite)

theorem itemsToJson?_itemDocuments {items : List Json} {levels : Nat}
    (h : ∀ j ∈ items, j.document.toJson? Numeral.nearest? levels = some j.asDoubles) :
    itemsToJson? Numeral.nearest? levels (itemDocuments items) = some (itemsAsDoubles items) := by
  induction items with
  | nil => rfl
  | cons j rest ih =>
    obtain ⟨hj, hrest⟩ := List.forall_mem_cons.mp h
    rw [itemDocuments, itemsToJson?, hj, ih hrest]
    rfl

theorem membersToJson?_memberDocuments {members : List (String × Json)} {levels : Nat}
    (h : ∀ m ∈ members, m.2.document.toJson? Numeral.nearest? levels = some m.2.asDoubles) :
    membersToJson? Numeral.nearest? levels (memberDocuments members) =
      some (membersAsDoubles members) := by
  induction members with
  | nil => rfl
  | cons m rest ih =>
    obtain ⟨hm, hrest⟩ := List.forall_mem_cons.mp h
    rw [memberDocuments, membersToJson?, TextUnit.toString?_ofString, hm, ih hrest]
    rfl

/-- **The text of a tree is read as the tree of its doubles.** -/
theorem toJson?_document {j : Json} (h : j.Canonical) {levels : Nat}
    (hlevels : j.nesting ≤ levels) :
    j.document.toJson? Numeral.nearest? levels = some j.asDoubles := by
  induction h generalizing levels with
  | null | boolean => rfl
  | number x => exact toJson?_number x levels
  | string s => exact congrArg (Option.map Json.string) (TextUnit.toString?_ofString s)
  | @array items _ ih =>
    obtain ⟨deeper, rfl, hitems⟩ := Value.exists_deeper hlevels
    rw [itemsNesting_le_iff] at hitems
    have hread := itemsToJson?_itemDocuments fun j hj => ih j hj (hitems j hj)
    rw [document, toJson?, hread, asDoubles, Option.map_some]
  | @object members nodup _ _ ih =>
    obtain ⟨deeper, rfl, hmembers⟩ := Value.exists_deeper hlevels
    rw [membersNesting_le_iff] at hmembers
    have hread := membersToJson?_memberDocuments fun m hm => ih m hm (hmembers m hm)
    rw [← keys_membersAsDoubles] at nodup
    rw [document, toJson?, hread, asDoubles, Option.map_some, Properties.ofList_eq_self nodup]

end Json

namespace Value

/-! ## Text -/

/-- **The text of a value says what its tree says.** There is a text exactly if there is a tree,
    and an error exactly if that error stands in the way of the tree; that a tree is not written is
    never the error. The text is a JSON text. A reader that rounds each number to the nearest double, keeps members in order, and allows at
    least as many levels as there were when the text was written, makes of it a tree that comes
    back as the same value as the tree that was written. -/
theorem toJsonText_reads (limit : Nat) {v : Value} (hv : v.WellFormed) :
    (v.toJsonText limit = .ok none ↔ v.toJson limit = .ok none) ∧
    (∀ e, v.toJsonText limit = .error e ↔ v.toJson limit = .error e) ∧
    (∀ reason, v.toJsonText limit ≠ .error (.write reason)) ∧
    ∀ j, v.toJson limit = .ok (some j) → ∃ text document tree,
      v.toJsonText limit = .ok (some text) ∧ Json.Document.parse? text = some document ∧
      (∀ levels, limit ≤ levels → document.toJson? Numeral.nearest? levels = some tree) ∧
      ∀ supply supply', ((ofJson tree).run supply).1.SameStructure ((ofJson j).run supply').1 := by
  have herror : ∀ e, v.toJsonText limit = .error e ↔ v.toJson limit = .error e := fun e => by
    cases h : v.toJson limit <;> simp [h, Except.map]
  refine ⟨?none, herror, fun reason hwrite => ?written, fun j hj => ?_⟩
  case none =>
    cases h : v.toJson limit with
    | error e => simp [h, Except.map]
    | ok tree => cases tree <;> simp [h, Except.map]
  case written =>
    have := eq_of_toJson_error ((herror _).mp hwrite)
    simp at this
  · obtain ⟨form, -, hdescribes⟩ := exists_describes hv hj
    have htext : v.toJsonText limit = .ok (some j.toText) := by simp [hj, Except.map]
    refine ⟨j.toText, j.document, j.asDoubles, htext, Json.parse?_toText hdescribes.canonical,
      fun levels hlevels => ?_, fun supply supply' => ?_⟩
    · exact Json.toJson?_document hdescribes.canonical (Nat.le_trans hdescribes.nesting hlevels)
    · rw [ofJson_asDoubles]
      exact (hdescribes.reads supply).trans (hdescribes.reads supply').symm

/-- An exponent, a negative zero, an item that leaves null, and escapes in a key and in a string. -/
theorem toJsonText_reads_escaped :
    let v : Value := object ⟨0⟩ none [("\"", string "\n\x01"),
      ("0", array ⟨1⟩ [number ⟨0x444b1ae4d6e2ef50⟩, number ⟨0x8000000000000000⟩, undefined])]
    let j : Json := .object [("0", .array [.double ⟨0x444b1ae4d6e2ef50⟩, .integer 0, .null]),
      ("\"", .string "\n\x01")]
    let text := "\x7b\"0\":[1e+21,0,null],\"\\\"\":\"\\n\\u0001\"\x7d"
    v.WellFormed ∧ v.toJson 2 = .ok (some j) ∧ v.toJsonText 2 = .ok (some text) ∧
      ∃ document tree, Json.Document.parse? text = some document ∧
        (∀ levels, 2 ≤ levels → document.toJson? Numeral.nearest? levels = some tree) ∧
        ∀ supply supply',
          ((ofJson tree).run supply).1.SameStructure ((ofJson j).run supply').1 := by
  intro v j text
  have hv : v.WellFormed := .object _ _ (by decide) (List.forall_mem_cons.mpr ⟨.leaf rfl,
    List.forall_mem_singleton.mpr (.array _ (List.forall_mem_cons.mpr ⟨.leaf rfl,
      List.forall_mem_cons.mpr ⟨.leaf rfl, List.forall_mem_singleton.mpr (.leaf rfl)⟩⟩))⟩)
  have hquote : Key.index? "\"" = none := by decide
  have hindex : Key.index? "0" = some 0 := by decide
  have hlisted : ∀ {α : Type} (s i : α),
      Properties.enumerate [("\"", s), ("0", i)] = [("0", i), ("\"", s)] := fun s i =>
    Properties.enumerate_concat [("\"", s)] i (List.forall_mem_singleton.mpr hquote) hindex
  have hj : v.toJson 2 = .ok (some j) := by
    rw [toJson, toJsonWithin]
    dsimp only [membersToJson]
    rw [hlisted]
    rfl
  obtain ⟨text', document, tree, htext, hparse, h⟩ := (toJsonText_reads 2 hv).2.2.2 j hj
  have hsame : j.toText = text := by decide +kernel
  have hwritten : v.toJsonText 2 = .ok (some text) := by simp [hj, hsame, Except.map]
  rw [hwritten, Except.ok.injEq, Option.some.injEq] at htext
  exact ⟨hv, hj, hwritten, document, tree, htext ▸ hparse, h⟩

end Value

end DynCheck
