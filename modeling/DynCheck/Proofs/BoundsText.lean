import DynCheck.Proofs.Json.Grammar
import DynCheck.Report.TextBounds

/-!
# `DynCheck.Proofs.BoundsText` — bounds survive their text

Bounds are read from an object by name, so nothing but the members of the two names can matter: not
their order, not what stands between them, and not what other members hold. What an object says is
told by the values of the members of each name. There may be none, and then the bound has its
default; or one, which has to write the bound.

The reader goes through the members once and remembers what it was given. What it gives at the end
is what the remaining members say about a bound that was not given, and the given one if they say
nothing; that is the invariant of the run, and a member of a name takes one step in it.

## Contents
- **Fields.** `WritesBound`, `WritesOptionalBound`; `bound?_eq_some_iff`,
  `optionalBound?_eq_some_iff`.
- **Members.** `valuesOf`, `Written`; `TextBounds.WrittenBy`: what an object says.
- **Run.** `Completed`, `CompletedBy`; `completedBy_cons` for one member,
  `ofMembers?_eq_some_iff_completedBy` for all of them.
- **Texts.** `toJson_writtenBy`; `parsed_iff_written`.
-/

namespace DynCheck.TextBounds

open Json (Document TextUnit)

/-! ## Fields -/

/-- A bound is written in digits, without a sign, a fraction or an exponent. -/
def WritesBound (n : UInt64) (document : Document) : Prop :=
  ∃ digits, document = .number ⟨false, digits, none, none⟩ ∧
    Nat.ofDigitChars 10 digits 0 = n.toNat

/-- No bound is written as `null`. -/
def WritesOptionalBound : Option UInt64 → Document → Prop
  | none, document => document = .null
  | some n, document => WritesBound n document

theorem bound?_eq_some_iff {document : Document} {n : UInt64} :
    bound? document = some n ↔ WritesBound n document := by
  constructor
  · intro h
    cases document with
    | number numeral =>
      obtain ⟨negative, whole, fraction, exponent⟩ := numeral
      rw [bound?] at h
      dsimp only at h
      split at h
      · next hinteger =>
        obtain ⟨hnegative, hfraction, hexponent, hlt⟩ := hinteger
        obtain rfl : negative = false := by simpa using hnegative
        obtain rfl := Option.isNone_iff_eq_none.mp hfraction
        obtain rfl := Option.isNone_iff_eq_none.mp hexponent
        obtain rfl := Option.some.inj h
        exact ⟨whole, rfl, (UInt64.toNat_ofNat_of_lt hlt).symm⟩
      · exact nomatch h
    | _ => exact nomatch h
  · rintro ⟨digits, rfl, hdigits⟩
    simp [bound?, hdigits, n.toNat_lt]

theorem optionalBound?_eq_some_iff {document : Document} {n : Option UInt64} :
    optionalBound? document = some n ↔ WritesOptionalBound n document := by
  cases n with
  | none => cases document <;> simp [optionalBound?, WritesOptionalBound]
  | some n =>
    rw [WritesOptionalBound, ← bound?_eq_some_iff]
    cases document <;> simp [optionalBound?, bound?]

/-! ## Members -/

/-- The values of the members of a name. -/
def valuesOf (name : String) (members : List (List TextUnit × Document)) : List Document :=
  (members.filter fun m => TextUnit.toString? m.1 = some name).map Prod.snd

/-- What the values of a name say about a field: it has its default if there is none, and it is
    written by the only one. -/
def Written {α : Type} (writes : α → Document → Prop) (default : α) (values : List Document)
    (value : α) : Prop :=
  (values = [] ∧ value = default) ∨ ∃ document, values = [document] ∧ writes value document

/-- An object writes bounds if every key is a name, and the two names say the bounds. -/
structure WrittenBy (b : TextBounds) (members : List (List TextUnit × Document)) : Prop where
  names : ∀ m ∈ members, (TextUnit.toString? m.1).isSome = true
  maxDepth : Written WritesBound ({} : TextBounds).maxDepth (valuesOf "maxDepth" members) b.maxDepth
  maxLength : Written WritesOptionalBound ({} : TextBounds).maxLength
    (valuesOf "maxLength" members) b.maxLength

theorem valuesOf_cons {name key : String} {units : List TextUnit}
    (hkey : TextUnit.toString? units = some key) (document : Document)
    (members : List (List TextUnit × Document)) :
    valuesOf name ((units, document) :: members) =
      if key = name then document :: valuesOf name members else valuesOf name members := by
  unfold valuesOf
  by_cases h : key = name <;> simp [hkey, h]

/-! ## Run -/

section Completed

variable {α : Type} {writes : α → Document → Prop} {default value : α}

/-- What the values that are still to come say about a field, of which a value may have been given
    already: nothing more can be given then. -/
def Completed (writes : α → Document → Prop) (default : α) (given : Option α)
    (values : List Document) (value : α) : Prop :=
  match given with
  | none => Written writes default values value
  | some first => values = [] ∧ value = first

theorem completed_nil {given : Option α} :
    Completed writes default given [] value ↔ value = given.getD default := by
  cases given <;> simp [Completed, Written]

/-- One more value can only be the first. -/
theorem completed_cons {given : Option α} {document : Document} {values : List Document} :
    Completed writes default given (document :: values) value ↔
      given = none ∧ ∃ first, writes first document ∧
        Completed writes default (some first) values value := by
  cases given with
  | some first => simp [Completed]
  | none =>
    simp only [Completed, Written, List.cons_ne_nil, false_and, false_or, true_and,
      List.cons.injEq]
    constructor
    · rintro ⟨d, ⟨rfl, hnil⟩, hwrites⟩
      exact ⟨value, hwrites, hnil, rfl⟩
    · rintro ⟨first, hwrites, hnil, rfl⟩
      exact ⟨document, ⟨rfl, hnil⟩, hwrites⟩

end Completed

/-- A field that was not given yet is given what is read. -/
theorem once_eq_some_iff {α : Type} {given found : Option α} {set : α → Given} {next : Given} :
    (if given.isSome then none else found.map set) = some next ↔
      given = none ∧ ∃ n, found = some n ∧ set n = next := by
  cases given <;> simp

theorem setMember?_maxDepth_eq_some_iff {given next : Given} {document : Document} :
    setMember? given "maxDepth" document = some next ↔
      given.maxDepth = none ∧
        ∃ n, WritesBound n document ∧ { given with maxDepth := some n } = next := by
  simp only [setMember?, if_true, once_eq_some_iff, bound?_eq_some_iff]

theorem setMember?_maxLength_eq_some_iff {given next : Given} {document : Document} :
    setMember? given "maxLength" document = some next ↔
      given.maxLength = none ∧
        ∃ n, WritesOptionalBound n document ∧ { given with maxLength := some n } = next := by
  have hne : "maxLength" ≠ "maxDepth" := by decide
  simp only [setMember?, if_neg hne, if_true, once_eq_some_iff, optionalBound?_eq_some_iff]

theorem setMember?_other {name : String} (hdepth : name ≠ "maxDepth") (hlength : name ≠ "maxLength")
    (given : Given) (document : Document) : setMember? given name document = some given := by
  rw [setMember?, if_neg hdepth, if_neg hlength]

/-- What the members that are still to come say about the bounds. -/
@[mk_iff]
structure CompletedBy (given : Given) (members : List (List TextUnit × Document)) (b : TextBounds) :
    Prop where
  names : ∀ m ∈ members, (TextUnit.toString? m.1).isSome = true
  maxDepth : Completed WritesBound ({} : TextBounds).maxDepth given.maxDepth
    (valuesOf "maxDepth" members) b.maxDepth
  maxLength : Completed WritesOptionalBound ({} : TextBounds).maxLength given.maxLength
    (valuesOf "maxLength" members) b.maxLength

/-- A member takes one step in what is said. -/
theorem completedBy_cons {given : Given} {units : List TextUnit} {key : String}
    (hkey : TextUnit.toString? units = some key) {document : Document}
    {members : List (List TextUnit × Document)} {b : TextBounds} :
    CompletedBy given ((units, document) :: members) b ↔
      ∃ next, setMember? given key document = some next ∧ CompletedBy next members b := by
  have hname : (TextUnit.toString? units).isSome = true := hkey ▸ rfl
  rw [completedBy_iff, List.forall_mem_cons, valuesOf_cons hkey, valuesOf_cons hkey]
  simp only [completedBy_iff, hname, true_and]
  by_cases hdepth : key = "maxDepth"
  -- The first member of a name gives its field and touches no other; a second one gives nothing.
  · subst hdepth
    rw [if_pos rfl, if_neg (by decide), completed_cons]
    simp only [setMember?_maxDepth_eq_some_iff]
    constructor
    · rintro ⟨hnames, ⟨hnone, n, hwrites, hdepth⟩, hlength⟩
      exact ⟨_, ⟨hnone, n, hwrites, rfl⟩, hnames, hdepth, hlength⟩
    · rintro ⟨_, ⟨hnone, n, hwrites, rfl⟩, hnames, hdepth, hlength⟩
      exact ⟨hnames, ⟨hnone, n, hwrites, hdepth⟩, hlength⟩
  by_cases hlength : key = "maxLength"
  · subst hlength
    rw [if_neg (by decide), if_pos rfl, completed_cons]
    simp only [setMember?_maxLength_eq_some_iff]
    constructor
    · rintro ⟨hnames, hdepth, hnone, n, hwrites, hlength⟩
      exact ⟨_, ⟨hnone, n, hwrites, rfl⟩, hnames, hdepth, hlength⟩
    · rintro ⟨_, ⟨hnone, n, hwrites, rfl⟩, hnames, hdepth, hlength⟩
      exact ⟨hnames, hdepth, hnone, n, hwrites, hlength⟩
  · rw [if_neg hdepth, if_neg hlength, setMember?_other hdepth hlength]
    simp only [Option.some.injEq, exists_eq_left']

/-- What is given at the end is what the members say about what was not given before. -/
theorem ofMembers?_eq_some_iff_completedBy {given : Given} {b : TextBounds}
    {members : List (List TextUnit × Document)} :
    ofMembers? given members = some b ↔ CompletedBy given members b := by
  -- Every member changes what was given, so the induction is for all of that at once.
  induction members generalizing given with
  | nil =>
    obtain ⟨depth, length⟩ := b
    constructor
    · intro h
      obtain ⟨rfl, rfl⟩ := TextBounds.mk.inj (Option.some.inj h)
      exact ⟨nofun, completed_nil.mpr rfl, completed_nil.mpr rfl⟩
    · rintro ⟨-, hdepth, hlength⟩
      obtain rfl : depth = _ := completed_nil.mp hdepth
      obtain rfl : length = _ := completed_nil.mp hlength
      rfl
  | cons m rest ih =>
    obtain ⟨units, document⟩ := m
    cases hkey : TextUnit.toString? units with
    | none =>
      have hname : ¬ (TextUnit.toString? units).isSome = true := by simp [hkey]
      rw [ofMembers?, hkey]
      exact ⟨nofun, fun h => absurd (h.names _ List.mem_cons_self) hname⟩
    | some key =>
      rw [completedBy_cons hkey, ofMembers?, hkey]
      dsimp only
      cases setMember? given key document with
      | none => simp
      | some next => simpa using ih

/-- **Reading an object gives the bounds that it writes**, and no other object is read. -/
theorem ofMembers?_eq_some_iff {b : TextBounds} {members : List (List TextUnit × Document)} :
    ofMembers? {} members = some b ↔ b.WrittenBy members := by
  rw [ofMembers?_eq_some_iff_completedBy]
  exact ⟨fun ⟨hnames, hdepth, hlength⟩ => ⟨hnames, hdepth, hlength⟩,
    fun ⟨hnames, hdepth, hlength⟩ => ⟨hnames, hdepth, hlength⟩⟩

/-! ## Texts -/

theorem toJson_printable (b : TextBounds) : b.toJson.Printable := by
  obtain ⟨depth, length⟩ := b
  refine .object (List.forall_mem_cons.mpr ⟨.integer _, List.forall_mem_singleton.mpr ?_⟩)
  cases length with
  | none => exact .null
  | some n => exact .integer _

/-- An integer is written in the digits of the bound. -/
theorem writesBound_integer (n : UInt64) : WritesBound n (Json.integer n.toNat).document := by
  refine ⟨Nat.toDigits 10 n.toNat, ?_, Nat.ofDigitChars_ten_toDigits⟩
  have hnegative : ¬ (n.toNat : Int) < 0 := Int.not_lt.mpr (Int.natCast_nonneg _)
  rw [Json.document, Bigint.numeral, decide_eq_false hnegative, Int.natAbs_natCast]

theorem toJson_writtenBy (b : TextBounds) :
    ∃ members, b.toJson.document = .object members ∧ b.WrittenBy members := by
  obtain ⟨depth, length⟩ := b
  have hname : ∀ name, (TextUnit.toString? (TextUnit.ofString name)).isSome = true := by
    intro name
    rw [TextUnit.toString?_ofString]
    rfl
  refine ⟨_, rfl, List.forall_mem_cons.mpr ⟨hname _, List.forall_mem_singleton.mpr (hname _)⟩,
    .inr ⟨_, rfl, writesBound_integer depth⟩, .inr ⟨_, rfl, ?_⟩⟩
  cases length with
  | none => rfl
  | some n => exact writesBound_integer n

/-- **Bounds survive their text.** The text of bounds is read as these bounds. So is every text of an
    object that writes them, wherever the two members stand and whatever other members there are;
    and no other object is read as them. -/
theorem parsed_iff_written :
    (∀ b : TextBounds, parse? b.toJson.toText = some b) ∧
    ∀ (b : TextBounds) (members : List (List TextUnit × Document)) (text : String),
      Document.IsText (.object members) text.toList →
        (parse? text = some b ↔ b.WrittenBy members) := by
  have hobject : ∀ {b : TextBounds} {members : List (List TextUnit × Document)} {text : String},
      Document.parse? text = some (.object members) →
        (parse? text = some b ↔ b.WrittenBy members) := by
    intro b members text h
    rw [parse?, h]
    exact ofMembers?_eq_some_iff
  constructor
  · intro b
    obtain ⟨members, hmembers, hwritten⟩ := toJson_writtenBy b
    have hparse := Json.parse?_toText_of_printable (toJson_printable b)
    exact (hobject (hmembers ▸ hparse)).mpr hwritten
  · exact fun _ _ _ htext => hobject (Document.parse?_eq_some_iff.mpr htext)

/-- An escape in the name, blanks, another member in front that no string could hold, and the
    greatest bound that there is. -/
theorem parsed_iff_written_anyhow :
    let b : TextBounds := ⟨0xffffffffffffffff, none⟩
    let text := "\x7b\"x\":[\"\\ud800\",-0],\"\\u006daxDepth\" : 18446744073709551615\x7d"
    ∃ members, Document.IsText (.object members) text.toList ∧ b.WrittenBy members ∧
      parse? text = some b := by
  intro b text
  let members : List (List TextUnit × Document) := [
    ([.char 'x'], .array [.string [.code 0xd800], .number ⟨true, ['0'], none, none⟩]),
    (.code 0x6d :: "axDepth".toList.map .char,
      .number ⟨false, "18446744073709551615".toList, none, none⟩)]
  have hparse : Document.parse? text = some (.object members) := by
    simp only [text, Document.parse?, String.reduceToList]
    rfl
  have htext := Document.parse?_eq_some_iff.mp hparse
  have hwritten : b.WrittenBy members :=
    ⟨by decide, .inr ⟨_, rfl, _, rfl, by decide⟩, .inl ⟨rfl, rfl⟩⟩
  exact ⟨members, htext, hwritten, (parsed_iff_written.2 b members text htext).mpr hwritten⟩

end DynCheck.TextBounds
