import DynCheck.Json.Document
import DynCheck.Proofs.Numeral.Spelling

/-!
# `DynCheck.Proofs.Json.Step` — what one step of the JSON reader does

The readers of values, items and members call one another, and each looks at the text behind its
blanks to see how to go on. All that one of them can do is told once, as a relation with a case for
each kind of text. For items and members the relation says just what is read; for values it is told
of a text that starts with no blank, since that is where a value is recognised.

## Contents
- **Blanks.** What is skipped, and that every reader skips it.
- **Steps.** `ValueStep`, `ItemsStep`, `MemberStep`, `MembersStep`; `items?_eq_some_iff`,
  `members?_eq_some_iff`.
- **Values.** `step_of_value?`, `value?_of_step`; in between, that nothing that is read starts with
  a closing bracket, so that a container is known to be empty by its first character.
-/

namespace DynCheck.Json.Document

/-! ## Blanks -/

/-- What is skipped are blanks. -/
theorem exists_blanks (cs : List Char) :
    ∃ blanks, (∀ c ∈ blanks, isBlank c = true) ∧ cs = blanks ++ skipBlanks cs :=
  ⟨cs.takeWhile isBlank, fun _ hc => List.all_eq_true.mp List.all_takeWhile _ hc,
    List.takeWhile_append_dropWhile.symm⟩

theorem skipBlanks_append {blanks : List Char} (h : ∀ c ∈ blanks, isBlank c = true)
    (cs : List Char) : skipBlanks (blanks ++ cs) = skipBlanks cs := List.dropWhile_append_of_pos h

theorem skipBlanks_cons {c : Char} (h : isBlank c = false) (cs : List Char) :
    skipBlanks (c :: cs) = c :: cs :=
  List.dropWhile_cons_of_neg (Bool.not_eq_true _ ▸ h)

@[simp] theorem skipBlanks_skipBlanks (cs : List Char) : skipBlanks (skipBlanks cs) = skipBlanks cs := by
  obtain ⟨blanks, hblanks, heq⟩ := exists_blanks cs
  calc skipBlanks (skipBlanks cs) = skipBlanks (blanks ++ skipBlanks cs) :=
        (skipBlanks_append hblanks _).symm
    _ = skipBlanks cs := by rw [← heq]

/-- No number goes on with a blank. -/
theorem ends_of_isBlank {c : Char} (h : isBlank c = true) (cs : List Char) :
    Numeral.Ends (c :: cs) := by
  refine Numeral.ends_cons ?_
  simp only [isBlank, Bool.or_eq_true, beq_iff_eq] at h
  rcases h with ((rfl | rfl) | rfl) | rfl <;> decide

@[simp] theorem value?_skipBlanks (fuel : Nat) (cs : List Char) :
    value? fuel (skipBlanks cs) = value? fuel cs := by
  cases fuel with
  | zero => rfl
  | succ fuel => simp only [value?, skipBlanks_skipBlanks]

@[simp] theorem items?_skipBlanks (fuel : Nat) (cs : List Char) :
    items? fuel (skipBlanks cs) = items? fuel cs := by
  cases fuel with
  | zero => rfl
  | succ fuel => simp only [items?, value?_skipBlanks]

@[simp] theorem members?_skipBlanks (fuel : Nat) (cs : List Char) :
    members? fuel (skipBlanks cs) = members? fuel cs := by
  cases fuel with
  | zero => rfl
  | succ fuel => simp only [members?, skipBlanks_skipBlanks]

/-! ## Steps -/

/-- All that reading a value can do with a text that starts with no blank: the document that it
    gives and what it leaves. -/
inductive ValueStep (fuel : Nat) : List Char → Document → List Char → Prop where
  | null {rest : List Char} : ValueStep fuel ("null".toList ++ rest) .null rest
  | yes {rest : List Char} : ValueStep fuel ("true".toList ++ rest) (.boolean true) rest
  | no {rest : List Char} : ValueStep fuel ("false".toList ++ rest) (.boolean false) rest
  | number {cs rest : List Char} {n : Numeral} (h : Numeral.scan? cs = some (n, rest))
      (hzero : n.hasLeadingZero = false) : ValueStep fuel cs (.number n) rest
  | string {body rest : List Char} {units : List TextUnit}
      (h : stringBody? body = some (units, rest)) :
      ValueStep fuel ('"' :: body) (.string units) rest
  | emptyArray {inside rest : List Char} (h : skipBlanks inside = ']' :: rest) :
      ValueStep fuel ('[' :: inside) (.array []) rest
  | array {inside rest : List Char} {items : List Document}
      (h : items? fuel inside = some (items, rest)) :
      ValueStep fuel ('[' :: inside) (.array items) rest
  | emptyObject {inside rest : List Char} (h : skipBlanks inside = '\x7d' :: rest) :
      ValueStep fuel ('\x7b' :: inside) (.object []) rest
  | object {inside rest : List Char} {members : List (List TextUnit × Document)}
      (h : members? fuel inside = some (members, rest)) :
      ValueStep fuel ('\x7b' :: inside) (.object members) rest

/-- All that reading items can do: the last item, or an item and those behind the comma. -/
inductive ItemsStep (fuel : Nat) (cs : List Char) : List Document → List Char → Prop where
  | last {item : Document} {between rest : List Char} (h : value? fuel cs = some (item, between))
      (hclose : skipBlanks between = ']' :: rest) : ItemsStep fuel cs [item] rest
  | more {item : Document} {items : List Document} {between behind rest : List Char}
      (h : value? fuel cs = some (item, between)) (hcomma : skipBlanks between = ',' :: behind)
      (hmore : items? fuel behind = some (items, rest)) : ItemsStep fuel cs (item :: items) rest

/-- All that reading a member can do: a key in quotes, a colon, and a value. -/
inductive MemberStep (fuel : Nat) (cs : List Char) :
    List TextUnit → Document → List Char → Prop where
  | intro {key : List TextUnit} {document : Document} {body behindKey text between : List Char}
      (hquote : skipBlanks cs = '"' :: body) (hkey : stringBody? body = some (key, behindKey))
      (hcolon : skipBlanks behindKey = ':' :: text)
      (h : value? fuel text = some (document, between)) : MemberStep fuel cs key document between

/-- All that reading members can do. -/
inductive MembersStep (fuel : Nat) (cs : List Char) :
    List (List TextUnit × Document) → List Char → Prop where
  | last {key : List TextUnit} {document : Document} {between rest : List Char}
      (h : MemberStep fuel cs key document between) (hclose : skipBlanks between = '\x7d' :: rest) :
      MembersStep fuel cs [(key, document)] rest
  | more {key : List TextUnit} {document : Document} {members : List (List TextUnit × Document)}
      {between behind rest : List Char} (h : MemberStep fuel cs key document between)
      (hcomma : skipBlanks between = ',' :: behind)
      (hmore : members? fuel behind = some (members, rest)) :
      MembersStep fuel cs ((key, document) :: members) rest

/-- A reader that does something to what another reader gives leaves what the other leaves. -/
theorem map_fst_eq_some_iff {α β : Type} {f : α → β} {found : Option (α × List Char)} {b : β}
    {rest : List Char} :
    (found.map fun (a, after) => (f a, after)) = some (b, rest) ↔
      ∃ a, found = some (a, rest) ∧ f a = b := by
  cases found with
  | none => simp
  | some found =>
    obtain ⟨a, after⟩ := found
    simp only [Option.map_some, Option.some.injEq, Prod.mk.injEq]
    constructor
    · rintro ⟨hb, hrest⟩
      exact ⟨a, ⟨rfl, hrest⟩, hb⟩
    · rintro ⟨_, ⟨rfl, hrest⟩, hb⟩
      exact ⟨hb, hrest⟩

theorem items?_eq_some_iff {fuel : Nat} {cs rest : List Char} {items : List Document} :
    items? (fuel + 1) cs = some (items, rest) ↔ ItemsStep fuel cs items rest := by
  rw [items?]
  constructor
  · intro h
    split at h
    · exact nomatch h
    · next item between hvalue =>
      split at h
      · next behind hcomma =>
        obtain ⟨others, hmore, rfl⟩ := map_fst_eq_some_iff.mp h
        exact .more hvalue hcomma hmore
      · next after hclose =>
        obtain ⟨rfl, rfl⟩ := Prod.mk.inj (Option.some.inj h)
        exact .last hvalue hclose
      · exact nomatch h
  · intro h
    cases h with
    | last h hclose => simp only [h, hclose]
    | more h hcomma hmore => simp only [h, hcomma, hmore, Option.map_some]

theorem members?_eq_some_iff {fuel : Nat} {cs rest : List Char}
    {members : List (List TextUnit × Document)} :
    members? (fuel + 1) cs = some (members, rest) ↔ MembersStep fuel cs members rest := by
  rw [members?]
  constructor
  · intro h
    split at h
    · next body hquote =>
      split at h
      · exact nomatch h
      · next key behindKey hkey =>
        split at h
        · next text hcolon =>
          split at h
          · exact nomatch h
          · next document between hvalue =>
            have hmember : MemberStep fuel cs key document between := ⟨hquote, hkey, hcolon, hvalue⟩
            split at h
            · next behind hcomma =>
              obtain ⟨others, hmore, rfl⟩ := map_fst_eq_some_iff.mp h
              exact .more hmember hcomma hmore
            · next after hclose =>
              obtain ⟨rfl, rfl⟩ := Prod.mk.inj (Option.some.inj h)
              exact .last hmember hclose
            · exact nomatch h
        · exact nomatch h
    · exact nomatch h
  · intro h
    cases h with
    | last h hclose =>
      obtain ⟨hquote, hkey, hcolon, hvalue⟩ := h
      simp only [hquote, hkey, hcolon, hvalue, hclose]
    | more h hcomma hmore =>
      obtain ⟨hquote, hkey, hcolon, hvalue⟩ := h
      simp only [hquote, hkey, hcolon, hvalue, hcomma, hmore, Option.map_some]

/-- What follows a word, with the document that the word stands for. -/
theorem map_afterWord?_eq_some_iff {word cs rest : List Char} {b document : Document} :
    (afterWord? word cs).map (fun after => (b, after)) = some (document, rest) ↔
      cs = word ++ rest ∧ b = document := by
  unfold afterWord?
  constructor
  · intro h
    split at h
    · next hword =>
      obtain ⟨behind, rfl⟩ := List.isPrefixOf_iff_prefix.mp hword
      rw [Option.map_some, List.drop_left, Option.some.injEq, Prod.mk.injEq] at h
      exact ⟨congrArg _ h.2, h.1⟩
    · exact nomatch h
  · rintro ⟨rfl, rfl⟩
    rw [if_pos (List.isPrefixOf_iff_prefix.mpr (List.prefix_append _ _)), List.drop_left]
    rfl

/-! ## Values -/

theorem step_of_value? {fuel : Nat} {cs rest : List Char} {document : Document}
    (h : value? (fuel + 1) cs = some (document, rest)) :
    ValueStep fuel (skipBlanks cs) document rest := by
  rw [value?] at h
  split at h
  · exact nomatch h
  next c tail heq =>
  rw [heq]
  -- The first character decides what there is to be read.
  split at h
  · next hn =>
    obtain ⟨rfl, rfl⟩ := map_afterWord?_eq_some_iff.mp h
    exact hn ▸ .null
  split at h
  · next ht =>
    obtain ⟨rfl, rfl⟩ := map_afterWord?_eq_some_iff.mp h
    exact ht ▸ .yes
  split at h
  · next hf =>
    obtain ⟨rfl, rfl⟩ := map_afterWord?_eq_some_iff.mp h
    exact hf ▸ .no
  split at h
  · next hquote =>
    obtain ⟨units, hbody, rfl⟩ := map_fst_eq_some_iff.mp h
    exact hquote ▸ .string hbody
  split at h
  · next hbracket =>
    rw [hbracket]
    split at h
    · next after hclose =>
      obtain ⟨rfl, rfl⟩ := Prod.mk.inj (Option.some.inj h)
      exact .emptyArray hclose
    · obtain ⟨items, hitems, rfl⟩ := map_fst_eq_some_iff.mp h
      exact .array (items?_skipBlanks fuel tail ▸ hitems)
  split at h
  · next hbrace =>
    rw [hbrace]
    split at h
    · next after hclose =>
      obtain ⟨rfl, rfl⟩ := Prod.mk.inj (Option.some.inj h)
      exact .emptyObject hclose
    · obtain ⟨members, hmembers, rfl⟩ := map_fst_eq_some_iff.mp h
      exact .object (members?_skipBlanks fuel tail ▸ hmembers)
  rw [number?] at h
  split at h
  · next n after hscan =>
    split at h
    · exact nomatch h
    · next hzero =>
      obtain ⟨rfl, rfl⟩ := Prod.mk.inj (Option.some.inj h)
      exact .number hscan (Bool.eq_false_iff.mpr hzero)
  · exact nomatch h

/-- A digit or a minus sign is no blank, no closing bracket, and nothing that a value other than a
    number starts with. -/
theorem number_start {c : Char} (h : c.isDigit = true ∨ c = '-') :
    isBlank c = false ∧ c ≠ ']' ∧ c ≠ 'n' ∧ c ≠ 't' ∧ c ≠ 'f' ∧ c ≠ '"' ∧ c ≠ '[' ∧ c ≠ '\x7b' := by
  have hne : ∀ d : Char, d.isDigit = false → d ≠ '-' → c ≠ d := by
    rintro d hdigit hminus rfl
    rw [hdigit] at h
    exact h.elim Bool.false_ne_true hminus
  have hblank : isBlank c = false := by
    simp only [isBlank, Bool.or_eq_false_iff, beq_eq_false_iff_ne]
    refine ⟨⟨⟨?_, ?_⟩, ?_⟩, ?_⟩ <;> exact hne _ (by decide) (by decide)
  refine ⟨hblank, ?_, ?_, ?_, ?_, ?_, ?_, ?_⟩ <;> exact hne _ (by decide) (by decide)

/-- Nothing that is read as a value starts with a closing bracket. -/
theorem ne_close_of_value? {fuel : Nat} {cs rest : List Char} {document : Document}
    (h : value? fuel cs = some (document, rest)) (after : List Char) :
    skipBlanks cs ≠ ']' :: after := by
  intro hclose
  cases fuel with
  | zero => exact nomatch h
  | succ fuel =>
    have hstep := step_of_value? h
    rw [hclose] at hstep
    generalize htext : ']' :: after = text at hstep
    cases hstep with
    | number hscan =>
      obtain ⟨text, hspelled, rfl⟩ := Numeral.exists_spelledBy hscan
      obtain ⟨c, tail, rfl, hc⟩ := hspelled.eq_cons
      exact (number_start hc).2.1 (List.cons.inj htext).1.symm
    | _ => exact nomatch (List.cons.inj htext).1

theorem ne_close_of_items? {fuel : Nat} {cs rest : List Char} {items : List Document}
    (h : items? fuel cs = some (items, rest)) (after : List Char) :
    skipBlanks cs ≠ ']' :: after := by
  cases fuel with
  | zero => exact nomatch h
  | succ fuel =>
    cases items?_eq_some_iff.mp h with
    | last hfirst | more hfirst => exact ne_close_of_value? hfirst after

theorem ne_close_of_members? {fuel : Nat} {cs rest : List Char}
    {members : List (List TextUnit × Document)} (h : members? fuel cs = some (members, rest))
    (after : List Char) : skipBlanks cs ≠ '\x7d' :: after := by
  have hne : ∀ {key document between}, MemberStep fuel.pred cs key document between →
      skipBlanks cs ≠ '\x7d' :: after := by
    rintro _ _ _ ⟨hquote, -, -, -⟩ hclose
    exact nomatch (List.cons.inj (hquote.symm.trans hclose)).1
  cases fuel with
  | zero => exact nomatch h
  | succ fuel =>
    cases members?_eq_some_iff.mp h with
    | last hfirst | more hfirst => exact hne hfirst

theorem value?_of_step {fuel : Nat} {cs rest : List Char} {document : Document}
    (h : ValueStep fuel (skipBlanks cs) document rest) :
    value? (fuel + 1) cs = some (document, rest) := by
  rw [value?]
  generalize skipBlanks cs = text at h
  cases h with
  | null =>
    show (afterWord? "ull".toList ("ull".toList ++ rest)).map _ = _
    exact map_afterWord?_eq_some_iff.mpr ⟨rfl, rfl⟩
  | yes =>
    show (afterWord? "rue".toList ("rue".toList ++ rest)).map _ = _
    exact map_afterWord?_eq_some_iff.mpr ⟨rfl, rfl⟩
  | no =>
    show (afterWord? "alse".toList ("alse".toList ++ rest)).map _ = _
    exact map_afterWord?_eq_some_iff.mpr ⟨rfl, rfl⟩
  | number h hzero =>
    obtain ⟨text, hspelled, rfl⟩ := Numeral.exists_spelledBy h
    obtain ⟨c, tail, rfl, hc⟩ := hspelled.eq_cons
    obtain ⟨-, -, hn, ht, hf, hquote, hbracket, hbrace⟩ := number_start hc
    rw [List.cons_append] at h ⊢
    -- Numbers come last, so all other kinds have to be ruled out.
    simp only [hn, ht, hf, hquote, hbracket, hbrace, if_false, number?, h, hzero,
      Bool.false_eq_true]
  | string h => exact map_fst_eq_some_iff.mpr ⟨_, h, rfl⟩
  | emptyArray h => simp [h]
  | array h =>
    -- An array with items is not taken for an empty one.
    have hclose := ne_close_of_items? h
    rw [← items?_skipBlanks] at h
    simp [h]
  | emptyObject h => simp [h]
  | object h =>
    have hclose := ne_close_of_members? h
    rw [← members?_skipBlanks] at h
    simp [h]

end DynCheck.Json.Document
