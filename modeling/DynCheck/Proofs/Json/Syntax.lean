import DynCheck.Proofs.Json.Step

/-!
# `DynCheck.Proofs.Json.Syntax` — which texts are JSON texts

The grammar of JSON is told here without a reader. A document has many texts: blanks may stand
around every value, a character of a string may be escaped in several ways, an exponent may be
marked in several ways. The reader accepts the texts of documents and no others, and gives the
document.

One half is that the reader makes no cut but one that the grammar allows, by induction on its fuel.
The other half is that it finds every cut that the grammar allows, by induction on the text. A value
has to be read in front of whatever follows it there, so the statement speaks of any rest with which
no number goes on; and as blanks behind a value are left to whoever asked for it, what is left over
is compared with the rest only behind its blanks.

## Contents
- **Strings.** `BodyText`: the text between quotes; `exists_bodyText`, `stringBody?_append`.
- **Grammar.** `MemberText`, `IsText`; blanks before and behind a text.
- **Accepting.** `Accepts`, `accepts`: what is read is a text.
- **Reading.** `Reads`, `reads_of_isText`: every text is read.
- **Whole texts.** `parse?_eq_some_iff`.
-/

namespace DynCheck.Json.Document

/-! ## Strings -/

/-- The pieces of a string and the text between its quotes. -/
inductive BodyText : List TextUnit → List Char → Prop where
  | nil : BodyText [] []
  | char {c : Char} {units : List TextUnit} {cs : List Char} (hquote : c ≠ '"')
      (hbackslash : c ≠ '\\') (hcontrol : ¬ c.toNat < 0x20) (h : BodyText units cs) :
      BodyText (.char c :: units) (c :: cs)
  | escape {letter c : Char} {units : List TextUnit} {cs : List Char}
      (hletter : unescape? letter = some c) (h : BodyText units cs) :
      BodyText (.char c :: units) ('\\' :: letter :: cs)
  | code {a b c d : Char} {unit : Nat} {units : List TextUnit} {cs : List Char}
      (hcode : codeUnit? a b c d = some unit) (h : BodyText units cs) :
      BodyText (.code unit :: units) ('\\' :: 'u' :: a :: b :: c :: d :: cs)

/-- What is read up to a closing quote is the text of the pieces. -/
theorem exists_bodyText {cs rest : List Char} {units : List TextUnit}
    (h : stringBody? cs = some (units, rest)) :
    ∃ body, BodyText units body ∧ cs = body ++ '"' :: rest := by
  fun_induction stringBody? cs generalizing units with
  | case1 | case4 | case6 | case7 | case8 | case10 => exact nomatch h
  | case2 cs =>
    obtain ⟨rfl, rfl⟩ := Prod.mk.inj (Option.some.inj h)
    exact ⟨[], .nil, rfl⟩
  | case3 a b c d cs unit tail after htail hcode _ ih =>
    obtain ⟨rfl, rfl⟩ := Prod.mk.inj (Option.some.inj h)
    obtain ⟨body, hbody, rfl⟩ := ih htail
    exact ⟨_, .code hcode hbody, rfl⟩
  | case5 letter cs _ c tail after htail hletter _ ih =>
    obtain ⟨rfl, rfl⟩ := Prod.mk.inj (Option.some.inj h)
    obtain ⟨body, hbody, rfl⟩ := ih htail
    exact ⟨_, .escape hletter hbody, rfl⟩
  | case9 c cs hquote hbackslash hcontrol tail after htail ih =>
    obtain ⟨rfl, rfl⟩ := Prod.mk.inj (Option.some.inj h)
    obtain ⟨body, hbody, rfl⟩ := ih htail
    exact ⟨_, .char hquote hbackslash hcontrol hbody, rfl⟩

/-- The text of the pieces is read up to the closing quote. -/
theorem stringBody?_append {units : List TextUnit} {body : List Char} (h : BodyText units body)
    (rest : List Char) : stringBody? (body ++ '"' :: rest) = some (units, rest) := by
  induction h with
  | nil => rw [List.nil_append, stringBody?.eq_def]; rfl
  | @char c units cs hquote hbackslash hcontrol _ ih =>
    rw [List.cons_append, stringBody?.eq_def]
    simp only [hquote, hbackslash, hcontrol, if_false, ih]
  | @escape letter c units cs hletter _ ih =>
    -- The reader looks for a code first, so the letter must not be one that starts it.
    have hne : letter ≠ 'u' := by
      rintro rfl
      have hnone : unescape? 'u' = none := by decide
      exact nomatch hnone.symm.trans hletter
    rw [List.cons_append, List.cons_append, stringBody?, hletter, ih]
    · rfl
    · exact fun _ _ _ _ _ hu _ => hne hu
  | code hcode _ ih => simp [stringBody?, hcode, ih]

/-! ## Grammar -/

/-- A member of an object, with the texts of its key and of its value. -/
structure MemberText where
  key : List TextUnit
  keyText : List Char
  document : Document
  text : List Char

/-- The text of a member. -/
def MemberText.chars (m : MemberText) : List Char := m.keyText ++ ':' :: m.text

/-- The texts of a document, with blanks wherever they may stand. -/
inductive IsText : Document → List Char → Prop where
  | null : IsText .null "null".toList
  | yes : IsText (.boolean true) "true".toList
  | no : IsText (.boolean false) "false".toList
  | number {n : Numeral} {text : List Char} (h : n.SpelledBy text)
      (hzero : n.hasLeadingZero = false) : IsText (.number n) text
  | string {units : List TextUnit} {body : List Char} (h : BodyText units body) :
      IsText (.string units) ('"' :: (body ++ ['"']))
  | emptyArray {blanks : List Char} (h : ∀ c ∈ blanks, isBlank c = true) :
      IsText (.array []) ('[' :: (blanks ++ [']']))
  | array {pieces : List (Document × List Char)} (hne : pieces ≠ [])
      (h : ∀ p ∈ pieces, IsText p.1 p.2) :
      IsText (.array (pieces.map Prod.fst))
        ('[' :: ([','].intercalate (pieces.map Prod.snd) ++ [']']))
  | emptyObject {blanks : List Char} (h : ∀ c ∈ blanks, isBlank c = true) :
      IsText (.object []) ('\x7b' :: (blanks ++ ['\x7d']))
  | object {pieces : List MemberText} (hne : pieces ≠ [])
      (hkeys : ∀ m ∈ pieces, IsText (.string m.key) m.keyText)
      (h : ∀ m ∈ pieces, IsText m.document m.text) :
      IsText (.object (pieces.map fun m => (m.key, m.document)))
        ('\x7b' :: ([','].intercalate (pieces.map MemberText.chars) ++ ['\x7d']))
  | blankBefore {document : Document} {text : List Char} {c : Char} (hc : isBlank c = true)
      (h : IsText document text) : IsText document (c :: text)
  | blankBehind {document : Document} {text : List Char} {c : Char} (hc : isBlank c = true)
      (h : IsText document text) : IsText document (text ++ [c])

theorem IsText.blanksBefore {document : Document} {text blanks : List Char}
    (h : IsText document text) (hblanks : ∀ c ∈ blanks, isBlank c = true) :
    IsText document (blanks ++ text) := by
  induction blanks with
  | nil => exact h
  | cons c cs ih =>
    obtain ⟨hc, hcs⟩ := List.forall_mem_cons.mp hblanks
    exact .blankBefore hc (ih hcs)

theorem IsText.blanksBehind {document : Document} {text blanks : List Char}
    (h : IsText document text) (hblanks : ∀ c ∈ blanks, isBlank c = true) :
    IsText document (text ++ blanks) := by
  induction blanks generalizing text with
  | nil => rwa [List.append_nil]
  | cons c cs ih =>
    obtain ⟨hc, hcs⟩ := List.forall_mem_cons.mp hblanks
    rw [List.append_cons]
    exact ih (.blankBehind hc h) hcs

/-- The first of several pieces between commas. -/
theorem intercalate_map_cons {α : Type} (f : α → List Char) (a : α) {others : List α}
    (h : others ≠ []) :
    [','].intercalate ((a :: others).map f) = f a ++ ',' :: [','].intercalate (others.map f) := by
  rw [List.map_cons, List.intercalate_cons_of_ne_nil (mt List.map_eq_nil_iff.mp h),
    List.append_assoc, List.singleton_append]

/-! ## Accepting -/

/-- What is read with some fuel is made up as the grammar says. -/
structure Accepts (fuel : Nat) : Prop where
  value : ∀ {cs rest : List Char} {document : Document},
    value? fuel cs = some (document, rest) → ∃ text, IsText document text ∧ cs = text ++ rest
  items : ∀ {cs rest : List Char} {items : List Document}, items? fuel cs = some (items, rest) →
    ∃ pieces : List (Document × List Char), pieces ≠ [] ∧ (∀ p ∈ pieces, IsText p.1 p.2) ∧
      items = pieces.map Prod.fst ∧
      cs = [','].intercalate (pieces.map Prod.snd) ++ ']' :: rest
  members : ∀ {cs rest : List Char} {members : List (List TextUnit × Document)},
    members? fuel cs = some (members, rest) →
    ∃ pieces : List MemberText, pieces ≠ [] ∧ (∀ m ∈ pieces, IsText (.string m.key) m.keyText) ∧
      (∀ m ∈ pieces, IsText m.document m.text) ∧
      members = pieces.map (fun m => (m.key, m.document)) ∧
      cs = [','].intercalate (pieces.map MemberText.chars) ++ '\x7d' :: rest

theorem Accepts.valueStep {fuel : Nat} (h : Accepts fuel) {cs rest : List Char}
    {document : Document} (hstep : ValueStep fuel cs document rest) :
    ∃ text, IsText document text ∧ cs = text ++ rest := by
  cases hstep with
  | null => exact ⟨_, .null, rfl⟩
  | yes => exact ⟨_, .yes, rfl⟩
  | no => exact ⟨_, .no, rfl⟩
  | number hscan hzero =>
    obtain ⟨text, hspelled, rfl⟩ := Numeral.exists_spelledBy hscan
    exact ⟨text, .number hspelled hzero, rfl⟩
  | string hbody =>
    obtain ⟨body, htext, rfl⟩ := exists_bodyText hbody
    exact ⟨_, .string htext, by simp⟩
  | @emptyArray inside _ hclose =>
    obtain ⟨blanks, hblanks, heq⟩ := exists_blanks inside
    exact ⟨_, .emptyArray hblanks, by rw [heq, hclose]; simp⟩
  | array hitems =>
    obtain ⟨pieces, hne, htexts, rfl, rfl⟩ := h.items hitems
    exact ⟨_, .array hne htexts, by simp⟩
  | @emptyObject inside _ hclose =>
    obtain ⟨blanks, hblanks, heq⟩ := exists_blanks inside
    exact ⟨_, .emptyObject hblanks, by rw [heq, hclose]; simp⟩
  | object hmembers =>
    obtain ⟨pieces, hne, hkeys, htexts, rfl, rfl⟩ := h.members hmembers
    exact ⟨_, .object hne hkeys htexts, by simp⟩

/-- A value with the blanks behind it. -/
theorem Accepts.upTo {fuel : Nat} (h : Accepts fuel) {cs between : List Char} {document : Document}
    (hvalue : value? fuel cs = some (document, between)) :
    ∃ text, IsText document text ∧ cs = text ++ skipBlanks between := by
  obtain ⟨text, htext, rfl⟩ := h.value hvalue
  obtain ⟨blanks, hblanks, heq⟩ := exists_blanks between
  exact ⟨text ++ blanks, htext.blanksBehind hblanks, by rw [List.append_assoc, ← heq]⟩

theorem Accepts.memberStep {fuel : Nat} (h : Accepts fuel) {cs between : List Char}
    {key : List TextUnit} {document : Document} (hstep : MemberStep fuel cs key document between) :
    ∃ keyText text, IsText (.string key) keyText ∧ IsText document text ∧
      cs = MemberText.chars ⟨key, keyText, document, text⟩ ++ skipBlanks between := by
  obtain @⟨body, behindKey, _, _, hquote, hkey, hcolon, hvalue⟩ := hstep
  obtain ⟨before, hbefore, hcs⟩ := exists_blanks cs
  obtain ⟨inside, hinside, rfl⟩ := exists_bodyText hkey
  obtain ⟨behind, hbehind, heq⟩ := exists_blanks behindKey
  obtain ⟨text, htext, rfl⟩ := h.upTo hvalue
  -- Blanks on either side of a quoted key are part of the text of the key.
  refine ⟨_, text, ((IsText.string hinside).blanksBefore hbefore).blanksBehind hbehind, htext, ?_⟩
  rw [hcs, hquote, heq, hcolon, MemberText.chars]
  simp

/-- With more fuel, one more step is taken. -/
theorem Accepts.succ {fuel : Nat} (h : Accepts fuel) : Accepts (fuel + 1) where
  value := by
    intro cs rest document hvalue
    obtain ⟨text, htext, heq⟩ := h.valueStep (step_of_value? hvalue)
    obtain ⟨blanks, hblanks, hcs⟩ := exists_blanks cs
    exact ⟨blanks ++ text, htext.blanksBefore hblanks, by rw [List.append_assoc, ← heq, ← hcs]⟩
  items := by
    intro cs rest items hitems
    cases items?_eq_some_iff.mp hitems with
    | @last item _ _ hvalue hclose =>
      obtain ⟨text, htext, rfl⟩ := h.upTo hvalue
      exact ⟨[(item, text)], List.cons_ne_nil _ _, List.forall_mem_singleton.mpr htext, rfl,
        by rw [hclose, List.map_singleton, List.intercalate_singleton]⟩
    | @more item others _ _ _ hvalue hcomma hmore =>
      obtain ⟨text, htext, rfl⟩ := h.upTo hvalue
      obtain ⟨pieces, hne, htexts, rfl, rfl⟩ := h.items hmore
      refine ⟨(item, text) :: pieces, List.cons_ne_nil _ _,
        List.forall_mem_cons.mpr ⟨htext, htexts⟩, rfl, ?_⟩
      rw [hcomma, intercalate_map_cons _ _ hne]
      simp
  members := by
    intro cs rest members hmembers
    cases members?_eq_some_iff.mp hmembers with
    | @last key document _ _ hmember hclose =>
      obtain ⟨keyText, text, hkey, htext, rfl⟩ := h.memberStep hmember
      exact ⟨[⟨key, keyText, document, text⟩], List.cons_ne_nil _ _,
        List.forall_mem_singleton.mpr hkey, List.forall_mem_singleton.mpr htext, rfl,
        by rw [hclose, List.map_singleton, List.intercalate_singleton]⟩
    | @more key document others _ _ _ hmember hcomma hmore =>
      obtain ⟨keyText, text, hkey, htext, rfl⟩ := h.memberStep hmember
      obtain ⟨pieces, hne, hkeys, htexts, rfl, rfl⟩ := h.members hmore
      refine ⟨⟨key, keyText, document, text⟩ :: pieces, List.cons_ne_nil _ _,
        List.forall_mem_cons.mpr ⟨hkey, hkeys⟩, List.forall_mem_cons.mpr ⟨htext, htexts⟩, rfl, ?_⟩
      rw [hcomma, intercalate_map_cons _ _ hne]
      simp

/-- **What is read is a text**, and what is left stands behind it. -/
theorem accepts (fuel : Nat) : Accepts fuel := by
  induction fuel with
  | zero => exact ⟨nofun, nofun, nofun⟩
  | succ fuel ih => exact ih.succ

/-! ## Reading -/

/-- A text is read as the document in front of anything with which no number goes on. Blanks behind
    it may be left. -/
def Reads (document : Document) (text : List Char) : Prop :=
  ∀ fuel rest, Numeral.Ends rest → 2 * text.length ≤ fuel →
    ∃ after, value? fuel (text ++ rest) = some (document, after) ∧
      skipBlanks after = skipBlanks rest

/-- A text that starts with no blank takes one step. -/
theorem reads_of_step {document : Document} {c : Char} {cs : List Char} (hc : isBlank c = false)
    (h : ∀ fuel rest, Numeral.Ends rest → 2 * cs.length < fuel →
      ValueStep fuel (c :: (cs ++ rest)) document rest) : Reads document (c :: cs) := by
  intro fuel rest hrest hfuel
  rw [List.length_cons] at hfuel
  obtain ⟨fuel, rfl⟩ : ∃ k, fuel = k + 1 := Nat.exists_eq_succ_of_ne_zero (by omega)
  have hstep := h fuel rest hrest (by omega)
  rw [← skipBlanks_cons hc] at hstep
  exact ⟨rest, value?_of_step hstep, rfl⟩

theorem items?_of_reads {pieces : List (Document × List Char)} (h : ∀ p ∈ pieces, Reads p.1 p.2)
    (hne : pieces ≠ []) {fuel : Nat}
    (hfuel : 2 * ([','].intercalate (pieces.map Prod.snd)).length < fuel) (rest : List Char) :
    items? fuel ([','].intercalate (pieces.map Prod.snd) ++ ']' :: rest) =
      some (pieces.map Prod.fst, rest) := by
  induction pieces generalizing fuel with
  | nil => exact absurd rfl hne
  | cons p others ih =>
    obtain ⟨hp, hothers⟩ := List.forall_mem_cons.mp h
    obtain ⟨fuel, rfl⟩ := Nat.exists_eq_succ_of_ne_zero (Nat.ne_of_gt (Nat.zero_lt_of_lt hfuel))
    by_cases hlast : others = []
    -- What is left behind an item may start with blanks, up to the bracket or the comma.
    · subst hlast
      rw [List.map_singleton, List.intercalate_singleton] at hfuel ⊢
      obtain ⟨after, hvalue, hafter⟩ :=
        hp fuel (']' :: rest) (Numeral.ends_cons (by decide)) (by omega)
      exact items?_eq_some_iff.mpr (.last hvalue (hafter.trans (skipBlanks_cons rfl _)))
    · rw [intercalate_map_cons _ _ hlast] at hfuel ⊢
      rw [List.length_append, List.length_cons] at hfuel
      rw [List.append_assoc, List.cons_append]
      obtain ⟨after, hvalue, hafter⟩ :=
        hp fuel (',' :: _) (Numeral.ends_cons (by decide)) (by omega)
      exact items?_eq_some_iff.mpr (.more hvalue (hafter.trans (skipBlanks_cons rfl _))
        (ih hothers hlast (by omega)))

/-- What is read as a string is quoted. -/
theorem Reads.quoted {key : List TextUnit} {text : List Char} (h : Reads (.string key) text)
    (rest : List Char) (hrest : Numeral.Ends rest) :
    ∃ body after, skipBlanks (text ++ rest) = '"' :: body ∧ stringBody? body = some (key, after) ∧
      skipBlanks after = skipBlanks rest := by
  -- A key is never read as a value, but it could be, and the step would be the same.
  obtain ⟨after, hvalue, hafter⟩ := h (2 * text.length + 1) rest hrest (Nat.le_succ _)
  have hstep := step_of_value? hvalue
  generalize skipBlanks (text ++ rest) = cs at hstep ⊢
  cases hstep with
  | string hbody => exact ⟨_, after, rfl, hbody, hafter⟩

theorem memberStep_of_reads {m : MemberText} (hkey : Reads (.string m.key) m.keyText)
    (h : Reads m.document m.text) (fuel : Nat) (rest : List Char) (hrest : Numeral.Ends rest)
    (hfuel : 2 * m.text.length ≤ fuel) :
    ∃ after, MemberStep fuel (m.chars ++ rest) m.key m.document after ∧
      skipBlanks after = skipBlanks rest := by
  rw [MemberText.chars, List.append_assoc, List.cons_append]
  obtain ⟨body, behindKey, hquote, hbody, hcolon⟩ :=
    hkey.quoted (':' :: (m.text ++ rest)) (Numeral.ends_cons (by decide))
  obtain ⟨after, hvalue, hafter⟩ := h fuel rest hrest hfuel
  exact ⟨after, ⟨hquote, hbody, hcolon.trans (skipBlanks_cons rfl _), hvalue⟩, hafter⟩

theorem members?_of_reads {pieces : List MemberText}
    (hkeys : ∀ m ∈ pieces, Reads (.string m.key) m.keyText)
    (h : ∀ m ∈ pieces, Reads m.document m.text) (hne : pieces ≠ []) {fuel : Nat}
    (hfuel : 2 * ([','].intercalate (pieces.map MemberText.chars)).length < fuel)
    (rest : List Char) :
    members? fuel ([','].intercalate (pieces.map MemberText.chars) ++ '\x7d' :: rest) =
      some (pieces.map fun m => (m.key, m.document), rest) := by
  induction pieces generalizing fuel with
  | nil => exact absurd rfl hne
  | cons m others ih =>
    obtain ⟨hkey, hothersKeys⟩ := List.forall_mem_cons.mp hkeys
    obtain ⟨hm, hothers⟩ := List.forall_mem_cons.mp h
    obtain ⟨fuel, rfl⟩ := Nat.exists_eq_succ_of_ne_zero (Nat.ne_of_gt (Nat.zero_lt_of_lt hfuel))
    have hlength : m.text.length < m.chars.length := by
      rw [MemberText.chars, List.length_append, List.length_cons]
      omega
    by_cases hlast : others = []
    · subst hlast
      rw [List.map_singleton, List.intercalate_singleton] at hfuel ⊢
      obtain ⟨after, hstep, hafter⟩ :=
        memberStep_of_reads hkey hm fuel ('\x7d' :: rest) (Numeral.ends_cons (by decide)) (by omega)
      exact members?_eq_some_iff.mpr (.last hstep (hafter.trans (skipBlanks_cons rfl _)))
    · rw [intercalate_map_cons _ _ hlast] at hfuel ⊢
      rw [List.length_append, List.length_cons] at hfuel
      rw [List.append_assoc, List.cons_append]
      obtain ⟨after, hstep, hafter⟩ :=
        memberStep_of_reads hkey hm fuel (',' :: _) (Numeral.ends_cons (by decide)) (by omega)
      exact members?_eq_some_iff.mpr (.more hstep (hafter.trans (skipBlanks_cons rfl _))
        (ih hothersKeys hothers hlast (by omega)))

/-- **Every text is read as its document.** -/
theorem reads_of_isText {document : Document} {text : List Char} (h : IsText document text) :
    Reads document text := by
  induction h with
  | null => exact reads_of_step rfl fun _ _ _ _ => .null
  | yes => exact reads_of_step rfl fun _ _ _ _ => .yes
  | no => exact reads_of_step rfl fun _ _ _ _ => .no
  | @number n text hspelled hzero =>
    obtain ⟨c, cs, rfl, hc⟩ := hspelled.eq_cons
    exact reads_of_step (number_start hc).1 fun _ _ hrest _ =>
      .number (Numeral.scan?_append hspelled hrest) hzero
  | @string units body hbody =>
    refine reads_of_step rfl fun _ rest _ _ => ?_
    rw [List.append_assoc]
    exact .string (stringBody?_append hbody rest)
  | @emptyArray blanks hblanks =>
    refine reads_of_step rfl fun _ rest _ _ => .emptyArray ?_
    rw [List.append_assoc, skipBlanks_append hblanks]
    exact skipBlanks_cons rfl rest
  | @array pieces hne _ ih =>
    refine reads_of_step rfl fun fuel rest _ hfuel => .array ?_
    rw [List.length_append, List.length_singleton] at hfuel
    rw [List.append_assoc]
    exact items?_of_reads ih hne (by omega) rest
  | @emptyObject blanks hblanks =>
    refine reads_of_step rfl fun _ rest _ _ => .emptyObject ?_
    rw [List.append_assoc, skipBlanks_append hblanks]
    exact skipBlanks_cons rfl rest
  | @object pieces hne _ _ ihkeys ih =>
    refine reads_of_step rfl fun fuel rest _ hfuel => .object ?_
    rw [List.length_append, List.length_singleton] at hfuel
    rw [List.append_assoc]
    exact members?_of_reads ihkeys ih hne (by omega) rest
  | @blankBefore document text c hc _ ih =>
    intro fuel rest hrest hfuel
    have hskip : value? fuel (c :: text ++ rest) = value? fuel (text ++ rest) := by
      rw [← value?_skipBlanks, List.cons_append, ← List.singleton_append,
        skipBlanks_append (List.forall_mem_singleton.mpr hc), value?_skipBlanks]
    rw [hskip]
    exact ih fuel rest hrest (by rw [List.length_cons] at hfuel; omega)
  | @blankBehind document text c hc _ ih =>
    intro fuel rest hrest hfuel
    rw [List.length_append] at hfuel
    -- The blank goes to what follows, with which no number goes on now.
    obtain ⟨after, hvalue, hafter⟩ := ih fuel (c :: rest) (ends_of_isBlank hc rest) (by omega)
    rw [List.append_assoc]
    exact ⟨after, hvalue, hafter.trans (skipBlanks_append (List.forall_mem_singleton.mpr hc) rest)⟩

/-! ## Whole texts -/

/-- **A text is parsed if and only if it is the text of a document**, and as that document. -/
theorem parse?_eq_some_iff {text : String} {document : Document} :
    parse? text = some document ↔ IsText document text.toList := by
  unfold parse?
  constructor
  · intro h
    dsimp only at h
    split at h
    · next found rest hvalue =>
      split at h
      · next hblank =>
        obtain ⟨cs, hcs, htext⟩ := (accepts _).upTo hvalue
        rw [List.isEmpty_iff.mp hblank, List.append_nil] at htext
        exact htext ▸ Option.some.inj h ▸ hcs
      · exact nomatch h
    · exact nomatch h
  · intro h
    obtain ⟨after, hvalue, hafter⟩ :=
      reads_of_isText h (2 * text.toList.length + 1) [] Numeral.ends_nil (Nat.le_succ _)
    rw [List.append_nil] at hvalue
    have hempty : (skipBlanks after).isEmpty = true := by
      rw [hafter]
      rfl
    simp only [hvalue, hempty, if_true]

end DynCheck.Json.Document
