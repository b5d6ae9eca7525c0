import Mathlib.Data.List.Chain
import DynCheck.Proofs.Message

/-!
# `DynCheck.Proofs.Segmentation` — how a template is cut is settled before its arguments

Filling a template looks at the arguments at every brace, to see whether there is one of that
number. All that it learns from them is how many there are. So for each number of arguments a
template has a cut into text and placeholders, and whatever the arguments are, they are put where
the placeholders stand and nowhere else.

The cut is built from the end of the template. A placeholder is put in front as a segment of its
own, and any other character joins the text behind it. No text hides a placeholder, because at each
of its opening braces it was seen that none starts there.

## Contents
- **Names.** `Message.Names`: what may stand in a placeholder; `placeholder?_eq_none_iff`.
- **Segments.** `Message.Segment` with `source` and `fill`; `consChar`.
- **Segmentation.** `Message.Segmentation`, and what one more character or placeholder does to it.
- **Messages.** `Message.ofTemplate_segmented`.
-/

namespace DynCheck.Message

/-! ## Names -/

/-- The text between braces is the number of one of `count` arguments. -/
def Names (count : Nat) (inside : List Char) : Prop := ∃ n, word? inside = some n ∧ n < count

variable {count : Nat} {inside : List Char}

/-- Numbers are made of digits and perhaps a plus sign. -/
theorem Names.close_not_mem (h : Names count inside) : '\x7d' ∉ inside := by
  obtain ⟨n, hn, -⟩ := h
  obtain ⟨hdigits, -⟩ := Numeral.word?_eq_some_iff.mp hn
  intro hmem
  exact absurd (hdigits.2 _ (Numeral.mem_withoutPlus hmem (by decide))) (by decide)

theorem Names.exists_argument (h : Names count inside) {arguments : List String}
    (hcount : arguments.length = count) :
    ∃ n argument, word? inside = some n ∧ arguments[n]? = some argument := by
  obtain ⟨n, hn, hlt⟩ := h
  exact ⟨n, arguments.get ⟨n, hcount ▸ hlt⟩, hn, List.getElem?_eq_getElem _⟩

/-- Which arguments there are does not matter to the search for a placeholder, only how many. -/
theorem placeholder?_eq_none_iff {arguments : List String} {cs : List Char} :
    placeholder? arguments cs = none ↔
      ∀ inside rest, cs = inside ++ '\x7d' :: rest → ¬ Names arguments.length inside := by
  constructor
  · rintro h inside rest rfl hnames
    obtain ⟨n, argument, hword, hn⟩ := hnames.exists_argument rfl
    simp [placeholder?, upToClose?_append hnames.close_not_mem, hword, hn] at h
  · intro h
    unfold placeholder?
    split
    · rfl
    · next inside rest heq =>
      rw [Option.map_eq_none_iff, Option.bind_eq_none_iff]
      intro n hword
      refine List.getElem?_eq_none (Nat.le_of_not_lt fun hlt => ?_)
      exact h inside rest (upToClose?_eq_some heq).1 ⟨n, hword, hlt⟩

/-! ## Segments -/

/-- A piece of a template: text, or a placeholder with what stands between its braces. -/
inductive Segment where
  | text (chars : List Char)
  | placeholder (inside : List Char)
deriving DecidableEq, Repr

namespace Segment

/-- The characters of the template. -/
def source : Segment → List Char
  | text cs => cs
  | placeholder inside => '\x7b' :: (inside ++ ['\x7d'])

/-- The characters of the message: text is copied, a placeholder gives way to its argument. -/
def fill (arguments : List String) : Segment → List Char
  | text cs => cs
  | placeholder inside => (((word? inside).bind fun n => arguments[n]?).getD "").toList

def isText : Segment → Bool
  | text _ => true
  | placeholder _ => false

end Segment

/-- Put a character in front, into the first segment if that is text. -/
def consChar (c : Char) : List Segment → List Segment
  | .text cs :: rest => .text (c :: cs) :: rest
  | segments => .text [c] :: segments

/-- Whatever is made of segments, if text is left as it is. -/
theorem flatMap_consChar {f : Segment → List Char} (hf : ∀ cs, f (.text cs) = cs) (c : Char)
    (segments : List Segment) : (consChar c segments).flatMap f = c :: segments.flatMap f := by
  cases segments with
  | nil => simp [consChar, hf]
  | cons segment rest => cases segment <;> simp [consChar, hf]

/-! ## Segmentation -/

/-- The segments are the cut of a template for `count` arguments. -/
structure Segmentation (count : Nat) (template : List Char) (segments : List Segment) : Prop where
  /-- They make up the template. -/
  source : segments.flatMap Segment.source = template
  /-- A placeholder ends at the next closing brace and names an argument. -/
  placeholders : ∀ inside, .placeholder inside ∈ segments →
    '\x7d' ∉ inside ∧ Names count inside
  /-- No text holds what could be a placeholder. -/
  texts : ∀ cs, .text cs ∈ segments → ∀ before inside after,
    cs = before ++ '\x7b' :: (inside ++ '\x7d' :: after) → ¬ Names count inside
  /-- Text goes on up to the next placeholder. -/
  maximal : segments.IsChain fun a b => ¬ (a.isText = true ∧ b.isText = true)

variable {template : List Char} {segments : List Segment}

theorem segmentation_nil : Segmentation count [] [] where
  source := rfl
  placeholders := fun _ h => absurd h List.not_mem_nil
  texts := fun _ h => absurd h List.not_mem_nil
  maximal := .nil

/-- A placeholder in front is a segment of its own. -/
theorem Segmentation.placeholder (h : Segmentation count template segments)
    (hnames : Names count inside) :
    Segmentation count ('\x7b' :: (inside ++ '\x7d' :: template))
      (.placeholder inside :: segments) where
  source := by simp [Segment.source, h.source]
  placeholders := by
    intro inside' hmem
    rcases List.mem_cons.mp hmem with heq | hmem
    · rw [Segment.placeholder.inj heq]
      exact ⟨hnames.close_not_mem, hnames⟩
    · exact h.placeholders inside' hmem
  texts := fun cs hmem => h.texts cs ((List.mem_cons.mp hmem).resolve_left nofun)
  maximal := by
    cases segments with
    | nil => exact .singleton _
    | cons segment rest => exact .cons_cons (fun hboth => nomatch hboth.1) h.maximal

/-- The text that a character in front goes into, and what comes behind that text. -/
theorem Segmentation.exists_leading (h : Segmentation count template segments) (c : Char) :
    ∃ cs rest, consChar c segments = .text (c :: cs) :: rest ∧
      template = cs ++ rest.flatMap Segment.source ∧
      (∀ before inside after, cs = before ++ '\x7b' :: (inside ++ '\x7d' :: after) →
        ¬ Names count inside) ∧
      (∀ segment ∈ rest, segment ∈ segments) ∧
      (Segment.text cs :: rest).IsChain fun a b => ¬ (a.isText = true ∧ b.isText = true) := by
  have hnil : ∀ before inside after,
      ([] : List Char) = before ++ '\x7b' :: (inside ++ '\x7d' :: after) → ¬ Names count inside :=
    fun before _ _ heq => absurd heq.symm (by simp)
  have hsource := h.source.symm
  cases segments with
  | nil => exact ⟨[], [], rfl, hsource, hnil, fun _ hmem => hmem, .singleton _⟩
  | cons segment rest =>
    cases segment with
    | placeholder inside =>
      exact ⟨[], _, rfl, hsource, hnil, fun _ hmem => hmem,
        .cons_cons (fun hboth => nomatch hboth.2) h.maximal⟩
    | text cs =>
      exact ⟨cs, rest, rfl, hsource, h.texts cs List.mem_cons_self,
        fun _ hmem => List.mem_cons_of_mem _ hmem, h.maximal⟩

/-- Any other character joins the text behind it. -/
theorem Segmentation.consChar (h : Segmentation count template segments) {c : Char}
    (hc : c = '\x7b' → ∀ inside rest, template = inside ++ '\x7d' :: rest → ¬ Names count inside) :
    Segmentation count (c :: template) (consChar c segments) := by
  obtain ⟨cs, rest, hcons, hsource, htext, hrest, hchain⟩ := h.exists_leading c
  rw [hcons]
  refine ⟨by rw [List.flatMap_cons, hsource]; rfl, ?placeholders, ?texts, ?maximal⟩
  case placeholders =>
    intro inside hmem
    exact h.placeholders inside (hrest _ ((List.mem_cons.mp hmem).resolve_left nofun))
  case texts =>
    intro cs' hmem before inside after heq
    rcases List.mem_cons.mp hmem with hfirst | hmem
    · obtain rfl := Segment.text.inj hfirst
      cases before with
      | nil =>
        -- The placeholder would start with the new character.
        obtain ⟨hopen, hinside⟩ := List.cons.inj heq
        refine hc hopen inside (after ++ rest.flatMap Segment.source) ?_
        rw [hsource, hinside, List.append_assoc, List.cons_append]
      | cons d before => exact htext before inside after (List.cons.inj heq).2
    · exact h.texts cs' (hrest _ hmem) before inside after heq
  case maximal =>
    cases rest with
    | nil => exact .singleton _
    | cons segment rest =>
      obtain ⟨hfirst, hrest⟩ := List.isChain_cons_cons.mp hchain
      exact .cons_cons hfirst hrest

/-! ## Messages -/

/-- A template has a cut that serves all arguments of one number. By induction on the length of the
    template: behind a placeholder the search goes on further back than with the next character. -/
theorem exists_segmentation (count : Nat) (template : List Char) :
    ∃ segments, Segmentation count template segments ∧
      ∀ arguments, arguments.length = count →
        filled arguments template = segments.flatMap (Segment.fill arguments) := by
  induction hlength : template.length using Nat.strongRecOn generalizing template with
  | _ n ih =>
    cases template with
    | nil => exact ⟨[], segmentation_nil, by simp⟩
    | cons c cs =>
      rw [List.length_cons] at hlength
      by_cases hstart : c = '\x7b' ∧
          ∃ inside rest, cs = inside ++ '\x7d' :: rest ∧ Names count inside
      · obtain ⟨rfl, inside, rest, rfl, hnames⟩ := hstart
        rw [List.length_append, List.length_cons] at hlength
        obtain ⟨segments, hcut, hfill⟩ := ih rest.length (by omega) rest rfl
        refine ⟨_, hcut.placeholder hnames, fun arguments hcount => ?_⟩
        obtain ⟨k, argument, hword, hk⟩ := hnames.exists_argument hcount
        rw [filled_placeholder hnames.close_not_mem hword hk, hfill arguments hcount,
          List.flatMap_cons, Segment.fill, hword, Option.bind_some, hk, Option.getD_some]
      · have hnone : c = '\x7b' → ∀ inside rest, cs = inside ++ '\x7d' :: rest →
            ¬ Names count inside := fun hc inside rest hcs hnames =>
          hstart ⟨hc, inside, rest, hcs, hnames⟩
        obtain ⟨segments, hcut, hfill⟩ := ih cs.length (by omega) cs rfl
        refine ⟨_, hcut.consChar hnone, fun arguments hcount => ?_⟩
        rw [flatMap_consChar (fun _ => rfl), ← hfill arguments hcount]
        by_cases hc : c = '\x7b'
        · subst hc hcount
          exact filled_open (placeholder?_eq_none_iff.mpr (hnone rfl))
        · exact filled_cons hc cs

/-- **How a template is cut depends on the number of arguments alone.** The cut makes up the
    template and leaves no placeholder in its text, and every message is the cut with the arguments
    put in as they are. -/
theorem ofTemplate_segmented (template : String) (count : Nat) :
    ∃ segments, Segmentation count template.toList segments ∧
      ∀ arguments, arguments.length = count →
        (ofTemplate template arguments).toList = segments.flatMap (Segment.fill arguments) := by
  obtain ⟨segments, hcut, hfill⟩ := exists_segmentation count template.toList
  refine ⟨segments, hcut, fun arguments hcount => ?_⟩
  simpa using hfill arguments hcount

/-- Braces inside braces, braces that close nothing and are not closed, a number too large, and an
    argument that looks like a placeholder. -/
theorem ofTemplate_segmented_braces :
    let template := "\x7b\x7b0\x7d\x7bx\x7b1\x7d\x7d\x7b2"
    let arguments := ["\x7b1\x7d", "b"]
    ofTemplate template arguments = "\x7b\x7b1\x7d\x7bxb\x7d\x7b2" ∧
      arguments.length = 2 ∧ ∃ segments, Segmentation 2 template.toList segments ∧
        (ofTemplate template arguments).toList = segments.flatMap (Segment.fill arguments) := by
  intro template arguments
  have hchars : template.toList = '\x7b' :: '\x7b' :: (['0'] ++ '\x7d' :: '\x7b' :: 'x' :: '\x7b' ::
      (['1'] ++ '\x7d' :: '\x7d' :: '\x7b' :: '2' :: [])) := by decide
  have hfirst : word? ['0'] = some 0 := by decide
  have hsecond : word? ['1'] = some 1 := by decide
  refine ⟨String.toList_inj.mp ?_, rfl, ?_⟩
  · rw [toList_ofTemplate, hchars, filled_open (by decide),
      filled_placeholder (by decide) hfirst rfl, filled_open (by decide), filled_cons (by decide),
      filled_placeholder (by decide) hsecond rfl, filled_cons (by decide), filled_open (by decide),
      filled_cons (by decide)]
    simp
  · obtain ⟨segments, hcut, hfill⟩ := ofTemplate_segmented template 2
    exact ⟨segments, hcut, hfill arguments rfl⟩

end DynCheck.Message
