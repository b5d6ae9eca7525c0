import DynCheck.Proofs.Binary64.IntegerText
import DynCheck.Proofs.Enumeration.Members
import DynCheck.Proofs.Numeral.Layout
import DynCheck.Value.Text

/-!
# `DynCheck.Proofs.Enumeration.Aliases` — from numbers back to names

An object that serves as an enum of numbers carries two kinds of entries, and the text of the key is
all that tells them apart. Two things have to be right about these texts. The text of every number
must look like a number, or a way back would be taken for a member. And the text under which a way
back is kept must be the one that is looked up, or nothing is found there.

The first holds for every number. The second does not. The way back of an integer is kept under the
digits of the integer, while its name holds the double nearest to it, which has a text of its own.
The texts are the same up to 2⁵³. Above, a name leads back exactly if the text of its double is, by
chance, the text of an integer that the enum has.

## Contents
- **Recognition.** `Enumeration.IsEntry`; `Enumeration.aliases_recognised`.
- **Objects.** `get_toObject`: what the object of an enum of integers holds.
- **Texts.** `toText_ofInt`, `equals_ofInt_of_toText_eq`.
- **Ways back.** `Enumeration.LeadsBack`, reduced to the keys in `leadsBack_iff_mem_waysBack`;
  `Enumeration.leadsBack_iff_text`, and in `leadsBack_fails_rounded` the first name that does not
  lead back.
-/

namespace DynCheck

namespace Enumeration

open Properties

/-! ## Recognition -/

/-- An entry of an enum of numbers: a name with its number, or the text of a number with a name. -/
inductive IsEntry : String × Value → Prop where
  | forward {name : String} (h : Key.looksNumeric name = false) (x : Binary64) :
      IsEntry (name, .number x)
  | back {x : Binary64} (h : x.isFinite = true) (name : String) : IsEntry (x.toText, .string name)

/-- The entries of an object that count are those that hold a number. -/
theorem ofObject_accepts_iff {settings : List (String × Value)} {v w : Value}
    (hv : Value.Built settings v) (h : ∀ p ∈ v.entries, IsEntry p) :
    (Checker.ofEnum (ofObject v .reflected)).result.accepts w = true ↔
      ∃ name x y, v.own? name = some (.number x) ∧ w = .number y ∧ y.equals x = true := by
  have hconforms := Value.conforms_of_properties? hv.properties?
  have hown : ∀ key value, (key, value) ∈ v.entries ↔ v.own? key = some value :=
    fun key value => (hconforms.entry key value).trans (hconforms.get key value).symm
  rw [Checker.ofEnum_accepts_iff]
  constructor
  · rintro ⟨⟨key, value⟩, hentry, hcounts, -, hequal⟩
    have hplain : Key.looksNumeric key = false := hcounts
    have hheld := (hown key value).mp hentry
    cases h _ hentry with
    | forward _ x =>
      obtain ⟨y, hy, hyx⟩ := Value.strictlyEquals_number_iff.mp hequal
      exact ⟨key, x, y, hheld, hy, hyx⟩
    | back hfinite =>
      rw [Key.looksNumeric_toText hfinite] at hplain
      exact absurd hplain.symm Bool.false_ne_true
  · rintro ⟨name, x, y, hheld, rfl, hyx⟩
    have hentry := (hown name (.number x)).mpr hheld
    refine ⟨(name, .number x), hentry, ?_, Value.isLiteral_iff.mpr ⟨.number x, rfl⟩,
      Value.strictlyEquals_number_iff.mpr ⟨y, rfl, hyx⟩⟩
    show Key.looksNumeric name = false
    cases h _ hentry with
    | forward hplain => exact hplain

/-- **The key of every number is recognised.** A key looks like a number if it is an optional minus
    sign and digits, with an optional fraction and an optional exponent behind them, from its first
    character to its last. The texts of finite numbers, of integers and of array indices are all of
    this form. So an object that has names with numbers and texts of numbers with names, in whatever
    order they were set, is an enum that accepts the numbers that its names hold now, and no string. -/
theorem aliases_recognised :
    (∀ key, Key.looksNumeric key = true ↔ Numeral.IsText key.toList) ∧
    (∀ x : Binary64, x.isFinite = true → Key.looksNumeric x.toText = true) ∧
    (∀ i : Int, Key.looksNumeric (Bigint.toText i) = true) ∧
    (∀ key, Key.isIndex key = true → Key.looksNumeric key = true) ∧
    ∀ settings v, Value.Built settings v → (∀ p ∈ v.entries, IsEntry p) →
      (∀ w, (Checker.ofEnum (ofObject v .reflected)).result.accepts w = true ↔
        ∃ name x y, v.own? name = some (.number x) ∧ w = .number y ∧ y.equals x = true) ∧
      ∀ s, (Checker.ofEnum (ofObject v .reflected)).result.accepts (.string s) = false := by
  refine ⟨fun key => Key.looksNumeric_iff, fun x => Key.looksNumeric_toText,
    Key.looksNumeric_bigint, fun key => Key.looksNumeric_of_isIndex, ?objects⟩
  case objects =>
    intro settings v hv h
    refine ⟨fun w => ofObject_accepts_iff hv h, ?_⟩
    intro s
    rw [Bool.eq_false_iff, ne_eq, ofObject_accepts_iff hv h]
    rintro ⟨name, x, y, -, hnumber, -⟩
    exact nomatch hnumber

/-- Three layouts of numbers among the keys, and a name that is set again, which leaves the way back
    from its first number behind. -/
theorem aliases_recognised_layouts :
    let large : Binary64 := ⟨0x444b1ae4d6e2ef50⟩
    let small : Binary64 := ⟨0xbe7ad7f29abcaf48⟩
    let half : Binary64 := ⟨0x3fe0000000000000⟩
    let settings := [("A", Value.number half), ("0.5", .string "A"), ("1e+21", .string "B"),
      ("B", .number large), ("A", .number small), ("-1e-7", .string "A")]
    let v := ((Value.newObject settings).run ⟨0⟩).1
    let checker := (Checker.ofEnum (ofObject v .reflected)).result
    Value.Built settings v ∧ (∀ p ∈ v.entries, IsEntry p) ∧
      checker.accepts (.number large) = true ∧ checker.accepts (.number small) = true ∧
      checker.accepts (.string "A") = false ∧
      ¬ Numeral.IsText "1.".toList ∧ Key.looksNumeric "-0.0E-0" = true := by
  intro large small half settings v checker
  have hv : Value.Built settings v := .object settings ⟨0⟩
  have hhalf : half.toText = "0.5" := by decide +kernel
  have hlarge : large.toText = "1e+21" := by decide +kernel
  have hsmall : small.toText = "-1e-7" := by decide +kernel
  have hentries : ∀ p ∈ v.entries, IsEntry p := by
    intro p hp
    have hmem : p ∈ settings := by
      rw [Value.entries_eq hv.properties?] at hp
      exact mem_of_mem_ofList (mem_enumerate.mp hp)
    simp only [settings, List.mem_cons, List.not_mem_nil, or_false] at hmem
    rcases hmem with rfl | rfl | rfl | rfl | rfl | rfl
    · exact .forward (by decide) half
    · exact hhalf ▸ .back (by decide) "A"
    · exact hlarge ▸ .back (by decide) "B"
    · exact .forward (by decide) large
    · exact .forward (by decide) small
    · exact hsmall ▸ .back (by decide) "A"
  obtain ⟨hspelling, -, -, -, hobjects⟩ := aliases_recognised
  obtain ⟨haccepts, hstrings⟩ := hobjects settings v hv hentries
  refine ⟨hv, hentries, ?_, ?_, hstrings "A", ?_, (hspelling _).mpr ?_⟩
  · exact (haccepts _).mpr ⟨"B", large, large, rfl, rfl, by decide⟩
  · exact (haccepts _).mpr ⟨"A", small, small, rfl, rfl, by decide⟩
  · rw [← hspelling]
    decide
  · have htext : Numeral.IsText (['-'] ++ (['0'] ++ (('.' :: ['0']) ++ ('E' :: (['-'] ++ ['0']))))) :=
      .parts .minus (by decide) (.digits (by decide)) (.digits (.inr rfl) .minus (by decide))
    exact htext

/-! ## Objects -/

/-- Reading the object of an enum is looking among its entries. -/
theorem get_toObject {d : Enumeration} (h : (keys d.entries).Nodup) (supply : Supply)
    (key : String) :
    (d.toObject.run supply).1.get key = (get? key d.entries).getD .undefined := by
  simp [toObject, ofList_eq_self h]

theorem get_toObject_of_mem {d : Enumeration} (h : (keys d.entries).Nodup) (supply : Supply)
    {key : String} {value : Value} (hentry : (key, value) ∈ d.entries) :
    (d.toObject.run supply).1.get key = value := by
  simp [get_toObject h, get?_eq_some_of_mem h hentry]

section Integers

variable {members : List (String × Int)} (h : ∀ m ∈ members, Key.looksNumeric m.1 = false)
  (supply : Supply)

include h

/-- Names read as their last number. -/
theorem get_name {name : String} {i : Int} (hi : LastSets members name i) :
    ((ofIntegers members).toObject.run supply).1.get name = .number (.ofInt i) :=
  get_toObject_of_mem (nodup_keys_ofIntegers members) supply
    ((mem_ofIntegers_iff h).mpr (.inl ⟨i, hi, rfl⟩))

/-- The texts of integers read as the last name with this integer. -/
theorem get_wayBack {key name : String} (hname : LastSets (waysBack members) key name) :
    ((ofIntegers members).toObject.run supply).1.get key = .string name :=
  get_toObject_of_mem (nodup_keys_ofIntegers members) supply
    ((mem_ofIntegers_iff h).mpr (.inr ⟨name, hname, rfl⟩))

/-- Everything else reads as undefined. -/
theorem get_eq_undefined {key : String} (hname : key ∉ keys members)
    (hback : key ∉ keys (waysBack members)) :
    ((ofIntegers members).toObject.run supply).1.get key = .undefined := by
  have hnone : get? key (ofIntegers members).entries = none := by
    simp only [get?_eq_none_iff]
    intro hkey
    obtain ⟨⟨key, value⟩, hentry, rfl⟩ := List.mem_map.mp hkey
    rcases (mem_ofIntegers_iff h).mp hentry with ⟨i, hi, -⟩ | ⟨name, hlast, -⟩
    · exact hname (mem_keys_iff_lastSets.mpr ⟨i, hi⟩)
    · exact hback (mem_keys_iff_lastSets.mpr ⟨name, hlast⟩)
  simp [get_toObject (nodup_keys_ofIntegers members), hnone]

end Integers

/-! ## Texts -/

/-- Up to 2⁵³ an integer and its double have one text. -/
theorem toText_ofInt {i : Int} (h : i.natAbs ≤ 2 ^ 53) :
    (Binary64.ofInt i).toText = Bigint.toText i := by
  rcases Nat.lt_or_eq_of_le h with hlt | heq
  · have hinteger := Binary64.toInt?_ofInt hlt
    rw [Binary64.toText, Binary64.chars_of_toInt? hinteger (Nat.le_of_lt_succ hlt), Bigint.toText]
  · rcases Int.natAbs_eq i with hi | hi <;> rw [hi, heq] <;> decide +kernel

/-- If the text of a double is that of an integer, the double is the one nearest to it. -/
theorem equals_ofInt_of_toText_eq {x : Binary64} {j : Int} (h : Bigint.toText j = x.toText) :
    (Binary64.ofInt j).equals x = true := by
  have hchars : Bigint.chars j = x.chars := String.ofList_injective h
  have hinteger := Bigint.numeral_denotes j
  have hfinite : x.isFinite = true := by
    have hscan := Numeral.scan?_chars hinteger.spelled Numeral.ends_nil
    rw [List.append_nil, hinteger.chars, hchars] at hscan
    rw [← Binary64.isSome_scan?_chars, hscan, Option.isSome_some]
  have hsame := (hchars ▸ hinteger).unique (Binary64.numeral_denotes hfinite)
  rw [hsame, Binary64.equals_comm]
  have halike := Binary64.alike_withoutNegativeZero x
  exact halike.resolve_right fun hnan => by simp [Binary64.isNaN_of_isFinite hfinite] at hnan

/-! ## Ways back -/

/-- Reading the object under the text of the name's number gives a name, and one with that number. -/
def LeadsBack (members : List (String × Int)) (o : Value) (name : String) : Prop :=
  ∃ m ∈ members, o.get (o.get name).toText = .string m.1 ∧
    (o.get m.1).strictlyEquals (o.get name) = true

section Distinct

variable {members : List (String × Int)} (hdistinct : (keys members).Nodup)
  (h : ∀ m ∈ members, Key.looksNumeric m.1 = false) (supply : Supply)

include hdistinct h

theorem get_of_mem {m : String × Int} (hm : m ∈ members) :
    ((ofIntegers members).toObject.run supply).1.get m.1 = .number (.ofInt m.2) :=
  get_name h supply ((lastSets_iff_mem hdistinct).mpr hm)

/-- A name leads back if there is a way back under the text of its double: whichever name stands
    there, its integer has that text, and so the same double. -/
theorem leadsBack_iff_mem_waysBack {m : String × Int} (hm : m ∈ members) :
    LeadsBack members ((ofIntegers members).toObject.run supply).1 m.1 ↔
      (Binary64.ofInt m.2).toText ∈ keys (waysBack members) := by
  have htext : (Value.number (.ofInt m.2)).toText = (Binary64.ofInt m.2).toText := rfl
  rw [LeadsBack, get_of_mem hdistinct h supply hm, htext]
  constructor
  · rintro ⟨n, -, hback, -⟩
    by_contra hnone
    by_cases hname : (Binary64.ofInt m.2).toText ∈ keys members
    · obtain ⟨i, hi⟩ := mem_keys_iff_lastSets.mp hname
      rw [get_name h supply hi] at hback
      exact nomatch hback
    · rw [get_eq_undefined h supply hname hnone] at hback
      exact nomatch hback
  · intro hkey
    obtain ⟨name, hname⟩ := mem_keys_iff_lastSets.mp hkey
    obtain ⟨n, hn, hsame⟩ := List.mem_map.mp hname.mem
    obtain ⟨hntext, rfl⟩ := Prod.mk.inj hsame
    refine ⟨n, hn, get_wayBack h supply hname, ?_⟩
    rw [get_of_mem hdistinct h supply hn]
    exact equals_ofInt_of_toText_eq hntext

end Distinct

/-- **A name leads back if the text of its double is the text of an integer.** That integer may be
    its own, as it is up to 2⁵³, or that of another name. Otherwise nothing is found under the text
    of the double. -/
theorem leadsBack_iff_text (members : List (String × Int)) (hdistinct : (keys members).Nodup)
    (h : ∀ m ∈ members, Key.looksNumeric m.1 = false) (supply : Supply) :
    let o := ((ofIntegers members).toObject.run supply).1
    ∀ m ∈ members,
      (LeadsBack members o m.1 ↔
        ∃ n ∈ members, Bigint.toText n.2 = (Binary64.ofInt m.2).toText) ∧
      (m.2.natAbs ≤ 2 ^ 53 → LeadsBack members o m.1) ∧
      (m.2.natAbs ≤ 2 ^ 63 → ¬ LeadsBack members o m.1 →
        o.get (o.get m.1).toText = .undefined) := by
  intro o m hm
  have hiff := leadsBack_iff_mem_waysBack hdistinct h supply hm
  refine ⟨hiff.trans mem_keys_waysBack_iff, ?safe, ?other⟩
  case safe =>
    intro hsafe
    exact hiff.mpr (mem_keys_waysBack_iff.mpr ⟨m, hm, (toText_ofInt hsafe).symm⟩)
  case other =>
    intro hsmall hfails
    have hnumeric := Key.looksNumeric_toText (Binary64.isFinite_ofInt hsmall)
    have htext : (o.get m.1).toText = (Binary64.ofInt m.2).toText := by
      rw [get_of_mem hdistinct h supply hm]
      rfl
    rw [htext]
    exact get_eq_undefined h supply (not_mem_keys_of_looksNumeric h hnumeric)
      fun hkey => hfails (hiff.mpr hkey)

/-- The double of the second name has the text of the first one's integer. -/
theorem leadsBack_iff_text_shared :
    let members : List (String × Int) := [("A", 9007199254740992), ("B", 9007199254740993)]
    let o := ((ofIntegers members).toObject.run ⟨0⟩).1
    (keys members).Nodup ∧ (∀ m ∈ members, Key.looksNumeric m.1 = false) ∧
      LeadsBack members o "A" ∧ LeadsBack members o "B" := by
  intro members o
  have hdistinct : (keys members).Nodup := by decide
  have hnames : ∀ m ∈ members, Key.looksNumeric m.1 = false := by decide
  have hback := leadsBack_iff_text members hdistinct hnames ⟨0⟩
  have hA := hback ("A", 9007199254740992) (by simp [members])
  have hB := hback ("B", 9007199254740993) (by simp [members])
  have htext : Bigint.toText 9007199254740992 = (Binary64.ofInt 9007199254740993).toText := by
    decide +kernel
  exact ⟨hdistinct, hnames, hA.2.1 (by decide), hB.1.mpr ⟨_, List.mem_cons_self, htext⟩⟩

/-- The least integer above zero that no double is equal to: its name holds 2⁵³, and under the text
    of that there is nothing. -/
theorem leadsBack_fails_rounded :
    let members : List (String × Int) := [("Big", 9007199254740993)]
    let o := ((ofIntegers members).toObject.run ⟨0⟩).1
    (keys members).Nodup ∧ (∀ m ∈ members, Key.looksNumeric m.1 = false) ∧
      (o.get "Big").toText = "9007199254740992" ∧
      o.get (o.get "Big").toText = .undefined ∧ ¬ LeadsBack members o "Big" := by
  intro members o
  have htext : (o.get "Big").toText = "9007199254740992" := by decide +kernel
  have hnothing : o.get (o.get "Big").toText = .undefined := by
    rw [htext]
    rfl
  refine ⟨by decide, by decide, htext, hnothing, ?_⟩
  rintro ⟨m, -, hback, -⟩
  rw [hnothing] at hback
  exact nomatch hback

end Enumeration

end DynCheck
