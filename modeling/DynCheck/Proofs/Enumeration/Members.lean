import DynCheck.Proofs.Binary64.Nearest
import DynCheck.Proofs.Membership
import DynCheck.Proofs.Numeral.Recognition
import DynCheck.Proofs.Store

/-!
# `DynCheck.Proofs.Enumeration.Members` — the values of an enum are those of its members

The checker of an enum looks at the entries that count and at nothing else. For an enum of strings
these are all, and each name has the text that it was given last. An enum of integers keeps its
names and the ways back in one store, where either could push the other out. They never meet: the
keys of the ways back are the texts of integers, which look like numbers, and the names do not. So
the names hold what they would hold without the ways back. That is an invariant of filling the
store, kept from each member to the next.

## Contents
- **Verdicts.** `Checker.ofEnum_accepts_iff`, `Checker.ofEnum_accepts_congr`.
- **Integers.** `Enumeration.settingsOf` and `Enumeration.waysBack`; `lastSets_settingsOf`: what the
  two kinds of keys hold in the end.
- **Members.** `Enumeration.mem_ofIntegers_iff`, `Enumeration.mem_ofTexts_iff`;
  `Enumeration.accepts_last_values`.
-/

namespace DynCheck

/-! ## Verdicts -/

namespace Checker

/-- What is accepted is strictly equal to a literal under a key that is no alias. -/
theorem ofEnum_accepts_iff {d : Enumeration} {v : Value} :
    (ofEnum d).result.accepts v = true ↔
      ∃ p ∈ d.entries, d.isAlias p.1 = false ∧ p.2.IsLiteral ∧ v.strictlyEquals p.2 = true := by
  have hvalues : (ofEnum d).result.accepts v = (ofValues d.values.result).result.accepts v := rfl
  rw [hvalues, ofValues_accepts_iff]
  constructor
  · rintro ⟨w, hw, hliteral, hequal⟩
    obtain ⟨p, hp, rfl⟩ := List.mem_map.mp hw
    obtain ⟨hentry, hcounts⟩ := List.mem_filter.mp hp
    exact ⟨p, hentry, by simpa using hcounts, hliteral, hequal⟩
  · rintro ⟨p, hentry, hcounts, hliteral, hequal⟩
    have hp : p ∈ d.entries.filter fun entry => !d.isAlias entry.1 :=
      List.mem_filter.mpr ⟨hentry, by simpa using hcounts⟩
    exact ⟨p.2, List.mem_map_of_mem hp, hliteral, hequal⟩

/-- So it matters which entries there are, and not in which order they stand. -/
theorem ofEnum_accepts_congr {d e : Enumeration} (hmode : d.mode = e.mode)
    (hentries : ∀ p, p ∈ d.entries ↔ p ∈ e.entries) (v : Value) :
    (ofEnum d).result.accepts v = (ofEnum e).result.accepts v := by
  have halias : d.isAlias = e.isAlias := by
    funext key
    rw [Enumeration.isAlias, Enumeration.isAlias, hmode]
  rw [Bool.eq_iff_iff, ofEnum_accepts_iff, ofEnum_accepts_iff, halias]
  exact exists_congr fun p => and_congr_left fun _ => hentries p

end Checker

namespace Enumeration

open Properties

/-! ## Integers -/

/-- How the store of an enum of integers is filled: with each name and, behind it, the way back. -/
def settingsOf (members : List (String × Int)) : List (String × Value) :=
  members.flatMap fun (name, i) => [(name, .number (.ofInt i)), (Bigint.toText i, .string name)]

/-- The ways back alone. -/
def waysBack (members : List (String × Int)) : List (String × String) :=
  members.map fun (name, i) => (Bigint.toText i, name)

theorem entries_ofIntegers (members : List (String × Int)) :
    (ofIntegers members).entries = ofList (settingsOf members) := rfl

theorem nodup_keys_ofIntegers (members : List (String × Int)) :
    (keys (ofIntegers members).entries).Nodup := nodup_keys_ofList (settingsOf members)

theorem mem_keys_waysBack_iff {members : List (String × Int)} {key : String} :
    key ∈ keys (waysBack members) ↔ ∃ m ∈ members, Bigint.toText m.2 = key := by
  rw [keys, waysBack, List.map_map, List.mem_map]
  rfl

/-- The keys of the ways back look like numbers. -/
theorem looksNumeric_of_mem_waysBack {members : List (String × Int)} {key : String}
    (h : key ∈ keys (waysBack members)) : Key.looksNumeric key = true := by
  obtain ⟨m, -, rfl⟩ := mem_keys_waysBack_iff.mp h
  exact Key.looksNumeric_bigint m.2

theorem not_mem_keys_waysBack (members : List (String × Int)) {key : String}
    (h : Key.looksNumeric key = false) : key ∉ keys (waysBack members) := by
  intro hkey
  rw [looksNumeric_of_mem_waysBack hkey] at h
  exact nomatch h

/-- The names do not. -/
theorem not_mem_keys_of_looksNumeric {members : List (String × Int)}
    (h : ∀ m ∈ members, Key.looksNumeric m.1 = false) {key : String}
    (hkey : Key.looksNumeric key = true) : key ∉ keys members := by
  intro hname
  obtain ⟨m, hm, rfl⟩ := List.mem_map.mp hname
  rw [h m hm] at hkey
  exact nomatch hkey

theorem settingsOf_concat (members : List (String × Int)) (name : String) (i : Int) :
    settingsOf (members ++ [(name, i)]) =
      settingsOf members ++ [(name, .number (.ofInt i))] ++ [(Bigint.toText i, .string name)] := by
  simp [settingsOf]

theorem waysBack_concat (members : List (String × Int)) (name : String) (i : Int) :
    waysBack (members ++ [(name, i)]) = waysBack members ++ [(Bigint.toText i, name)] := by
  simp [waysBack]

/-- **Names and ways back stay apart.** A name holds its last number, whatever ways back were set in
    between, and the text of an integer holds the last name that has this integer. -/
theorem lastSets_settingsOf {members : List (String × Int)}
    (h : ∀ m ∈ members, Key.looksNumeric m.1 = false) {key : String} {value : Value} :
    LastSets (settingsOf members) key value ↔
      (∃ i, LastSets members key i ∧ value = .number (.ofInt i)) ∨
        (∃ name, LastSets (waysBack members) key name ∧ value = .string name) := by
  induction members using List.reverseRecOn with
  | nil => simp [settingsOf, waysBack, lastSets_nil]
  | append_singleton members m ih =>
    obtain ⟨name, i⟩ := m
    have hmembers : ∀ m ∈ members, Key.looksNumeric m.1 = false :=
      fun m hm => h m (List.mem_append_left _ hm)
    have hname : Key.looksNumeric name = false := h (name, i) (by simp)
    have htext : Key.looksNumeric (Bigint.toText i) = true := Key.looksNumeric_bigint i
    have hapart : name ≠ Bigint.toText i := fun heq => by simp [heq, htext] at hname
    simp only [settingsOf_concat, waysBack_concat, lastSets_concat, ih hmembers]
    by_cases hkey : Bigint.toText i = key
    · -- No name is the text of an integer, so only the new way back is left.
      subst hkey
      have hnone : ¬ ∃ j, LastSets members (Bigint.toText i) j ∧ value = .number (.ofInt j) := by
        rintro ⟨j, hj, -⟩
        exact not_mem_keys_of_looksNumeric hmembers htext (mem_keys_iff_lastSets.mpr ⟨j, hj⟩)
      simp only [if_neg hapart, if_true, hnone, false_or, exists_eq_left']
      exact eq_comm
    · by_cases hkey' : name = key
      · -- No way back has the key of a name, so only the new number is left.
        subst hkey'
        have hnone : ¬ ∃ other, LastSets (waysBack members) name other ∧
            value = .string other := by
          rintro ⟨other, hother, -⟩
          exact not_mem_keys_waysBack members hname (mem_keys_iff_lastSets.mpr ⟨other, hother⟩)
        simp only [if_neg hkey, if_true, hnone, or_false, exists_eq_left']
        exact eq_comm
      · simp only [if_neg hkey, if_neg hkey']

/-! ## Members -/

/-- The entries of an enum of integers. -/
theorem mem_ofIntegers_iff {members : List (String × Int)}
    (h : ∀ m ∈ members, Key.looksNumeric m.1 = false) {key : String} {value : Value} :
    (key, value) ∈ (ofIntegers members).entries ↔
      (∃ i, LastSets members key i ∧ value = .number (.ofInt i)) ∨
        (∃ name, LastSets (waysBack members) key name ∧ value = .string name) := by
  rw [entries_ofIntegers, mem_ofList_iff, lastSets_settingsOf h]

/-- The entries of an enum of strings. -/
theorem mem_ofTexts_iff {members : List (String × String)} {key : String} {value : Value} :
    (key, value) ∈ (ofTexts members).entries ↔
      ∃ text, LastSets members key text ∧ value = .string text :=
  mem_ofList_iff.trans lastSets_map

theorem ofIntegers_accepts_iff {members : List (String × Int)}
    (h : ∀ m ∈ members, Key.looksNumeric m.1 = false) {v : Value} :
    (Checker.ofEnum (ofIntegers members)).result.accepts v = true ↔
      ∃ name i x, LastSets members name i ∧ v = .number x ∧ x.equals (.ofInt i) = true := by
  rw [Checker.ofEnum_accepts_iff]
  constructor
  · rintro ⟨⟨key, value⟩, hentry, hcounts, -, hequal⟩
    rcases (mem_ofIntegers_iff h).mp hentry with ⟨i, hi, rfl⟩ | ⟨name, hname, -⟩
    · obtain ⟨x, hx, hxi⟩ := Value.strictlyEquals_number_iff.mp hequal
      exact ⟨key, i, x, hi, hx, hxi⟩
    · -- This is a way back, which does not count.
      have hplain : Key.looksNumeric key = false := hcounts
      exact absurd (mem_keys_iff_lastSets.mpr ⟨name, hname⟩) (not_mem_keys_waysBack members hplain)
  · rintro ⟨name, i, x, hi, rfl, hxi⟩
    exact ⟨(name, .number (.ofInt i)), (mem_ofIntegers_iff h).mpr (.inl ⟨i, hi, rfl⟩),
      h (name, i) hi.mem, Value.isLiteral_iff.mpr ⟨.number _, rfl⟩, Value.strictlyEquals_number_iff.mpr ⟨x, rfl, hxi⟩⟩

theorem ofTexts_accepts_iff {members : List (String × String)} {v : Value} :
    (Checker.ofEnum (ofTexts members)).result.accepts v = true ↔
      ∃ name text, LastSets members name text ∧ v = .string text := by
  rw [Checker.ofEnum_accepts_iff]
  constructor
  · rintro ⟨⟨key, value⟩, hentry, -, -, hequal⟩
    obtain ⟨text, htext, rfl⟩ := mem_ofTexts_iff.mp hentry
    exact ⟨key, text, htext, Value.strictlyEquals_string_iff.mp hequal⟩
  · rintro ⟨name, text, htext, rfl⟩
    exact ⟨(name, .string text), mem_ofTexts_iff.mpr ⟨text, htext, rfl⟩, rfl,
      Value.isLiteral_iff.mpr ⟨.string _, rfl⟩, Value.strictlyEquals_string_iff.mpr rfl⟩

/-- **An enum accepts its members and nothing else.** An enum of integers none of whose names looks
    like a number accepts the numbers that equal the last integer given for some name, as a double,
    and never a name. For integers of sixty-four bits that double is finite, and no other is nearer.
    An enum of strings accepts the last string given for each name, whatever the names look like. -/
theorem accepts_last_values :
    (∀ members : List (String × Int), (∀ m ∈ members, Key.looksNumeric m.1 = false) →
      (∀ v, (Checker.ofEnum (ofIntegers members)).result.accepts v = true ↔
        ∃ name i x, LastSets members name i ∧ v = .number x ∧ x.equals (.ofInt i) = true) ∧
      ∀ m ∈ members, (Checker.ofEnum (ofIntegers members)).result.accepts (.string m.1) = false) ∧
    (∀ i : Int, i.natAbs ≤ 2 ^ 63 → (Binary64.ofInt i).isFinite = true ∧
      ∀ y, y.isFinite = true → Binary64.distance i (.ofInt i) ≤ Binary64.distance i y) ∧
    (∀ (members : List (String × String)) (v : Value),
      (Checker.ofEnum (ofTexts members)).result.accepts v = true ↔
        ∃ name text, LastSets members name text ∧ v = .string text) := by
  refine ⟨?integers, ?nearest, fun members v => ofTexts_accepts_iff⟩
  case integers =>
    intro members h
    refine ⟨fun v => ofIntegers_accepts_iff h, ?_⟩
    intro m _
    rw [Bool.eq_false_iff, ne_eq, ofIntegers_accepts_iff h]
    rintro ⟨name, i, x, -, hnumber, -⟩
    exact nomatch hnumber
  case nearest =>
    intro i hi
    have hfinite := Binary64.isFinite_ofInt hi
    exact ⟨hfinite, fun y _ => Binary64.distance_ofInt_le hfinite y⟩

/-- A name that is given a second integer, which no double is equal to, and a name of an enum of
    strings that looks like a number. -/
theorem accepts_last_values_renumbered :
    let members : List (String × Int) := [("A", 1), ("B", 2), ("A", 9007199254740993)]
    let checker := (Checker.ofEnum (ofIntegers members)).result
    (∀ m ∈ members, Key.looksNumeric m.1 = false) ∧
      checker.accepts (.number ⟨0x4340000000000000⟩) = true ∧
      checker.accepts (.number ⟨0x3ff0000000000000⟩) = false ∧
      checker.accepts (.string "A") = false ∧
      Binary64.distance 9007199254740993 ⟨0x4340000000000000⟩ ≤
        Binary64.distance 9007199254740993 ⟨0x4340000000000001⟩ ∧
      (Checker.ofEnum (ofTexts [("404", "NotFound"), ("404", "Gone")])).result.accepts
        (.string "Gone") = true := by
  intro members checker
  have hnames : ∀ m ∈ members, Key.looksNumeric m.1 = false := by decide
  have hrounded : Binary64.ofInt 9007199254740993 = ⟨0x4340000000000000⟩ := by decide +kernel
  obtain ⟨hintegers, hnearest, htexts⟩ := accepts_last_values
  obtain ⟨haccepts, hrefuses⟩ := hintegers members hnames
  refine ⟨hnames, ?last, ?first, hrefuses ("A", 1) (by simp [members]), ?nearest, ?text⟩
  case last =>
    refine (haccepts _).mpr ⟨"A", 9007199254740993, _, mem_ofList_iff.mp ?_, rfl, ?_⟩
    · exact List.mem_cons_self
    · rw [hrounded]
      decide
  case first =>
    rw [Bool.eq_false_iff, ne_eq, haccepts]
    rintro ⟨name, i, x, hlast, hnumber, hequal⟩
    obtain rfl := Value.number.inj hnumber
    have hmember : (name, i) ∈ [("A", 9007199254740993), ("B", 2)] := mem_ofList_iff.mpr hlast
    rcases List.mem_cons.mp hmember with hA | hB
    · rw [(Prod.mk.inj hA).2, hrounded] at hequal
      exact absurd hequal (by decide)
    · rw [(Prod.mk.inj (List.mem_singleton.mp hB)).2] at hequal
      exact absurd hequal (by decide +kernel)
  case nearest =>
    rw [← hrounded]
    exact (hnearest _ (by decide)).2 _ (by decide)
  case text =>
    exact (htexts _ _).mpr ⟨"404", "Gone", mem_ofList_iff.mp List.mem_cons_self, rfl⟩

end Enumeration

end DynCheck
