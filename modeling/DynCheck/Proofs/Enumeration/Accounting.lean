import DynCheck.Proofs.Enumeration.Members

/-!
# `DynCheck.Proofs.Enumeration.Accounting` — no entry of an enum is lost in silence

Between the entries of an enum and the set that its checker looks things up in, an entry can drop out
twice: its key may be taken for a way back, and its value may be one that no set of literals can hold.
Both are reported, the first kind before the second, and of the second kind only the type. So the
reports alone do not show whether they account for everything that is missing.

`Enumeration.Dealt` deals the entries out instead, one after another, to those that are skipped, those
that are ignored and those that are kept. Every entry goes to exactly one of the three. The reports
turn out to be the first two groups, and the checker the third.

## Contents
- **Dealing.** `AliasMode.Skips`, `Enumeration.Dealt`; `exists_dealt`, `Dealt.perm`,
  `Dealt.mem_kept_iff`.
- **Reports.** `Dealt.filter_eq_skipped`, `Dealt.filter_eq_ignored`.
- **Accounting.** `Checker.ofEnum_accounts`.
-/

namespace DynCheck

/-! ## Dealing -/

/-- A key leads back to a name and does not count: it looks like a number, and the enum has such
    keys. -/
def AliasMode.Skips (mode : AliasMode) (key : String) : Prop :=
  mode = .reflected ∧ Key.looksNumeric key = true

instance (mode : AliasMode) (key : String) : Decidable (mode.Skips key) :=
  inferInstanceAs (Decidable (mode = .reflected ∧ Key.looksNumeric key = true))

namespace Enumeration

theorem isAlias_iff {d : Enumeration} {key : String} :
    d.isAlias key = true ↔ d.mode.Skips key := by
  unfold isAlias AliasMode.Skips
  cases d.mode <;> simp

theorem isAlias_eq_false_iff {d : Enumeration} {key : String} :
    d.isAlias key = false ↔ ¬ d.mode.Skips key := by
  rw [← isAlias_iff, Bool.not_eq_true]

/-- The entries are dealt out to three groups, each in the order of the entries: the keys that do not
    count; of the others those whose value equals nothing or is no literal; and the rest. -/
inductive Dealt (mode : AliasMode) :
    (entries skipped ignored kept : Properties Value) → Prop where
  | done : Dealt mode [] [] [] []
  | skip {key : String} {entries skipped ignored kept : Properties Value} (hkey : mode.Skips key)
      (value : Value) (rest : Dealt mode entries skipped ignored kept) :
      Dealt mode ((key, value) :: entries) ((key, value) :: skipped) ignored kept
  | ignore {key : String} {value : Value} {entries skipped ignored kept : Properties Value}
      (hkey : ¬ mode.Skips key) (hvalue : value.isNaN = true ∨ ¬ value.IsLiteral)
      (rest : Dealt mode entries skipped ignored kept) :
      Dealt mode ((key, value) :: entries) skipped ((key, value) :: ignored) kept
  | keep {key : String} {value : Value} {entries skipped ignored kept : Properties Value}
      (hkey : ¬ mode.Skips key) (hnumber : value.isNaN = false) (hliteral : value.IsLiteral)
      (rest : Dealt mode entries skipped ignored kept) :
      Dealt mode ((key, value) :: entries) skipped ignored ((key, value) :: kept)

/-- There is a group for every entry. -/
theorem exists_dealt (mode : AliasMode) (entries : Properties Value) :
    ∃ skipped ignored kept, Dealt mode entries skipped ignored kept := by
  induction entries with
  | nil => exact ⟨[], [], [], .done⟩
  | cons entry rest ih =>
    obtain ⟨key, value⟩ := entry
    obtain ⟨skipped, ignored, kept, hrest⟩ := ih
    by_cases hkey : mode.Skips key
    · exact ⟨_, _, _, .skip hkey value hrest⟩
    · by_cases hvalue : value.isNaN = true ∨ ¬ value.IsLiteral
      · exact ⟨_, _, _, .ignore hkey hvalue hrest⟩
      · rw [not_or, not_not, Bool.not_eq_true] at hvalue
        exact ⟨_, _, _, .keep hkey hvalue.1 hvalue.2 hrest⟩

section Dealt

variable {mode : AliasMode} {entries skipped ignored kept : Properties Value}

/-- The groups together are the entries. -/
theorem Dealt.perm (h : Dealt mode entries skipped ignored kept) :
    (skipped ++ ignored ++ kept).Perm entries := by
  induction h with
  | done => exact .nil
  | skip _ value _ ih => exact ih.cons _
  | @ignore key value entries skipped ignored kept _ _ _ ih =>
    have hfront : (skipped ++ (key, value) :: ignored).Perm ((key, value) :: (skipped ++ ignored)) :=
      List.perm_middle
    exact (hfront.append_right kept).trans (ih.cons _)
  | keep _ _ _ _ ih => exact List.perm_middle.trans (ih.cons _)

/-- An entry is kept if its key counts and its value is a literal that equals something. -/
theorem Dealt.mem_kept_iff (h : Dealt mode entries skipped ignored kept) {p : String × Value} :
    p ∈ kept ↔ p ∈ entries ∧ ¬ mode.Skips p.1 ∧ p.2.isNaN = false ∧ p.2.IsLiteral := by
  induction h with
  | done => simp
  | skip hkey value _ ih =>
    rw [ih, List.mem_cons]
    refine and_congr_left fun hp => (or_iff_right ?_).symm
    rintro rfl
    exact hp.1 hkey
  | ignore _ hvalue _ ih =>
    rw [ih, List.mem_cons]
    refine and_congr_left fun hp => (or_iff_right ?_).symm
    rintro rfl
    rcases hvalue with hnan | hliteral
    · exact absurd hp.2.1 (by simp [hnan])
    · exact hliteral hp.2.2
  | keep hkey hnumber hliteral _ ih =>
    rw [List.mem_cons, List.mem_cons, ih, or_and_right]
    refine or_congr_left ⟨?_, And.left⟩
    rintro rfl
    exact ⟨rfl, hkey, hnumber, hliteral⟩

end Dealt

/-! ## Reports -/

section Reports

variable {d : Enumeration} {entries skipped ignored kept : Properties Value}

/-- The skipped entries are those under an alias. -/
theorem Dealt.filter_eq_skipped (h : Dealt d.mode entries skipped ignored kept) :
    (entries.filter fun entry => d.isAlias entry.1) = skipped := by
  induction h with
  | done => rfl
  | skip hkey value _ ih => simp [isAlias_iff.mpr hkey, ih]
  | ignore hkey _ _ ih | keep hkey _ _ _ ih => simp [isAlias_eq_false_iff.mpr hkey, ih]

/-- The values of the ignored entries are those that count and have no key. -/
theorem Dealt.filter_eq_ignored (h : Dealt d.mode entries skipped ignored kept) :
    (((entries.filter fun entry => !d.isAlias entry.1).map Prod.snd).filter fun v =>
      (Literal.Key.of? v).isNone) = ignored.map Prod.snd := by
  induction h with
  | done => rfl
  | skip hkey value _ ih =>
    have halias := isAlias_iff.mpr hkey
    rw [List.filter_cons_of_neg (by simp [halias]), ih]
  | ignore hkey hvalue _ ih =>
    have halias := isAlias_eq_false_iff.mpr hkey
    have hnone := Literal.Key.of?_eq_none_iff.mpr hvalue
    simp only [List.filter_cons, halias, Bool.not_false, if_true, List.map_cons, hnone,
      Option.isNone_none, ih]
  | @keep _ value _ _ _ _ hkey hnumber hliteral _ ih =>
    have halias := isAlias_eq_false_iff.mpr hkey
    have hsome : (Literal.Key.of? value).isNone = false := by
      rw [Option.isNone_eq_false_iff, Option.isSome_iff_ne_none, ne_eq,
        Literal.Key.of?_eq_none_iff]
      simp [hnumber, hliteral]
    simp only [List.filter_cons, halias, Bool.not_false, if_true, List.map_cons, hsome,
      Bool.false_eq_true, if_false, ih]

end Reports

end Enumeration

/-! ## Accounting -/

namespace Checker

open Enumeration

/-- **Every entry is accounted for.** The entries of an enum can be dealt out to the skipped, the
    ignored and the kept, which together are the entries. Building the checker reports the keys of the
    skipped ones and then the types of the ignored ones, each group in the order of the entries, and
    nothing else. The checker accepts the value of every entry that is kept, and only what is strictly
    equal to one of these. -/
theorem ofEnum_accounts (d : Enumeration) :
    (∃ skipped ignored kept, Dealt d.mode d.entries skipped ignored kept) ∧
    ∀ skipped ignored kept, Dealt d.mode d.entries skipped ignored kept →
      (skipped ++ ignored ++ kept).Perm d.entries ∧
      (ofEnum d).events =
        skipped.map (fun entry => .aliasSkipped entry.1) ++
          ignored.map (fun entry => .nonLiteralIgnored entry.2.tag) ∧
      (∀ entry ∈ kept, (ofEnum d).result.accepts entry.2 = true) ∧
      ∀ v, (ofEnum d).result.accepts v = true →
        ∃ entry ∈ kept, v.strictlyEquals entry.2 = true := by
  refine ⟨exists_dealt d.mode d.entries, ?_⟩
  intro skipped ignored kept hdealt
  refine ⟨hdealt.perm, ?events, ?kept, ?accepted⟩
  case events =>
    have hignored : (ofValues d.values.result).events =
        ignored.map fun entry => .nonLiteralIgnored entry.2.tag := by
      rw [ofValues, Enumeration.values, hdealt.filter_eq_ignored, List.map_map]
      rfl
    rw [ofEnum, hignored, Enumeration.values, hdealt.filter_eq_skipped]
  case kept =>
    intro entry hentry
    obtain ⟨hmem, hkey, hnumber, hliteral⟩ := hdealt.mem_kept_iff.mp hentry
    have halias := isAlias_eq_false_iff.mpr hkey
    refine ofEnum_accepts_iff.mpr ⟨entry, hmem, halias, hliteral, ?_⟩
    simp [hnumber]
  case accepted =>
    intro v hv
    obtain ⟨entry, hmem, halias, hliteral, hequal⟩ := ofEnum_accepts_iff.mp hv
    have hkey := isAlias_eq_false_iff.mp halias
    have hnumber := Value.isNaN_of_strictlyEquals hequal
    exact ⟨entry, hdealt.mem_kept_iff.mpr ⟨hmem, hkey, hnumber, hliteral⟩, hequal⟩

/-- Entries of every kind in turn, and a value that is kept twice. -/
theorem ofEnum_accounts_mixed :
    let nan := Value.number ⟨0x7ff8000000000000⟩
    let d : Enumeration := ⟨[("1", .string "A"), ("Unset", .null), ("A", .string "a"), ("-2e3", nan),
      ("Zero", .number .zero), ("None", nan), ("Again", .string "a")], .reflected⟩
    let kept := [("A", .string "a"), ("Zero", .number .zero), ("Again", .string "a")]
    Dealt d.mode d.entries [("1", .string "A"), ("-2e3", nan)] [("Unset", .null), ("None", nan)]
        kept ∧
      (ofEnum d).events = [.aliasSkipped "1", .aliasSkipped "-2e3", .nonLiteralIgnored .object,
        .nonLiteralIgnored .number] ∧
      (ofEnum d).result.accepts (.number .zero) = true ∧
      (∃ entry ∈ kept, (Value.number .zero).strictlyEquals entry.2 = true) ∧
      (ofEnum d).result.accepts (.string "A") = false := by
  intro nan d kept
  have hdealt : Dealt d.mode d.entries [("1", .string "A"), ("-2e3", nan)]
      [("Unset", .null), ("None", nan)] kept := by
    apply Dealt.skip (by decide)
    apply Dealt.ignore (by decide) (.inr (by decide))
    apply Dealt.keep (by decide) (by decide) (by decide)
    apply Dealt.skip (by decide)
    apply Dealt.keep (by decide) (by decide) (by decide)
    apply Dealt.ignore (by decide) (.inl (by decide))
    apply Dealt.keep (by decide) (by decide) (by decide)
    exact .done
  obtain ⟨-, haccounts⟩ := ofEnum_accounts d
  obtain ⟨-, hevents, hkept, haccepted⟩ := haccounts _ _ _ hdealt
  have hzero := hkept ("Zero", .number .zero) (by simp [kept])
  refine ⟨hdealt, hevents, hzero, haccepted _ hzero, ?_⟩
  rw [Bool.eq_false_iff]
  intro hname
  obtain ⟨entry, hentry, hequal⟩ := haccepted _ hname
  have hnone : ∀ entry ∈ kept, (Value.string "A").strictlyEquals entry.2 = false := by decide
  rw [hnone entry hentry] at hequal
  exact nomatch hequal

end Checker

end DynCheck
