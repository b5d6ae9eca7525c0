import DynCheck.Proofs.Json.RoundTrip
import DynCheck.Report.Rejection

/-!
# `DynCheck.Proofs.Horizon` — deep content never shows in a report

A report follows containers down to a bound, but it has two ways to go down. JSON counts arrays and
objects alike and gives up at the first one that lies too deep, or at a bigint, whichever comes
first. The string conversion is what is left then; it counts arrays alone and never enters an object.
So which of the two texts is shown, and what it says, could hang on anything in the value.

It does not. `Value.SameWithin` relates two values that have one structure down to the bound, where
only the kind of a container counts. Each walk is followed once, by induction on that relation: both
see nothing of a value but what related values share, and JSON even fails with the same error.

## Contents
- **Relation.** `Value.SameText` for leaves, `Value.SameWithin`.
- **Walks.** `SameText.toJsonWithin_eq`, `SameText.textWithin_eq`; `SameWithin.toJsonWithin_eq`,
  `SameWithin.textWithin_eq`.
- **Reports.** `Rejection.eq_of_sameWithin`.
-/

namespace DynCheck

/-! ## Relation -/

namespace Value

/-- Two leaves that are written alike. Numbers may be the two zeros or both NaN; identities do not
    count, and of a class only its name does. -/
inductive SameText : Value → Value → Prop where
  | undefined : SameText .undefined .undefined
  | null : SameText .null .null
  | boolean (b : Bool) : SameText (.boolean b) (.boolean b)
  | number {x y : Binary64} (h : x.Alike y) : SameText (.number x) (.number y)
  | bigint (i : Int) : SameText (.bigint i) (.bigint i)
  | string (s : String) : SameText (.string s) (.string s)
  | symbol {s t : Symbol} (h : s.description = t.description) : SameText (.symbol s) (.symbol t)
  | plain (i j : Identity) (name : String) :
      SameText (.function (.plain i name)) (.function (.plain j name))
  | constructor {c d : Class} (h : c.name = d.name) :
      SameText (.function (.constructor c)) (.function (.constructor d))

/-- The values have one structure as far as `levels` levels of containers go. A container below
    that is an array or an object and nothing else; above it, arrays have one length and the same
    items, and objects list the same keys with the same values. Identities and the classes of objects
    never count. -/
inductive SameWithin : Nat → Value → Value → Prop where
  | leaf {levels : Nat} {v w : Value} (h : SameText v w) : SameWithin levels v w
  | closedArray (i j : Identity) (xs ys : List Value) : SameWithin 0 (.array i xs) (.array j ys)
  | closedObject (i j : Identity) (m n : Option Class) (ps qs : Properties Value) :
      SameWithin 0 (.object i m ps) (.object j n qs)
  | array (i j : Identity) {levels : Nat} {xs ys : List Value} (size : xs.length = ys.length)
      (items : ∀ {x y}, (x, y) ∈ xs.zip ys → SameWithin levels x y) :
      SameWithin (levels + 1) (.array i xs) (.array j ys)
  | object (i j : Identity) (m n : Option Class) {levels : Nat} {ps qs : Properties Value}
      (keys : Properties.keys (Properties.enumerate ps) =
        Properties.keys (Properties.enumerate qs))
      (values : ∀ {p q}, (p, q) ∈ (Properties.enumerate ps).zip (Properties.enumerate qs) →
        SameWithin levels p.2 q.2) :
      SameWithin (levels + 1) (.object i m ps) (.object j n qs)

end Value

/-! ## Walks -/

/-- Numbers that are alike have one tree. -/
theorem Json.ofNumber_eq_of_alike {x y : Binary64} (h : x.Alike y) :
    Json.ofNumber x = Json.ofNumber y := by
  rcases h with hequal | ⟨hx, hy⟩
  · obtain ⟨-, -, hrank⟩ := Binary64.equals_iff.mp hequal
    rw [← ofNumber_withoutNegativeZero x, Binary64.withoutNegativeZero_eq hrank,
      ofNumber_withoutNegativeZero]
  · have hnull : ∀ z : Binary64, z.isNaN = true → Json.ofNumber z = .null := by
      intro z hz
      have hfinite : ¬ z.isFinite = true := by
        intro hfinite
        rw [Binary64.isNaN_of_isFinite hfinite] at hz
        exact absurd hz Bool.false_ne_true
      rw [ofNumber, if_neg hfinite]
    rw [hnull x hx, hnull y hy]

namespace Value

theorem SameText.toJsonWithin_eq {v w : Value} (h : v.SameText w) (limit levels : Nat) :
    v.toJsonWithin limit levels = w.toJsonWithin limit levels := by
  cases h with
  | number h =>
    show Except.ok (some (Json.ofNumber _)) = Except.ok (some (Json.ofNumber _))
    rw [Json.ofNumber_eq_of_alike h]
  | _ => rfl

theorem SameText.textWithin_eq {v w : Value} (h : v.SameText w) (levels : Nat) :
    v.textWithin levels = w.textWithin levels := by
  cases h with
  | number h => exact Binary64.toText_eq_of_alike h
  | symbol h =>
    show "Symbol(" ++ _ ++ ")" = "Symbol(" ++ _ ++ ")"
    rw [h]
  | constructor h =>
    show "class " ++ _ ++ " \x7b \x7d" = "class " ++ _ ++ " \x7b \x7d"
    rw [h]
  | _ => rfl

/-- Lists whose elements correspond one by one have one image under functions that agree on what
    corresponds. -/
theorem map_eq_map_of_zip {α β γ : Type} {f : α → γ} {g : β → γ} {as : List α} {bs : List β}
    (size : as.length = bs.length) (h : ∀ {a b}, (a, b) ∈ as.zip bs → f a = g b) :
    as.map f = bs.map g := by
  have hpairs : List.Forall₂ (fun a b => f a = g b) as bs := List.forall₂_iff_zip.mpr ⟨size, h⟩
  have hmapped : List.Forall₂ Eq (as.map f) (bs.map g) := by
    rw [List.forall₂_map_left_iff, List.forall₂_map_right_iff]
    exact hpairs
  rwa [List.forall₂_eq_eq_eq] at hmapped

/-- So do members with the same keys in one order, if the functions leave the keys alone. -/
theorem map_members_eq_of_zip {α β γ : Type} {f : α → γ} {g : β → γ} {ps : Properties α}
    {qs : Properties β} (keys : Properties.keys ps = Properties.keys qs)
    (h : ∀ {p q}, (p, q) ∈ ps.zip qs → f p.2 = g q.2) :
    ps.map (fun p => (p.1, f p.2)) = qs.map fun q => (q.1, g q.2) := by
  have hkeys : List.Forall₂ (fun p q => p.1 = q.1) ps qs := by
    have heq : List.Forall₂ Eq (ps.map Prod.fst) (qs.map Prod.fst) := by
      rw [List.forall₂_eq_eq_eq]
      exact keys
    rwa [List.forall₂_map_left_iff, List.forall₂_map_right_iff] at heq
  obtain ⟨size, hkey⟩ := List.forall₂_iff_zip.mp hkeys
  apply map_eq_map_of_zip size
  intro p q hpq
  rw [hkey hpq, h hpq]

/-- The trees of items depend on what becomes of each item, and on nothing else. -/
theorem itemsToJson_congr {limit levels : Nat} {xs ys : List Value}
    (h : xs.map (toJsonWithin limit levels) = ys.map (toJsonWithin limit levels)) :
    itemsToJson limit levels xs = itemsToJson limit levels ys := by
  induction xs generalizing ys with
  | nil =>
    cases ys with
    | nil => rfl
    | cons y rest => exact absurd h (by simp)
  | cons x rest ih =>
    cases ys with
    | nil => exact absurd h (by simp)
    | cons y rest' =>
      obtain ⟨hitem, hitems⟩ := List.cons.inj h
      rw [itemsToJson, itemsToJson, hitem, ih hitems]

/-- **JSON goes no deeper than the relation.** The trees are the same, and so are the errors: at the
    bound every container is one, whatever it holds. -/
theorem SameWithin.toJsonWithin_eq {levels : Nat} {v w : Value} (h : SameWithin levels v w)
    (limit : Nat) : v.toJsonWithin limit levels = w.toJsonWithin limit levels := by
  induction h with
  | leaf h => exact h.toJsonWithin_eq limit _
  | closedArray i j xs ys => rfl
  | closedObject i j m n ps qs => rfl
  | array i j size items ih =>
    rw [toJsonWithin, toJsonWithin, itemsToJson_congr (map_eq_map_of_zip size ih)]
  | object i j m n keys values ih =>
    simp only [toJsonWithin_object, map_members_eq_of_zip keys ih]

/-- Related items leave a gap both or none. -/
theorem SameWithin.orGap_eq {levels : Nat} {v w : Value} (h : SameWithin levels v w)
    (text : String) : orGap v text = orGap w text := by
  cases h with
  | leaf h => cases h <;> rfl
  | _ => rfl

/-- **Nor does the string conversion.** It stops at arrays where JSON does; of objects it shows
    nothing at all. -/
theorem SameWithin.textWithin_eq {levels : Nat} {v w : Value} (h : SameWithin levels v w) :
    v.textWithin levels = w.textWithin levels := by
  induction h with
  | leaf h => exact h.textWithin_eq _
  | closedArray i j xs ys => rfl
  | closedObject i j m n ps qs => rfl
  | @array i j levels xs ys size items ih =>
    have htexts : xs.map (fun x => orGap x (x.textWithin levels)) =
        ys.map fun y => orGap y (y.textWithin levels) := by
      apply map_eq_map_of_zip size
      intro x y hxy
      rw [ih hxy, (items hxy).orGap_eq]
    show ",".intercalate (itemTexts levels xs) = ",".intercalate (itemTexts levels ys)
    simp only [itemTexts_eq_map, htexts]
  | object i j m n keys values ih => rfl

end Value

/-! ## Reports -/

/-- **What lies below the bound is in no report.** Two values with one structure down to the bound
    are rendered alike, whatever the limit on the length, and the reports that reject them are one
    and the same. -/
theorem Rejection.eq_of_sameWithin (bounds : TextBounds) (expected : Option String) {v w : Value}
    (h : v.SameWithin bounds.maxDepth.toNat w) :
    v.render bounds = w.render bounds ∧
      Rejection.ofValue bounds expected v = Rejection.ofValue bounds expected w := by
  have hjson : v.toJsonText bounds.maxDepth.toNat = w.toJsonText bounds.maxDepth.toNat := by
    simp [Value.toJson, h.toJsonWithin_eq]
  have hrender : v.render bounds = w.render bounds := by
    unfold Value.render Value.renderWhole
    rw [hjson, h.textWithin_eq]
  refine ⟨hrender, ?_⟩
  unfold Rejection.ofValue
  rw [hrender]

/-- A bigint in front of what lies too deep: an array with a secret, an instance, and the other zero. -/
theorem Rejection.eq_of_sameWithin_secret :
    let bounds : TextBounds := { maxDepth := 1, maxLength := some 12 }
    let v := Value.array ⟨0⟩ [.bigint 1, .array ⟨1⟩ [.string "secret"],
      .object ⟨2⟩ (some (.root ⟨3⟩ "Vault" false)) [("k", .null)], .number .zero]
    let w := Value.array ⟨9⟩ [.bigint 1, .array ⟨8⟩ [], .object ⟨7⟩ none [],
      .number ⟨0x8000000000000000⟩]
    v.SameWithin bounds.maxDepth.toNat w ∧
      v.render bounds = w.render bounds ∧ v.render bounds = "1,[...],[obj…" ∧
      Rejection.ofValue bounds (some "T") v = Rejection.ofValue bounds (some "T") w := by
  intro bounds v w
  have hitems : ∀ {x y}, (x, y) ∈ List.zip
      [Value.bigint 1, .array ⟨1⟩ [.string "secret"],
        .object ⟨2⟩ (some (.root ⟨3⟩ "Vault" false)) [("k", .null)], .number .zero]
      [.bigint 1, .array ⟨8⟩ [], .object ⟨7⟩ none [], .number ⟨0x8000000000000000⟩] →
      Value.SameWithin 0 x y := by
    intro x y hxy
    simp only [List.zip_cons_cons, List.zip_nil_right, List.mem_cons, Prod.mk.injEq,
      List.not_mem_nil, or_false] at hxy
    rcases hxy with ⟨rfl, rfl⟩ | ⟨rfl, rfl⟩ | ⟨rfl, rfl⟩ | ⟨rfl, rfl⟩
    · exact .leaf (.bigint 1)
    · exact .closedArray _ _ _ _
    · exact .closedObject _ _ _ _ _ _
    · exact .leaf (.number (.inl (by decide)))
  have hsame : v.SameWithin bounds.maxDepth.toNat w := .array _ _ rfl hitems
  obtain ⟨hrender, hreport⟩ := Rejection.eq_of_sameWithin bounds (some "T") hsame
  exact ⟨hsame, hrender, by decide, hreport⟩

end DynCheck
