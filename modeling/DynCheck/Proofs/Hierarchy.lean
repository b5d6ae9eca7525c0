import DynCheck.Proofs.World

/-!
# `DynCheck.Proofs.Hierarchy` — the relation of classes

Whether one class inherits from another is found out by a walk: from the class to its parent, and on
until the other one is met or there is no parent left. The walk compares identities, so it is only
as good as these. `Class.lineage` has all that the walk can meet, and as a list it settles the shape
of the relation: lineages of ancestors are ends of the lineage, and two ends of one list are
comparable. What the list cannot say is that identities tell classes apart, and that the walk stays
among the classes that were created. Both are what `Class.Forest` is for.

## Contents
- **Lineage.** Order by membership: `mem_lineage_trans`, `eq_of_mem_lineage`, `mem_lineage_or`;
  `nodup_lineage`.
- **Walks.** `Class.walk`, the walk round by round; `walk_eq`: it ends.
- **Forests.** Where identities are distinct, `Class.Forest.descendsFrom_iff`.
- **Worlds.** `World.Subclass`; `World.Reachable.hierarchy`.
-/

namespace DynCheck

namespace Class

/-! ## Lineage -/

theorem lineage_eq_cons (c : Class) : c.lineage = c :: c.ancestors := by
  cases c <;> rfl

theorem mem_lineage_trans {a b c : Class} (hab : a ∈ b.lineage) (hbc : b ∈ c.lineage) :
    a ∈ c.lineage :=
  (lineage_suffix hbc).subset hab

/-- Two classes that stand in each other's lineage have one lineage, and it begins with both. -/
theorem eq_of_mem_lineage {a c : Class} (hac : a ∈ c.lineage) (hca : c ∈ a.lineage) : a = c := by
  have hsuffix := lineage_suffix hac
  have hlength : a.lineage.length = c.lineage.length :=
    Nat.le_antisymm hsuffix.length_le (lineage_suffix hca).length_le
  have heq := hsuffix.eq_of_length hlength
  rw [lineage_eq_cons a, lineage_eq_cons c] at heq
  exact (List.cons.inj heq).1

/-- Of two ancestors of one class, one is an ancestor of the other. -/
theorem mem_lineage_or {a b c : Class} (hac : a ∈ c.lineage) (hbc : b ∈ c.lineage) :
    b ∈ a.lineage ∨ a ∈ b.lineage := by
  rcases List.suffix_or_suffix_of_suffix (lineage_suffix hac) (lineage_suffix hbc) with h | h
  · exact .inr (h.subset (mem_lineage_self a))
  · exact .inl (h.subset (mem_lineage_self b))

/-- No class is its own ancestor: its lineage would be shorter than itself. -/
theorem nodup_lineage (c : Class) : c.lineage.Nodup := by
  induction c with
  | root i n a => exact List.nodup_singleton _
  | extending parent i n a ih =>
    rw [lineage, List.nodup_cons]
    refine ⟨?_, ih⟩
    intro hmem
    have hlength := (lineage_suffix hmem).length_le
    rw [lineage, List.length_cons] at hlength
    exact Nat.not_succ_le_self _ hlength

/-! ## Walks -/

/-- The walk that looks for an ancestor, for a number of rounds: at what it found, if it has ended by
    then. In each round it looks at one class, or sees that there is none left. -/
def walk (ancestor : Class) : Nat → Option Class → Option Bool
  | 0, _ => none
  | _ + 1, none => some false
  | rounds + 1, some c => if c.sameAs ancestor then some true else walk ancestor rounds c.parent?

/-- One round for each class of the lineage and one for its end are enough, and what the walk finds
    is what the lineage has. -/
theorem walk_eq {a c : Class} {rounds : Nat} (h : c.lineage.length < rounds) :
    a.walk rounds (some c) = some (c.descendsFrom a) := by
  induction c generalizing rounds with
  | root i n b =>
    obtain _ | _ | r := rounds
    · exact absurd h (Nat.not_lt_zero _)
    · exact absurd h (Nat.lt_irrefl _)
    · show (if (root i n b).sameAs a then some true else some false) =
        some ((root i n b).sameAs a || false)
      cases (root i n b).sameAs a with
      | true => rfl
      | false => rfl
  | extending parent i n b ih =>
    obtain _ | r := rounds
    · exact absurd h (Nat.not_lt_zero _)
    · show (if (extending parent i n b).sameAs a then some true else a.walk r (some parent)) =
        some ((extending parent i n b).sameAs a || parent.descendsFrom a)
      rw [ih (Nat.lt_of_succ_lt_succ h)]
      cases (extending parent i n b).sameAs a with
      | true => rfl
      | false => rfl

namespace Forest

/-! ## Forests -/

variable {supply : Supply} {classes : List Class}

/-- Nothing was created from what was not. -/
theorem mem_of_mem_lineage (h : Forest supply classes) {a c : Class} (hc : c ∈ classes)
    (ha : a ∈ c.lineage) : a ∈ classes := by
  induction c with
  | root =>
    rw [List.mem_singleton.mp ha]
    exact hc
  | extending parent i n b ih =>
    rcases List.mem_cons.mp ha with rfl | ha
    · exact hc
    · exact ih (h.closed _ hc parent rfl) ha

theorem eq_of_sameAs (h : Forest supply classes) {c d : Class} (hc : c ∈ classes)
    (hd : d ∈ classes) (hsame : c.sameAs d = true) : c = d :=
  List.inj_on_of_nodup_map h.distinct hc hd (beq_iff_eq.mp hsame)

/-- Comparing identities finds the class that was looked for, and no other. -/
theorem descendsFrom_iff (h : Forest supply classes) {a c : Class} (ha : a ∈ classes)
    (hc : c ∈ classes) : c.descendsFrom a = true ↔ a ∈ c.lineage := by
  constructor
  · intro hdescends
    obtain ⟨d, hd, hsame⟩ := List.any_eq_true.mp hdescends
    rw [← h.eq_of_sameAs (h.mem_of_mem_lineage hc hd) ha hsame]
    exact hd
  · intro hmem
    apply List.any_eq_true.mpr
    exact ⟨a, hmem, beq_self_eq_true a.identity⟩

/-- A lineage is no longer than the list of all classes. -/
theorem length_lineage_le (h : Forest supply classes) {c : Class} (hc : c ∈ classes) :
    c.lineage.length ≤ classes.length := by
  have hsubset : c.lineage ⊆ classes := fun a ha => h.mem_of_mem_lineage hc ha
  exact (List.subperm_of_subset (nodup_lineage c) hsubset).length_le

end Forest

end Class

namespace World

/-! ## Worlds -/

/-- Both classes were created, and the first is the second or inherits from it. -/
def Subclass (w : World) (c a : Class) : Prop :=
  c ∈ w.classes ∧ a ∈ w.classes ∧ c.descendsFrom a = true

/-- In a sound world the relation is the lineage. -/
theorem Sound.subclass_iff {w : World} (h : w.Sound) {c a : Class} :
    w.Subclass c a ↔ c ∈ w.classes ∧ a ∈ c.lineage := by
  constructor
  · rintro ⟨hc, ha, hdescends⟩
    exact ⟨hc, (h.forest.descendsFrom_iff ha hc).mp hdescends⟩
  · rintro ⟨hc, ha⟩
    have hcreated := h.forest.mem_of_mem_lineage hc ha
    exact ⟨hc, hcreated, (h.forest.descendsFrom_iff hcreated hc).mpr ha⟩

theorem Sound.subclass_trans {w : World} (h : w.Sound) {a b c : Class} (hab : w.Subclass a b)
    (hbc : w.Subclass b c) : w.Subclass a c := by
  obtain ⟨ha, hb⟩ := h.subclass_iff.mp hab
  obtain ⟨-, hc⟩ := h.subclass_iff.mp hbc
  exact h.subclass_iff.mpr ⟨ha, Class.mem_lineage_trans hc hb⟩

/-- What is created next was not created before. -/
theorem Sound.not_mem_classes {w : World} (h : w.Sound) {d : Class}
    (hidentity : d.identity = ⟨w.supply.next⟩) : d ∉ w.classes := by
  intro hd
  have hlt := h.forest.old d hd
  rw [hidentity] at hlt
  exact Nat.lt_irrefl _ hlt

/-- **Classes are a forest, whatever the order in which they are created.** The walk to an ancestor
    ends, before it has looked at more classes than there are. The relation that it decides is an
    order in which the ancestors of a class form a chain, and no two creations give the same class,
    not even under one name. A new subclass adds itself below its parent and changes nothing else. -/
theorem Reachable.hierarchy {w : World} (hw : w.Reachable) :
    (∀ c ∈ w.classes, ∀ a ∈ w.classes, ∀ rounds, w.classes.length < rounds →
      a.walk rounds (some c) = some (c.descendsFrom a)) ∧
    (∀ c ∈ w.classes, w.Subclass c c) ∧
    (∀ a b c, w.Subclass a b → w.Subclass b c → w.Subclass a c) ∧
    (∀ a b, w.Subclass a b → w.Subclass b a → a = b) ∧
    (∀ a b c, w.Subclass c a → w.Subclass c b → w.Subclass a b ∨ w.Subclass b a) ∧
    (∀ i j (hi : i < w.classes.length) (hj : j < w.classes.length), i ≠ j →
      w.classes[i].sameAs w.classes[j] = false) ∧
    (∀ p ∈ w.classes, ∀ name isAbstract,
      let d := ((p.extend name isAbstract).run w.supply).1
      let w' := w.addClass (p.extend name isAbstract)
      (d ∉ w.classes ∧ w'.classes = d :: w.classes ∧ d.parent? = some p) ∧
      (∀ c ∈ w.classes, ∀ a ∈ w.classes, (w'.Subclass c a ↔ w.Subclass c a)) ∧
      (∀ a, w'.Subclass d a ↔ a = d ∨ w.Subclass p a) ∧
      (∀ c ∈ w.classes, ¬ w'.Subclass c d)) := by
  have h := hw.sound
  refine ⟨?ends, ?reflexive, ?transitive, ?antisymmetric, ?chain, ?distinct, ?extend⟩
  case ends =>
    intro c hc a _ rounds hrounds
    apply Class.walk_eq
    exact Nat.lt_of_le_of_lt (h.forest.length_lineage_le hc) hrounds
  case reflexive =>
    intro c hc
    exact ⟨hc, hc, c.descendsFrom_self⟩
  case transitive =>
    intro a b c hab hbc
    exact h.subclass_trans hab hbc
  case antisymmetric =>
    intro a b hab hba
    exact Class.eq_of_mem_lineage (h.subclass_iff.mp hba).2 (h.subclass_iff.mp hab).2
  case chain =>
    intro a b c hca hcb
    have ha := (h.subclass_iff.mp hca).2
    have hb := (h.subclass_iff.mp hcb).2
    rcases Class.mem_lineage_or ha hb with hba | hab
    · exact .inl (h.subclass_iff.mpr ⟨hca.2.1, hba⟩)
    · exact .inr (h.subclass_iff.mpr ⟨hcb.2.1, hab⟩)
  case distinct =>
    intro i j hi hj hne
    have hi' : i < (w.classes.map Class.identity).length := by rwa [List.length_map]
    have hj' : j < (w.classes.map Class.identity).length := by rwa [List.length_map]
    rw [Class.sameAs, beq_eq_false_iff_ne]
    intro heq
    have hmap : (w.classes.map Class.identity)[i] = (w.classes.map Class.identity)[j] := by
      rw [List.getElem_map, List.getElem_map, heq]
    exact hne (h.forest.distinct.getElem_inj_iff.mp hmap)
  case extend =>
    intro p hp name isAbstract d w'
    have hnew : d ∉ w.classes := h.not_mem_classes rfl
    have h' : w'.Sound := h.step (.newSubclass hp name isAbstract)
    refine ⟨⟨hnew, rfl, rfl⟩, ?_, ?_, ?_⟩
    · intro c hc a ha
      exact ⟨fun hsub => ⟨hc, ha, hsub.2.2⟩,
        fun hsub => ⟨List.mem_cons_of_mem _ hc, List.mem_cons_of_mem _ ha, hsub.2.2⟩⟩
    · intro a
      have hlineage : a ∈ d.lineage ↔ a = d ∨ a ∈ p.lineage := List.mem_cons
      have hd : d ∈ w'.classes := List.mem_cons_self
      rw [h'.subclass_iff, h.subclass_iff, hlineage]
      simp only [hd, hp, true_and]
    · intro c hc hsub
      have hmem := (h'.subclass_iff.mp hsub).2
      exact hnew (h.forest.mem_of_mem_lineage hc hmem)

/-- A class below an abstract one, and another one of the same name that is no relative. -/
theorem Reachable.hierarchy_namesakes :
    let a := Class.root ⟨0⟩ "A" true
    let b := Class.extending a ⟨1⟩ "B" false
    let namesake := Class.root ⟨2⟩ "A" false
    let w : World := ⟨[namesake, b, a], [], [], ⟨3⟩⟩
    let d := Class.extending b ⟨3⟩ "A" true
    w.Reachable ∧ a.walk 4 (some b) = some true ∧ namesake.walk 4 (some b) = some false ∧
      namesake.sameAs a = false ∧ (w.addClass (b.extend "A" true)).Subclass d a ∧
      ¬ (w.addClass (b.extend "A" true)).Subclass d namesake := by
  intro a b namesake w d
  have hroot : Reachable ⟨[a], [], [], ⟨1⟩⟩ := .step (.start ⟨0⟩) (.newClass "A" true)
  have hchild : Reachable ⟨[b, a], [], [], ⟨2⟩⟩ :=
    .step hroot (.newSubclass List.mem_cons_self "B" false)
  have hw : w.Reachable := .step hchild (.newClass "A" false)
  have ha : a ∈ w.classes := by simp [w]
  have hb : b ∈ w.classes := by simp [w]
  have hnamesake : namesake ∈ w.classes := by simp [w]
  obtain ⟨hends, -, -, -, -, hdistinct, hextend⟩ := hw.hierarchy
  have hsubclass := (hextend b hb "A" true).2.2.1
  refine ⟨hw, hends b hb a ha 4 (by decide), hends b hb namesake hnamesake 4 (by decide),
    hdistinct 0 2 (by decide) (by decide) (by decide), ?_, ?_⟩
  · exact (hsubclass a).mpr (.inr ⟨hb, ha, rfl⟩)
  · intro h
    rcases (hsubclass namesake).mp h with heq | ⟨-, -, hdescends⟩
    · exact nomatch heq
    · exact absurd hdescends (by decide)

end World

end DynCheck
