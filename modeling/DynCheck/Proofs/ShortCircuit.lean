import Mathlib.Data.List.Flatten
import DynCheck.Proofs.Declarations

/-!
# `DynCheck.Proofs.ShortCircuit` — stopping early against running everything

Checkers stop as soon as their verdict is known. `Checker.runEagerly` never stops: at every node of
the tree it runs every part, and only then puts the verdicts together. The two agree in the verdict,
and what stopping early leaves of the records is some of those of the eager run, in their order.

Both evaluators are brought to the same form, one node with its parts (`Checker.children`), and the
induction over the tree then compares a list with a part of itself.

## Contents
- **Eager runs.** `Verdict.anyOf`, `Verdict.allOf`; `Checker.runEagerly`; `runEagerly_eq_node`.
- **Turns.** `Checker.InTurn`: who has a turn at a node, and when the turns end.
- **Refinement.** `runs_sublist`; `Checker.run_refines_runEagerly`.
-/

namespace DynCheck

/-! ## Eager runs -/

namespace Verdict

/-- Acceptance if one of the verdicts is acceptance, with the records of all. -/
def anyOf (verdicts : List Verdict) : Verdict :=
  ⟨verdicts.any fun r => r.accepted, verdicts.flatMap fun r => r.runs⟩

/-- Acceptance if all of the verdicts are acceptance, with the records of all. -/
def allOf (verdicts : List Verdict) : Verdict :=
  ⟨verdicts.all fun r => r.accepted, verdicts.flatMap fun r => r.runs⟩

/-- Acceptance adds nothing to another verdict. -/
theorem allOf_singleton (verdict : Verdict) : allOf [silent true, verdict] = verdict := by
  unfold allOf silent
  simp

/-- The two ways to put verdicts together go by what settles the matter. -/
theorem anyOf_accepted (verdicts : List Verdict) :
    (anyOf verdicts).accepted = settle true (verdicts.map accepted) := by
  refine (settle_eq_of_iff ?_).symm
  rw [anyOf, List.any_eq_true, List.mem_map]

theorem allOf_accepted (verdicts : List Verdict) :
    (allOf verdicts).accepted = settle false (verdicts.map accepted) := by
  refine (settle_eq_of_iff ?_).symm
  rw [allOf, List.all_eq_false, List.mem_map]
  simp only [Bool.not_eq_true]

end Verdict

namespace Checker

mutual

/-- Run a checker on a value, and every part of it on whatever it is there for: all members, items
    and fields, key and value of every entry, and the inner checker even where null or undefined
    would do. -/
def runEagerly : Checker → Value → Verdict
  | kind k, v => .silent (k.accepts v)
  | custom accepts, v => .silent (accepts v)
  | traced label inner, v => (runEagerly inner v).record label v
  | union members, v => .anyOf (runMembersEagerly members v)
  | intersection members, v => .allOf (runMembersEagerly members v)
  | either left right, v => .anyOf [runEagerly left v, runEagerly right v]
  | both left right, v => .allOf [runEagerly left v, runEagerly right v]
  | erased inner, v => runEagerly inner v
  | array element, v =>
    .allOf (.silent v.items?.isSome :: (v.items?.getD []).map (runEagerly element))
  | nullable inner, v => .anyOf [.silent v.isNull, runEagerly inner v]
  | optional inner, v => .anyOf [.silent v.isUndefined, runEagerly inner v]
  | mapped fields, v => .allOf (.silent v.isObject :: runFieldsEagerly fields v)
  | record key value, v =>
    .allOf (.silent v.isObject :: v.entries.flatMap fun entry =>
      [runEagerly key (.string entry.1), runEagerly value entry.2])
  | literal l, v => .silent (v.strictlyEquals l.toValue)
  | oneOf members, v => .silent (members.contains v)
  | instanceOf c, v => .silent (v.isInstanceOf c)
termination_by structural c => c

def runMembersEagerly : List Checker → Value → List Verdict
  | [], _ => []
  | c :: rest, v => runEagerly c v :: runMembersEagerly rest v
termination_by structural cs => cs

def runFieldsEagerly : List (String × Checker) → Value → List Verdict
  | [], _ => []
  | (key, c) :: rest, v => runEagerly c (v.get key) :: runFieldsEagerly rest v
termination_by structural fields => fields

end

theorem runMembersEagerly_eq_map (cs : List Checker) (v : Value) :
    runMembersEagerly cs v = cs.map fun c => c.runEagerly v := by
  induction cs with
  | nil => rfl
  | cons c rest ih => rw [runMembersEagerly, ih, List.map_cons]

theorem runFieldsEagerly_eq_map (fields : List (String × Checker)) (v : Value) :
    runFieldsEagerly fields v = fields.map fun f => f.2.runEagerly (v.get f.1) := by
  induction fields with
  | nil => rfl
  | cons f rest ih => rw [runFieldsEagerly, ih, List.map_cons]

/-- All verdicts of a node together: what it sees by itself, and all its parts. -/
def settledBy (c : Checker) (v : Value) (verdicts : List Verdict) : Verdict :=
  if c.settling then .anyOf (.silent (c.own v) :: verdicts)
  else .allOf (.silent (c.own v) :: verdicts)

theorem settledBy_accepted (c : Checker) (v : Value) (verdicts : List Verdict) :
    (c.settledBy v verdicts).accepted =
      settle c.settling (c.own v :: verdicts.map Verdict.accepted) := by
  unfold settledBy
  cases c.settling with
  | true => exact Verdict.anyOf_accepted _
  | false => exact Verdict.allOf_accepted _

theorem settledBy_runs (c : Checker) (v : Value) (verdicts : List Verdict) :
    (c.settledBy v verdicts).runs = verdicts.flatMap Verdict.runs := by
  unfold settledBy
  cases c.settling <;> rfl

/-- **Eager runs go by the same nodes.** The parts are the same and so is what settles a checker; but
    all the parts are run. -/
theorem runEagerly_eq_node (c : Checker) (v : Value) :
    c.runEagerly v =
      c.stamped v (c.settledBy v ((c.children v).map fun p => p.1.runEagerly p.2)) := by
  cases c with
  | kind | custom | literal | oneOf | instanceOf =>
    rw [stamped_of_not_traced fun _ => rfl]
    exact congrArg (Verdict.mk · []) (Bool.and_true _).symm
  | traced label c =>
    -- One part alone decides, and the record comes after those of that part.
    have hparts : (traced label c).settledBy v [c.runEagerly v] = c.runEagerly v :=
      Verdict.allOf_singleton _
    exact (congrArg (Verdict.record label v) hparts).symm
  | erased c =>
    rw [stamped_of_not_traced fun _ => rfl]
    exact (Verdict.allOf_singleton _).symm
  | union cs =>
    rw [stamped_of_not_traced fun _ => rfl, runEagerly, runMembersEagerly_eq_map, children,
      List.map_map]
    rfl
  | intersection cs =>
    rw [stamped_of_not_traced fun _ => rfl, runEagerly, runMembersEagerly_eq_map, children,
      List.map_map]
    rfl
  | either | both | nullable | optional =>
    rw [stamped_of_not_traced fun _ => rfl]
    rfl
  | array e =>
    rw [stamped_of_not_traced fun _ => rfl, runEagerly, children, List.map_map]
    rfl
  | mapped fields =>
    rw [stamped_of_not_traced fun _ => rfl, runEagerly, runFieldsEagerly_eq_map, children,
      List.map_map]
    rfl
  | record k e =>
    rw [stamped_of_not_traced fun _ => rfl, runEagerly, children, List.map_flatMap]
    rfl

/-- An eager run comes to the same verdict. By induction over the parts: the verdicts that are put
    together are the same ones, and whether some of them were never asked for makes no difference. -/
theorem accepts_eq_runEagerly (c : Checker) (v : Value) : c.accepts v = (c.runEagerly v).accepted := by
  induction c using ind_part generalizing v with
  | step c ih =>
    rw [accepts_eq_settle, runEagerly_eq_node, stamped, settledBy_accepted, List.map_map]
    refine congrArg (fun verdicts => settle c.settling (c.own v :: verdicts)) ?_
    refine List.map_congr_left ?_
    intro p hp
    exact ih p.1 (part_of_mem_children hp) p.2

/-! ## Turns -/

theorem runEagerly_runs (c : Checker) (v : Value) :
    (c.runEagerly v).runs =
      (c.children v).flatMap (fun p => (p.1.runEagerly p.2).runs) ++ c.stamp v (c.accepts v) := by
  rw [accepts_eq_runEagerly, runEagerly_eq_node, stamped, settledBy_runs, List.flatMap_map]

theorem exists_children_eq_append (c : Checker) (v : Value) :
    ∃ later, c.consulted v ++ later = c.children v := by
  unfold consulted
  split
  · exact ⟨c.children v, List.nil_append _⟩
  · exact exists_append_upTo _ _

/-- Whoever has a turn, has it because nothing has settled the matter before. -/
theorem undecided_of_consulted {c : Checker} {v : Value} {earlier later : List (Checker × Value)}
    {p : Checker × Value} (h : c.consulted v = earlier ++ p :: later) :
    c.own v ≠ c.settling ∧ ∀ q ∈ earlier, q.1.accepts q.2 ≠ c.settling := by
  unfold consulted at h
  by_cases hown : c.own v = c.settling
  · rw [if_pos hown] at h
    exact absurd h (by simp)
  · rw [if_neg hown] at h
    refine ⟨hown, ?_⟩
    intro q hq
    exact beq_eq_false_iff_ne.mp (stop_eq_false_of_upTo h q hq)

/-- If nothing settles the matter, everybody has a turn. -/
theorem consulted_eq_children {c : Checker} {v : Value} (h : c.accepts v ≠ c.settling) :
    c.consulted v = c.children v := by
  have hnone := mt (accepts_eq_settling_iff c v).mpr h
  rw [not_or] at hnone
  rw [consulted, if_neg hnone.1]
  refine upTo_eq_self ?_
  intro p hp
  exact beq_eq_false_iff_ne.mpr fun hsettling => hnone.2 ⟨p, hp, hsettling⟩

/-- The parts of a checker have their turns in order, and none after the verdict is known. -/
structure InTurn (c : Checker) (v : Value) : Prop where
  /-- An eager run records all the parts, one after the other, and then the checker. -/
  eager : (c.runEagerly v).runs =
    (c.children v).flatMap (fun p => (p.1.runEagerly p.2).runs) ++ c.stamp v (c.accepts v)
  /-- A run records the consulted parts, one after the other, and then the checker. -/
  run : (c.run v).runs =
    (c.consulted v).flatMap (fun p => (p.1.run p.2).runs) ++ c.stamp v (c.accepts v)
  /-- The parts that are consulted are the first ones. -/
  first : ∃ later, c.consulted v ++ later = c.children v
  /-- What decides a verdict: the checker by itself, or one of its parts. -/
  decided : c.accepts v = c.settling ↔
    c.own v = c.settling ∨ ∃ q ∈ c.children v, q.1.accepts q.2 = c.settling
  /-- Whoever is consulted, neither the checker itself nor an earlier part has decided. -/
  undecided : ∀ earlier p later, c.consulted v = earlier ++ p :: later →
    c.own v ≠ c.settling ∧ ∀ q ∈ earlier, q.1.accepts q.2 ≠ c.settling
  /-- While nothing decides, nobody is left out. -/
  all : c.accepts v ≠ c.settling → c.consulted v = c.children v
  /-- Fields have their turns by the first places of their keys, with the last checkers declared. -/
  declared : ∀ declarations, c = shape declarations →
    c.children v = (fieldsOf declarations).map fun f => (f.2, v.get f.1)

theorem inTurn (c : Checker) (v : Value) : c.InTurn v where
  eager := runEagerly_runs c v
  run := runs_eq_flatMap_consulted c v
  first := exists_children_eq_append c v
  decided := accepts_eq_settling_iff c v
  undecided _ _ _ := undecided_of_consulted
  all := consulted_eq_children
  declared declarations h := h ▸ children_shape declarations v

/-! ## Refinement -/

/-- By induction over the parts: fewer of them are run, and each of these records less. -/
theorem runs_sublist (c : Checker) (v : Value) :
    (c.run v).runs.Sublist (c.runEagerly v).runs := by
  induction c using ind_part generalizing v with
  | step c ih =>
    obtain ⟨later, hchildren⟩ := exists_children_eq_append c v
    -- Every consulted part records less than it does in the eager run,
    have hparts : ((c.consulted v).flatMap fun p => (p.1.run p.2).runs).Sublist
        ((c.consulted v).flatMap fun p => (p.1.runEagerly p.2).runs) := by
      refine List.Sublist.flatMap_right _ ?_
      intro p hp
      have hchild : p ∈ c.children v := hchildren ▸ List.mem_append_left later hp
      exact ih p.1 (part_of_mem_children hchild) p.2
    -- and the eager run records all the other parts besides.
    have hfewer : (c.consulted v).Sublist (c.children v) :=
      hchildren ▸ List.sublist_append_left _ later
    rw [runs_eq_flatMap_consulted, runEagerly_runs]
    exact (hparts.trans (hfewer.flatMap _)).append_right _

/-- **Stopping early refines running everything.** A run and an eager run come to the same verdict;
    the run records some of what the eager run records, each with the same argument and verdict and in
    the same order; and at every node the parts have their turns in order, up to the first that
    decides. -/
theorem run_refines_runEagerly (c : Checker) (v : Value) :
    (c.run v).accepted = (c.runEagerly v).accepted ∧
      (c.run v).runs.Sublist (c.runEagerly v).runs ∧ c.InTurn v :=
  ⟨accepts_eq_runEagerly c v, runs_sublist c v, inTurn c v⟩

/-- A key that is declared twice has its turn first and with the later checker. When the next field
    rejects, the last one is left out. -/
theorem run_refines_runEagerly_redeclared :
    let c := shape [("a", traced "earlier" (kind .never)), ("b", traced "missing" (kind .number)),
      ("c", traced "left out" (kind .any)), ("a", traced "later" (kind .any))]
    let v := Value.object ⟨0⟩ none [("c", .null)]
    (c.run v).runs.map Run.label = ["later", "missing"] ∧
      (c.runEagerly v).runs.map Run.label = ["later", "missing", "left out"] ∧
      (c.run v).accepted = (c.runEagerly v).accepted ∧
      (c.run v).runs.Sublist (c.runEagerly v).runs ∧ c.InTurn v := by
  intro c v
  exact ⟨rfl, rfl, run_refines_runEagerly c v⟩

end Checker

end DynCheck
