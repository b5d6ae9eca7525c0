import DynCheck.Proofs.Node

/-!
# `DynCheck.Proofs.Flattening` — unions of unions

A union in a union may be left away: its members can stand among those of the outer one. The verdict
is the same because one acceptance is as good as another. That the same checkers are called takes
more, since the inner union stops early for itself, and the outer one then stops for what the inner
one has come to. Intersections do likewise with rejections.

Both run along a list up to the first verdict that settles the matter, and such runs have one law
for lists that are put together (`runUntil_append`): the back is run only if the front has settled
nothing. So a member that is run as a list would be can give way to that list (`runUntil_splice`).
Flattening is the case in which the member is the list itself, and pairs nested to the right are
flattened from the inside.

## Contents
- **Lists.** `Checker.runUntil_append`, `Checker.runUntil_splice`.
- **Pairs.** `Checker.run_eitherOf`, `Checker.run_bothOf`.
- **Flattening.** `Checker.run_flattened`.
-/

namespace DynCheck.Checker

/-! ## Lists -/

/-- What two lists in a row come to: the front alone if it settles the matter, and otherwise the
    back, with the records of the front before its own. -/
theorem runUntil_append (d : Bool) (ps qs : List (Checker × Value)) :
    runUntil d (ps ++ qs) =
      if (runUntil d ps).accepted = d then runUntil d ps
      else (runUntil d qs).after (runUntil d ps).runs := by
  induction ps with
  | nil =>
    have hopen : ¬ (runUntil d []).accepted = d := by cases d <;> exact Bool.noConfusion
    rw [if_neg hopen]
    rfl
  | cons p rest ih =>
    rw [List.cons_append, runUntil, runUntil]
    by_cases hp : (p.1.run p.2).accepted = d
    · rw [if_pos hp, if_pos hp, if_pos hp]
    -- The first member has settled nothing, so the rest of the front tells whether the back is run.
    · rw [if_neg hp, if_neg hp, ih, Verdict.accepted_after]
      by_cases hrest : (runUntil d rest).accepted = d
      · rw [if_pos hrest, if_pos hrest]
      · rw [if_neg hrest, if_neg hrest, Verdict.after_after]
        rfl

/-- A checker that is run as a list of checkers would be can give way to that list. -/
theorem runUntil_splice {d : Bool} {c : Checker} {ys : List Checker} {v : Value}
    (h : c.run v = runUntil d (ys.map fun y => (y, v))) (xs zs : List Checker) :
    runUntil d ((xs ++ [c] ++ zs).map fun x => (x, v)) =
      runUntil d ((xs ++ ys ++ zs).map fun x => (x, v)) := by
  have hsame : runUntil d ([c].map fun x => (x, v)) = runUntil d (ys.map fun y => (y, v)) :=
    (runUntil_singleton d c v).trans h
  simp only [List.map_append, runUntil_append, hsame]

/-! ## Pairs -/

theorem run_union (cs : List Checker) (v : Value) :
    (union cs).run v = runUntil true (cs.map fun c => (c, v)) := runAny_eq_runUntil cs v

theorem run_intersection (cs : List Checker) (v : Value) :
    (intersection cs).run v = runUntil false (cs.map fun c => (c, v)) := runAll_eq_runUntil cs v

/-- Pairs that are nested to the right are run as one union. -/
theorem run_eitherOf (cs : List Checker) (v : Value) : (eitherOf cs).run v = (union cs).run v := by
  rw [run_union]
  induction cs with
  | nil => rfl
  | cons c rest ih =>
    cases rest with
    | nil => exact (runUntil_singleton true c v).symm
    | cons next rest =>
      show ((c.run v).orElse fun _ => (eitherOf (next :: rest)).run v) = _
      rw [ih]
      exact orElse_runUntil c v _

/-- Pairs that are nested to the right are run as one intersection. -/
theorem run_bothOf (cs : List Checker) (v : Value) :
    (bothOf cs).run v = (intersection cs).run v := by
  rw [run_intersection]
  induction cs with
  | nil => rfl
  | cons c rest ih =>
    cases rest with
    | nil => exact (runUntil_singleton false c v).symm
    | cons next rest =>
      show ((c.run v).andThen fun _ => (bothOf (next :: rest)).run v) = _
      rw [ih]
      exact andThen_runUntil c v _

/-! ## Flattening -/

/-- **Unions and intersections flatten.** A union among the members of a union is run as if its
    members stood there themselves, wherever it stands and however many there are, and so is an
    intersection among those of an intersection. Hence any number of checkers, joined two at a time
    and nested to the right, are run as the flat list of them. To be run alike is to come to the
    same verdict and to leave the same records; and since the members may leave records themselves,
    these tell which of them were called and in which order: one after the other, up to the first
    that accepts in a union and to the first that rejects in an intersection. -/
theorem run_flattened (v : Value) :
    (∀ xs ys zs, (union (xs ++ [union ys] ++ zs)).run v = (union (xs ++ ys ++ zs)).run v) ∧
    (∀ xs ys zs, (intersection (xs ++ [intersection ys] ++ zs)).run v =
      (intersection (xs ++ ys ++ zs)).run v) ∧
    (∀ cs, (eitherOf cs).run v = (union cs).run v) ∧
    (∀ cs, (bothOf cs).run v = (intersection cs).run v) ∧
    (∀ watched : List Watched, ((union (watched.map Watched.traced)).run v).runs =
      (upTo (fun w => w.checker.accepts v == true) watched).flatMap fun w => w.records v) ∧
    (∀ watched : List Watched, ((intersection (watched.map Watched.traced)).run v).runs =
      (upTo (fun w => w.checker.accepts v == false) watched).flatMap fun w => w.records v) := by
  refine ⟨?union, ?intersection, fun cs => run_eitherOf cs v, fun cs => run_bothOf cs v, ?any, ?all⟩
  case union =>
    intro xs ys zs
    rw [run_union, run_union]
    exact runUntil_splice (run_union ys v) xs zs
  case intersection =>
    intro xs ys zs
    rw [run_intersection, run_intersection]
    exact runUntil_splice (run_intersection ys v) xs zs
  case any =>
    intro watched
    rw [run_union, List.map_map]
    exact runUntil_runs_traced true id (fun _ => v) watched
  case all =>
    intro watched
    rw [run_intersection, List.map_map]
    exact runUntil_runs_traced false id (fun _ => v) watched

end DynCheck.Checker
