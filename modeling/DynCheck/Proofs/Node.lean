import DynCheck.Checker.Run

/-!
# `DynCheck.Proofs.Node` — one node of a checker at work

However they differ, all checkers run in one way. A checker first looks at the value by itself, and
then runs its parts one after another until a verdict comes that settles its own. Unions, nullable
and optional checkers are settled by acceptance, all others by rejection; if nothing settles a
checker, it comes to the opposite verdict.

## Contents
- **Anatomy.** `Checker.children`, `own`, `settling`, `stamp`.
- **Order.** `upTo`; `Checker.consulted`: the parts whose turn comes.
- **Equation.** `settle`; `Checker.runUntil`, and the calls on the way if the checkers are `Watched`;
  `Checker.run_eq_node`, and from it the verdict (`accepts_eq_settle`, `accepts_eq_settling_iff`) and
  the records (`runs_eq_flatMap_consulted`) of a checker.
-/

namespace DynCheck

/-! ## Anatomy -/

namespace Checker

/-- The parts of a checker with what they are to be run on, in the order of their turns: members from
    left to right, items by position, fields as they stand, and of each entry the key before the
    value. -/
def children : Checker → Value → List (Checker × Value)
  | traced _ c, v => [(c, v)]
  | union cs, v => cs.map fun c => (c, v)
  | intersection cs, v => cs.map fun c => (c, v)
  | either l r, v => [(l, v), (r, v)]
  | both l r, v => [(l, v), (r, v)]
  | erased c, v => [(c, v)]
  | array e, v => (v.items?.getD []).map fun item => (e, item)
  | nullable c, v => [(c, v)]
  | optional c, v => [(c, v)]
  | mapped fields, v => fields.map fun f => (f.2, v.get f.1)
  | record k e, v => v.entries.flatMap fun entry => [(k, .string entry.1), (e, entry.2)]
  | _, _ => []

/-- What a checker sees of a value without running a part. -/
def own : Checker → Value → Bool
  | kind k, v => k.accepts v
  | custom p, v => p v
  | union _, _ => false
  | either .., _ => false
  | array _, v => v.items?.isSome
  | nullable _, v => v.isNull
  | optional _, v => v.isUndefined
  | mapped _, v => v.isObject
  | record .., v => v.isObject
  | literal l, v => v.strictlyEquals l.toValue
  | oneOf members, v => members.contains v
  | instanceOf c, v => v.isInstanceOf c
  | _, _ => true

/-- The verdict, its own or of a part, that settles the verdict of a checker. -/
def settling : Checker → Bool
  | union _ => true
  | either .. => true
  | nullable _ => true
  | optional _ => true
  | _ => false

/-- The record that a checker leaves when it is done. -/
def stamp : Checker → Value → Bool → List Run
  | traced label _, v, accepted => [⟨label, v, accepted⟩]
  | _, _, _ => []

/-- Everything that has a turn is a part. -/
theorem part_of_mem_children {c : Checker} {v : Value} {p : Checker × Value}
    (h : p ∈ c.children v) : Part p.1 c := by
  cases c with
  | kind | custom | literal | oneOf | instanceOf => exact absurd h List.not_mem_nil
  | traced label c => exact List.mem_singleton.mp h ▸ .traced
  | erased c => exact List.mem_singleton.mp h ▸ .erased
  | nullable c => exact List.mem_singleton.mp h ▸ .nullable
  | optional c => exact List.mem_singleton.mp h ▸ .optional
  | union cs =>
    obtain ⟨c, hc, rfl⟩ := List.mem_map.mp h
    exact .union hc
  | intersection cs =>
    obtain ⟨c, hc, rfl⟩ := List.mem_map.mp h
    exact .intersection hc
  | either l r =>
    rcases List.mem_cons.mp h with rfl | h
    · exact .eitherLeft
    · exact List.mem_singleton.mp h ▸ .eitherRight
  | both l r =>
    rcases List.mem_cons.mp h with rfl | h
    · exact .bothLeft
    · exact List.mem_singleton.mp h ▸ .bothRight
  | array e =>
    obtain ⟨item, -, rfl⟩ := List.mem_map.mp h
    exact .array
  | mapped fields =>
    obtain ⟨f, hf, rfl⟩ := List.mem_map.mp h
    exact .mapped hf
  | record k e =>
    obtain ⟨entry, -, hentry⟩ := List.mem_flatMap.mp h
    rcases List.mem_cons.mp hentry with rfl | hentry
    · exact .recordKey
    · exact List.mem_singleton.mp hentry ▸ .recordValue

end Checker

/-! ## Order -/

section Order

variable {α : Type}

/-- The list up to the first element that says stop, that one included. -/
def upTo (stop : α → Bool) : List α → List α
  | [] => []
  | a :: rest => if stop a then [a] else a :: upTo stop rest

theorem exists_append_upTo (stop : α → Bool) (as : List α) :
    ∃ later, upTo stop as ++ later = as := by
  induction as with
  | nil => exact ⟨[], rfl⟩
  | cons a rest ih =>
    by_cases ha : stop a = true
    · rw [upTo, if_pos ha]
      exact ⟨rest, rfl⟩
    · obtain ⟨later, hlater⟩ := ih
      rw [upTo, if_neg ha]
      exact ⟨later, congrArg (a :: ·) hlater⟩

/-- Nothing in front of an element of the list up to the first stop says stop. -/
theorem stop_eq_false_of_upTo {stop : α → Bool} {as : List α} {earlier later : List α} {a : α}
    (h : upTo stop as = earlier ++ a :: later) : ∀ b ∈ earlier, stop b = false := by
  induction as generalizing earlier with
  | nil => exact absurd h (by simp [upTo])
  | cons c rest ih =>
    cases earlier with
    | nil => exact fun b hb => absurd hb List.not_mem_nil
    | cons d earlier =>
      by_cases hc : stop c = true
      · rw [upTo, if_pos hc, List.cons_append, List.cons.injEq] at h
        exact absurd h.2 (by simp)
      · rw [upTo, if_neg hc, List.cons_append, List.cons.injEq] at h
        intro b hb
        rcases List.mem_cons.mp hb with rfl | hb
        · exact h.1 ▸ Bool.eq_false_iff.mpr hc
        · exact ih h.2 b hb

/-- If nothing says stop, nothing is left out. -/
theorem upTo_eq_self {stop : α → Bool} {as : List α} (h : ∀ a ∈ as, stop a = false) :
    upTo stop as = as := by
  induction as with
  | nil => rfl
  | cons a rest ih =>
    have hrest := ih fun b hb => h b (List.mem_cons_of_mem _ hb)
    simp [upTo, h a List.mem_cons_self, hrest]

@[simp] theorem upTo_map {β : Type} (f : α → β) (stop : β → Bool) (as : List α) :
    upTo stop (as.map f) = (upTo (fun a => stop (f a)) as).map f := by
  induction as with
  | nil => rfl
  | cons a rest ih =>
    by_cases ha : stop (f a) = true <;> simp [upTo, ha, ih]

end Order

/-- The parts of a checker that are run: none if the checker is settled by itself, otherwise those
    up to the first whose verdict settles it. -/
def Checker.consulted (c : Checker) (v : Value) : List (Checker × Value) :=
  if c.own v = c.settling then []
  else upTo (fun p => p.1.accepts p.2 == c.settling) (c.children v)

/-! ## Equation -/

/-- The verdict of a checker of which these are the verdicts: the settling one if it is among them,
    its opposite otherwise. -/
def settle (d : Bool) (verdicts : List Bool) : Bool := if d ∈ verdicts then d else !d

@[simp] theorem settle_eq_iff {d : Bool} {verdicts : List Bool} :
    settle d verdicts = d ↔ d ∈ verdicts := by
  by_cases h : d ∈ verdicts <;> simp [settle, h]

/-- What is the settling verdict just when that is among the verdicts is what they come to. -/
theorem settle_eq_of_iff {d b : Bool} {verdicts : List Bool} (h : d ∈ verdicts ↔ b = d) :
    settle d verdicts = b := by
  unfold settle
  by_cases hb : b = d
  · rw [if_pos (h.mpr hb), hb]
  · rw [if_neg fun hmem => hb (h.mp hmem)]
    cases b <;> cases d <;> simp_all

/-- A verdict that settles nothing may be left out. -/
theorem settle_cons_of_ne {d b : Bool} (h : b ≠ d) (verdicts : List Bool) :
    settle d (b :: verdicts) = settle d verdicts := by
  have hne : ¬ d = b := fun heq => h heq.symm
  simp only [settle, List.mem_cons, hne, false_or]

/-- A checker, and the label that its calls are recorded under. -/
structure Watched where
  label : String
  checker : Checker

/-- The checker that records its calls. -/
def Watched.traced (w : Watched) : Checker := .traced w.label w.checker

/-- What a call leaves: the records of the calls on the way, and then its own. -/
def Watched.records (w : Watched) (v : Value) : List Run :=
  (w.checker.run v).runs ++ [⟨w.label, v, w.checker.accepts v⟩]

namespace Checker

/-- The verdict and the records of a checker from those of its parts. -/
def stamped (c : Checker) (v : Value) (verdict : Verdict) : Verdict :=
  ⟨verdict.accepted, verdict.runs ++ c.stamp v verdict.accepted⟩

/-- Run checkers, each on its own argument, up to the first verdict that settles the matter. -/
def runUntil (d : Bool) : List (Checker × Value) → Verdict
  | [] => .silent !d
  | p :: rest =>
    if (p.1.run p.2).accepted = d then p.1.run p.2
    else (runUntil d rest).after (p.1.run p.2).runs

theorem runUntil_accepted (d : Bool) (ps : List (Checker × Value)) :
    (runUntil d ps).accepted = settle d (ps.map fun p => p.1.accepts p.2) := by
  induction ps with
  | nil => simp [runUntil, settle]
  | cons p rest ih =>
    by_cases hp : p.1.accepts p.2 = d
    · simp [runUntil, settle, hp]
    · simp [runUntil, settle_cons_of_ne hp, hp, ih]

theorem runUntil_runs (d : Bool) (ps : List (Checker × Value)) :
    (runUntil d ps).runs =
      (upTo (fun p => p.1.accepts p.2 == d) ps).flatMap fun p => (p.1.run p.2).runs := by
  induction ps with
  | nil => rfl
  | cons p rest ih =>
    by_cases hp : p.1.accepts p.2 = d
    · simp [runUntil, upTo, hp]
    · simp [runUntil, upTo, hp, ih]

/-- Along a list of watched checkers the calls are recorded one after another, up to the first verdict
    that settles the matter. -/
theorem runUntil_runs_traced {α : Type} (d : Bool) (w : α → Watched) (argument : α → Value)
    (as : List α) :
    (runUntil d (as.map fun a => ((w a).traced, argument a))).runs =
      (upTo (fun a => (w a).checker.accepts (argument a) == d) as).flatMap fun a =>
        (w a).records (argument a) := by
  simp only [runUntil_runs, upTo_map, List.flatMap_map]
  rfl

/-- A single checker decides whichever verdict it comes to. -/
@[simp] theorem runUntil_singleton (d : Bool) (c : Checker) (v : Value) :
    runUntil d [(c, v)] = c.run v := by
  by_cases h : c.accepts v = d
  · simp [runUntil, h]
  -- A verdict that does not settle the matter is the one that is left when nothing does.
  · have hnot : (!d) = c.accepts v := (Bool.eq_not_of_ne h).symm
    simp [runUntil, h, Verdict.silent, Verdict.after, hnot]
    rfl

theorem orElse_runUntil (c : Checker) (v : Value) (rest : List (Checker × Value)) :
    ((c.run v).orElse fun _ => runUntil true rest) = runUntil true ((c, v) :: rest) := rfl

theorem andThen_runUntil (c : Checker) (v : Value) (rest : List (Checker × Value)) :
    ((c.run v).andThen fun _ => runUntil false rest) = runUntil false ((c, v) :: rest) := by
  rw [Verdict.andThen, runUntil]
  cases (c.run v).accepted <;> rfl

theorem runAny_eq_runUntil (cs : List Checker) (v : Value) :
    runAny cs v = runUntil true (cs.map fun c => (c, v)) := by
  induction cs with
  | nil => rfl
  | cons c rest ih => rw [runAny, ih, orElse_runUntil, List.map_cons]

theorem runAll_eq_runUntil (cs : List Checker) (v : Value) :
    runAll cs v = runUntil false (cs.map fun c => (c, v)) := by
  induction cs with
  | nil => rfl
  | cons c rest ih => rw [runAll, ih, andThen_runUntil, List.map_cons]

theorem runFields_eq_runUntil (fields : List (String × Checker)) (v : Value) :
    runFields fields v = runUntil false (fields.map fun f => (f.2, v.get f.1)) := by
  induction fields with
  | nil => rfl
  | cons f rest ih => rw [runFields, ih, andThen_runUntil, List.map_cons]

theorem every_run_eq_runUntil (e : Checker) (items : List Value) :
    Verdict.every e.run items = runUntil false (items.map fun item => (e, item)) := by
  induction items with
  | nil => rfl
  | cons item rest ih => rw [Verdict.every, ih, andThen_runUntil, List.map_cons]

theorem every_entry_eq_runUntil (k e : Checker) (entries : Properties Value) :
    (Verdict.every (fun entry => (k.run (.string entry.1)).andThen fun _ => e.run entry.2)
      entries) =
    runUntil false (entries.flatMap fun entry => [(k, .string entry.1), (e, entry.2)]) := by
  induction entries with
  | nil => rfl
  | cons entry rest ih =>
    -- Whether the two of an entry are taken together or one by one makes no difference.
    rw [Verdict.every, ih, Verdict.andThen_assoc, andThen_runUntil, andThen_runUntil]
    rfl

theorem stamped_of_not_traced {c : Checker} {v : Value} (h : ∀ accepted, c.stamp v accepted = [])
    (verdict : Verdict) : c.stamped v verdict = verdict := by
  rw [stamped, h, List.append_nil]

/-- A checker without parts is settled by rejection and left with acceptance. -/
theorem silent_eq_node (b : Bool) :
    Verdict.silent b = if b = false then .silent false else runUntil false [] := by
  cases b <;> rfl

/-- The run of a checker but for its own record: what it sees by itself, and if that does not settle
    it, its parts up to the first verdict that does. -/
def runParts (c : Checker) (v : Value) : Verdict :=
  if c.own v = c.settling then .silent c.settling else runUntil c.settling (c.children v)

/-- **All checkers run in one way.** -/
theorem run_eq_node (c : Checker) (v : Value) : c.run v = c.stamped v (c.runParts v) := by
  cases c with
  | kind | custom | literal | oneOf | instanceOf =>
    rw [stamped_of_not_traced fun _ => rfl]
    exact silent_eq_node _
  | traced label c =>
    -- The only checker that leaves a record of its own.
    have hparts : (traced label c).runParts v = c.run v := runUntil_singleton false c v
    rw [hparts]
    rfl
  | erased c =>
    rw [stamped_of_not_traced fun _ => rfl]
    exact (runUntil_singleton false c v).symm
  | union cs =>
    rw [stamped_of_not_traced fun _ => rfl]
    exact runAny_eq_runUntil cs v
  | intersection cs =>
    rw [stamped_of_not_traced fun _ => rfl]
    exact runAll_eq_runUntil cs v
  | either l r =>
    rw [stamped_of_not_traced fun _ => rfl]
    show ((l.run v).orElse fun _ => r.run v) = runUntil true [(l, v), (r, v)]
    rw [← orElse_runUntil, runUntil_singleton]
  | both l r =>
    rw [stamped_of_not_traced fun _ => rfl]
    show ((l.run v).andThen fun _ => r.run v) = runUntil false [(l, v), (r, v)]
    rw [← andThen_runUntil, runUntil_singleton]
  | array e =>
    rw [stamped_of_not_traced fun _ => rfl, runParts, run, own, children]
    cases v.items? with
    | none => rfl
    | some items => exact every_run_eq_runUntil e items
  | nullable c =>
    rw [stamped_of_not_traced fun _ => rfl, runParts, run, own, children, settling, runUntil_singleton]
  | optional c =>
    rw [stamped_of_not_traced fun _ => rfl, runParts, run, own, children, settling, runUntil_singleton]
  | mapped fields =>
    rw [stamped_of_not_traced fun _ => rfl, runParts, run, own, children, runFields_eq_runUntil]
    cases v.isObject <;> rfl
  | record k e =>
    rw [stamped_of_not_traced fun _ => rfl, runParts, run, own, children, every_entry_eq_runUntil]
    cases v.isObject <;> rfl

theorem runParts_accepted (c : Checker) (v : Value) :
    (c.runParts v).accepted =
      settle c.settling (c.own v :: (c.children v).map fun p => p.1.accepts p.2) := by
  unfold runParts
  by_cases h : c.own v = c.settling
  · have hmem : c.settling ∈ c.own v :: (c.children v).map fun p => p.1.accepts p.2 :=
      h ▸ List.mem_cons_self
    rw [if_pos h, settle_eq_iff.mpr hmem]
    rfl
  · rw [if_neg h, runUntil_accepted, settle_cons_of_ne h]

theorem runParts_runs (c : Checker) (v : Value) :
    (c.runParts v).runs = (c.consulted v).flatMap fun p => (p.1.run p.2).runs := by
  unfold runParts consulted
  split
  · rfl
  · exact runUntil_runs _ _

/-- The verdict of a checker is the settling one if the checker itself or one of its parts, run or
    not, comes to that. -/
theorem accepts_eq_settle (c : Checker) (v : Value) :
    c.accepts v = settle c.settling (c.own v :: (c.children v).map fun p => p.1.accepts p.2) := by
  rw [← runParts_accepted, accepts, run_eq_node]
  rfl

/-- So it takes one to settle it. -/
theorem accepts_eq_settling_iff (c : Checker) (v : Value) :
    c.accepts v = c.settling ↔
      c.own v = c.settling ∨ ∃ q ∈ c.children v, q.1.accepts q.2 = c.settling := by
  rw [accepts_eq_settle, settle_eq_iff, List.mem_cons, List.mem_map]
  exact or_congr_left eq_comm

/-- The records of a checker are those of the parts that are consulted, and then its own. -/
theorem runs_eq_flatMap_consulted (c : Checker) (v : Value) :
    (c.run v).runs = (c.consulted v).flatMap (fun p => (p.1.run p.2).runs) ++
      c.stamp v (c.accepts v) := by
  rw [accepts, run_eq_node, stamped, runParts_runs]

end Checker

end DynCheck
