import DynCheck.Checker.Basic
import DynCheck.Value.Equality
import DynCheck.Value.Members

/-!
# `DynCheck.Checker.Run` — running a checker

A run goes from left to right and stops where the verdict is known: at the first member of a union
that accepts, at the first part of anything else that rejects. Traced checkers leave a record when
they are done, so the records of inner ones come before those of outer ones.

## Contents
- **Verdicts.** `Run`, `Verdict`; `orElse` and `andThen` go on only if they must; `every` goes
  through a list.
- **Runs.** `Checker.run`; `Checker.accepts`: the verdict alone. One `simp` equation for each way to
  build a checker reduces it to the verdicts of the parts.
-/

namespace DynCheck

/-! ## Verdicts -/

/-- The record of one run of a traced checker. -/
structure Run where
  label : String
  argument : Value
  accepted : Bool

/-- The outcome of a run, and what was recorded on the way, first record first. -/
structure Verdict where
  accepted : Bool
  runs : List Run

namespace Verdict

/-- A verdict that leaves no record. -/
def silent (accepted : Bool) : Verdict := ⟨accepted, []⟩

/-- Add the record of a checker that came to this verdict. -/
def record (label : String) (argument : Value) (verdict : Verdict) : Verdict :=
  ⟨verdict.accepted, verdict.runs ++ [⟨label, argument, verdict.accepted⟩]⟩

/-- The verdict of what ran later, with the records of what ran before. -/
def after (verdict : Verdict) (earlier : List Run) : Verdict :=
  ⟨verdict.accepted, earlier ++ verdict.runs⟩

/-- If this one rejects, the next one decides. -/
def orElse (verdict : Verdict) (next : Unit → Verdict) : Verdict :=
  if verdict.accepted then verdict else (next ()).after verdict.runs

/-- If this one accepts, the next one decides. -/
def andThen (verdict : Verdict) (next : Unit → Verdict) : Verdict :=
  if verdict.accepted then (next ()).after verdict.runs else verdict

/-- Run a check on each element up to the first that is rejected. -/
def every {α : Type} (check : α → Verdict) : List α → Verdict
  | [] => silent true
  | a :: rest => (check a).andThen fun _ => every check rest

@[simp] theorem accepted_silent (accepted : Bool) : (silent accepted).accepted = accepted := rfl

@[simp] theorem accepted_record (label : String) (argument : Value) (verdict : Verdict) :
    (verdict.record label argument).accepted = verdict.accepted := rfl

@[simp] theorem accepted_after (verdict : Verdict) (earlier : List Run) :
    (verdict.after earlier).accepted = verdict.accepted := rfl

@[simp] theorem runs_silent (accepted : Bool) : (silent accepted).runs = [] := rfl

@[simp] theorem runs_after (verdict : Verdict) (earlier : List Run) :
    (verdict.after earlier).runs = earlier ++ verdict.runs := rfl

/-- What ran before comes first, however it is put in front. -/
@[simp] theorem after_after (verdict : Verdict) (late early : List Run) :
    (verdict.after late).after early = verdict.after (early ++ late) :=
  congrArg (mk verdict.accepted) (List.append_assoc early late verdict.runs).symm

@[simp] theorem orElse_accepted (verdict : Verdict) (next : Unit → Verdict) :
    (verdict.orElse next).accepted = (verdict.accepted || (next ()).accepted) := by
  unfold orElse
  cases h : verdict.accepted <;> simp [h]

@[simp] theorem andThen_accepted (verdict : Verdict) (next : Unit → Verdict) :
    (verdict.andThen next).accepted = (verdict.accepted && (next ()).accepted) := by
  unfold andThen
  cases h : verdict.accepted <;> simp [h]

/-- Where three have to accept, it does not matter which two are put together first: whichever
    rejects comes out, behind the records of those before it. -/
theorem andThen_assoc (verdict : Verdict) (next last : Unit → Verdict) :
    (verdict.andThen next).andThen last = verdict.andThen fun u => (next u).andThen last := by
  unfold andThen
  cases h : verdict.accepted with
  | false => simp [h]
  | true => cases hn : (next ()).accepted <;> simp [hn]

@[simp] theorem every_accepted {α : Type} (check : α → Verdict) (as : List α) :
    (every check as).accepted = as.all fun a => (check a).accepted := by
  induction as with
  | nil => rfl
  | cons a rest ih => simp [every, ih]

@[simp] theorem every_map {α β : Type} (f : α → β) (check : β → Verdict) (as : List α) :
    every check (as.map f) = every (fun a => check (f a)) as := by
  induction as with
  | nil => rfl
  | cons a rest ih => simp [every, ih]

end Verdict

/-! ## Runs -/

/-- Whether an object was constructed by a class or by one of its subclasses. -/
def Value.isInstanceOf (c : Class) (v : Value) : Bool :=
  match v.maker? with
  | some maker => maker.descendsFrom c
  | none => false

theorem Value.isInstanceOf_iff {c : Class} {v : Value} :
    v.isInstanceOf c = true ↔ ∃ d, v.maker? = some d ∧ d.descendsFrom c = true := by
  unfold isInstanceOf
  cases v.maker? with
  | none => simp
  | some d => simp

namespace Checker

mutual

/-- Run a checker on a value. -/
def run : Checker → Value → Verdict
  | kind k, v => .silent (k.accepts v)
  | custom accepts, v => .silent (accepts v)
  | traced label inner, v => (run inner v).record label v
  | union members, v => runAny members v
  | intersection members, v => runAll members v
  | either left right, v => (run left v).orElse fun _ => run right v
  | both left right, v => (run left v).andThen fun _ => run right v
  | erased inner, v => run inner v
  | array element, v =>
    match v.items? with
    | some items => Verdict.every (run element) items
    | none => .silent false
  | nullable inner, v => if v.isNull then .silent true else run inner v
  | optional inner, v => if v.isUndefined then .silent true else run inner v
  | mapped fields, v => if v.isObject then runFields fields v else .silent false
  | record key value, v =>
    if v.isObject then
      v.entries |> Verdict.every fun entry =>
        (run key (.string entry.1)).andThen fun _ => run value entry.2
    else
      .silent false
  | literal l, v => .silent (v.strictlyEquals l.toValue)
  | oneOf members, v => .silent (members.contains v)
  | instanceOf c, v => .silent (v.isInstanceOf c)
termination_by structural c => c

/-- Run checkers until one accepts. -/
def runAny : List Checker → Value → Verdict
  | [], _ => .silent false
  | c :: rest, v => (run c v).orElse fun _ => runAny rest v
termination_by structural cs => cs

/-- Run checkers until one rejects. -/
def runAll : List Checker → Value → Verdict
  | [], _ => .silent true
  | c :: rest, v => (run c v).andThen fun _ => runAll rest v
termination_by structural cs => cs

/-- Run the checker of each field on the property at its key until one rejects. -/
def runFields : List (String × Checker) → Value → Verdict
  | [], _ => .silent true
  | (key, c) :: rest, v => (run c (v.get key)).andThen fun _ => runFields rest v
termination_by structural fields => fields

end

/-- Whether a checker accepts a value. -/
def accepts (c : Checker) (v : Value) : Bool := (c.run v).accepted

/-- The verdict of a run is spelled `accepts`. -/
@[simp] theorem run_accepted (c : Checker) (v : Value) : (c.run v).accepted = c.accepts v := rfl

@[simp] theorem runAny_accepted (cs : List Checker) (v : Value) :
    (runAny cs v).accepted = cs.any fun c => c.accepts v := by
  induction cs with
  | nil => rfl
  | cons c rest ih => simp [runAny, ih]

@[simp] theorem runAll_accepted (cs : List Checker) (v : Value) :
    (runAll cs v).accepted = cs.all fun c => c.accepts v := by
  induction cs with
  | nil => rfl
  | cons c rest ih => simp [runAll, ih]

@[simp] theorem runFields_accepted (fields : List (String × Checker)) (v : Value) :
    (runFields fields v).accepted = fields.all fun f => f.2.accepts (v.get f.1) := by
  induction fields with
  | nil => rfl
  | cons f rest ih => simp [runFields, ih]

@[simp] theorem accepts_kind (k : Kind) (v : Value) : (kind k).accepts v = k.accepts v := rfl

@[simp] theorem accepts_custom (p : Value → Bool) (v : Value) : (custom p).accepts v = p v := rfl

/-- To be watched changes no verdict. -/
@[simp] theorem accepts_traced (label : String) (c : Checker) (v : Value) :
    (traced label c).accepts v = c.accepts v := rfl

@[simp] theorem accepts_union (cs : List Checker) (v : Value) :
    (union cs).accepts v = cs.any fun c => c.accepts v := runAny_accepted cs v

@[simp] theorem accepts_intersection (cs : List Checker) (v : Value) :
    (intersection cs).accepts v = cs.all fun c => c.accepts v := runAll_accepted cs v

@[simp] theorem accepts_either (l r : Checker) (v : Value) :
    (either l r).accepts v = (l.accepts v || r.accepts v) := Verdict.orElse_accepted _ _

@[simp] theorem accepts_both (l r : Checker) (v : Value) :
    (both l r).accepts v = (l.accepts v && r.accepts v) := Verdict.andThen_accepted _ _

@[simp] theorem accepts_erased (c : Checker) (v : Value) : (erased c).accepts v = c.accepts v := rfl

@[simp] theorem accepts_array (e : Checker) (v : Value) :
    (array e).accepts v = v.items?.any fun items => items.all fun item => e.accepts item := by
  rw [accepts, run]
  cases v.items? <;> simp

@[simp] theorem accepts_nullable (c : Checker) (v : Value) :
    (nullable c).accepts v = (v.isNull || c.accepts v) := by
  rw [accepts, run]
  cases v.isNull <;> simp

@[simp] theorem accepts_optional (c : Checker) (v : Value) :
    (optional c).accepts v = (v.isUndefined || c.accepts v) := by
  rw [accepts, run]
  cases v.isUndefined <;> simp

@[simp] theorem accepts_mapped (fields : List (String × Checker)) (v : Value) :
    (mapped fields).accepts v =
      (v.isObject && fields.all fun f => f.2.accepts (v.get f.1)) := by
  rw [accepts, run]
  cases v.isObject <;> simp

@[simp] theorem accepts_record (k e : Checker) (v : Value) :
    (record k e).accepts v = (v.isObject &&
      v.entries.all fun p => k.accepts (.string p.1) && e.accepts p.2) := by
  rw [accepts, run]
  cases v.isObject <;> simp

theorem accepts_array_iff {e : Checker} {v : Value} : (array e).accepts v = true ↔
    ∃ items, v.items? = some items ∧ ∀ item ∈ items, e.accepts item = true := by
  rw [accepts_array, Option.any_eq_true]
  simp

theorem accepts_record_iff {k e : Checker} {v : Value} : (record k e).accepts v = true ↔
    v.isObject = true ∧
      ∀ p ∈ v.entries, k.accepts (.string p.1) = true ∧ e.accepts p.2 = true := by
  simp

@[simp] theorem accepts_literal (l : Literal) (v : Value) :
    (literal l).accepts v = v.strictlyEquals l.toValue := rfl

@[simp] theorem accepts_oneOf (members : LiteralSet) (v : Value) :
    (oneOf members).accepts v = members.contains v := rfl

@[simp] theorem accepts_instanceOf (c : Class) (v : Value) :
    (instanceOf c).accepts v = v.isInstanceOf c := rfl

end Checker

end DynCheck
