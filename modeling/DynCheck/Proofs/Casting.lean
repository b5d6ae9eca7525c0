import DynCheck.Cast
import DynCheck.Proofs.Message

/-!
# `DynCheck.Proofs.Casting` — the ways to apply a cast are one

A value can be handed to a cast, to the cast as a function, or looked at through a view that is
turned back into the value; and the cast itself can be put together by hand or asked of a checker.
The first two run the checker and the third narrows, each with its own branches. All of them come to
the same: the value that came in, or one report about it.

## Contents
- **Entry points.** `CastOutcome.map`; `Cast.outcomes`: what each entry point gives;
  `Cast.map_applyView`.
- **Contract.** `Cast.waysToMake`; `Cast.outcomes_of_verdict`.
-/

namespace DynCheck

/-! ## Entry points -/

/-- The same outcome with the value in another form. -/
def CastOutcome.map {α β : Type} (f : α → β) (o : CastOutcome α) : CastOutcome β :=
  ⟨o.result.map f, o.runs, o.events⟩

namespace Cast

/-- What the entry points of a cast give for a value, the view being turned back into a value. -/
def outcomes (k : Cast) (v : Value) : List (CastOutcome Value) :=
  [k.apply v, k.asFunction v, (k.applyView v).map View.value]

/-- A view leads back to the value that came in, and a report stays what it is. -/
theorem map_applyView (k : Cast) (v : Value) : (k.applyView v).map View.value = k.apply v := by
  unfold applyView apply Checker.narrow
  by_cases h : k.checker.accepts v = true
  · rw [if_pos h, if_pos h]
    rfl
  · rw [if_neg h, if_neg h]
    rfl

theorem eq_apply_of_mem_outcomes {k : Cast} {v : Value} {o : CastOutcome Value}
    (h : o ∈ k.outcomes v) : o = k.apply v := by
  rcases List.mem_cons.mp h with rfl | h
  · rfl
  rcases List.mem_cons.mp h with rfl | h
  · rfl
  · rw [List.mem_singleton.mp h, map_applyView]

/-! ## Contract -/

/-- The cast that is put together by hand, and the one that the checker makes. -/
def waysToMake (c : Checker) (expected : Option String) (bounds : TextBounds) : List Cast :=
  [⟨c, expected, bounds⟩, (c.cast expected).withBounds bounds]

theorem eq_of_mem_waysToMake {c : Checker} {expected : Option String} {bounds : TextBounds}
    {k : Cast} (h : k ∈ waysToMake c expected bounds) : k = ⟨c, expected, bounds⟩ := by
  rcases List.mem_cons.mp h with rfl | h
  · rfl
  · exact List.mem_singleton.mp h

/-- **What a cast gives depends on the verdict alone.** However the cast is made and applied, the
    outcome is the same, and the checker has run once. An accepted value comes back as it is and
    nothing is logged. For a rejected one there is the report about it and one event; the message
    quotes the rendered value and the name as they are, whatever they contain. -/
theorem outcomes_of_verdict (c : Checker) (expected : Option String) (bounds : TextBounds)
    (v : Value) :
    (∀ k ∈ waysToMake c expected bounds, ∀ k' ∈ waysToMake c expected bounds,
      ∀ o ∈ k.outcomes v, ∀ o' ∈ k'.outcomes v, o = o') ∧
    ∀ k ∈ waysToMake c expected bounds, ∀ o ∈ k.outcomes v,
      o.runs = (c.run v).runs ∧
      (c.accepts v = true → o.result = .ok v ∧ o.events = []) ∧
      (c.accepts v = false →
        o.result = .error (Rejection.ofValue bounds expected v) ∧
        o.events = [.rejected expected v.tag] ∧
        (Rejection.ofValue bounds expected v).message =
          match expected with
          | some name => "value `" ++ v.render bounds ++ "` is not of type `" ++ name ++ "`"
          | none => "value `" ++ v.render bounds ++ "` is of an invalid type") := by
  have hsame : ∀ k ∈ waysToMake c expected bounds, ∀ o ∈ k.outcomes v,
      o = apply ⟨c, expected, bounds⟩ v := by
    intro k hk o ho
    rw [eq_apply_of_mem_outcomes ho, eq_of_mem_waysToMake hk]
  constructor
  · intro k hk k' hk' o ho o' ho'
    rw [hsame k hk o ho, hsame k' hk' o' ho']
  · intro k hk o ho
    rw [hsame k hk o ho]
    unfold apply
    cases haccepts : c.accepts v with
    | true =>
      refine ⟨rfl, fun _ => ⟨rfl, rfl⟩, ?_⟩
      intro h
      exact absurd h.symm Bool.false_ne_true
    | false =>
      refine ⟨rfl, ?_, fun _ => ⟨rfl, rfl, ?_⟩⟩
      · intro h
        exact absurd h Bool.false_ne_true
      · rw [Rejection.ofValue_eq]
        cases expected <;> rfl

/-- A text that looks like the second placeholder, under a name that looks like the first and holds a
    backtick. -/
theorem outcomes_of_verdict_placeholders :
    let k := (Checker.kind .number).cast (some "\x7b0\x7d`")
    let v := Value.string "\x7b1\x7d"
    (∃ report, ((k.applyView v).map View.value).result = .error report ∧
      report.message = "value `\"\x7b1\x7d\"` is not of type `\x7b0\x7d``") ∧
    (k.apply v).events = [.rejected (some "\x7b0\x7d`") .string] ∧
    ((k.applyView (.number .zero)).map View.value).result = .ok (.number .zero) := by
  intro k v
  have hmade : k ∈ waysToMake (.kind .number) (some "\x7b0\x7d`") {} :=
    List.mem_cons_of_mem _ List.mem_cons_self
  have hview : ∀ u, (k.applyView u).map View.value ∈ k.outcomes u := fun u =>
    List.mem_cons_of_mem _ (List.mem_cons_of_mem _ List.mem_cons_self)
  have hrejected := (outcomes_of_verdict (.kind .number) (some "\x7b0\x7d`") {} v).2 k hmade
  have haccepted :=
    (outcomes_of_verdict (.kind .number) (some "\x7b0\x7d`") {} (.number .zero)).2 k hmade
  obtain ⟨hresult, -, hmessage⟩ := (hrejected _ (hview v)).2.2 rfl
  obtain ⟨-, hevents, -⟩ := (hrejected _ List.mem_cons_self).2.2 rfl
  refine ⟨⟨_, hresult, hmessage.trans ?_⟩, hevents, ((haccepted _ (hview _)).2.1 rfl).1⟩
  have hshown : v.render {} = "\"\x7b1\x7d\"" := by decide
  rw [hshown]
  decide

end Cast

end DynCheck
