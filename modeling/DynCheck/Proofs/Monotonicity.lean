import DynCheck.Proofs.Congruence
import DynCheck.Proofs.Declarations
import DynCheck.Proofs.WellFormed

/-!
# `DynCheck.Proofs.Monotonicity` — components that accept more

No way to build a checker turns the verdict of a component around. Replace a component by one that
accepts more, and the whole accepts more, however deep the component stands and at however many
places; replace it by one with the same verdicts, and the verdicts of the whole stay as they were.

Where components stand is said by a `Checker.Context`, a checker with holes. That acceptance carries
over is argued once, for a single node whose parts are replaced by others. The induction over
contexts then has to say no more than which parts face each other. Only for the fields of a shape
does that take an argument: which declarations count depends on the keys alone, so a declaration
that is overwritten by a later one is overwritten whatever fills its hole.

## Contents
- **Nodes.** `Checker.accepts_of_matched_children`.
- **Contexts.** `Checker.Context`, `Checker.Context.ind`; `Checker.Context.fill`.
- **What is seen.** `Value.Shows`; `Value.WellFormed.shows`.
- **Monotonicity.** `Checker.Context.accepts_fill_of_implies`; `Checker.Context.fill_monotone`.
-/

namespace DynCheck

/-! ## Nodes -/

namespace Checker

/-- What one checker accepts, another accepts too that sees the same by itself, is settled by the
    same verdict, and has parts that accept what the parts of the first accept. -/
theorem accepts_of_matched_children {c d : Checker} {v : Value} (h : c.accepts v = true)
    (hown : c.own v = d.own v) (hsettling : c.settling = d.settling)
    (hparts : Matched (fun p q => p.1.accepts p.2 = true → q.1.accepts q.2 = true)
      (c.children v) (d.children v)) : d.accepts v = true := by
  have hc := accepts_eq_settling_iff c v
  have hd := accepts_eq_settling_iff d v
  rw [hsettling, hown] at hc
  cases hs : d.settling with
  | true =>
    -- What settled the first by acceptance has its like in the second.
    rw [hs] at hc hd
    apply hd.mpr
    refine (hc.mp h).imp_right ?_
    rintro ⟨p, hp, haccepts⟩
    obtain ⟨q, hq, hpq⟩ := hparts.1 p hp
    exact ⟨q, hq, hpq haccepts⟩
  | false =>
    -- Whatever would settle the second by rejection would have settled the first.
    rw [hs] at hc hd
    by_contra hrejects
    have hsettled := hd.mp (Bool.eq_false_iff.mpr hrejects)
    have hfirst : c.accepts v = false := by
      apply hc.mpr
      refine hsettled.imp_right ?_
      rintro ⟨q, hq, hrejected⟩
      obtain ⟨p, hp, hpq⟩ := hparts.2 q hq
      refine ⟨p, hp, Bool.eq_false_iff.mpr ?_⟩
      intro haccepts
      exact absurd (hrejected.symm.trans (hpq haccepts)) Bool.false_ne_true
    exact absurd (hfirst.symm.trans h) Bool.false_ne_true

/-! ## Contexts -/

/-- A checker with holes: one constructor for each way to build a checker from others. -/
inductive Context where
  | hole
  /-- A component without a hole. -/
  | fixed (c : Checker)
  | traced (label : String) (inner : Context)
  | union (members : List Context)
  | intersection (members : List Context)
  | either (left right : Context)
  | both (left right : Context)
  | erased (inner : Context)
  | array (element : Context)
  | nullable (inner : Context)
  | optional (inner : Context)
  /-- The fields of a shape as they are declared, keys repeated or not. -/
  | shape (declarations : List (String × Context))
  | record (key value : Context)

/-- Induction on what a context is built from. -/
@[induction_eliminator]
theorem Context.ind {motive : Context → Prop} (hole : motive .hole)
    (fixed : ∀ c, motive (.fixed c))
    (traced : ∀ label inner, motive inner → motive (.traced label inner))
    (union : ∀ members, (∀ m ∈ members, motive m) → motive (.union members))
    (intersection : ∀ members, (∀ m ∈ members, motive m) → motive (.intersection members))
    (either : ∀ left right, motive left → motive right → motive (.either left right))
    (both : ∀ left right, motive left → motive right → motive (.both left right))
    (erased : ∀ inner, motive inner → motive (.erased inner))
    (array : ∀ element, motive element → motive (.array element))
    (nullable : ∀ inner, motive inner → motive (.nullable inner))
    (optional : ∀ inner, motive inner → motive (.optional inner))
    (shape : ∀ declarations, (∀ f ∈ declarations, motive f.2) → motive (.shape declarations))
    (record : ∀ key value, motive key → motive value → motive (.record key value))
    (ctx : Context) : motive ctx :=
  @Context.rec motive (fun cs => ∀ c ∈ cs, motive c) (fun fs => ∀ f ∈ fs, motive f.2)
    (fun f => motive f.2) hole fixed traced union intersection either both erased array nullable
    optional shape record
    (fun _ h => nomatch h) (fun _ _ head tail => List.forall_mem_cons.mpr ⟨head, tail⟩)
    (fun _ h => nomatch h) (fun _ _ head tail => List.forall_mem_cons.mpr ⟨head, tail⟩)
    (fun _ _ h => h) ctx

namespace Context

mutual

/-- The checker that comes of a context when one checker is put into all its holes. -/
def fill (a : Checker) : Context → Checker
  | hole => a
  | fixed c => c
  | traced label inner => .traced label (fill a inner)
  | union members => .union (fillAll a members)
  | intersection members => .intersection (fillAll a members)
  | either left right => .either (fill a left) (fill a right)
  | both left right => .both (fill a left) (fill a right)
  | erased inner => .erased (fill a inner)
  | array element => .array (fill a element)
  | nullable inner => .nullable (fill a inner)
  | optional inner => .optional (fill a inner)
  | shape declarations => .shape (fillFields a declarations)
  | record key value => .record (fill a key) (fill a value)
termination_by structural ctx => ctx

def fillAll (a : Checker) : List Context → List Checker
  | [] => []
  | ctx :: rest => fill a ctx :: fillAll a rest
termination_by structural ctxs => ctxs

def fillFields (a : Checker) : List (String × Context) → List (String × Checker)
  | [] => []
  | (key, ctx) :: rest => (key, fill a ctx) :: fillFields a rest
termination_by structural fields => fields

end

@[simp] theorem fillAll_eq_map (a : Checker) (ctxs : List Context) : fillAll a ctxs = ctxs.map (fill a) := by
  induction ctxs with
  | nil => rfl
  | cons ctx rest ih => simp [fillAll, ih]

@[simp] theorem fillFields_eq_map (a : Checker) (fields : List (String × Context)) :
    fillFields a fields = fields.map fun f => (f.1, fill a f.2) := by
  induction fields with
  | nil => rfl
  | cons f rest ih => simp [fillFields, ih]

/-- Of the fields of a shape those are filled that the declarations come to. -/
theorem children_fill_shape (a : Checker) (declarations : List (String × Context)) (v : Value) :
    ((shape declarations).fill a).children v =
      (Properties.ofList declarations).map fun f => (f.2.fill a, v.get f.1) := by
  simp [fill, Checker.shape, children, Function.comp_def]

end Context

end Checker

/-! ## What is seen -/

namespace Value

/-- The second value is among what a checker that is run on the first may come to see: the first
    itself, and whatever a checker hands on to a part. -/
inductive Shows : Value → Value → Prop where
  | self (v : Value) : Shows v v
  | handed {v w : Value} (c : Checker) {p : Checker × Value} (hp : p ∈ c.children v)
      (h : Shows p.2 w) : Shows v w

/-- A checker hands on the value itself, items, properties and entries, and the keys of these. -/
theorem WellFormed.handed {v : Value} (h : v.WellFormed) {c : Checker} {p : Checker × Value}
    (hp : p ∈ c.children v) : p.2.WellFormed := by
  cases c with
  | kind | custom | literal | oneOf | instanceOf => exact absurd hp List.not_mem_nil
  | traced | erased | nullable | optional =>
    rw [List.mem_singleton.mp hp]
    exact h
  | union | intersection =>
    obtain ⟨c, -, rfl⟩ := List.mem_map.mp hp
    exact h
  | either | both =>
    rcases List.mem_cons.mp hp with rfl | hp
    · exact h
    · rw [List.mem_singleton.mp hp]
      exact h
  | array e =>
    obtain ⟨item, hitem, rfl⟩ := List.mem_map.mp hp
    cases v with
    | array identity items => exact h.item hitem
    | _ => exact absurd hitem List.not_mem_nil
  | mapped fields =>
    obtain ⟨f, -, rfl⟩ := List.mem_map.mp hp
    exact h.get f.1
  | record k e =>
    obtain ⟨entry, hentry, hp⟩ := List.mem_flatMap.mp hp
    rcases List.mem_cons.mp hp with rfl | hp
    · exact .leaf rfl
    · rw [List.mem_singleton.mp hp]
      exact h.entry hentry

/-- A value that can be created shows only such values. -/
theorem WellFormed.shows {v w : Value} (h : v.WellFormed) (hw : v.Shows w) : w.WellFormed := by
  induction hw with
  | self v => exact h
  | handed c hp _ ih => exact ih (h.handed hp)

end Value

/-! ## Monotonicity -/

namespace Checker.Context

variable {a b : Checker}

/-- By induction over the context, for all values at once. At each node the parts of the two fillings
    face each other, run on the same values, and what these show, the whole value shows. -/
theorem accepts_fill_of_implies (ctx : Context) {v : Value}
    (h : ∀ w, v.Shows w → a.accepts w = true → b.accepts w = true)
    (hfill : (ctx.fill a).accepts v = true) : (ctx.fill b).accepts v = true := by
  induction ctx generalizing v with
  | hole => exact h v (.self v) hfill
  | fixed c => exact hfill
  | traced | erased | nullable | optional =>
    rename_i ih
    exact accepts_of_matched_children hfill rfl rfl (.of_forall₂ (.cons (ih h) .nil))
  | either | both =>
    rename_i ihl ihr
    exact accepts_of_matched_children hfill rfl rfl
      (.of_forall₂ (.cons (ihl h) (.cons (ihr h) .nil)))
  | union | intersection =>
    rename_i members ih
    refine accepts_of_matched_children hfill rfl rfl ?_
    show Matched _ ((fillAll a members).map fun c => (c, v)) ((fillAll b members).map fun c => (c, v))
    simp only [fillAll_eq_map, List.map_map]
    exact .map fun m hm => ih m hm h
  | array e ih =>
    refine accepts_of_matched_children hfill rfl rfl (.map ?_)
    intro item hitem
    exact ih fun w hw => h w (.handed ((array e).fill a) (List.mem_map_of_mem hitem) hw)
  | shape declarations ih =>
    refine accepts_of_matched_children hfill rfl rfl ?_
    -- Declarations that are overwritten have no part in either filling.
    rw [children_fill_shape, children_fill_shape]
    refine .map ?_
    intro f hf
    have hpart : (f.2.fill a, v.get f.1) ∈ ((shape declarations).fill a).children v := by
      rw [children_fill_shape]
      exact List.mem_map_of_mem hf
    exact ih f (Properties.mem_of_mem_ofList hf) fun w hw => h w (.handed _ hpart hw)
  | record k e ihk ihe =>
    refine accepts_of_matched_children hfill rfl rfl (.flatMap ?_)
    intro entry hentry
    have hpart : ∀ p ∈ [(k.fill a, Value.string entry.1), (e.fill a, entry.2)],
        p ∈ ((record k e).fill a).children v :=
      fun p hp => List.mem_flatMap.mpr ⟨entry, hentry, hp⟩
    have hkey := hpart _ List.mem_cons_self
    have hvalue := hpart _ (List.mem_cons_of_mem _ List.mem_cons_self)
    exact .of_forall₂ (.cons (ihk fun w hw => h w (.handed _ hkey hw))
      (.cons (ihe fun w hw => h w (.handed _ hvalue hw)) .nil))

/-- **Checkers are monotone in every component.** Where the second of two components accepts all that
    the first accepts, the whole with the second accepts what the whole with the first accepts, and
    where the two have the same verdicts, so have the wholes. Only what the value shows need be
    compared; of a well-formed value these are well-formed ones (`Value.WellFormed.shows`). -/
theorem fill_monotone (ctx : Context) (a b : Checker) (v : Value) :
    ((∀ w, v.Shows w → a.accepts w = true → b.accepts w = true) →
      (ctx.fill a).accepts v = true → (ctx.fill b).accepts v = true) ∧
    ((∀ w, v.Shows w → a.accepts w = b.accepts w) →
      (ctx.fill a).accepts v = (ctx.fill b).accepts v) := by
  constructor
  · intro h hfill
    exact accepts_fill_of_implies ctx h hfill
  · intro h
    rw [Bool.eq_iff_iff]
    constructor
    · exact accepts_fill_of_implies ctx fun w hw ha => (h w hw).symm.trans ha
    · exact accepts_fill_of_implies ctx fun w hw hb => (h w hw).trans hb

/-- A literal gives way to what accepts all strings: in a field that is declared again later, for the
    keys and the values of a record, and for the items of an array. -/
theorem fill_monotone_redeclared :
    let ctx : Context := .shape
      [("a", .hole), ("b", .record .hole (.nullable .hole)), ("a", .array (.traced "item" .hole))]
    let v := Value.object ⟨1⟩ none
      [("a", .array ⟨2⟩ [.string "x"]), ("b", .object ⟨3⟩ none [("x", .null)])]
    (ctx.fill (.literal (.string "x"))).accepts v = true ∧
    (ctx.fill (.kind .string)).accepts v = true ∧
    (ctx.fill (.erased (.kind .string))).accepts v = true := by
  intro ctx v
  have haccepts : (ctx.fill (.literal (.string "x"))).accepts v = true := by decide +kernel
  have hstrings : ∀ w, v.Shows w → (literal (.string "x")).accepts w = true →
      (kind .string).accepts w = true := by
    intro w _ hw
    cases w with
    | string s => rfl
    | _ => exact absurd hw Bool.false_ne_true
  have hfill := (fill_monotone ctx (.literal (.string "x")) (.kind .string) v).1 hstrings haccepts
  have herased := (fill_monotone ctx (.kind .string) (.erased (.kind .string)) v).2 fun _ _ => rfl
  exact ⟨haccepts, hfill, herased.symm.trans hfill⟩

end Checker.Context

end DynCheck
