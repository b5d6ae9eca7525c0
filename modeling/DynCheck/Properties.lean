import DynCheck.Key

/-!
# `DynCheck.Properties` — keyed members in a definite order

The members of an object, the fields of a shape and the entries of an enum are all the same store:
each key once, in the order in which the keys were first set. Setting a key again replaces what it
holds and leaves it where it is. When the members of an object are listed, array indices come first.

## Contents
- **Store.** `insert`, `ofList`, `get?`, `contains`, with their equations for `simp` and `grind`; what
  a store holds and which keys it has, by membership.
- **Listing.** `enumerate`: indices ascending, then the other keys in their order; `enumerate_perm`
  and, for `simp`, what follows about members and keys.
-/

namespace DynCheck

/-- Keyed members in the order in which their keys were first set. -/
abbrev Properties (α : Type) := List (String × α)

namespace Properties

variable {α β : Type}

/-! ## Store -/

/-- Set a key: in place if it is there, at the end otherwise. -/
def insert (key : String) (value : α) : Properties α → Properties α
  | [] => [(key, value)]
  | (k, v) :: rest => if k = key then (k, value) :: rest else (k, v) :: insert key value rest

/-- Set the keys of a list from left to right, starting from nothing. -/
def ofList (settings : List (String × α)) : Properties α :=
  settings.foldl (fun ps setting => insert setting.1 setting.2 ps) []

/-- What a key holds. -/
def get? (key : String) : Properties α → Option α
  | [] => none
  | (k, v) :: rest => if k = key then some v else get? key rest

def contains (key : String) (ps : Properties α) : Bool := (get? key ps).isSome

/-- The keys, in order. -/
def keys (ps : Properties α) : List String := ps.map Prod.fst

@[simp, grind =] theorem insert_nil (key : String) (value : α) :
    insert key value [] = [(key, value)] := rfl

@[simp, grind =] theorem insert_cons (key : String) (value : α) (p : String × α)
    (rest : Properties α) : insert key value (p :: rest) =
      if p.1 = key then (p.1, value) :: rest else p :: insert key value rest := rfl

@[simp, grind =] theorem get?_nil (key : String) : get? key ([] : Properties α) = none := rfl

@[simp, grind =] theorem get?_cons (key : String) (p : String × α) (rest : Properties α) :
    get? key (p :: rest) = if p.1 = key then some p.2 else get? key rest := rfl

@[simp, grind =] theorem keys_nil : keys ([] : Properties α) = [] := rfl

@[simp, grind =] theorem keys_cons (p : String × α) (rest : Properties α) :
    keys (p :: rest) = p.1 :: keys rest := rfl

@[simp, grind =] theorem keys_append (ps qs : Properties α) :
    keys (ps ++ qs) = keys ps ++ keys qs := List.map_append

theorem mem_keys {key : String} {ps : Properties α} :
    key ∈ keys ps ↔ ∃ value, (key, value) ∈ ps := by
  simp [keys]

@[simp] theorem keys_mapValues (f : α → β) (ps : Properties α) :
    keys (ps.map fun p => (p.1, f p.2)) = keys ps := by
  simp [keys]

/-- A key that was set holds what it was set to, and no other key notices. -/
@[simp, grind =] theorem get?_insert (key key' : String) (value : α) (ps : Properties α) :
    get? key' (insert key value ps) = if key = key' then some value else get? key' ps := by
  induction ps with
  | nil => simp
  | cons p rest ih => grind

@[simp] theorem get?_eq_none_iff {key : String} {ps : Properties α} :
    get? key ps = none ↔ key ∉ keys ps := by
  induction ps with
  | nil => simp
  | cons p rest ih => grind

@[simp] theorem contains_iff {key : String} {ps : Properties α} :
    contains key ps = true ↔ key ∈ keys ps := by
  simp [contains, Option.isSome_iff_ne_none]

/-- What a key holds stands in the store. -/
theorem mem_of_get?_eq_some {key : String} {value : α} {ps : Properties α}
    (h : get? key ps = some value) : (key, value) ∈ ps := by
  induction ps with
  | nil => exact absurd h (by simp)
  | cons p rest ih =>
    by_cases hk : p.1 = key
    · rw [get?_cons, if_pos hk, Option.some.injEq] at h
      subst hk h
      exact List.mem_cons_self
    · rw [get?_cons, if_neg hk] at h
      exact List.mem_cons_of_mem _ (ih h)

/-- Where every key stands once, what stands in the store is what its key holds. -/
theorem get?_eq_some_of_mem {key : String} {value : α} {ps : Properties α} (hn : (keys ps).Nodup)
    (h : (key, value) ∈ ps) : get? key ps = some value := by
  induction ps with
  | nil => exact absurd h List.not_mem_nil
  | cons p rest ih =>
    rw [keys_cons, List.nodup_cons] at hn
    rcases List.mem_cons.mp h with rfl | hmem
    · simp
    · have hk : p.1 ≠ key := fun hk => hn.1 (hk ▸ mem_keys.mpr ⟨value, hmem⟩)
      simp [hk, ih hn.2 hmem]

/-- Without one key the others hold what they held. -/
theorem get?_filter_ne {key key' : String} (h : key' ≠ key) (ps : Properties α) :
    get? key' (ps.filter fun p => p.1 != key) = get? key' ps := by
  induction ps with
  | nil => rfl
  | cons p rest ih =>
    by_cases hk : p.1 = key
    · subst hk
      simp [Ne.symm h, ih]
    · simp [hk, ih]

/-- A store holds what was set last, and what it held before. -/
theorem mem_insert {key : String} {value : α} {ps : Properties α} {p : String × α}
    (h : p ∈ insert key value ps) : p = (key, value) ∨ p ∈ ps := by
  induction ps with
  | nil => exact .inl (List.mem_singleton.mp h)
  | cons q rest ih => grind

/-- A store that was built from settings holds nothing but settings. -/
theorem mem_of_mem_ofList {settings : List (String × α)} {p : String × α}
    (h : p ∈ ofList settings) : p ∈ settings := by
  have hfold : ∀ (settings : List (String × α)) (ps : Properties α),
      p ∈ settings.foldl (fun ps setting => insert setting.1 setting.2 ps) ps →
        p ∈ ps ∨ p ∈ settings := by
    intro settings
    induction settings with
    | nil => exact fun _ h => .inl h
    | cons s rest ih =>
      intro ps hp
      rcases ih _ hp with hins | hrest
      · rcases mem_insert hins with hs | hps
        · exact .inr (hs ▸ List.mem_cons_self)
        · exact .inl hps
      · exact .inr (List.mem_cons_of_mem _ hrest)
  exact (hfold settings [] h).resolve_left List.not_mem_nil

/-- A new key goes to the end; a known one keeps its place. -/
@[simp, grind =] theorem keys_insert (key : String) (value : α) (ps : Properties α) :
    keys (insert key value ps) = if key ∈ keys ps then keys ps else keys ps ++ [key] := by
  induction ps with
  | nil => simp
  | cons p rest ih => grind

theorem nodup_keys_insert (key : String) (value : α) {ps : Properties α} (h : (keys ps).Nodup) :
    (keys (insert key value ps)).Nodup := by
  by_cases hm : key ∈ keys ps
  · simpa [hm] using h
  · rw [keys_insert, if_neg hm, List.nodup_append]
    refine ⟨h, by simp, ?_⟩
    intro a ha b hb
    rw [List.mem_singleton] at hb
    subst hb
    exact fun hab => hm (hab ▸ ha)

/-- Every key of a store that was built from settings stands in it once. -/
theorem nodup_keys_ofList (settings : List (String × α)) : (keys (ofList settings)).Nodup := by
  have h : ∀ (settings : List (String × α)) (ps : Properties α), (keys ps).Nodup →
      (keys (settings.foldl (fun ps setting => insert setting.1 setting.2 ps) ps)).Nodup := by
    intro settings
    induction settings with
    | nil => exact fun _ h => h
    | cons s rest ih => exact fun ps hps => ih _ (nodup_keys_insert s.1 s.2 hps)
  exact h settings [] List.nodup_nil

/-! ## Listing -/

/-- The members whose keys are array indices, each with its index. -/
def indexed (ps : Properties α) : List (Nat × String × α) :=
  ps.filterMap fun p => (Key.index? p.1).map fun n => (n, p)

/-- The members whose keys are no array indices. -/
def named (ps : Properties α) : Properties α := ps.filter fun p => !Key.isIndex p.1

/-- The members in listing order: array indices ascending, then the other keys as they were set. -/
def enumerate (ps : Properties α) : Properties α :=
  (ps.indexed.mergeSort fun a b => decide (a.1 ≤ b.1)).map Prod.snd ++ ps.named

/-- Without their indices the indexed members are the members with an index. -/
theorem indexed_map_snd (ps : Properties α) :
    ps.indexed.map Prod.snd = ps.filter fun p => Key.isIndex p.1 := by
  unfold indexed
  induction ps with
  | nil => rfl
  | cons p rest ih =>
    cases h : Key.index? p.1 with
    | none => simp [h, Key.isIndex, ih]
    | some n => simp [h, Key.isIndex, ih]

/-- Listing rearranges the members and neither drops nor repeats any. -/
theorem enumerate_perm (ps : Properties α) : (enumerate ps).Perm ps := by
  have hsort := (List.mergeSort_perm ps.indexed fun a b => decide (a.1 ≤ b.1)).map Prod.snd
  rw [indexed_map_snd] at hsort
  exact (hsort.append_right ps.named).trans (List.filter_append_perm _ ps)

@[simp] theorem mem_enumerate {p : String × α} {ps : Properties α} : p ∈ enumerate ps ↔ p ∈ ps :=
  (enumerate_perm ps).mem_iff

@[simp] theorem mem_keys_enumerate {key : String} {ps : Properties α} :
    key ∈ keys (enumerate ps) ↔ key ∈ keys ps := by
  simp [mem_keys]

@[simp] theorem nodup_keys_enumerate {ps : Properties α} :
    (keys (enumerate ps)).Nodup ↔ (keys ps).Nodup :=
  ((enumerate_perm ps).map Prod.fst).nodup_iff

end Properties

end DynCheck
