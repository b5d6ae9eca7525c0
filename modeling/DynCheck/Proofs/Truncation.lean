import DynCheck.Report.Render

/-!
# `DynCheck.Proofs.Truncation` — cutting the text of a value

A limit on the text of a value counts characters. Characters take up different numbers of bytes, so
the cut has to be made at the position behind so many characters, wherever that is; and since the
ellipsis comes on top, a text that was cut has one character more than its limit allows. Cutting it
once more takes the ellipsis off again and puts another one in its place. So cuts compose: the
smallest limit is the only one that counts.

## Contents
- **Cuts.** `cutTo_of_length_le`, `cutTo_of_lt_length`; `length_cutTo_le`; `cutTo_cutTo`.
- **Positions.** `IsCut`: the cut as a position in the text; `isCut_cutTo`.
- **Rendering.** `Value.render_cut`.
-/

namespace DynCheck

/-! ## Cuts -/

theorem cutTo_of_length_le {limit : Nat} {text : String} (h : text.length ≤ limit) :
    cutTo limit text = text := by
  rw [cutTo, if_pos h]

theorem cutTo_of_lt_length {limit : Nat} {text : String} (h : limit < text.length) :
    cutTo limit text = String.ofList (text.toList.take limit) ++ "…" := by
  rw [cutTo, if_neg (Nat.not_le_of_lt h)]

theorem length_ofList_take {limit : Nat} {text : String} (h : limit ≤ text.length) :
    (String.ofList (text.toList.take limit)).length = limit := by
  rw [String.length_ofList, List.length_take, String.length_toList, Nat.min_eq_left h]

/-- The ellipsis is all that a cut text may have beyond its limit. -/
theorem length_cutTo_le (limit : Nat) (text : String) : (cutTo limit text).length ≤ limit + 1 := by
  rcases Nat.lt_or_ge limit text.length with h | h
  · rw [cutTo_of_lt_length h, String.length_append, length_ofList_take (Nat.le_of_lt h)]
    exact Nat.le_refl (limit + 1)
  · rw [cutTo_of_length_le h]
    exact Nat.le_succ_of_le h

/-- **Cuts compose.** A text that was cut already is cut again as it would have been at once. -/
theorem cutTo_cutTo {few many : Nat} (h : few ≤ many) (text : String) :
    cutTo few (cutTo many text) = cutTo few text := by
  rcases Nat.lt_or_ge many text.length with hcut | hwhole
  · have hfew : few < text.length := Nat.lt_of_le_of_lt h hcut
    -- What was cut is one longer than its limit, so it is cut again even if the limits are equal.
    have hagain : few < (cutTo many text).length := by
      rw [cutTo_of_lt_length hcut, String.length_append, length_ofList_take (Nat.le_of_lt hcut)]
      exact Nat.lt_succ_of_le h
    have htake : (cutTo many text).toList.take few = text.toList.take few := by
      have hlength : few ≤ (text.toList.take many).length := by
        rw [List.length_take, String.length_toList]
        omega
      rw [cutTo_of_lt_length hcut, String.toList_append, String.toList_ofList,
        List.take_append_of_le_length hlength, List.take_take, Nat.min_eq_left h]
    rw [cutTo_of_lt_length hagain, cutTo_of_lt_length hfew, htake]
  · rw [cutTo_of_length_le hwhole]

/-! ## Positions -/

/-- A text after a cut. Within the limit it is the text itself. Beyond it, it is what stands before
    the position behind so many characters, and an ellipsis. Positions lie between characters, so
    none is split. -/
structure IsCut (limit : Nat) (text result : String) : Prop where
  whole : text.length ≤ limit → result = text
  shortened : limit < text.length → ∃ kept rest,
    (text.startPos.nextn limit).Splits kept rest ∧ kept.length = limit ∧ result = kept ++ "…"

theorem isCut_cutTo (limit : Nat) (text : String) : IsCut limit text (cutTo limit text) where
  whole := cutTo_of_length_le
  shortened := by
    intro h
    have hsplits := (String.splits_startPos text).nextn limit
    rw [String.empty_append] at hsplits
    exact ⟨_, _, hsplits, length_ofList_take (Nat.le_of_lt h), cutTo_of_lt_length h⟩

/-! ## Rendering -/

namespace Value

/-- A limit only cuts what is shown without it. -/
theorem render_some (v : Value) (depth limit : UInt64) :
    v.render ⟨depth, some limit⟩ = cutTo limit.toNat (v.render ⟨depth, none⟩) := rfl

/-- **Limits cut and compose.** With a limit the text of a value is the whole text, if that has no
    more characters than the limit, and otherwise its first so many characters and an ellipsis; so
    it has at most one character more than its limit. To cut a text that was limited already to a
    smaller limit is to use the smaller limit from the start, and to cut it to its own limit again
    changes nothing. -/
theorem render_cut (v : Value) (depth : UInt64) :
    (∀ limit : UInt64,
      IsCut limit.toNat (v.render ⟨depth, none⟩) (v.render ⟨depth, some limit⟩) ∧
      (v.render ⟨depth, some limit⟩).length ≤ limit.toNat + 1) ∧
    (∀ few many : UInt64, few ≤ many →
      cutTo few.toNat (v.render ⟨depth, some many⟩) = v.render ⟨depth, some few⟩) ∧
    (∀ limit : UInt64,
      cutTo limit.toNat (v.render ⟨depth, some limit⟩) = v.render ⟨depth, some limit⟩) := by
  refine ⟨?cut, ?compose, ?again⟩
  case cut =>
    intro limit
    rw [render_some]
    exact ⟨isCut_cutTo _ _, length_cutTo_le _ _⟩
  case compose =>
    intro few many h
    rw [render_some, render_some]
    exact cutTo_cutTo (UInt64.le_iff_toNat_le.mp h) _
  case again =>
    intro limit
    rw [render_some]
    exact cutTo_cutTo (Nat.le_refl _) _

/-- Wide characters, limits that cut, a limit that is reached exactly, and no characters at all. -/
theorem render_cut_wide :
    let v := string "ééééé"
    (2 : UInt64) ≤ 4 ∧ v.render ⟨64, none⟩ = "\"ééééé\"" ∧ v.render ⟨64, some 4⟩ = "\"ééé…" ∧
      cutTo 2 (v.render ⟨64, some 4⟩) = v.render ⟨64, some 2⟩ ∧
      cutTo 4 (v.render ⟨64, some 4⟩) = v.render ⟨64, some 4⟩ ∧
      v.render ⟨64, some 7⟩ = v.render ⟨64, none⟩ ∧ v.render ⟨64, some 0⟩ = "…" := by
  intro v
  have hle : (2 : UInt64) ≤ 4 := by decide
  have hwhole : v.render ⟨64, none⟩ = "\"ééééé\"" := by decide
  obtain ⟨hcut, hcompose, hagain⟩ := render_cut v 64
  refine ⟨hle, hwhole, by decide, hcompose 2 4 hle, hagain 4, ?_, by decide⟩
  apply (hcut 7).1.whole
  rw [hwhole]
  decide

end Value

end DynCheck
