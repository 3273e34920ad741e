/-!
# Occurrences of a pattern

Whether a pattern occurs in a text, and the text with every occurrence replaced. Occurrences are
found from left to right and do not overlap; the text put in their place is not searched again.

## Main definitions

* `occursIn pattern cs`: whether the pattern stands somewhere in `cs`
* `replaceAll pattern value cs`: `cs` with `value` for each occurrence
-/

namespace HdlModule

/-- Whether the pattern stands somewhere in the text; the empty pattern always does. -/
def occursIn (pattern : List Char) : List Char → Bool
  | [] => pattern.isEmpty
  | c :: cs => pattern.isPrefixOf (c :: cs) || occursIn pattern cs

/-- The text with `value` in place of each occurrence of a non-empty pattern. -/
def replaceAll (pattern value : List Char) : List Char → List Char
  | [] => []
  | c :: cs =>
    if pattern.isPrefixOf (c :: cs) then
      value ++ replaceAll pattern value (cs.drop (pattern.length - 1))
    else c :: replaceAll pattern value cs
termination_by cs => cs.length
decreasing_by
  · simp only [List.length_drop, List.length_cons]; omega
  · simp

/-! ### Replacing from the left -/

section Replace

variable {p : Char} {ps value cs rest : List Char}

@[simp]
theorem replaceAll_nil (pattern value : List Char) : replaceAll pattern value [] = [] := by
  rw [replaceAll]

/-- Text without the first character of the pattern stays. -/
theorem replaceAll_append_of_not_mem (h : p ∉ cs) :
    replaceAll (p :: ps) value (cs ++ rest) = cs ++ replaceAll (p :: ps) value rest := by
  induction cs with
  | nil => rfl
  | cons c cs ih =>
    have hc : p ≠ c := fun hc => h (hc ▸ List.mem_cons_self)
    have hcs : p ∉ cs := fun hcs => h (List.mem_cons_of_mem c hcs)
    rw [List.cons_append, replaceAll, if_neg (by simp [hc]), ih hcs, List.cons_append]

theorem replaceAll_of_not_mem (h : p ∉ cs) : replaceAll (p :: ps) value cs = cs := by
  have happend := @replaceAll_append_of_not_mem p ps value cs [] h
  rwa [List.append_nil, replaceAll_nil, List.append_nil] at happend

/-- The pattern itself is replaced, and the search goes on behind it. -/
theorem replaceAll_pattern_append :
    replaceAll (p :: ps) value (p :: ps ++ rest) = value ++ replaceAll (p :: ps) value rest := by
  rw [List.cons_append, replaceAll, if_pos (by simp)]
  simp

end Replace

end HdlModule
