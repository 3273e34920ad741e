import HdlModule.Proofs.Lexing.Layout
import HdlModule.Proofs.Lexing.Rename

/-!
# The border between two parts of a text

The lexemes of a text in two parts are those of the first part up to some place in it, then at most
one lexeme that reaches over the border, and then those of the rest. So what stands in front of the
border is read as if nothing stood behind it, but for the last lexeme.

## Main results

* `exists_border`: the lexemes of a text in two parts
* `Leads.cases_of_space`: the lexemes that can reach over a space
-/

namespace HdlModule

variable {c : Char} {cs ds rest tail : List Char} {k : TokenKind}

/-! ### The border -/

/-- What reaches over the border between two parts of a text: nothing, or one lexeme. -/
inductive Reaches (mid tail : List Char) : List Lexeme → Prop
  | nothing (hmid : mid = []) : Reaches mid tail (lexemes tail)
  | lexeme {c : Char} {ds reach rest : List Char} {k : TokenKind} (hleads : Leads c ds rest k)
      (hchars : c :: ds = mid ++ reach) (hreach : reach ≠ []) (htail : tail = reach ++ rest) :
      Reaches mid tail (⟨k, c :: ds⟩ :: lexemes rest)

/-- **The lexemes of a text in two parts** are lexemes of the first part, then at most one that
reaches over the border, then those of the rest. -/
theorem exists_border (cs tail : List Char) :
    ∃ front mid behind, lexemes cs = front ++ lexemes mid ∧
      lexemes (cs ++ tail) = front ++ behind ∧ Reaches mid tail behind := by
  generalize htext : cs ++ tail = text
  have hlexed := lexed_lexemes text
  generalize lexemes text = ls at hlexed
  induction hlexed generalizing cs with
  | nil =>
    obtain ⟨rfl, rfl⟩ := List.append_eq_nil_iff.1 htext
    exact ⟨[], [], [], by simp, rfl, lexemes_nil ▸ .nothing rfl⟩
  | @cons c ds rest k ls hleads hrest ih =>
    rw [← List.cons_append] at htext
    by_cases hprefix : c :: ds <+: cs
    · obtain ⟨cs, rfl⟩ := hprefix
      rw [List.append_assoc] at htext
      obtain rfl := List.append_cancel_left htext
      obtain ⟨front, mid, behind, hfront, rfl, hbehind⟩ := ih cs rfl
      have hwhole : lexemes (c :: ds ++ cs) = ⟨k, c :: ds⟩ :: lexemes cs :=
        lexemes_cons_of_leads hleads.of_append
      exact ⟨_ :: front, mid, behind, by rw [hwhole, hfront, List.cons_append], rfl, hbehind⟩
    · obtain ⟨reach, hchars, rfl⟩ | ⟨_, rfl, -⟩ := List.append_eq_append_iff.1 htext
      · have hreach : reach ≠ [] := by
          rintro rfl
          exact hprefix ⟨[], by rw [hchars, List.append_nil, List.append_nil]⟩
        refine ⟨[], cs, _, rfl, rfl, ?_⟩
        rw [← hrest.lexemes_eq]
        exact .lexeme hleads hchars hreach rfl
      · exact absurd (List.prefix_append ..) hprefix

/-! ### Spaces in lexemes -/

/-- **A lexeme with a space in it** is no word, and does not go beyond its line unless it is a run
of blanks. -/
theorem Leads.cases_of_space (h : Leads c ds rest k) (hspace : ' ' ∈ c :: ds) :
    k.isWord = false ∧ ((∀ d ∈ c :: ds, isSpace d = true) ∨ '\n' ∉ c :: ds) := by
  constructor
  · refine Bool.eq_false_iff.2 fun hk => ?_
    obtain ⟨hc, hds, -⟩ := h.word_of_isWord hk
    rcases List.mem_cons.1 hspace with hmem | hmem
    · exact ne_of_class hc rfl hmem
    · exact not_mem_of_class hds rfl hmem
  · by_cases hline : '\n' ∈ c :: ds
    · exact Or.inl (h.blanks_of_lf hline)
    · exact Or.inr hline

end HdlModule
