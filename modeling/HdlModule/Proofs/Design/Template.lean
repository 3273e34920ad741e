import HdlModule.Design.Template
import HdlModule.Proofs.Grammar.RoundTrip

/-!
# The text of a new module

The built-in template holds its placeholder once. So the text of a new module is the keyword, the
name, and what stands behind the placeholder. The ports that the template proposes are within line
comments, in either case of the keywords: a new module has no ports.

## Main definitions

* `templateStart shown`, `templateTail shown`: the built-in template around the placeholder
* `proposedInput shown`, `proposedOutput shown`: the comments in it

## Main results

* `toList_renderTemplate`: a name stands between two fixed texts, whatever the name
* `ofText_renderTemplate`: the interface of a new module that is named by a word
-/

namespace HdlModule

/-! ### The built-in template -/

/-- A letter in the case in which keywords are shown. -/
def KeywordCase.letter : KeywordCase → Char → Char
  | .lower => Char.toLower
  | .upper => Char.toUpper

theorem KeywordCase.toList_apply (shown : KeywordCase) (word : String) :
    (shown.apply word).toList = word.toList.map shown.letter := by
  cases shown <;> exact String.toList_map

section Template

variable (shown : KeywordCase)

/-- The keyword in front of the placeholder. -/
def templateStart : List Char := ['m', 'o', 'd', 'u', 'l', 'e'].map shown.letter

/-- The keyword that ends the template. -/
def templateEnd : List Char := ['e', 'n', 'd', 'm', 'o', 'd', 'u', 'l', 'e'].map shown.letter

/-- The input that the template proposes in a comment. -/
def proposedInput : List Char :=
  ' ' :: (['i', 'n', 'p', 'u', 't'].map shown.letter ++ ' ' :: ' ' ::
    (['w', 'i', 'r', 'e'].map shown.letter ++ [' ', '[', '7', ':', '0', ']', ' ', 'a', ',']))

/-- The output that the template proposes in a comment. -/
def proposedOutput : List Char :=
  ' ' :: (['o', 'u', 't', 'p', 'u', 't'].map shown.letter ++ ' ' ::
    (['w', 'i', 'r', 'e'].map shown.letter ++ [' ', ' ', ' ', ' ', ' ', ' ', ' ', 'y']))

/-- The built-in template behind the placeholder. -/
def templateTail : List Char :=
  ' ' :: '(' :: '\n' :: ([' ', ' ', ' ', ' '] ++ '/' :: '/' :: (proposedInput shown ++
    '\n' :: ([' ', ' ', ' ', ' '] ++ '/' :: '/' :: (proposedOutput shown ++
      '\n' :: ')' :: ';' :: '\n' :: (['\n'] ++ (templateEnd shown ++ ['\n']))))))

theorem toList_builtinTemplate :
    (builtinTemplate shown).toList =
      templateStart shown ++ ' ' :: (namePlaceholder.toList ++ templateTail shown) := by
  unfold builtinTemplate
  -- the words keep their case open: both sides have the same letters in it
  simp [namePlaceholder, templateStart, templateTail, proposedInput, proposedOutput, templateEnd,
    KeywordCase.toList_apply]

/-- Outside the placeholder there is no percent sign. -/
theorem not_mem_template :
    '%' ∉ templateStart shown ++ [' '] ∧ '%' ∉ templateTail shown := by
  cases shown <;> decide

/-- **A name stands between two fixed texts**, whatever the name. It is not searched for the
placeholder. -/
theorem toList_renderTemplate (name : String) :
    (renderTemplate none name shown).toList =
      templateStart shown ++ ' ' :: (name.toList ++ templateTail shown) := by
  obtain ⟨hstart, htail⟩ := not_mem_template shown
  have hplaceholder : namePlaceholder.toList =
      '%' :: ['m', 'o', 'd', 'u', 'l', 'e', 'n', 'a', 'm', 'e', '%'] := String.toList_ofList
  rw [renderTemplate, Option.getD_none, String.toList_ofList, toList_builtinTemplate,
    ← List.singleton_append, ← List.append_assoc, hplaceholder,
    replaceAll_append_of_not_mem hstart, replaceAll_pattern_append,
    replaceAll_of_not_mem htail, List.append_assoc, List.singleton_append]

theorem spells_templateStart : Spells (templateStart shown) .moduleStart := by
  cases shown <;> exact String.toList_ofList.symm

theorem spells_templateEnd : Spells (templateEnd shown) .moduleEnd := by
  cases shown <;> exact String.toList_ofList.symm

/-- What the template proposes does not leave its line. -/
theorem not_isLineEnd_proposed :
    (∀ c ∈ proposedInput shown, (!isLineEnd c) = true) ∧
      ∀ c ∈ proposedOutput shown, (!isLineEnd c) = true := by
  cases shown <;> exact ⟨List.all_eq_true.1 rfl, List.all_eq_true.1 rfl⟩

/-- Behind the placeholder there are an empty port list and the keyword that ends the module. What
the template proposes is two comments. -/
theorem significant_lexemes_templateTail :
    significant (lexemes (templateTail shown)) =
      [⟨.leftParen, ['(']⟩, ⟨.rightParen, [')']⟩] ++
        [⟨.semicolon, [';']⟩, ⟨.keyword .moduleEnd, templateEnd shown⟩] := by
  obtain ⟨hinput, houtput⟩ := not_isLineEnd_proposed shown
  have hend : SpellsWord (templateEnd shown) := (spells_templateEnd shown).exists_cons
  have hindent : ∀ x ∈ [' ', ' ', ' ', ' '], isSpace x = true := List.all_eq_true.1 rfl
  have hline : ∀ rest, Stops isSpace rest →
      lexemes ('\n' :: rest) = ⟨.whitespace, ['\n']⟩ :: lexemes rest :=
    fun _ => lexemes_blanks_append rfl (List.forall_mem_nil _)
  rw [templateTail, lexemes_blank_cons (stops_cons.2 rfl), lexemes_punctuation_cons (by decide),
    lexemes_blanks_append rfl hindent (stops_cons.2 rfl),
    lexemes_comment_append hinput (stops_cons.2 rfl),
    lexemes_blanks_append rfl hindent (stops_cons.2 rfl),
    lexemes_comment_append houtput (stops_cons.2 rfl), hline _ (stops_cons.2 rfl),
    lexemes_punctuation_cons (by decide), lexemes_punctuation_cons (by decide),
    lexemes_blanks_append rfl (List.all_eq_true.1 rfl) hend.stops_isSpace,
    hend.lexemes_append (stops_cons.2 rfl), (spells_templateEnd shown).wordKind_eq,
    hline _ stops_nil, lexemes_nil]
  rfl

end Template

/-- **A new module that is named by a word has that name and no more**: neither ports nor
parameters. -/
theorem ofText_renderTemplate {name : String} (hname : SpellsWord name.toList)
    (shown : KeywordCase) :
    Interface.ofText (renderTemplate none name shown) =
      .ok ⟨name, ⟨7, 7 + byteLength name.toList⟩, [], []⟩ := by
  -- the text behind the name is cut where its significant lexemes are: behind the port list
  obtain ⟨ls, ls', hlexemes, hportList, hbehind⟩ :=
    List.filter_eq_append_iff.1 (significant_lexemes_templateTail shown)
  have hports : PortSection (significant ls) [] := by
    rw [significant, hportList]
    exact .empty rfl rfl
  have hend : ∃ l ∈ significant ls', l.kind = .keyword .moduleEnd := by
    rw [significant, hbehind]
    exact ⟨_, List.mem_cons_of_mem _ List.mem_cons_self, rfl⟩
  have hread := ofText_of_header (toList_renderTemplate shown name) (spells_templateStart shown)
    hname (stops_cons.2 rfl) hlexemes hports hend
  have hsize : byteLength (templateStart shown) = 6 := by
    cases shown <;> rfl
  rw [hread, String.ofList_toList, hsize]

end HdlModule
