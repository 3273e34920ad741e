import HdlModule.Content.Basic
import HdlModule.Proofs.Text.Lines
import Mathlib.Data.String.Basic

/-!
# Lines and joined lines

Two places decide where the lines of a text end: the index of its lines, which counts bytes, and
the joining of lines, which replaces CR LF first and then what is left of CR and LF. Both cut a
text at the same places. So a text with its lines joined is the lines of its index with a space
between each two, and two texts with the same lines match, whatever their terminators.

## Main definitions

* `LineIndex.spans`, `lines text`: the lines that the index of a text delimits
* `pieces cs`, `bareLines cs`: the lines of a text with and without their terminators
* `SameButEndings cs ds`: the texts differ in the style of their line terminators alone

## Main results

* `spans_ofText`: the spans of the index are those of the pieces
* `lines_eq_iff`: texts have the same lines if they differ in the style of terminators alone
* `joinLines_exact`: joined lines are the lines of the index, and matching compares these
-/

namespace HdlModule

/-! ### The lines of an index -/

/-- The span of each line, from its start to the start of the next line or the end of the text. -/
def LineIndex.spans (index : LineIndex) : List Span :=
  index.starts.toList.zipWith Span.mk (index.starts.toList.tail ++ [index.size])

/-- The characters of a text at a span. -/
def charactersAt (text : String) (span : Span) : List Char :=
  (String.Pos.Raw.extract text ⟨span.start⟩ ⟨span.stop⟩).toList

/-- A line without the terminator at its end. -/
def withoutTerminator (line : List Char) : List Char :=
  if ['\r', '\n'] <:+ line then line.dropLast.dropLast
  else if line.getLast? = some '\r' ∨ line.getLast? = some '\n' then line.dropLast
  else line

/-- The lines of a text as its index delimits them, without their terminators. -/
def lines (text : String) : List (List Char) :=
  (LineIndex.ofText text).spans.map fun span => withoutTerminator (charactersAt text span)

theorem charactersAt_of_covers {text : String} {span : Span} {cs : List Char}
    (h : span.Covers text cs) : charactersAt text span = cs := by
  obtain ⟨pre, post, htext, rfl⟩ := h
  have hlength (ds : List Char) : byteLength ds = String.utf8Len ds := by
    rw [← utf8ByteSize_ofList, String.utf8ByteSize_ofList]
  have hextract := String.extract_of_valid pre cs post
  rw [List.append_assoc, ← htext, String.ofList_toList, ← hlength, ← hlength] at hextract
  rw [charactersAt, hextract, String.toList_ofList]

/-! ### Terminators from the left -/

/-- The character ends no line. -/
def IsLineChar (c : Char) : Prop := ¬ (c = '\r' ∨ c = '\n')

instance (c : Char) : Decidable (IsLineChar c) :=
  inferInstanceAs (Decidable (¬ (c = '\r' ∨ c = '\n')))

section Endings

variable {c : Char} {e cs : List Char} {offset : Nat}

/-- A text is gone through from the left: it is empty, or it starts with a character that ends no
line, or with a terminator. In front of the terminator is nothing that could belong to it. -/
@[elab_as_elim]
theorem induction_on_endings {motive : List Char → Prop} (cs : List Char) (nil : motive [])
    (char : ∀ c cs, IsLineChar c → motive cs → motive (c :: cs))
    (ending : ∀ e cs, Terminator [] e cs → motive cs → motive (e ++ cs)) : motive cs := by
  fun_induction lineBreaks 0 cs with
  | case1 => exact nil
  | case2 _ cs ih => exact ending _ cs .crlf ih
  | case3 _ c cs hcrlf hc ih =>
    rcases hc with rfl | rfl
    · refine ending ['\r'] cs (.cr fun hhead => ?_) ih
      obtain ⟨rest, rfl⟩ := List.head?_eq_some_iff.1 hhead
      exact hcrlf rest rfl rfl
    · exact ending ['\n'] cs (.lf (by simp)) ih
  | case4 _ c cs _ hc ih => exact char c cs hc ih

theorem lineBreaks_cons (hc : IsLineChar c) :
    lineBreaks offset (c :: cs) = lineBreaks (offset + c.utf8Size) cs := by
  rw [lineBreaks, if_neg hc]
  rintro _ rfl
  exact absurd (Or.inl rfl) hc

theorem lineBreaks_append (he : Terminator [] e cs) :
    lineBreaks offset (e ++ cs) =
      (offset + byteLength e) :: lineBreaks (offset + byteLength e) cs := by
  cases he with
  | crlf =>
    show lineBreaks offset ('\r' :: '\n' :: cs) = _
    rw [lineBreaks]
    rfl
  | cr hpost =>
    show lineBreaks offset ('\r' :: cs) = _
    rw [lineBreaks, if_pos (Or.inl rfl)]
    · rfl
    · rintro rest _ rfl
      exact hpost rfl
  | lf =>
    show lineBreaks offset ('\n' :: cs) = _
    rw [lineBreaks, if_pos (Or.inr rfl)]
    · rfl
    · exact fun _ h => absurd h (by decide)

end Endings

/-! ### Pieces of a text -/

/-- The lines of a text with their terminators. -/
def pieces : List Char → List (List Char)
  | [] => [[]]
  | '\r' :: '\n' :: cs => ['\r', '\n'] :: pieces cs
  | c :: cs =>
    if c = '\r' ∨ c = '\n' then [c] :: pieces cs else (pieces cs).modifyHead (c :: ·)

/-- The spans of pieces that follow each other from an offset on. -/
def spansFrom (offset : Nat) : List (List Char) → List Span
  | [] => []
  | p :: ps => ⟨offset, offset + byteLength p⟩ :: spansFrom (offset + byteLength p) ps

section Pieces

variable {c : Char} {e cs p : List Char} {ps : List (List Char)}

theorem pieces_cons (hc : IsLineChar c) (h : pieces cs = p :: ps) :
    pieces (c :: cs) = (c :: p) :: ps := by
  rw [pieces, if_neg hc, h, List.modifyHead_cons]
  rintro _ rfl
  exact absurd (Or.inl rfl) hc

theorem pieces_append (he : Terminator [] e cs) : pieces (e ++ cs) = e :: pieces cs := by
  cases he with
  | crlf =>
    show pieces ('\r' :: '\n' :: cs) = _
    rw [pieces]
  | cr hpost =>
    show pieces ('\r' :: cs) = _
    rw [pieces, if_pos (Or.inl rfl)]
    rintro rest _ rfl
    exact hpost rfl
  | lf =>
    show pieces ('\n' :: cs) = _
    rw [pieces, if_pos (Or.inr rfl)]
    exact fun _ h => absurd h (by decide)

theorem exists_pieces (cs : List Char) : ∃ p ps, pieces cs = p :: ps := by
  induction cs using induction_on_endings with
  | nil => exact ⟨_, _, rfl⟩
  | char c cs hc ih =>
    obtain ⟨p, ps, h⟩ := ih
    exact ⟨_, _, pieces_cons hc h⟩
  | ending e cs he ih => exact ⟨_, _, pieces_append he⟩

theorem flatten_pieces (cs : List Char) : (pieces cs).flatten = cs := by
  induction cs using induction_on_endings with
  | nil => rfl
  | char c cs hc ih =>
    obtain ⟨p, ps, h⟩ := exists_pieces cs
    rw [h, List.flatten_cons] at ih
    rw [pieces_cons hc h, List.flatten_cons, List.cons_append, ih]
  | ending e cs he ih => rw [pieces_append he, List.flatten_cons, ih]

/-- Pieces stand in the text at their spans. -/
theorem forall₂_covers_spansFrom {text : String} {pre : List Char}
    (h : text.toList = pre ++ ps.flatten) :
    List.Forall₂ (Span.Covers text) (spansFrom (byteLength pre) ps) ps := by
  induction ps generalizing pre with
  | nil => exact .nil
  | cons p ps ih =>
    rw [List.flatten_cons] at h
    rw [spansFrom, ← byteLength_append]
    exact .cons ⟨pre, ps.flatten, h, by rw [byteLength_append]⟩
      (ih (h.trans (List.append_assoc ..).symm))

/-- From the start of a line on, the index cuts a text where the pieces end. The offset is that of
the characters that are left, and the line may have started in front of them. -/
theorem zipWith_lineBreaks (start offset : Nat) (h : pieces cs = p :: ps) :
    List.zipWith Span.mk (start :: lineBreaks offset cs)
        (lineBreaks offset cs ++ [offset + byteLength cs]) =
      ⟨start, offset + byteLength p⟩ :: spansFrom (offset + byteLength p) ps := by
  induction cs using induction_on_endings generalizing start offset p ps with
  | nil =>
    obtain ⟨rfl, rfl⟩ := List.cons.inj h
    rfl
  | char c cs hc ih =>
    obtain ⟨q, qs, hnext⟩ := exists_pieces cs
    rw [pieces_cons hc hnext] at h
    obtain ⟨rfl, rfl⟩ := List.cons.inj h
    rw [lineBreaks_cons hc, byteLength_cons, byteLength_cons, ← Nat.add_assoc, ← Nat.add_assoc]
    exact ih start (offset + c.utf8Size) hnext
  | ending e cs he ih =>
    obtain ⟨q, qs, hnext⟩ := exists_pieces cs
    rw [pieces_append he, hnext] at h
    obtain ⟨rfl, rfl⟩ := List.cons.inj h
    rw [lineBreaks_append he, byteLength_append, ← Nat.add_assoc, List.cons_append,
      List.zipWith_cons_cons, ih _ _ hnext, spansFrom]

/-- **The spans of the index are those of the pieces.** -/
theorem spans_ofText (text : String) :
    (LineIndex.ofText text).spans = spansFrom 0 (pieces text.toList) := by
  obtain ⟨p, ps, h⟩ := exists_pieces text.toList
  have hzip := zipWith_lineBreaks 0 0 h
  rw [Nat.zero_add] at hzip
  rw [h, spansFrom, Nat.zero_add]
  exact hzip.trans (by rw [Nat.zero_add])

end Pieces

/-! ### Pieces without terminators -/

/-- The lines of a text without their terminators. -/
def bareLines (cs : List Char) : List (List Char) := (pieces cs).map withoutTerminator

section BareLines

variable {c : Char} {e cs line : List Char} {rest : List (List Char)}

theorem withoutTerminator_terminator (he : Terminator [] e cs) : withoutTerminator e = [] := by
  cases he <;> decide

/-- A character that ends no line stays in front of a line. -/
theorem withoutTerminator_cons (hc : IsLineChar c) :
    withoutTerminator (c :: p) = c :: withoutTerminator p := by
  have hsuffix : ['\r', '\n'] <:+ c :: p ↔ ['\r', '\n'] <:+ p := by
    rw [List.suffix_cons_iff]
    exact or_iff_right fun h => hc (Or.inl (List.cons.inj h).1.symm)
  have hlast (x : Char) (hx : c ≠ x) : (c :: p).getLast? = some x ↔ p.getLast? = some x := by
    rw [List.getLast?_cons]
    cases p.getLast? <;> simp [hx]
  have hcr := hlast '\r' fun h => hc (Or.inl h)
  have hlf := hlast '\n' fun h => hc (Or.inr h)
  unfold withoutTerminator
  simp only [hsuffix, hcr, hlf]
  split
  · next h =>
    obtain ⟨line, rfl⟩ := h
    have hdrop (ds : List Char) : (ds ++ ['\r', '\n']).dropLast.dropLast = ds := by simp
    rw [← List.cons_append, hdrop, hdrop]
  · split
    · next h =>
      have hne : p ≠ [] := by
        rintro rfl
        simp at h
      exact List.dropLast_cons_of_ne_nil hne
    · rfl

theorem exists_bareLines (cs : List Char) : ∃ line rest, bareLines cs = line :: rest := by
  obtain ⟨p, ps, h⟩ := exists_pieces cs
  exact ⟨_, _, by rw [bareLines, h, List.map_cons]⟩

theorem bareLines_cons (hc : IsLineChar c) (h : bareLines cs = line :: rest) :
    bareLines (c :: cs) = (c :: line) :: rest := by
  obtain ⟨p, ps, hp⟩ := exists_pieces cs
  rw [bareLines, hp, List.map_cons] at h
  obtain ⟨rfl, rfl⟩ := List.cons.inj h
  rw [bareLines, pieces_cons hc hp, List.map_cons, withoutTerminator_cons hc]

theorem bareLines_append (he : Terminator [] e cs) : bareLines (e ++ cs) = [] :: bareLines cs := by
  rw [bareLines, pieces_append he, List.map_cons, withoutTerminator_terminator he, bareLines]

/-- **The lines of the index are the pieces without their terminators.** -/
theorem lines_eq (text : String) : lines text = bareLines text.toList := by
  have hflatten : text.toList = [] ++ (pieces text.toList).flatten :=
    (flatten_pieces text.toList).symm
  have hcovers : List.Forall₂ (Span.Covers text) (LineIndex.ofText text).spans
      (pieces text.toList) := by
    rw [spans_ofText]
    exact forall₂_covers_spansFrom hflatten
  have hcharacters : (LineIndex.ofText text).spans.map (charactersAt text) =
      pieces text.toList := by
    rw [← List.forall₂_eq_eq_eq, List.forall₂_map_left_iff]
    exact hcovers.imp fun _ _ => charactersAt_of_covers
  rw [bareLines, ← hcharacters, List.map_map]
  rfl

end BareLines

/-! ### Joined lines -/

section Joined

variable {c : Char} {e cs : List Char}

theorem joinLines_of_not_crlf (h : ¬ ['\r', '\n'] <+: c :: cs) :
    joinLines (c :: cs) = (if c = '\r' ∨ c = '\n' then ' ' else c) :: joinLines cs := by
  rw [joinLines, replaceAll, if_neg (mt List.isPrefixOf_iff_prefix.1 h), List.map_cons]
  rfl

theorem joinLines_cons (hc : IsLineChar c) : joinLines (c :: cs) = c :: joinLines cs := by
  rw [joinLines_of_not_crlf fun h => hc (Or.inl (List.cons_prefix_cons.1 h).1.symm), if_neg hc]

/-- CR LF is replaced first, and so CR and LF only where they stand alone. -/
theorem joinLines_append (he : Terminator [] e cs) : joinLines (e ++ cs) = ' ' :: joinLines cs := by
  cases he with
  | crlf => rw [joinLines, replaceAll_pattern_append, List.map_append]; rfl
  | cr hpost =>
    have hprefix : ¬ ['\r', '\n'] <+: '\r' :: cs := fun h => by
      obtain ⟨rest, rfl⟩ := (List.cons_prefix_cons.1 h).2
      exact hpost rfl
    exact joinLines_of_not_crlf hprefix
  | lf => exact joinLines_of_not_crlf fun h => absurd (List.cons_prefix_cons.1 h).1 (by decide)

/-- **Joined lines are the lines with a space between each two.** -/
theorem joinLines_eq (cs : List Char) : joinLines cs = [' '].intercalate (bareLines cs) := by
  induction cs using induction_on_endings with
  | nil =>
    rw [joinLines, replaceAll_nil]
    rfl
  | char c cs hc ih =>
    obtain ⟨line, rest, h⟩ := exists_bareLines cs
    rw [joinLines_cons hc, ih, bareLines_cons hc h, h]
    cases rest <;> rfl
  | ending e cs he ih =>
    obtain ⟨line, rest, h⟩ := exists_bareLines cs
    rw [joinLines_append he, ih, bareLines_append he, h]
    rfl

theorem not_mem_joinLines (cs : List Char) : ∀ c ∈ joinLines cs, IsLineChar c := by
  induction cs using induction_on_endings with
  | nil =>
    rw [joinLines, replaceAll_nil]
    exact List.forall_mem_nil _
  | char c cs hc ih =>
    rw [joinLines_cons hc]
    exact List.forall_mem_cons.2 ⟨hc, ih⟩
  | ending e cs he ih =>
    rw [joinLines_append he]
    exact List.forall_mem_cons.2 ⟨by decide, ih⟩

theorem joinLines_of_forall (h : ∀ c ∈ cs, IsLineChar c) : joinLines cs = cs := by
  induction cs with
  | nil => rw [joinLines, replaceAll_nil]; rfl
  | cons c cs ih =>
    obtain ⟨hc, hcs⟩ := List.forall_mem_cons.1 h
    rw [joinLines_cons hc, ih hcs]

end Joined

/-! ### Styles of terminators -/

/-- The texts have the same characters but for their line terminators, which stand at the same
places. -/
inductive SameButEndings : List Char → List Char → Prop
  | nil : SameButEndings [] []
  | char {c : Char} {cs ds : List Char} (hc : IsLineChar c) (h : SameButEndings cs ds) :
      SameButEndings (c :: cs) (c :: ds)
  | ending {e e' cs ds : List Char} (he : Terminator [] e cs) (he' : Terminator [] e' ds)
      (h : SameButEndings cs ds) : SameButEndings (e ++ cs) (e' ++ ds)

section Styles

variable {c : Char} {cs ds line : List Char} {rest : List (List Char)}

theorem SameButEndings.bareLines_eq (h : SameButEndings cs ds) : bareLines cs = bareLines ds := by
  induction h with
  | nil => rfl
  | @char c cs ds hc _ ih =>
    obtain ⟨line, rest, hds⟩ := exists_bareLines ds
    rw [bareLines_cons hc (ih.trans hds), bareLines_cons hc hds]
  | ending he he' _ ih => rw [bareLines_append he, bareLines_append he', ih]

/-- Only the empty text has nothing but an empty line. -/
theorem eq_nil_of_bareLines (h : bareLines cs = [[]]) : cs = [] := by
  induction cs using induction_on_endings with
  | nil => rfl
  | char c cs hc _ =>
    obtain ⟨line, rest, hcs⟩ := exists_bareLines cs
    rw [bareLines_cons hc hcs] at h
    cases (List.cons.inj h).1
  | ending e cs he _ =>
    obtain ⟨line, rest, hcs⟩ := exists_bareLines cs
    rw [bareLines_append he, hcs] at h
    cases (List.cons.inj h).2

/-- A text starts with the character with which its first line starts. -/
theorem exists_cons_of_bareLines (h : bareLines cs = (c :: line) :: rest) :
    ∃ ds, cs = c :: ds ∧ bareLines ds = line :: rest := by
  induction cs using induction_on_endings with
  | nil => cases (List.cons.inj h).1
  | char d ds hd _ =>
    obtain ⟨line', rest', hds⟩ := exists_bareLines ds
    rw [bareLines_cons hd hds] at h
    obtain ⟨hline, rfl⟩ := List.cons.inj h
    obtain ⟨rfl, rfl⟩ := List.cons.inj hline
    exact ⟨ds, rfl, hds⟩
  | ending e ds he _ =>
    rw [bareLines_append he] at h
    cases (List.cons.inj h).1

/-- A text starts with a terminator if its first line is empty and there is another one. -/
theorem exists_append_of_bareLines (h : bareLines cs = [] :: line :: rest) :
    ∃ e ds, cs = e ++ ds ∧ Terminator [] e ds ∧ bareLines ds = line :: rest := by
  induction cs using induction_on_endings with
  | nil => cases (List.cons.inj h).2
  | char d ds hd _ =>
    obtain ⟨line', rest', hds⟩ := exists_bareLines ds
    rw [bareLines_cons hd hds] at h
    cases (List.cons.inj h).1
  | ending e ds he _ =>
    rw [bareLines_append he] at h
    exact ⟨e, ds, rfl, he, (List.cons.inj h).2⟩

/-- A text with the same lines goes on in the same way at each place. -/
theorem sameButEndings_of_bareLines (h : bareLines cs = bareLines ds) : SameButEndings cs ds := by
  induction cs using induction_on_endings generalizing ds with
  | nil =>
    rw [eq_nil_of_bareLines h.symm]
    exact .nil
  | char c cs hc ih =>
    obtain ⟨line, rest, hcs⟩ := exists_bareLines cs
    rw [bareLines_cons hc hcs] at h
    obtain ⟨ds, rfl, hds⟩ := exists_cons_of_bareLines h.symm
    exact .char hc (ih (hcs.trans hds.symm))
  | ending e cs he ih =>
    obtain ⟨line, rest, hcs⟩ := exists_bareLines cs
    rw [bareLines_append he, hcs] at h
    obtain ⟨e', ds, rfl, he', hds⟩ := exists_append_of_bareLines h.symm
    exact .ending he he' (ih (hcs.trans hds.symm))

/-- **Texts have the same lines if they differ in the style of their terminators alone.** -/
theorem lines_eq_iff {text text' : String} :
    lines text = lines text' ↔ SameButEndings text.toList text'.toList := by
  rw [lines_eq, lines_eq]
  exact ⟨sameButEndings_of_bareLines, SameButEndings.bareLines_eq⟩

/-- **Both ways of cutting a text agree.** Joined lines are the lines of the index with a space
between each two. No terminator is left in them, so they stay as they are when they are joined
again. A content matches a text if the lines of both give the same when they are joined, and in
particular if both have the same lines, that is, if they differ in the style of terminators
alone. -/
theorem joinLines_exact :
    (∀ text : String, joinLines text.toList = [' '].intercalate (lines text)) ∧
    (∀ cs, '\r' ∉ joinLines cs ∧ '\n' ∉ joinLines cs ∧ joinLines (joinLines cs) = joinLines cs) ∧
    ∀ (content : Content) (text : String),
      (content.matchesText text = true ↔
        [' '].intercalate (lines content.text) = [' '].intercalate (lines text)) ∧
      (lines content.text = lines text ↔ SameButEndings content.text.toList text.toList) ∧
      (SameButEndings content.text.toList text.toList → content.matchesText text = true) := by
  have hlines (text : String) : joinLines text.toList = [' '].intercalate (lines text) := by
    rw [joinLines_eq, lines_eq]
  have hmatches (content : Content) (text : String) : content.matchesText text = true ↔
      [' '].intercalate (lines content.text) = [' '].intercalate (lines text) := by
    rw [Content.matchesText, beq_iff_eq, hlines, hlines]
  refine ⟨hlines, fun cs => ?_,
    fun content text => ⟨hmatches content text, lines_eq_iff, fun h => ?_⟩⟩
  · have hall := not_mem_joinLines cs
    exact ⟨fun h => hall _ h (Or.inl rfl), fun h => hall _ h (Or.inr rfl), joinLines_of_forall hall⟩
  · rw [hmatches, lines_eq_iff.2 h]

/-- CR LF and CR in one text, and LF twice in the other one. -/
theorem joinLines_exact_mixed :
    SameButEndings "a\r\n\rb".toList "a\n\nb".toList ∧
      ({ Content.blank "M" with text := "a\r\n\rb" } : Content).matchesText "a\n\nb" = true := by
  have hmixed : "a\r\n\rb".toList = 'a' :: (['\r', '\n'] ++ (['\r'] ++ ['b'])) :=
    String.toList_ofList
  have hplain : "a\n\nb".toList = 'a' :: (['\n'] ++ (['\n'] ++ ['b'])) := String.toList_ofList
  have h : SameButEndings "a\r\n\rb".toList "a\n\nb".toList := by
    rw [hmixed, hplain]
    have hb : SameButEndings ['b'] ['b'] := .char (by decide) .nil
    have hcr := SameButEndings.ending (.cr (by decide)) (.lf (by decide)) hb
    exact .char (by decide) (.ending .crlf (.lf (by decide)) hcr)
  exact ⟨h, (joinLines_exact.2.2 _ _).2.2 h⟩

end Styles

end HdlModule
