import HdlModule.Text.Lines
import HdlModule.Proofs.Search
import HdlModule.Proofs.Text.Bytes
import Mathlib.Data.Prod.Lex
import Mathlib.Data.Set.Card

/-!
# Lines and columns

A line index turns each offset of a text into a line and a column. Which these are is said here
without the index: the line is the number of line terminators that end at the offset or in front
of it, and the column is counted from the end of the last one. CR LF is one terminator.

The index finds the line by a binary search among the starts of the lines. The first line starts
at 0, so the search never ends in front of all lines, and its result is always a line of the index.

## Main definitions

* `Terminator pre terminator post`: a line terminator stands between two parts of a text
* `TerminatorEndsAt text offset`: a line terminator of the text ends at the offset

## Main results

* `mem_lineBreaks_iff`: the breaks are the offsets at which terminators end
* `position_ofText`: line and column of every offset, and their order
-/

namespace HdlModule

/-! ### The line of an offset -/

namespace LineIndex

variable {index : LineIndex}

/-- **The line of an offset is the last one that starts at it or in front of it.** The search finds
the start of that line, or the place behind it. -/
theorem exists_lineAt (hstarts : index.starts.toList.Pairwise (· < ·))
    (hfirst : index.starts[0]? = some 0) (offset : Nat) :
    ∃ line : Fin index.starts.size, index.lineAt offset = line.val ∧
      index.starts[line] ≤ offset ∧ LastNotAbove index.starts offset line ∧
      (binarySearch index.starts offset = .ok line.val ∨
        binarySearch index.starts offset = .error (line.val + 1)) := by
  obtain ⟨hsize, hzero⟩ := Array.getElem?_eq_some_iff.1 hfirst
  obtain ⟨line, hle, hlast, hsearch⟩ :=
    exists_binarySearch_eq hstarts hsize (hzero.le.trans (Nat.zero_le offset))
  have hfound : binarySearch index.starts offset = .ok line.val ∨
      binarySearch index.starts offset = .error (line.val + 1) := by
    rw [hsearch]
    split
    · exact Or.inl rfl
    · exact Or.inr rfl
  refine ⟨line, ?_, hle, hlast, hfound⟩
  rcases hfound with hfound | hfound
  · rw [lineAt, hfound]
  · rw [lineAt, hfound]
    exact Nat.add_sub_cancel _ 1

end LineIndex

/-! ### Line terminators -/

/-- A line terminator stands between two parts of a text: CR LF, a CR that no LF follows, or an LF
that follows no CR. -/
inductive Terminator : List Char → List Char → List Char → Prop
  | crlf {pre post : List Char} : Terminator pre ['\r', '\n'] post
  | cr {pre post : List Char} (hpost : post.head? ≠ some '\n') : Terminator pre ['\r'] post
  | lf {pre post : List Char} (hpre : pre.getLast? ≠ some '\r') : Terminator pre ['\n'] post

/-- A line terminator of the text ends at the offset. -/
def TerminatorEndsAt (cs : List Char) (offset : Nat) : Prop :=
  ∃ pre terminator post, cs = pre ++ (terminator ++ post) ∧ Terminator pre terminator post ∧
    byteLength (pre ++ terminator) = offset

/-- A line terminator ends between two parts of a text: the first part ends with LF, or with a CR
that no LF follows. -/
def EndsLine (pre post : List Char) : Prop :=
  pre.getLast? = some '\n' ∨ pre.getLast? = some '\r' ∧ post.head? ≠ some '\n'

section Terminators

variable {c : Char} {cs : List Char} {offset last : Nat}

/-- Where a terminator ends is seen at the last character in front and at the next one. -/
theorem terminatorEndsAt_iff :
    TerminatorEndsAt cs last ↔
      ∃ pre post, cs = pre ++ post ∧ EndsLine pre post ∧ byteLength pre = last := by
  constructor
  · rintro ⟨pre, terminator, post, rfl, hterminator, hlast⟩
    refine ⟨pre ++ terminator, post, (List.append_assoc ..).symm, ?_, hlast⟩
    cases hterminator with
    | crlf => exact Or.inl (by simp)
    | cr hpost => exact Or.inr ⟨by simp, hpost⟩
    | lf hpre => exact Or.inl (by simp)
  · rintro ⟨pre, post, rfl, hends, hlast⟩
    rcases hends with hlf | ⟨hcr, hpost⟩
    · obtain ⟨pre, rfl⟩ := List.getLast?_eq_some_iff.1 hlf
      by_cases hpre : pre.getLast? = some '\r'
      · -- the LF belongs to the CR in front of it
        obtain ⟨pre, rfl⟩ := List.getLast?_eq_some_iff.1 hpre
        exact ⟨pre, _, post, by simp, .crlf, by simpa using hlast⟩
      · exact ⟨pre, _, post, by simp, .lf hpre, hlast⟩
    · obtain ⟨pre, rfl⟩ := List.getLast?_eq_some_iff.1 hcr
      exact ⟨pre, _, post, by simp, .cr hpost, hlast⟩

theorem TerminatorEndsAt.le_byteLength (h : TerminatorEndsAt cs last) : last ≤ byteLength cs := by
  obtain ⟨pre, terminator, post, rfl, -, rfl⟩ := h
  rw [← List.append_assoc, byteLength_append _ post]
  exact Nat.le_add_right ..

theorem not_terminatorEndsAt_nil : ¬ TerminatorEndsAt [] last := by
  rw [terminatorEndsAt_iff]
  rintro ⟨pre, post, hcs, hends, -⟩
  obtain ⟨rfl, -⟩ := List.append_eq_nil_iff.1 hcs.symm
  simp [EndsLine] at hends

/-- A terminator ends behind the first character of a text, or further behind. -/
theorem terminatorEndsAt_cons_iff :
    TerminatorEndsAt (c :: cs) last ↔
      (c = '\n' ∨ c = '\r' ∧ cs.head? ≠ some '\n') ∧ last = c.utf8Size ∨
        ∃ last', TerminatorEndsAt cs last' ∧ last = c.utf8Size + last' := by
  simp only [terminatorEndsAt_iff]
  constructor
  · rintro ⟨pre, post, hcs, hends, rfl⟩
    rcases pre with _ | ⟨d, _ | ⟨d', pre⟩⟩
    · simp [EndsLine] at hends
    · obtain ⟨rfl, rfl⟩ : c = d ∧ cs = post := List.cons.inj hcs
      exact Or.inl ⟨by simpa [EndsLine] using hends, rfl⟩
    · obtain ⟨rfl, rfl⟩ : c = d ∧ cs = d' :: pre ++ post := List.cons.inj hcs
      exact Or.inr ⟨_, ⟨d' :: pre, post, rfl, by simpa [EndsLine] using hends, rfl⟩, rfl⟩
  · rintro (⟨hends, rfl⟩ | ⟨_, ⟨pre, post, rfl, hends, rfl⟩, rfl⟩)
    · exact ⟨[c], cs, rfl, by simpa [EndsLine] using hends, rfl⟩
    · refine ⟨c :: pre, post, rfl, ?_, rfl⟩
      rcases List.eq_nil_or_concat pre with rfl | ⟨pre, d, rfl⟩
      · simp [EndsLine] at hends
      · rw [List.concat_eq_append] at hends ⊢
        have hlast : (c :: (pre ++ [d])).getLast? = (pre ++ [d]).getLast? := by
          rw [← List.cons_append, List.getLast?_concat, List.getLast?_concat]
        rwa [EndsLine, hlast]

/-- CR LF is one terminator. -/
theorem terminatorEndsAt_crlf_iff :
    TerminatorEndsAt ('\r' :: '\n' :: cs) last ↔
      last = 2 ∨ ∃ last', TerminatorEndsAt cs last' ∧ last = 2 + last' := by
  have hcr : '\r'.utf8Size = 1 := rfl
  have hlf : '\n'.utf8Size = 1 := rfl
  rw [terminatorEndsAt_cons_iff, hcr]
  simp only [terminatorEndsAt_cons_iff, hlf]
  constructor
  · rintro (⟨hends, -⟩ | ⟨_, ⟨-, rfl⟩ | ⟨last', hlast', rfl⟩, rfl⟩)
    · simp at hends
    · exact Or.inl rfl
    · exact Or.inr ⟨last', hlast', by omega⟩
  · rintro (rfl | ⟨last', hlast', rfl⟩)
    · exact Or.inr ⟨1, Or.inl ⟨Or.inl trivial, rfl⟩, rfl⟩
    · exact Or.inr ⟨1 + last', Or.inr ⟨last', hlast', rfl⟩, by omega⟩

/-- **The breaks of a text are the offsets at which line terminators end.** -/
theorem mem_lineBreaks_iff :
    last ∈ lineBreaks offset cs ↔ ∃ e, TerminatorEndsAt cs e ∧ last = offset + e := by
  fun_induction lineBreaks offset cs with
  | case1 => simp [not_terminatorEndsAt_nil]
  | case2 offset cs ih =>
    rw [List.mem_cons, ih]
    constructor
    · rintro (rfl | ⟨e, he, rfl⟩)
      · exact ⟨2, terminatorEndsAt_crlf_iff.2 (Or.inl rfl), rfl⟩
      · exact ⟨2 + e, terminatorEndsAt_crlf_iff.2 (Or.inr ⟨e, he, rfl⟩), by omega⟩
    · rintro ⟨_, hcons, rfl⟩
      rcases terminatorEndsAt_crlf_iff.1 hcons with rfl | ⟨e, he, rfl⟩
      · exact Or.inl rfl
      · exact Or.inr ⟨e, he, by omega⟩
  | case3 offset c cs hcrlf hc ih =>
    have hsize : c.utf8Size = 1 := by rcases hc with rfl | rfl <;> rfl
    have hends : c = '\n' ∨ c = '\r' ∧ cs.head? ≠ some '\n' := by
      refine hc.symm.imp_right fun hcr => ⟨hcr, fun hhead => ?_⟩
      obtain ⟨rest, rfl⟩ := List.head?_eq_some_iff.1 hhead
      exact hcrlf rest hcr rfl
    rw [List.mem_cons, ih]
    constructor
    · rintro (rfl | ⟨e, he, rfl⟩)
      · exact ⟨1, terminatorEndsAt_cons_iff.2 (Or.inl ⟨hends, hsize.symm⟩), rfl⟩
      · exact ⟨1 + e, terminatorEndsAt_cons_iff.2 (Or.inr ⟨e, he, by rw [hsize]⟩), by omega⟩
    · rintro ⟨_, hcons, rfl⟩
      rcases terminatorEndsAt_cons_iff.1 hcons with ⟨-, rfl⟩ | ⟨e, he, rfl⟩
      · exact Or.inl (by rw [hsize])
      · exact Or.inr ⟨e, he, by rw [hsize]; omega⟩
  | case4 offset c cs _ hc ih =>
    rw [ih]
    constructor
    · rintro ⟨e, he, rfl⟩
      exact ⟨_, terminatorEndsAt_cons_iff.2 (Or.inr ⟨e, he, rfl⟩), by omega⟩
    · rintro ⟨_, hcons, rfl⟩
      rcases terminatorEndsAt_cons_iff.1 hcons with ⟨hends, -⟩ | ⟨e, he, rfl⟩
      · exact absurd (hends.symm.imp_left And.left) hc
      · exact ⟨e, he, by omega⟩

/-- The breaks of a text ascend. -/
theorem pairwise_lineBreaks (offset : Nat) (cs : List Char) :
    (lineBreaks offset cs).Pairwise (· < ·) ∧ ∀ last ∈ lineBreaks offset cs, offset < last := by
  fun_induction lineBreaks offset cs with
  | case1 => simp
  | case2 offset cs ih =>
    obtain ⟨hpairwise, hlt⟩ := ih
    refine ⟨.cons hlt hpairwise, List.forall_mem_cons.2 ⟨by omega, fun last hlast => ?_⟩⟩
    exact Nat.lt_trans (by omega) (hlt last hlast)
  | case3 offset c cs _ _ ih =>
    obtain ⟨hpairwise, hlt⟩ := ih
    refine ⟨.cons hlt hpairwise, List.forall_mem_cons.2 ⟨by omega, fun last hlast => ?_⟩⟩
    exact Nat.lt_trans (by omega) (hlt last hlast)
  | case4 offset c cs _ _ ih =>
    obtain ⟨hpairwise, hlt⟩ := ih
    exact ⟨hpairwise, fun last hlast => Nat.lt_of_le_of_lt (by omega) (hlt last hlast)⟩

end Terminators

/-! ### Lines and columns -/

/-- The values that are not too large are those in front of the first one that is. -/
theorem filter_le_eq_take {values : List Nat} {bound n : Nat}
    (hle : ∀ i, ∀ h : i < values.length, i < n → values[i] ≤ bound)
    (hlt : ∀ i, ∀ h : i < values.length, n ≤ i → bound < values[i]) :
    values.filter (· ≤ bound) = values.take n := by
  have hfront : ∀ value ∈ values.take n, decide (value ≤ bound) = true := by
    intro value hvalue
    obtain ⟨i, hi, rfl⟩ := List.mem_take_iff_getElem.1 hvalue
    exact decide_eq_true (hle i (by omega) (by omega))
  have hbehind : ∀ value ∈ values.drop n, ¬ decide (value ≤ bound) = true := by
    intro value hvalue
    obtain ⟨i, hi, rfl⟩ := List.mem_drop_iff_getElem.1 hvalue
    have hbound : bound < values[n + i] := hlt (n + i) (by omega) (by omega)
    exact fun hle => absurd (of_decide_eq_true hle) (Nat.not_le.2 hbound)
  conv_lhs => rw [← List.take_append_drop n values]
  rw [List.filter_append, List.filter_eq_self.2 hfront, List.filter_eq_nil_iff.2 hbehind,
    List.append_nil]

/-- The set of a list's elements has as many as the list, if none of them is there twice. -/
theorem ncard_setOf_mem {values : List Nat} (h : values.Nodup) :
    {value | value ∈ values}.ncard = values.length := by
  rw [← List.coe_toFinset, Set.ncard_coe_finset, List.toFinset_card_of_nodup h]

/-- Ascending numbers are at least as large as their places. -/
theorem le_getElem_of_pairwise {values : Array Nat} (h : values.toList.Pairwise (· < ·)) {i : Nat}
    (hi : i < values.size) : i ≤ values[i] := by
  induction i with
  | zero => exact Nat.zero_le _
  | succ i ih =>
    have hlt : values[i] < values[i + 1] :=
      List.pairwise_iff_getElem.1 h i (i + 1) (Nat.lt_of_succ_lt hi) hi (Nat.lt_succ_self i)
    have hle := ih (Nat.lt_of_succ_lt hi)
    omega

namespace LineIndex

variable (text : String)

theorem pairwise_starts_ofText : (ofText text).starts.toList.Pairwise (· < ·) := by
  obtain ⟨hpairwise, hlt⟩ := pairwise_lineBreaks 0 text.toList
  exact .cons hlt hpairwise

theorem nodup_lineBreaks : (lineBreaks 0 text.toList).Nodup :=
  (pairwise_lineBreaks 0 text.toList).1.imp Nat.ne_of_lt

/-- Each line after the first starts where a terminator ends. -/
theorem exists_starts_iff {last : Nat} :
    (∃ i, ∃ hi : i + 1 < (ofText text).starts.size, (ofText text).starts[i + 1] = last) ↔
      TerminatorEndsAt text.toList last := by
  have hmem : last ∈ lineBreaks 0 text.toList ↔ TerminatorEndsAt text.toList last := by
    simp [mem_lineBreaks_iff]
  rw [← hmem, List.mem_iff_getElem]
  have hsize : (ofText text).starts.size = (lineBreaks 0 text.toList).length + 1 := rfl
  constructor
  · rintro ⟨i, hi, hlast⟩
    exact ⟨i, by omega, hlast⟩
  · rintro ⟨i, hi, hlast⟩
    exact ⟨i, by omega, hlast⟩

/-- Each line starts in the text or at its end. -/
theorem starts_le (i : Nat) (hi : i < (ofText text).starts.size) :
    (ofText text).starts[i] ≤ text.utf8ByteSize := by
  rcases i with _ | i
  · exact Nat.zero_le _
  · rw [← byteLength_toList]
    exact ((exists_starts_iff text).1 ⟨i, hi, rfl⟩).le_byteLength

/-- The places of the lines are counted by the terminators in front of them. -/
theorem ncard_terminatorEndsAt {offset : Nat} {line : Fin (ofText text).starts.size}
    (hle : (ofText text).starts[line] ≤ offset)
    (hlast : LastNotAbove (ofText text).starts offset line) :
    {last | TerminatorEndsAt text.toList last ∧ last ≤ offset}.ncard = line := by
  have hstarts := pairwise_starts_ofText text
  have hfilter : (lineBreaks 0 text.toList).filter (· ≤ offset) =
      (lineBreaks 0 text.toList).take line := by
    refine filter_le_eq_take (fun i hi hlt => ?_) fun i hi hge => ?_
    · exact (getElem_le_of_le hstarts (j := line.val) (i := i + 1) hlt line.isLt).trans hle
    · exact hlast.above (i + 1) (Nat.succ_lt_succ hi) (Nat.lt_succ_of_le hge)
  have hset : {last | TerminatorEndsAt text.toList last ∧ last ≤ offset} =
      {last | last ∈ (lineBreaks 0 text.toList).take line} := by
    ext last
    simp [← hfilter, mem_lineBreaks_iff]
  have hbound : line.val ≤ (lineBreaks 0 text.toList).length := Nat.le_of_lt_succ line.isLt
  rw [hset, ncard_setOf_mem ((nodup_lineBreaks text).sublist (List.take_sublist ..)),
    List.length_take_of_le hbound]

/-- The index has a line for each terminator, and the first one. -/
theorem lineCount_ofText :
    (ofText text).lineCount = 1 + {last | TerminatorEndsAt text.toList last}.ncard := by
  have hset : {last | TerminatorEndsAt text.toList last} =
      {last | last ∈ lineBreaks 0 text.toList} := by
    ext last
    simp [mem_lineBreaks_iff]
  rw [hset, ncard_setOf_mem (nodup_lineBreaks text), Nat.add_comm]
  rfl

/-- The start of the last line is the end of the last terminator, or 0. -/
theorem isGreatest_terminatorEndsAt {offset : Nat} {line : Fin (ofText text).starts.size}
    (hle : (ofText text).starts[line] ≤ offset)
    (hlast : LastNotAbove (ofText text).starts offset line) :
    IsGreatest (insert 0 {last | TerminatorEndsAt text.toList last ∧ last ≤ offset})
      (ofText text).starts[line] := by
  constructor
  · rcases line with ⟨_ | i, hi⟩
    · exact Or.inl rfl
    · exact Or.inr ⟨(exists_starts_iff text).1 ⟨i, hi, rfl⟩, hle⟩
  · rintro last (rfl | ⟨hends, hbound⟩)
    · exact Nat.zero_le _
    · obtain ⟨i, hi, rfl⟩ := (exists_starts_iff text).2 hends
      refine getElem_le_of_le (pairwise_starts_ofText text) ?_ line.isLt
      exact Nat.le_of_not_lt fun hlt => absurd (hlast.above (i + 1) hi hlt) (Nat.not_lt.2 hbound)

/-- The line and the column of an offset, by the place at which the search ends. -/
theorem exists_position (offset : Nat) :
    ∃ line : Fin (ofText text).starts.size,
      (ofText text).position offset =
        ⟨line, min offset text.utf8ByteSize - (ofText text).starts[line]⟩ ∧
      (ofText text).starts[line] ≤ min offset text.utf8ByteSize ∧
      LastNotAbove (ofText text).starts (min offset text.utf8ByteSize) line ∧
      (binarySearch (ofText text).starts (min offset text.utf8ByteSize) = .ok line.val ∨
        binarySearch (ofText text).starts (min offset text.utf8ByteSize) =
          .error (line.val + 1)) := by
  obtain ⟨line, hline, hle, hlast, hfound⟩ :=
    exists_lineAt (pairwise_starts_ofText text) rfl (min offset text.utf8ByteSize)
  have hsize : (ofText text).size = text.utf8ByteSize := byteLength_toList text
  refine ⟨line, ?_, hle, hlast, hfound⟩
  rw [position, hsize, hline, Array.getD_eq_getD_getElem?, Array.getElem?_eq_getElem line.isLt]
  rfl

/-- Offsets further behind are on later lines, or further behind on the same line. -/
theorem strictMonoOn_position :
    StrictMonoOn (fun offset =>
      toLex (((ofText text).position offset).line, ((ofText text).position offset).column))
      (Set.Iic text.utf8ByteSize) := by
  intro o ho o' ho' hlt
  obtain ⟨line, hposition, hle, -, -⟩ := exists_position text o
  obtain ⟨line', hposition', hle', hlast', -⟩ := exists_position text o'
  rw [Nat.min_eq_left ho] at hposition hle
  rw [Nat.min_eq_left ho'] at hposition' hle' hlast'
  dsimp only
  rw [hposition, hposition', Prod.Lex.toLex_lt_toLex]
  have hlines : line.val ≤ line'.val := Nat.le_of_not_lt fun hline => by
    have := hlast'.above line line.isLt hline
    exact absurd (hle.trans hlt.le) (Nat.not_le.2 this)
  rcases Nat.lt_or_eq_of_le hlines with hline | hline
  · exact Or.inl hline
  · obtain rfl := Fin.ext hline
    exact Or.inr ⟨rfl, Nat.sub_lt_sub_right hle hlt⟩

/-- **Line and column of every offset.** An offset behind the end of the text counts as the end.
The line is the number of terminators that end at the offset or in front of it, and the column is
counted from the end of the last one. The search ends at a line of the index or at the place
behind one, and the index has one line more than the text has terminators. All numbers are bounded
by the size of the text, and offsets further behind have positions further behind. -/
theorem position_ofText :
    (∀ offset,
      let bounded := min offset text.utf8ByteSize
      let ends := {last | TerminatorEndsAt text.toList last ∧ last ≤ bounded}
      let found := (ofText text).position offset
      found.line = ends.ncard ∧
      (∃ start, IsGreatest (insert 0 ends) start ∧ found.column + start = bounded) ∧
      found.line < (ofText text).lineCount ∧
      (binarySearch (ofText text).starts bounded = .ok found.line ∨
        binarySearch (ofText text).starts bounded = .error (found.line + 1)) ∧
      found.line + found.column ≤ bounded) ∧
    (ofText text).lineCount = 1 + {last | TerminatorEndsAt text.toList last}.ncard ∧
    (∀ i, ∀ hi : i < (ofText text).starts.size, (ofText text).starts[i] ≤ text.utf8ByteSize) ∧
    StrictMonoOn (fun offset =>
      toLex (((ofText text).position offset).line, ((ofText text).position offset).column))
      (Set.Iic text.utf8ByteSize) := by
  refine ⟨fun offset => ?_, lineCount_ofText text, starts_le text, strictMonoOn_position text⟩
  obtain ⟨line, hposition, hle, hlast, hfound⟩ := exists_position text offset
  have hline : line.val ≤ (ofText text).starts[line] :=
    le_getElem_of_pairwise (pairwise_starts_ofText text) line.isLt
  dsimp only
  rw [hposition]
  refine ⟨(ncard_terminatorEndsAt text hle hlast).symm,
    ⟨_, isGreatest_terminatorEndsAt text hle hlast, Nat.sub_add_cancel hle⟩, line.isLt, hfound, ?_⟩
  show line.val + (_ - (ofText text).starts[line]) ≤ _
  omega

end LineIndex

end HdlModule
