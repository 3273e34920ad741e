import HdlModule.Proofs.Grammar.Cited
import HdlModule.Proofs.Grammar.Decided
import HdlModule.Proofs.Grammar.Module
import HdlModule.Proofs.Text.Bytes

/-!
# Spans of diagnostics and of names

Every span that is reported lies in the text, between characters. The span of a fault starts with
a token and ends with a token, or it is empty, at the start of the text or at its end. The span
of a name holds the name.

The search for a header is also stated by positions in the list of tokens, as a machine does it
that keeps a position and looks the tokens up. It looks up no token in front of the first one or
behind the last one.

## Main definitions

* `headerFrom ts pos`: the search for a header by positions
* `Diagnostic.spans`: the span of a diagnostic and those of its related places
* `Span.MarksTokens ts size`: the span goes from a token to a token, or is empty at an end

## Main results

* `headerFrom_eq`: the search by positions succeeds and finds the same header
* `Token.covers_of_mem`: at the span of a token stand its characters
* `ofText_spans`: all spans that are reported for a text
-/

namespace HdlModule

/-! ### The search for a header by positions -/

section Positions

variable {ts : List Token} {start : Token} {pos : Nat}

/-- Whether `extern` stands in front of the keyword that ends at the position `next`. There is no
answer if the place in front is no place of a token. -/
def prototypeBefore? (ts : List Token) (next : Nat) : Option Bool :=
  -- the keyword is at `next - 1`, and `extern` would be in front of it
  if 2 ≤ next then ts[next - 2]?.map fun t => decide (t.kind = .keyword .prototype)
  else some false

/-- The first header at or behind a position that is no prototype, with the tokens behind it.
There is no answer if a token is looked up where none is. -/
def headerFrom (ts : List Token) (pos : Nat) : Option (Option (Token × Token × List Token)) :=
  match _h : ts[pos]? with
  | none => some none
  | some start =>
    if start.kind = .keyword .moduleStart then
      (prototypeBefore? ts (pos + 1)).bind fun isPrototype =>
        match ts[pos + 1]? with
        | some name =>
          if name.kind.isWord ∧ isPrototype = false then
            some (some (start, name, ts.drop (pos + 2)))
          else headerFrom ts (pos + 1)
        | none => headerFrom ts (pos + 1)
    else headerFrom ts (pos + 1)
termination_by ts.length - pos
decreasing_by
  all_goals
    have := (List.getElem?_eq_some_iff.1 _h).1
    omega

/-- The place in front of a keyword is a place of a token, unless the keyword is the first one. -/
theorem prototypeBefore?_eq (h : ts[pos]? = some start) :
    prototypeBefore? ts (pos + 1) =
      some (decide (kindBefore none (ts.map (·.kind)) pos = some (.keyword .prototype))) := by
  unfold prototypeBefore?
  cases pos with
  | zero => simp [kindBefore]
  | succ pos =>
    have hlt : pos < ts.length := Nat.lt_of_succ_lt (List.getElem?_eq_some_iff.1 h).1
    simp [kindBefore, List.getElem?_eq_getElem hlt]

/-- The kind of the token at a position is the one in front of the next position. -/
theorem kindBefore_succ (h : ts[pos]? = some start) :
    kindBefore none (ts.map (·.kind)) (pos + 1) = some start.kind := by
  simp [kindBefore, h]

theorem drop_of_getElem? (h : ts[pos]? = some start) :
    ts.drop pos = start :: ts.drop (pos + 1) := by
  rw [List.drop_eq_getElem?_toList_append, h]
  rfl

theorem drop_of_getElem?_eq_none (h : ts[pos]? = none) : ts.drop pos = [] :=
  List.drop_eq_nil_of_le (List.getElem?_eq_none_iff.1 h)

/-- A token that is no keyword of a module is passed over. -/
theorem findHeader?_cons_of_ne {before : Option TokenKind}
    (h : start.kind ≠ .keyword .moduleStart) (rest : List Token) :
    findHeader? before (start :: rest) = findHeader? (some start.kind) rest := by
  cases rest with
  | nil => rfl
  | cons name rest => rw [findHeader?, if_neg fun hat => h hat.1]

/-- **The search by positions** looks up tokens of the list only, and finds the first header. -/
theorem headerFrom_eq (ts : List Token) (pos : Nat) :
    headerFrom ts pos =
      some (findHeader? (kindBefore none (ts.map (·.kind)) pos) (ts.drop pos)) := by
  fun_induction headerFrom ts pos with
  | case1 pos hpos =>
    rw [drop_of_getElem?_eq_none hpos]
    rfl
  | case2 pos start hpos hkind ih =>
    rw [prototypeBefore?_eq hpos, Option.bind_some, drop_of_getElem? hpos, ih,
      kindBefore_succ hpos]
    cases hname : ts[pos + 1]? with
    | none =>
      rw [drop_of_getElem?_eq_none hname]
      rfl
    | some name =>
      simp only [drop_of_getElem? hname, findHeader?, hkind, decide_eq_false_iff_not, true_and,
        ne_eq]
      split <;> rfl
  | case3 pos start hpos hkind ih =>
    rw [ih, kindBefore_succ hpos, drop_of_getElem? hpos, findHeader?_cons_of_ne hkind]

end Positions

/-! ### Tokens in the text -/

section Tokens

variable {source : String} {t u : Token}

/-- At the span of a token stand its characters. -/
theorem Token.covers_of_mem (ht : t ∈ significantTokens source) :
    t.span.Covers source t.chars :=
  covers_of_mem_tokens (List.mem_filter.1 ht).1

theorem Token.fitsIn_of_mem (ht : t ∈ significantTokens source) : t.span.FitsIn source :=
  (t.covers_of_mem ht).fitsIn

end Tokens

/-! ### The spans of faults -/

/-- The span goes from the start of a token to the end of a token, or it is empty, at the start or
at the end of a text of `size` bytes. -/
inductive Span.MarksTokens (ts : List Token) (size : Nat) : Span → Prop
  | atStart : MarksTokens ts size (Span.emptyAt 0)
  | atEnd : MarksTokens ts size (Span.emptyAt size)
  | through {t u : Token} (ht : t ∈ ts) (hu : u ∈ ts) :
      MarksTokens ts size ⟨t.span.start, u.span.stop⟩

/-- The span lies in the text, between characters, and goes from token to token or is empty at an
end of the text. -/
structure Span.WellPlaced (source : String) (span : Span) : Prop where
  fits : span.FitsIn source
  marks : span.MarksTokens (significantTokens source) source.utf8ByteSize

/-- The span of a diagnostic and the spans of its related places. -/
def Diagnostic.spans (d : Diagnostic) : List Span := d.span :: d.related.map (·.span)

section Faults

variable {source : String} {t u : Token}

theorem Span.wellPlaced_emptyAt_size (source : String) :
    (Span.emptyAt source.utf8ByteSize).WellPlaced source :=
  ⟨fitsIn_emptyAt_size source, .atEnd⟩

theorem Token.wellPlaced_of_mem (ht : t ∈ significantTokens source) : t.span.WellPlaced source :=
  ⟨t.fitsIn_of_mem ht, .through ht ht⟩

/-- From a token to one that does not start in front of it. -/
theorem Token.wellPlaced_through (ht : t ∈ significantTokens source)
    (hu : u ∈ significantTokens source) (hle : t.start ≤ u.start) :
    (⟨t.span.start, u.span.stop⟩ : Span).WellPlaced source := by
  have hstop : t.span.start ≤ u.span.stop := Nat.le_trans hle (u.fitsIn_of_mem hu).start_le_stop
  exact ⟨(t.fitsIn_of_mem ht).through (u.fitsIn_of_mem hu) hstop, .through ht hu⟩

/-- Around two tokens, in either order. -/
theorem Token.wellPlaced_cover (ht : t ∈ significantTokens source)
    (hu : u ∈ significantTokens source) : (t.span.cover u.span).WellPlaced source := by
  refine ⟨(t.fitsIn_of_mem ht).cover (u.fitsIn_of_mem hu), ?_⟩
  obtain ⟨x, hx, y, hy, heq⟩ := Span.exists_cover_eq t.span u.span
  have hspan : ∀ x ∈ [t.span, u.span], ∃ s ∈ significantTokens source, x = s.span := by
    simp only [List.forall_mem_cons, List.not_mem_nil, false_implies, implies_true, and_true]
    exact ⟨⟨t, ht, rfl⟩, ⟨u, hu, rfl⟩⟩
  obtain ⟨s, hs, rfl⟩ := hspan x hx
  obtain ⟨s', hs', rfl⟩ := hspan y hy
  rw [heq]
  exact .through hs hs'

/-- **The spans of a fault are well placed** if it holds tokens of the text in their order. -/
theorem Fault.wellPlaced_spans {fault : Fault}
    (h : fault.tokens.Sublist (significantTokens source)) :
    ∀ span ∈ (fault.diagnostic source.utf8ByteSize).spans, span.WellPlaced source := by
  have hmem : ∀ t ∈ fault.tokens, t ∈ significantTokens source := fun t ht => h.subset ht
  have horder := (pairwise_start_significantTokens source).sublist h
  cases fault with
  | noHeader =>
    exact List.forall_mem_singleton.2 ⟨Span.fitsIn_emptyAt_zero source, .atStart⟩
  | unexpected expected found =>
    cases found with
    | none => exact List.forall_mem_singleton.2 (Span.wellPlaced_emptyAt_size source)
    | some t => exact List.forall_mem_singleton.2 (t.wellPlaced_of_mem (hmem t (by simp)))
  | unclosed list opener =>
    refine List.forall_mem_cons.2 ⟨Span.wellPlaced_emptyAt_size source, ?_⟩
    exact List.forall_mem_singleton.2 (opener.wellPlaced_of_mem (hmem opener (by simp)))
  | parameterLiteral parameter literal | boundLiteral literal =>
    exact List.forall_mem_singleton.2 (literal.wellPlaced_of_mem (hmem literal (by simp)))
  | valueContinues parameter first last =>
    -- the only span that is put together from two tokens in the order in which they are held
    have hle : first.start ≤ last.start := by simpa using horder
    exact List.forall_mem_singleton.2
      (first.wellPlaced_through (hmem first (by simp)) (hmem last (by simp)) hle)
  | ascendingRange opener closer | wideRange opener closer =>
    exact List.forall_mem_singleton.2
      (opener.wellPlaced_cover (hmem opener (by simp)) (hmem closer (by simp)))
  | noEnd start name =>
    refine List.forall_mem_cons.2 ⟨Span.wellPlaced_emptyAt_size source, ?_⟩
    exact List.forall_mem_singleton.2
      (start.wellPlaced_cover (hmem start (by simp)) (hmem name (by simp)))

end Faults

/-! ### The spans of an outcome -/

/-- The name of an interface is a significant token, with its text and its span. -/
theorem exists_name_token {ts : List Token} {interface : Interface}
    (h : Interface.ofTokens ts = .ok interface) :
    ∃ t ∈ ts, interface.name = t.text ∧ interface.nameSpan = t.span := by
  cases Interface.ofTokens_eq_ok_iff.1 h with
  | @mk pre params portList rest start name =>
    exact ⟨name, List.mem_append_right pre (by simp), rfl, rfl⟩

/-- **All spans that are reported for a text.** The search for the header looks up tokens of the
text only. The span of a token is the same with offsets of 32 bits, if the text is short enough to
have such offsets, and the cover of two tokens does not end in front of its start. The spans of a
diagnostic are well placed, and the bytes at the span of a name are those of the name. -/
theorem ofText_spans (source : String) (hsize : source.utf8ByteSize < UInt32.size) :
    headerFrom (significantTokens source) 0 = some (findHeader? none (significantTokens source)) ∧
      (∀ t ∈ significantTokens source,
        Span.counted? t.start (byteLength t.chars) = some t.span) ∧
      (∀ t ∈ significantTokens source, ∀ u ∈ significantTokens source,
        (t.span.cover u.span).FitsIn source) ∧
      match Interface.ofText source with
      | .error d => ∀ span ∈ d.spans, span.WellPlaced source
      | .ok i =>
        i.nameSpan.FitsIn source ∧
          source.toByteArray.extract i.nameSpan.start i.nameSpan.stop = i.name.toByteArray := by
  refine ⟨headerFrom_eq _ 0, fun t ht => ?_, fun t ht u hu => ?_, ?_⟩
  · have hstop : t.span.stop ≤ source.utf8ByteSize := (t.fitsIn_of_mem ht).stop_le
    exact Span.counted?_eq (Nat.lt_of_le_of_lt hstop hsize)
  · exact (t.fitsIn_of_mem ht).cover (u.fitsIn_of_mem hu)
  · unfold Interface.ofText
    cases hread : Interface.ofTokens (significantTokens source) with
    | error fault =>
      rw [byteLength_toList]
      exact Fault.wellPlaced_spans (sublist_of_ofTokens hread)
    | ok interface =>
      obtain ⟨t, ht, hname, hspan⟩ := exists_name_token hread
      have hcovers := t.covers_of_mem ht
      rw [← hspan] at hcovers
      refine ⟨hcovers.fitsIn, ?_⟩
      rw [hcovers.extract_eq, hname]
      rfl

/-- A diagnostic at a character of two bytes, and a name behind such a character. -/
theorem ofText_spans_multibyte :
    "module A(input é);".utf8ByteSize < UInt32.size ∧
      (⟨15, 17⟩ : Span).WellPlaced "module A(input é);" ∧
      "//é\nmodule Alu();endmodule".utf8ByteSize < UInt32.size ∧
      "//é\nmodule Alu();endmodule".toByteArray.extract 12 15 = "Alu".toByteArray := by
  have hrefused : Interface.ofText "module A(input é);" =
      .error ⟨.badPort, "expected name of input port, found invalid token 'é'", ⟨15, 17⟩, none,
        []⟩ := by
    decide +kernel
  have hread : Interface.ofText "//é\nmodule Alu();endmodule" =
      .ok ⟨"Alu", ⟨12, 15⟩, [], []⟩ := by
    decide +kernel
  have hsize : "module A(input é);".utf8ByteSize < UInt32.size := by decide +kernel
  have hsize' : "//é\nmodule Alu();endmodule".utf8ByteSize < UInt32.size := by decide +kernel
  have hspans := (ofText_spans _ hsize).2.2.2
  have hspans' := (ofText_spans _ hsize').2.2.2
  rw [hrefused] at hspans
  rw [hread] at hspans'
  exact ⟨hsize, hspans _ List.mem_cons_self, hsize', hspans'.2⟩

end HdlModule
