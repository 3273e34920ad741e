import HdlModule.Proofs.Grammar.Lookahead
import HdlModule.Proofs.Lexing.Tiling

/-!
# Texts that start alike

The outcome of reading a text is decided by its first tokens. A diagnostic with a span is decided
by the tokens that start in front of the end of the span, and an interface by the tokens up to the
first end of a module behind the port list. Whatever stands behind these tokens may be exchanged.

A diagnostic with an empty span is about a text as a whole: it says that something is missing up
to the end.

## Main definitions

* `tokensBefore offset ts`: the tokens that start in front of an offset
* `throughEnd ts`: the tokens up to the first end of a module behind the port list

## Main results

* `ofText_decided`: the outcome of reading a text is decided by its first tokens
-/

namespace HdlModule

/-! ### The order of tokens -/

/-- Tokens stand in the order in which they start. -/
theorem pairwise_start_locate (offset : Nat) (ls : List Lexeme) :
    (locate offset ls).Pairwise fun t s => t.start ≤ s.start := by
  induction ls generalizing offset with
  | nil => exact .nil
  | cons l ls ih =>
    refine .cons (fun s hs => ?_) (ih _)
    exact Nat.le_trans (Nat.le_add_right offset _) (offset_le_of_mem_locate hs)

theorem pairwise_start_significantTokens (source : String) :
    (significantTokens source).Pairwise fun t s => t.start ≤ s.start :=
  (pairwise_start_locate 0 (lexemes source.toList)).filter _

/-- A token covers at least one byte. -/
theorem start_lt_stop_of_mem {source : String} {t : Token} (ht : t ∈ significantTokens source) :
    t.start < t.span.stop :=
  start_lt_stop_of_mem_tokens (List.mem_filter.1 ht).1

/-- The tokens that start in front of an offset. -/
def tokensBefore (offset : Nat) (ts : List Token) : List Token :=
  ts.filter (·.start < offset)

/-- The tokens that start in front of an offset stand in front of the others. -/
theorem exists_tokensBefore_append {ts : List Token}
    (hts : ts.Pairwise fun t s => t.start ≤ s.start) (offset : Nat) :
    ∃ r, ts = tokensBefore offset ts ++ r ∧ ∀ t ∈ r, offset ≤ t.start := by
  induction hts with
  | nil => exact ⟨[], rfl, by simp⟩
  | @cons t ts hle hts ih =>
    obtain ⟨r, hr, hbehind⟩ := ih
    by_cases ht : t.start < offset
    · refine ⟨r, ?_, hbehind⟩
      rw [tokensBefore, List.filter_cons_of_pos (by simpa using ht), List.cons_append,
        ← tokensBefore, ← hr]
    · have hbehind' : ∀ s ∈ t :: ts, offset ≤ s.start := by
        intro s hs
        rcases List.mem_cons.1 hs with rfl | hs
        · exact Nat.not_lt.1 ht
        · exact Nat.le_trans (Nat.not_lt.1 ht) (hle s hs)
      refine ⟨t :: ts, ?_, hbehind'⟩
      rw [tokensBefore, List.filter_eq_nil_iff.2 fun s hs => by simpa using hbehind' s hs]
      rfl

/-! ### Diagnostics with a span -/

/-- The span of a diagnostic reaches up to the end of the last token that the fault is about. -/
theorem Fault.stop_le_of_last? {fault : Fault} {t : Token} (h : fault.last? = some t)
    (size : Nat) : t.span.stop ≤ (fault.diagnostic size).span.stop := by
  cases fault with
  | unexpected expected found =>
    obtain rfl : found = some t := h
    exact Nat.le_refl _
  | parameterLiteral | valueContinues | boundLiteral =>
    cases h
    exact Nat.le_refl _
  | ascendingRange | wideRange =>
    cases h
    exact Nat.le_max_right _ _
  | noHeader | unclosed | noEnd => cases h

/-- A fault that is about no token has an empty span. -/
theorem Fault.span_of_last?_eq_none {fault : Fault} (h : fault.last? = none) (size : Nat) :
    ¬(fault.diagnostic size).span.start < (fault.diagnostic size).span.stop := by
  cases fault with
  | unexpected expected found =>
    obtain rfl : found = none := h
    exact Nat.lt_irrefl _
  | noHeader | unclosed | noEnd => exact Nat.lt_irrefl _
  | parameterLiteral | valueContinues | boundLiteral | ascendingRange | wideRange => cases h

/-- A fault that is about a token has the same diagnostic in a text of any size. -/
theorem Fault.diagnostic_eq_of_last? {fault : Fault} {t : Token} (h : fault.last? = some t)
    (size size' : Nat) : fault.diagnostic size' = fault.diagnostic size := by
  cases fault with
  | unexpected expected found =>
    obtain rfl : found = some t := h
    rfl
  | parameterLiteral | valueContinues | boundLiteral | ascendingRange | wideRange => rfl
  | noHeader | unclosed | noEnd => cases h

/-- Behind the opening of a module no fault is about a token. -/
theorem readOpening_eq_error {ts : List Token} {fault : Fault} {t : Token}
    (hlast : fault.last? = some t) (h : Interface.ofTokens ts = .error fault) :
    readOpening ts = .error fault := by
  rw [ofTokens_eq] at h
  rcases hopening : readOpening ts with fault' | ⟨opening, rest⟩
  · rw [hopening] at h
    cases h
    rfl
  · rw [hopening] at h
    change (if rest.any _ then _ else _) = _ at h
    split at h
    · cases h
    · cases h
      cases hlast

/-- **A fault is decided by the tokens in front of the end of its span.** -/
theorem ofTokens_eq_error_of_tokensBefore {ts ts' : List Token} {fault : Fault} {t : Token}
    {size : Nat} (hts : ts.Pairwise fun t s => t.start ≤ s.start)
    (hts' : ts'.Pairwise fun t s => t.start ≤ s.start) (hlast : fault.last? = some t)
    (hstart : t.start < t.span.stop) (hread : Interface.ofTokens ts = .error fault)
    (hbefore : tokensBefore (fault.diagnostic size).span.stop ts =
      tokensBefore (fault.diagnostic size).span.stop ts') :
    Interface.ofTokens ts' = .error fault := by
  obtain ⟨r, hr, hbehind⟩ := exists_tokensBefore_append hts (fault.diagnostic size).span.stop
  obtain ⟨r', hr', -⟩ := exists_tokensBefore_append hts' (fault.diagnostic size).span.stop
  have hopening := readOpening_eq_error hlast hread
  have halike := decides_readOpening.alike
    (tokensBefore (fault.diagnostic size).span.stop ts) r r'
  rw [← hr, hopening, hbefore, ← hr'] at halike
  rcases halike.of_error with hopening' | hreached
  · rw [ofTokens_eq, hopening']
    rfl
  · -- the token that the fault is about would start behind the span, which ends with the token
    have hbehindStop := hbehind t (hreached t hlast)
    have hstop := fault.stop_le_of_last? hlast size
    omega

/-! ### Interfaces -/

/-- The tokens up to the first end of a module behind the port list, itself included. -/
def throughEnd (ts : List Token) : List Token :=
  match readOpening ts with
  | .ok (_, rest) =>
    ts.take (ts.length - rest.length + (rest.findIdx (·.kind = .keyword .moduleEnd) + 1))
  | .error _ => ts

/-- The tokens through the end of a module are those of its opening, and those of its body up to
the first end. -/
theorem throughEnd_eq {used rest : List Token} {opening : Opening}
    (h : readOpening (used ++ rest) = .ok (opening, rest)) :
    throughEnd (used ++ rest) =
      used ++ rest.take (rest.findIdx (·.kind = .keyword .moduleEnd) + 1) := by
  rw [throughEnd, h]
  dsimp only
  rw [List.length_append, Nat.add_sub_cancel, List.take_length_add_append]

/-- **An interface is decided by the tokens through the end of the module.** -/
theorem ofTokens_eq_ok_of_throughEnd {ts ts' : List Token} {interface : Interface}
    (hread : Interface.ofTokens ts = .ok interface) (hend : throughEnd ts <+: ts') :
    Interface.ofTokens ts' = .ok interface := by
  rw [ofTokens_eq, bind_eq_ok] at hread
  obtain ⟨⟨opening, rest⟩, hopening, hread⟩ := hread
  obtain ⟨used, rfl⟩ : rest <:+ ts := by
    have hwithin := decides_readOpening.within ts
    rwa [hopening] at hwithin
  rw [throughEnd_eq hopening] at hend
  dsimp only at hread
  split at hread
  · next hany =>
    obtain ⟨r', rfl⟩ := hend
    let i := rest.findIdx (·.kind = .keyword .moduleEnd)
    have hi : i < rest.length := List.findIdx_lt_length_of_exists (by simpa using hany)
    have halike := decides_readOpening.alike (used ++ rest.take (i + 1)) (rest.drop (i + 1)) r'
    rw [List.append_assoc, List.take_append_drop, hopening] at halike
    rcases halike.of_ok with ⟨q, hq, hopening'⟩ | hsuffix
    · have hend : q.any (·.kind = .keyword .moduleEnd) = true := by
        obtain rfl : q = rest.take (i + 1) := by
          rw [← List.append_left_inj (rest.drop (i + 1)), ← hq, List.take_append_drop]
        have hat : decide (rest[i].kind = .keyword .moduleEnd) = true :=
          List.findIdx_getElem (w := hi)
        exact List.any_eq_true.2 ⟨rest[i], List.mem_take_iff_getElem.2 ⟨i, by omega, rfl⟩, hat⟩
      rw [ofTokens_eq, hopening', ← hread]
      show (if (q ++ r').any _ then _ else _) = _
      rw [if_pos (by rw [List.any_append, hend, Bool.true_or])]
    · have hlength := hsuffix.length_le
      rw [List.length_drop] at hlength
      omega
  · cases hread

/-! ### Texts -/

/-- **The outcome of reading a text is decided by its first tokens.** A text is refused with the
same diagnostic if it has the same tokens in front of the end of the span, unless the span is
empty. A text declares the same interface if it has the same tokens up to the first end of a
module behind the port list. -/
theorem ofText_decided (source source' : String) :
    (∀ d, Interface.ofText source = .error d → d.span.start < d.span.stop →
      tokensBefore d.span.stop (significantTokens source) =
        tokensBefore d.span.stop (significantTokens source') →
      Interface.ofText source' = .error d) ∧
    ∀ interface, Interface.ofText source = .ok interface →
      throughEnd (significantTokens source) <+: significantTokens source' →
      Interface.ofText source' = .ok interface := by
  constructor
  · intro d hsource hspan hbefore
    unfold Interface.ofText at hsource
    cases hread : Interface.ofTokens (significantTokens source) with
    | ok interface =>
      rw [hread] at hsource
      cases hsource
    | error fault =>
      rw [hread] at hsource
      cases hsource
      cases hlast : fault.last? with
      | none => exact absurd hspan (fault.span_of_last?_eq_none hlast _)
      | some t =>
        have hmem : t ∈ significantTokens source := by
          have hwithin := decides_readOpening.within (significantTokens source)
          rw [readOpening_eq_error hlast hread] at hwithin
          exact hwithin t hlast
        have hread' := ofTokens_eq_error_of_tokensBefore
          (pairwise_start_significantTokens source) (pairwise_start_significantTokens source')
          hlast (start_lt_stop_of_mem hmem) hread hbefore
        unfold Interface.ofText
        rw [hread']
        exact congrArg Except.error (fault.diagnostic_eq_of_last? hlast _ _)
  · intro interface hsource hend
    rw [Interface.ofText_eq_ok_iff_ofTokens] at hsource ⊢
    exact ofTokens_eq_ok_of_throughEnd hsource hend

/-- A range behind a comma is refused whatever stands in it, and behind the end of a module
anything may stand. -/
theorem ofText_decided_comma :
    Interface.ofText "module A(input a, [8:0] b);endmodule" =
        .error ⟨.badPort, "expected port direction ('input', 'output' or 'inout'), found '['",
          ⟨18, 19⟩, none, []⟩ ∧
      Interface.ofText "module A(input a, [/*" =
        .error ⟨.badPort, "expected port direction ('input', 'output' or 'inout'), found '['",
          ⟨18, 19⟩, none, []⟩ ∧
      Interface.ofText "module A(input a);( endmodule module" =
        .ok ⟨"A", ⟨7, 8⟩, [⟨"a", .input, .wire, .one⟩], []⟩ ∧
      Interface.ofText "module A(input a);( endmodule \"" =
        .ok ⟨"A", ⟨7, 8⟩, [⟨"a", .input, .wire, .one⟩], []⟩ := by
  have hrefused : Interface.ofText "module A(input a, [8:0] b);endmodule" =
      .error ⟨.badPort, "expected port direction ('input', 'output' or 'inout'), found '['",
        ⟨18, 19⟩, none, []⟩ := by
    decide +kernel
  have hread : Interface.ofText "module A(input a);( endmodule module" =
      .ok ⟨"A", ⟨7, 8⟩, [⟨"a", .input, .wire, .one⟩], []⟩ := by
    decide +kernel
  exact ⟨hrefused,
    (ofText_decided _ _).1 _ hrefused (by decide) (by decide +kernel),
    hread,
    (ofText_decided _ _).2 _ hread (by decide +kernel)⟩

end HdlModule
