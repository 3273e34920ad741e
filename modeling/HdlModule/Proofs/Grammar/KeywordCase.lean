import HdlModule.Proofs.Grammar.Kinds
import HdlModule.Proofs.Grammar.Rename
import HdlModule.Proofs.Lexing.LetterCase

/-!
# Keywords in any case

The grammar looks at keywords by their kinds. Their words come into an interface only as parts of
the types of parameters, and there in lower case; all other words of an interface are identifiers.
So the same interface is read whatever the case of the letters in keywords. Two words are taken as
they are written, also if they are keywords: the name of the module, and what stands in the range of
a parameter.

## Main definitions

* `Recased ls ls'`: the lexemes are equal but for the case of letters in keywords

## Main results

* `PortSection.recased`, `ParameterSection.recased`: the lists of a header in another case
* `ofText_recasesKeywords`: the interface of a text does not depend on the case of its keywords
-/

namespace HdlModule

/-! ### Lexemes in another case -/

section Lexemes

variable {l : Lexeme} {ls ls' more : List Lexeme}

/-- The lexemes are equal but for the case of letters in keywords. -/
def Recased : List Lexeme → List Lexeme → Prop := List.Forall₂ Lexeme.Recased

theorem exists_append_of_forall₂ {α β : Type} {R : α → β → Prop} {as as' : List α} {bs : List β}
    (h : List.Forall₂ R (as ++ as') bs) :
    ∃ cs cs', bs = cs ++ cs' ∧ List.Forall₂ R as cs ∧ List.Forall₂ R as' cs' := by
  induction as generalizing bs with
  | nil => exact ⟨[], bs, rfl, .nil, h⟩
  | cons a as ih =>
    obtain ⟨b, bs, hb, hbs, rfl⟩ := List.forall₂_cons_left_iff.1 h
    obtain ⟨cs, cs', rfl, hcs, hcs'⟩ := ih hbs
    exact ⟨b :: cs, cs', rfl, .cons hb hcs, hcs'⟩

theorem Recased.exists_cons (h : Recased (l :: ls) ls') :
    ∃ l' tail, ls' = l' :: tail ∧ l.Recased l' ∧ Recased ls tail := by
  obtain ⟨l', tail, hl, hls, rfl⟩ := List.forall₂_cons_left_iff.1 h
  exact ⟨l', tail, rfl, hl, hls⟩

theorem Recased.exists_append (h : Recased (ls ++ more) ls') :
    ∃ front tail, ls' = front ++ tail ∧ Recased ls front ∧ Recased more tail :=
  exists_append_of_forall₂ h

theorem Recased.exists_singleton (h : Recased [l] ls') : ∃ l', ls' = [l'] ∧ l.Recased l' := by
  obtain ⟨l', tail, rfl, hl, htail⟩ := h.exists_cons
  obtain rfl := List.forall₂_nil_left_iff.1 htail
  exact ⟨l', rfl, hl⟩

/-- Without keywords nothing is another. -/
theorem Recased.eq_of_not_keyword (h : Recased ls ls')
    (hls : ∀ l ∈ ls, l.kind.isKeyword = false) : ls' = ls := by
  induction h with
  | nil => rfl
  | cons hl _ ih =>
    obtain ⟨hk, hls⟩ := List.forall_mem_cons.1 hls
    rw [hl.2 hk, ih hls]

theorem Lexeme.text_lowered (l : Lexeme) : l.lowered.text = l.text.toLower := by
  rw [← String.toList_inj]
  show (String.ofList (l.chars.map Char.toLower)).toList = (String.map Char.toLower l.text).toList
  rw [String.toList_map, String.toList_ofList, Lexeme.text, String.toList_ofList]

theorem Lexeme.Recased.toLower_text {l' : Lexeme} (h : l.Recased l') :
    l'.text.toLower = l.text.toLower := by
  rw [← Lexeme.text_lowered, ← Lexeme.text_lowered, h.1]

theorem OptionalKeyword.recased {p : TokenKind → Bool} {parts : List String}
    (h : OptionalKeyword p ls parts) (hcase : Recased ls ls') : OptionalKeyword p ls' parts := by
  cases h with
  | absent =>
    obtain rfl := List.forall₂_nil_left_iff.1 hcase
    exact .absent
  | present hl =>
    obtain ⟨l', rfl, hl'⟩ := hcase.exists_singleton
    rw [← hl'.toLower_text]
    exact .present (hl'.kind_eq ▸ hl)

end Lexemes

/-! ### Port lists -/

section Ports

variable {ls ls' : List Lexeme}

theorem IntegerLiteral.isKeyword {l : Lexeme} {n : Nat} (h : IntegerLiteral l n) :
    l.kind.isKeyword = false := by
  obtain ⟨hkind, -⟩ := h
  cases hl : l.kind with
  | keyword k =>
    rw [hl] at hkind
    cases hkind
  | _ => rfl

theorem PortNet.recased {net : NetKind} (h : PortNet ls net) (hcase : Recased ls ls') :
    PortNet ls' net := by
  cases h with
  | absent =>
    obtain rfl := List.forall₂_nil_left_iff.1 hcase
    exact .absent
  | present hl =>
    obtain ⟨l', rfl, hl'⟩ := hcase.exists_singleton
    exact .present (hl'.kind_eq.trans hl)

/-- There are no keywords in the range of a port. -/
theorem PortRange.recased {width : Width} (h : PortRange ls width) (hcase : Recased ls ls') :
    PortRange ls' width := by
  have hsame : ls' = ls := by
    refine hcase.eq_of_not_keyword ?_
    cases h with
    | absent => exact List.forall_mem_nil _
    | present hopener hhigh hcolon hlow hcloser =>
      simp +decide [hopener, hhigh.isKeyword, hcolon, hlow.isKeyword, hcloser]
  rwa [hsame]

/-- Names are no keywords. -/
theorem PortNames.recased {names : List String} (h : PortNames ls names)
    (hcase : Recased ls ls') : PortNames ls' names := by
  have hsame : ls' = ls := by
    refine hcase.eq_of_not_keyword ?_
    clear hcase
    induction h with
    | last hl => simp +decide [hl]
    | cons hl hseparator _ ih => simpa +decide [hl, hseparator] using ih
  rwa [hsame]

theorem PortDeclaration.recased {ports : List Port} (h : PortDeclaration ls ports)
    (hcase : Recased ls ls') : PortDeclaration ls' ports := by
  obtain ⟨hkeyword, hnets, hsigns, hrange, hnames⟩ := h
  obtain ⟨keyword', tail, rfl, hkeyword', htail⟩ := hcase.exists_cons
  obtain ⟨nets', tail, rfl, hnets', htail⟩ := htail.exists_append
  obtain ⟨signs', tail, rfl, hsigns', htail⟩ := htail.exists_append
  obtain ⟨range', names', rfl, hrange', hnames'⟩ := htail.exists_append
  exact .mk (hkeyword'.kind_eq.trans hkeyword) (hnets.recased hnets') (hsigns.recased hsigns')
    (hrange.recased hrange') (hnames.recased hnames')

theorem PortDeclarations.recased {ports : List Port} (h : PortDeclarations ls ports)
    (hcase : Recased ls ls') : PortDeclarations ls' ports := by
  induction h generalizing ls' with
  | last hports => exact .last (hports.recased hcase)
  | cons hports hseparator _ ih =>
    obtain ⟨front, tail, rfl, hfront, htail⟩ := hcase.exists_append
    obtain ⟨separator', more', rfl, hseparator', hmore'⟩ := htail.exists_cons
    rw [← hseparator'.kind_eq] at hseparator
    exact .cons (hports.recased hfront) hseparator (ih hmore')

/-- **A port list in another case declares the same ports.** -/
theorem PortSection.recased {ports : List Port} (h : PortSection ls ports)
    (hcase : Recased ls ls') : PortSection ls' ports := by
  cases h with
  | empty hopener hcloser =>
    obtain ⟨opener', tail, rfl, hopener', htail⟩ := hcase.exists_cons
    obtain ⟨closer', rfl, hcloser'⟩ := htail.exists_singleton
    exact .empty (hopener'.kind_eq.trans hopener) (hcloser'.kind_eq.trans hcloser)
  | list hopener hports hcloser =>
    obtain ⟨opener', tail, rfl, hopener', htail⟩ := hcase.exists_cons
    obtain ⟨declarations', tail, rfl, hdeclarations', htail⟩ := htail.exists_append
    obtain ⟨closer', rfl, hcloser'⟩ := htail.exists_singleton
    exact .list (hopener'.kind_eq.trans hopener) (hports.recased hdeclarations')
      (hcloser'.kind_eq.trans hcloser)

end Ports

/-! ### Parameter lists -/

section Parameters

variable {ls ls' : List Lexeme} {inherited : Option String}

/-- No keyword stands in a range. -/
def RangesWithoutKeywords (ls : List Lexeme) : Prop :=
  ∀ l, InRange l ls → l.kind.isKeyword = false

theorem RangesWithoutKeywords.append (h : RangesWithoutKeywords (ls ++ ls')) :
    RangesWithoutKeywords ls ∧ RangesWithoutKeywords ls' :=
  ⟨fun l hl => h l (hl.append_right ls'), fun l hl => h l (hl.append_left ls)⟩

theorem RangesWithoutKeywords.of_cons {l : Lexeme} (h : RangesWithoutKeywords (l :: ls)) :
    RangesWithoutKeywords ls := fun l' hl' => h l' (hl'.append_left [l])

/-- A range is written into the type as it stands, so no keyword may stand in it. -/
theorem BracketRange.recased {parts : List String} (h : BracketRange ls parts)
    (hranges : RangesWithoutKeywords ls) (hcase : Recased ls ls') : BracketRange ls' parts := by
  have hsame : ls' = ls := by
    refine hcase.eq_of_not_keyword ?_
    cases h with
    | absent => exact List.forall_mem_nil _
    | @present opener closer ls hopener hls hcloser =>
      intro l hl
      rcases List.mem_cons.1 hl with rfl | hl
      · rw [hopener]
        rfl
      · rcases List.mem_append.1 hl with hl | hl
        · exact hranges l (inRange_of_mem hopener hls hl [closer])
        · obtain rfl := List.mem_singleton.1 hl
          rw [hcloser]
          rfl
  rwa [hsame]

theorem ParameterStyle.recased {type? : Option String} (h : ParameterStyle inherited ls type?)
    (hranges : RangesWithoutKeywords ls) (hcase : Recased ls ls') :
    ParameterStyle inherited ls' type? := by
  cases h with
  | inherits =>
    obtain rfl := List.forall₂_nil_left_iff.1 hcase
    exact .inherits
  | declares hkeyword htypes hsigns hrange =>
    have hranges := hranges.of_cons.append.2.append.2
    obtain ⟨keyword', tail, rfl, hkeyword', htail⟩ := hcase.exists_cons
    obtain ⟨types', tail, rfl, htypes', htail⟩ := htail.exists_append
    obtain ⟨signs', range', rfl, hsigns', hrange'⟩ := htail.exists_append
    exact .declares (hkeyword'.kind_eq.trans hkeyword) (htypes.recased htypes')
      (hsigns.recased hsigns') (hrange.recased hranges hrange')

theorem ParameterValue.recased {value : Int64} (h : ParameterValue ls value)
    (hcase : Recased ls ls') : ParameterValue ls' value := by
  have hsame : ls' = ls := by
    refine hcase.eq_of_not_keyword ?_
    cases h with
    | plain hl => simp [hl.isKeyword]
    | plus hs hl => simp +decide [hs, hl.isKeyword]
    | minus hs hl => simp +decide [hs, hl.isKeyword]
  rwa [hsame]

theorem ParameterDeclaration.recased {parameter : Parameter}
    (h : ParameterDeclaration inherited ls parameter) (hranges : RangesWithoutKeywords ls)
    (hcase : Recased ls ls') : ParameterDeclaration inherited ls' parameter := by
  cases h with
  | mk hstyle hname hequals hvalue =>
    obtain ⟨style', tail, rfl, hstyle', htail⟩ := hcase.exists_append
    obtain ⟨name', tail, rfl, hname', htail⟩ := htail.exists_cons
    obtain ⟨equals', value', rfl, hequals', hvalue'⟩ := htail.exists_cons
    obtain rfl := hname'.2 (by rw [hname]; rfl)
    exact .mk (hstyle.recased hranges.append.1 hstyle') hname (hequals'.kind_eq.trans hequals)
      (hvalue.recased hvalue')

theorem ParameterDeclarations.recased {parameters : List Parameter}
    (h : ParameterDeclarations inherited ls parameters) (hranges : RangesWithoutKeywords ls)
    (hcase : Recased ls ls') : ParameterDeclarations inherited ls' parameters := by
  induction h generalizing ls' with
  | last hp => exact .last (hp.recased hranges hcase)
  | cons hp hseparator _ ih =>
    obtain ⟨front, tail, rfl, hfront, htail⟩ := hcase.exists_append
    obtain ⟨separator', more', rfl, hseparator', hmore'⟩ := htail.exists_cons
    exact .cons (hp.recased hranges.append.1 hfront) (hseparator'.kind_eq.trans hseparator)
      (ih hranges.append.2.of_cons hmore')

/-- **A parameter list in another case declares the same parameters**, if no keyword stands in a
range. -/
theorem ParameterSection.recased {parameters : List Parameter}
    (h : ParameterSection ls parameters) (hranges : RangesWithoutKeywords ls)
    (hcase : Recased ls ls') : ParameterSection ls' parameters := by
  cases h with
  | absent =>
    obtain rfl := List.forall₂_nil_left_iff.1 hcase
    exact .absent
  | empty hhash hopener hcloser =>
    obtain ⟨hash', tail, rfl, hhash', htail⟩ := hcase.exists_cons
    obtain ⟨opener', tail, rfl, hopener', htail⟩ := htail.exists_cons
    obtain ⟨closer', rfl, hcloser'⟩ := htail.exists_singleton
    exact .empty (hhash'.kind_eq.trans hhash) (hopener'.kind_eq.trans hopener)
      (hcloser'.kind_eq.trans hcloser)
  | list hhash hopener hps hcloser =>
    obtain ⟨hash', tail, rfl, hhash', htail⟩ := hcase.exists_cons
    obtain ⟨opener', tail, rfl, hopener', htail⟩ := htail.exists_cons
    obtain ⟨declarations', tail, rfl, hdeclarations', htail⟩ := htail.exists_append
    obtain ⟨closer', rfl, hcloser'⟩ := htail.exists_singleton
    exact .list (hhash'.kind_eq.trans hhash) (hopener'.kind_eq.trans hopener)
      (hps.recased hranges.of_cons.of_cons.append.1 hdeclarations') (hcloser'.kind_eq.trans hcloser)

end Parameters

/-! ### The interface -/

section Tokens

variable {ts ts' : List Token}

theorem recased_map_toLexeme (h : List.Forall₂ Token.Recased ts ts') :
    Recased (ts.map Token.toLexeme) (ts'.map Token.toLexeme) := by
  rw [Recased, List.forall₂_map_left_iff, List.forall₂_map_right_iff]
  exact h.imp fun t t' ht => ht.2

theorem map_kind_of_recased (h : List.Forall₂ Token.Recased ts ts') :
    ts'.map (·.kind) = ts.map (·.kind) := by
  induction h with
  | nil => rfl
  | cons ht _ ih => rw [List.map_cons, List.map_cons, ih, ht.2.kind_eq]

/-- The header of tokens in another case is found at the same place. -/
theorem exists_findHeader?_recased {start name : Token} {rest : List Token}
    (hcase : List.Forall₂ Token.Recased ts ts')
    (h : findHeader? none ts = some (start, name, rest)) :
    ∃ start' name' rest', findHeader? none ts' = some (start', name', rest') ∧
      name.Recased name' ∧ List.Forall₂ Token.Recased rest rest' := by
  obtain ⟨pre, rfl, hfirst⟩ := findHeader?_eq_some_iff.1 h
  rw [← map_kind_of_recased hcase] at hfirst
  obtain ⟨pre', header', rfl, hpre', hheader'⟩ := exists_append_of_forall₂ hcase
  obtain ⟨start', tail', hstart', htail', rfl⟩ := List.forall₂_cons_left_iff.1 hheader'
  obtain ⟨name', rest', hname', hrest', rfl⟩ := List.forall₂_cons_left_iff.1 htail'
  rw [hpre'.length_eq] at hfirst
  exact ⟨start', name', rest', findHeader?_of_firstHeader rfl hfirst, hname', hrest'⟩

end Tokens

/-- **The case of keywords is not looked at**: the interface of a text is that of the text with
keywords in another case, if the module is not named by a keyword and no keyword stands in the range
of a parameter. -/
theorem ofText_recasesKeywords {source source' : String} {i : Interface}
    (h : Interface.ofText source = .ok i)
    (hname : (findHeader? none (significantTokens source)).map (·.2.1.kind) = some .identifier)
    (hranges : ∀ l, InRange l ((parameterListTokens source).map Token.toLexeme) →
      l.kind.isKeyword = false)
    (hcase : RecasesKeywords source source') :
    Interface.ofText source' = .ok i := by
  rw [Interface.ofText_eq_ok_iff_declares] at h ⊢
  obtain ⟨start, name, params, portList, rest, hfound, hparameters, hports, hend, hi⟩ :=
    h.exists_parts
  rw [parameterListTokens_eq hfound hparameters hports] at hranges
  rw [hfound] at hname
  have hkind : name.kind = .identifier := Option.some.inj hname
  obtain ⟨start', name', behind, hfound', hname', hbehind⟩ :=
    exists_findHeader?_recased (forall₂_recased_significantTokens hcase) hfound
  obtain rfl : name' = name := hname'.eq_of_not_keyword (by rw [hkind]; rfl)
  obtain ⟨params', tail, rfl, hparams', htail⟩ := exists_append_of_forall₂ hbehind
  obtain ⟨portList', rest', rfl, hportList', hrest'⟩ := exists_append_of_forall₂ htail
  have hend' : ∃ t ∈ rest', t.kind = .keyword .moduleEnd := by
    have hmem := List.mem_map.2 hend
    rw [← map_kind_of_recased hrest'] at hmem
    exact List.mem_map.1 hmem
  rw [hi]
  exact .of_findHeader? hfound' (hparameters.recased hranges (recased_map_toLexeme hparams'))
    (hports.recased (recased_map_toLexeme hportList')) hend'

/-- What stands in a range stands behind the first bracket. -/
theorem InRange.mem_tail {l : Lexeme} {ls : List Lexeme} (h : InRange l ls) :
    l ∈ (ls.dropWhile (·.kind != .leftBracket)).tail := by
  obtain ⟨front, opener, inside, behind, rfl, hopener, -⟩ := h
  induction front with
  | nil => simp [hopener]
  | cons l' front ih =>
    rw [List.cons_append, List.dropWhile_cons]
    split
    · exact ih
    · simp

/-- Keywords in mixed case, one of them in the type of a parameter, and a name that is a keyword but
for one letter. -/
theorem ofText_recasesKeywords_mixed :
    let source := "module Modul #(parameter int [7:0] W = 8'hFF) (input wire clk); endmodule"
    let source' := "MODULE Modul #(ParaMeter INT [7:0] W = 8'hFF) (inPut WIRE clk); EndModule"
    let i : Interface := ⟨"Modul", ⟨7, 12⟩, [⟨"clk", .input, .wire, .one⟩],
      [⟨"W", some "int [7:0]", 255⟩]⟩
    Interface.ofText source = .ok i ∧
      (findHeader? none (significantTokens source)).map (·.2.1.kind) = some .identifier ∧
      (∀ l, InRange l ((parameterListTokens source).map Token.toLexeme) →
        l.kind.isKeyword = false) ∧
      RecasesKeywords source source' ∧ Interface.ofText source' = .ok i := by
  intro source source' i
  have hread : Interface.ofText source = .ok i := by decide +kernel
  have hname : (findHeader? none (significantTokens source)).map (·.2.1.kind) =
      some .identifier := by decide +kernel
  have hbehind : ∀ l ∈ (((parameterListTokens source).map Token.toLexeme).dropWhile
      (·.kind != .leftBracket)).tail, l.kind.isKeyword = false := by decide +kernel
  have hranges : ∀ l, InRange l ((parameterListTokens source).map Token.toLexeme) →
      l.kind.isKeyword = false := fun l hl => hbehind l hl.mem_tail
  have hcase : RecasesKeywords source source' := by decide +kernel
  exact ⟨hread, hname, hranges, hcase, ofText_recasesKeywords hread hname hranges hcase⟩

end HdlModule
