import HdlModule.Proofs.Grammar.Module
import HdlModule.Proofs.Lexing.Written

/-!
# Ports that are written and read back

The declarations of ports, put together to the text of a module, are read back as these ports:
the printer, the lexer, the values of literals and the grammar of port lists agree. The names may
be any identifiers and the widths any that a port can have. A comma behind a name ends the
declaration, as the next one starts with a keyword.

## Main definitions

* `moduleText separator name ports`: the text of a module with these ports

## Main results

* `Port.exists_lexemes_declaration`: the lexemes of a declaration declare its port
* `ofText_of_header`: the interface of a text that starts with the header of a module
* `ofText_moduleText`: the interface of the text of a module
-/

namespace HdlModule

/-! ### Declarations -/

section Declarations

variable {rest : List Char}

/-- The range of a declaration with the blank in front of it, or nothing for one bit. -/
def Width.rangeChars (width : Width) : List Char :=
  if 1 < width.bits then ' ' :: '[' :: (Nat.toDigits 10 (width.bits - 1) ++ [':', '0', ']']) else []

theorem Port.toList_declaration (port : Port) :
    port.declaration.toList = (Keyword.direction port.direction).text.toList ++
      ' ' :: ((Keyword.net port.net).text.toList ++
        (port.width.rangeChars ++ ' ' :: port.name.toList)) := by
  unfold Port.declaration Width.rangeChars
  split <;> simp [Keyword.text]

/-- A range is read back as the width that it was written for. -/
theorem Width.exists_lexemes_rangeChars (width : Width) (rest : List Char) :
    ∃ ls, lexemes (width.rangeChars ++ rest) = ls ++ lexemes rest ∧
      PortRange (significant ls) width := by
  unfold rangeChars
  split
  · next hbits =>
    have hhigh : literalValue (Nat.toDigits 10 (width.bits - 1)) = .ok (width.bits - 1) := by
      have hlt := width.bits_lt
      refine literalValue_toDigits ?_
      unfold UInt32.size at hlt
      omega
    have hlow : lexemes ('0' :: ']' :: rest) = ⟨.integer, ['0']⟩ :: lexemes (']' :: rest) :=
      lexemes_toDigits_append 0 (stops_cons.2 rfl) (by simp)
    refine ⟨[⟨.whitespace, [' ']⟩, ⟨.leftBracket, ['[']⟩,
      ⟨.integer, Nat.toDigits 10 (width.bits - 1)⟩, ⟨.colon, [':']⟩, ⟨.integer, ['0']⟩,
      ⟨.rightBracket, [']']⟩], ?_, ?_⟩
    · simp only [List.cons_append, List.append_assoc, List.nil_append]
      rw [lexemes_blank_cons (stops_cons.2 rfl), lexemes_punctuation_cons (by decide),
        lexemes_toDigits_append _ (stops_cons.2 rfl) (by simp), lexemes_colon_cons (by simp), hlow,
        lexemes_punctuation_cons (by decide)]
      rfl
    · exact .present rfl ⟨rfl, hhigh⟩ rfl ⟨rfl, by decide⟩ rfl (Nat.zero_le _) (by omega)
  · next hbits =>
    obtain rfl : width = .one := by
      obtain ⟨bits, hpos, hlt⟩ := width
      obtain rfl : bits = 1 := by
        simp only at hbits
        omega
      rfl
    exact ⟨[], rfl, .absent⟩

theorem Width.stops_rangeChars (width : Width) :
    Stops isWordPart (width.rangeChars ++ ' ' :: rest) := by
  unfold rangeChars
  split
  · exact stops_cons.2 rfl
  · exact stops_cons.2 rfl

/-- The lexemes of a declaration declare the port that it was written for. -/
theorem Port.exists_lexemes_declaration {port : Port}
    (hname : SpellsIdentifier port.name.toList) (hrest : Stops isWordPart rest) :
    ∃ ls, lexemes (port.declaration.toList ++ rest) = ls ++ lexemes rest ∧
      PortDeclaration (significant ls) [port] := by
  obtain ⟨name, direction, net, width⟩ := port
  obtain ⟨range, hrange, hwidth⟩ := width.exists_lexemes_rangeChars (' ' :: (name.toList ++ rest))
  let keyword : Lexeme :=
    ⟨.keyword (.direction direction), (Keyword.direction direction).text.toList⟩
  let netKeyword : Lexeme := ⟨.keyword (.net net), (Keyword.net net).text.toList⟩
  let blank : Lexeme := ⟨.whitespace, [' ']⟩
  refine ⟨[keyword, blank, netKeyword] ++ (range ++ [blank, ⟨.identifier, name.toList⟩]), ?_, ?_⟩
  · simp only [toList_declaration, List.append_assoc, List.cons_append, List.nil_append]
    rw [lexemes_keyword_append _ (stops_cons.2 rfl),
      lexemes_blank_cons (Keyword.spellsWord_text _).stops_isSpace,
      lexemes_keyword_append _ width.stops_rangeChars, hrange,
      lexemes_blank_cons hname.spellsWord.stops_isSpace, hname.lexemes_append hrest]
  · have hnames : PortNames [⟨.identifier, name.toList⟩] [name] := by
      have hlast := PortNames.last (l := ⟨.identifier, name.toList⟩) rfl
      rwa [Lexeme.text, String.ofList_toList] at hlast
    have hkeyword : keyword.kind = .keyword (.direction direction) := rfl
    have hnet : PortNet [netKeyword] net := .present rfl
    rw [significant_append, significant_append]
    exact PortDeclaration.mk hkeyword hnet .absent hwidth hnames

/-- A declaration does not start with a blank. -/
theorem Port.stops_isSpace_declaration (port : Port) :
    Stops isSpace (port.declaration.toList ++ rest) := by
  rw [toList_declaration, List.append_assoc]
  exact (Keyword.spellsWord_text _).stops_isSpace

end Declarations

/-! ### Lists -/

section Lists

variable {separator : String} {ports : List Port} {rest : List Char}

/-- The texts that stand between declarations. -/
def IsSeparator (separator : String) : Prop := separator = ", " ∨ separator = "; "

/-- A separator is one lexeme and a blank. -/
theorem IsSeparator.exists_lexemes (h : IsSeparator separator) (hrest : Stops isSpace rest) :
    Stops isWordPart (separator.toList ++ rest) ∧
      ∃ l : Lexeme, (l.kind = .comma ∨ l.kind = .semicolon) ∧
        lexemes (separator.toList ++ rest) = l :: ⟨.whitespace, [' ']⟩ :: lexemes rest := by
  rcases h with rfl | rfl
  · refine ⟨stops_cons.2 rfl, ⟨.comma, [',']⟩, Or.inl rfl, ?_⟩
    exact (lexemes_punctuation_cons (by decide)).trans (congrArg _ (lexemes_blank_cons hrest))
  · refine ⟨stops_cons.2 rfl, ⟨.semicolon, [';']⟩, Or.inr rfl, ?_⟩
    exact (lexemes_punctuation_cons (by decide)).trans (congrArg _ (lexemes_blank_cons hrest))

/-- Declarations do not start with a blank. -/
theorem stops_isSpace_intercalate (separator : String) (port : Port) (ports : List Port)
    (rest : List Char) :
    Stops isSpace
      ((separator.intercalate ((port :: ports).map Port.declaration)).toList ++ rest) := by
  cases ports with
  | nil =>
    rw [List.map_singleton, String.intercalate_singleton]
    exact port.stops_isSpace_declaration
  | cons next ports =>
    rw [List.map_cons, List.map_cons, String.intercalate_cons_cons, String.append_assoc,
      String.toList_append, List.append_assoc]
    exact port.stops_isSpace_declaration

/-- The lexemes of declarations with separators between them declare the ports. -/
theorem exists_lexemes_intercalate (hseparator : IsSeparator separator) (port : Port)
    (hnames : ∀ p ∈ port :: ports, SpellsIdentifier p.name.toList)
    (hrest : Stops isWordPart rest) :
    ∃ ls, lexemes ((separator.intercalate ((port :: ports).map Port.declaration)).toList ++ rest) =
        ls ++ lexemes rest ∧
      PortDeclarations (significant ls) (port :: ports) := by
  induction ports generalizing port with
  | nil =>
    obtain ⟨ls, hls, hdeclares⟩ :=
      Port.exists_lexemes_declaration (hnames port List.mem_cons_self) hrest
    exact ⟨ls, by rw [List.map_singleton, String.intercalate_singleton, hls], .last hdeclares⟩
  | cons next ports ih =>
    obtain ⟨hname, hnext⟩ := List.forall_mem_cons.1 hnames
    obtain ⟨ls', hls', hmore⟩ := ih next hnext
    obtain ⟨hstop, l, hl, hseparated⟩ :=
      hseparator.exists_lexemes (stops_isSpace_intercalate separator next ports rest)
    obtain ⟨ls, hls, hdeclares⟩ := Port.exists_lexemes_declaration hname hstop
    refine ⟨ls ++ l :: ⟨.whitespace, [' ']⟩ :: ls', ?_, ?_⟩
    · rw [List.map_cons, List.map_cons, String.intercalate_cons_cons, ← List.map_cons]
      simp only [String.toList_append, List.append_assoc, List.cons_append]
      rw [hls, hseparated, hls']
    · have hsignificant :
          significant (l :: ⟨.whitespace, [' ']⟩ :: ls') = l :: significant ls' := by
        rcases hl with hl | hl
        · simp [significant, hl, TokenKind.isTrivia]
        · simp [significant, hl, TokenKind.isTrivia]
      rw [significant_append, hsignificant]
      exact .cons hdeclares hl hmore

/-- The lexemes of a port list declare the ports. -/
theorem exists_lexemes_portList (hseparator : IsSeparator separator)
    (hnames : ∀ p ∈ ports, SpellsIdentifier p.name.toList) (rest : List Char) :
    ∃ ls, lexemes ('(' :: ((separator.intercalate (ports.map Port.declaration)).toList ++
        ')' :: rest)) = ls ++ lexemes rest ∧
      PortSection (significant ls) ports := by
  rw [lexemes_punctuation_cons (by decide)]
  cases ports with
  | nil =>
    refine ⟨[⟨.leftParen, ['(']⟩, ⟨.rightParen, [')']⟩], ?_, .empty rfl rfl⟩
    rw [List.map_nil, String.intercalate_nil]
    exact congrArg _ (lexemes_punctuation_cons (by decide))
  | cons port ports =>
    have hstop : Stops isWordPart (')' :: rest) := stops_cons.2 rfl
    obtain ⟨ls, hls, hdeclares⟩ := exists_lexemes_intercalate hseparator port hnames hstop
    refine ⟨⟨.leftParen, ['(']⟩ :: (ls ++ [⟨.rightParen, [')']⟩]), ?_, ?_⟩
    · rw [hls, lexemes_punctuation_cons (by decide), List.cons_append, List.append_assoc]
      rfl
    · rw [significant_cons, significant_append]
      exact .list rfl hdeclares rfl

/-! ### Modules -/

/-- A text that starts with the keyword of modules and a word has the interface that follows. -/
theorem ofText_of_header {source : String} {keyword word rest : List Char} {ls ls' : List Lexeme}
    (hsource : source.toList = keyword ++ ' ' :: (word ++ rest))
    (hkeyword : Spells keyword .moduleStart) (hword : SpellsWord word)
    (hstop : Stops isWordPart rest) (hrest : lexemes rest = ls ++ ls')
    (hports : PortSection (significant ls) ports)
    (hend : ∃ l ∈ significant ls', l.kind = .keyword .moduleEnd) :
    Interface.ofText source =
      .ok ⟨String.ofList word,
        ⟨byteLength keyword + 1, byteLength keyword + 1 + byteLength word⟩, ports, []⟩ := by
  have hlexemes : lexemes source.toList =
      ⟨.keyword .moduleStart, keyword⟩ :: ⟨.whitespace, [' ']⟩ ::
        ⟨wordKind word, word⟩ :: (ls ++ ls') := by
    have hstart : SpellsWord keyword := hkeyword.exists_cons
    rw [hsource, hstart.lexemes_append (stops_cons.2 rfl), hkeyword.wordKind_eq,
      lexemes_blank_cons hword.stops_isSpace, hword.lexemes_append hstop, hrest]
  have htrivia : (wordKind word).isTrivia = false := by
    unfold wordKind
    split <;> rfl
  have hbehind := map_toLexeme_filter
    (locate (byteLength keyword + 1 + byteLength word) (ls ++ ls'))
  rw [map_toLexeme_locate, significant_append] at hbehind
  obtain ⟨portList, tail, hsplit, hportList, htail⟩ := List.map_eq_append_iff.1 hbehind
  let start : Token := ⟨⟨.keyword .moduleStart, keyword⟩, 0⟩
  let named : Token := ⟨⟨wordKind word, word⟩, byteLength keyword + 1⟩
  have htokens : significantTokens source = start :: named :: (portList ++ tail) := by
    rw [← hsplit, significantTokens, tokens, hlexemes, locate_cons, locate_cons, locate_cons,
      List.filter_cons_of_pos rfl, List.filter_cons_of_neg Bool.false_ne_true,
      List.filter_cons_of_pos (by simp [htrivia]), Nat.zero_add]
    rfl
  have hfound : findHeader? none (start :: named :: (portList ++ tail)) =
      some (start, named, [] ++ (portList ++ tail)) := by
    rw [findHeader?, if_pos ⟨rfl, wordKind_isWord word, by simp⟩]
    rfl
  have hclosed : ∃ t ∈ tail, t.kind = .keyword .moduleEnd := by
    obtain ⟨l, hl, hkind⟩ := hend
    rw [← htail] at hl
    obtain ⟨t, ht, rfl⟩ := List.mem_map.1 hl
    exact ⟨t, ht, hkind⟩
  rw [Interface.ofText_eq_ok_iff_declares, htokens]
  exact Declares.of_findHeader? hfound .absent (hportList ▸ hports) hclosed

/-- The text of a module without parameters: its name, and the declarations of its ports. -/
def moduleText (separator name : String) (ports : List Port) : String :=
  "module " ++ name ++ "(" ++ separator.intercalate (ports.map Port.declaration) ++ "); endmodule"

theorem toList_moduleText (separator name : String) (ports : List Port) :
    (moduleText separator name ports).toList =
      Keyword.moduleStart.text.toList ++ ' ' :: (name.toList ++
        '(' :: ((separator.intercalate (ports.map Port.declaration)).toList ++
          ')' :: "; endmodule".toList)) := by
  simp [moduleText, Keyword.text]

/-- **What is written is read back**, whatever word names the module. -/
theorem ofText_moduleText_of_spellsWord {name : String} (hseparator : IsSeparator separator)
    (hname : SpellsWord name.toList) (hnames : ∀ p ∈ ports, SpellsIdentifier p.name.toList) :
    Interface.ofText (moduleText separator name ports) =
      .ok ⟨name, ⟨7, 7 + byteLength name.toList⟩, ports, []⟩ := by
  obtain ⟨ls, hls, hports⟩ := exists_lexemes_portList hseparator hnames "; endmodule".toList
  have hend : ∃ l ∈ significant (lexemes "; endmodule".toList),
      l.kind = .keyword .moduleEnd := by decide +kernel
  have hread := ofText_of_header (toList_moduleText separator name ports)
    (Keyword.spells_text _) hname (stops_cons.2 rfl) hls hports hend
  rw [hread, String.ofList_toList]
  rfl

end Lists

/-! ### Ports that were read -/

section Read

variable {ls ls' : List Lexeme} {ports more : List Port}

/-- Each port is named by an identifier among the lexemes. -/
def NamedIn (ls : List Lexeme) (ports : List Port) : Prop :=
  ∀ port ∈ ports, ∃ l ∈ ls, l.kind = .identifier ∧ port.name = l.text

theorem NamedIn.mono (h : NamedIn ls ports) (hsubset : ls ⊆ ls') : NamedIn ls' ports := by
  intro port hport
  obtain ⟨l, hl, hnamed⟩ := h port hport
  exact ⟨l, hsubset hl, hnamed⟩

theorem NamedIn.append (h : NamedIn ls ports) (hmore : NamedIn ls more) :
    NamedIn ls (ports ++ more) := by
  intro port hport
  exact (List.mem_append.1 hport).elim (h port) (hmore port)

theorem PortNames.exists_lexeme {names : List String} (h : PortNames ls names) :
    ∀ name ∈ names, ∃ l ∈ ls, l.kind = .identifier ∧ name = l.text := by
  induction h with
  | last hl => simp [hl]
  | cons hl hseparator _ ih =>
    refine List.forall_mem_cons.2 ⟨⟨_, List.mem_cons_self, hl, rfl⟩, fun name hname => ?_⟩
    obtain ⟨l, hmem, hnamed⟩ := ih name hname
    exact ⟨l, List.mem_cons_of_mem _ (List.mem_cons_of_mem _ hmem), hnamed⟩

theorem PortDeclaration.namedIn (h : PortDeclaration ls ports) : NamedIn ls ports := by
  obtain ⟨-, -, -, -, hnames⟩ := h
  intro port hport
  obtain ⟨name, hname, rfl⟩ := List.mem_map.1 hport
  obtain ⟨l, hl, hnamed⟩ := hnames.exists_lexeme name hname
  exact ⟨l, by simp [hl], hnamed⟩

theorem PortDeclarations.namedIn (h : PortDeclarations ls ports) : NamedIn ls ports := by
  induction h with
  | last hports => exact hports.namedIn
  | cons hports _ _ ih =>
    exact (hports.namedIn.mono (by simp)).append (ih.mono (by simp))

/-- A port that is read is named by an identifier of its port list. -/
theorem PortSection.namedIn (h : PortSection ls ports) : NamedIn ls ports := by
  cases h with
  | empty => exact List.forall_mem_nil _
  | list _ hports _ => exact hports.namedIn.mono (by simp)

/-- The names that are read from a text are words, and those of ports are identifiers. -/
theorem spellsWord_of_ofText {source : String} {interface : Interface}
    (h : Interface.ofText source = .ok interface) :
    SpellsWord interface.name.toList ∧
      ∀ port ∈ interface.ports, SpellsIdentifier port.name.toList := by
  rw [Interface.ofText_eq_ok_iff_declares] at h
  obtain ⟨start, name, params, portList, rest, hfound, -, hports, -, hinterface⟩ := h.exists_parts
  obtain ⟨pre, htokens, -⟩ := findHeader?_eq_some_iff.1 hfound
  have hmem : ∀ t, t ∈ start :: name :: (params ++ (portList ++ rest)) → t ∈ tokens source := by
    intro t ht
    have ht' : t ∈ significantTokens source := htokens ▸ List.mem_append_right pre ht
    exact (List.mem_filter.1 ht').1
  refine ⟨?_, fun port hport => ?_⟩
  · have hword := (kinds_of_findHeader? hfound).2
    have hspells := (spellsWord_of_mem_tokens (hmem name (by simp)) hword).1
    rw [hinterface, Token.text, Lexeme.text, String.toList_ofList]
    exact hspells
  · obtain ⟨l, hl, hkind, hname⟩ := hports.namedIn port hport
    obtain ⟨t, ht, rfl⟩ := List.mem_map.1 hl
    rw [hname, Lexeme.text, String.toList_ofList]
    exact spellsIdentifier_of_mem_tokens (hmem t (by simp [ht])) hkind

end Read

/-- **Ports that are written are read back**, with commas or with semicolons between their
declarations. The module and its ports may have any identifiers for names. So the ports that were
read from a text can be written and are then read again as they were, the module being named by
the same word or by any identifier. -/
theorem ofText_moduleText (separator : String) (hseparator : IsSeparator separator) :
    (∀ name ports, LexesAsIdentifier name → (∀ port ∈ ports, LexesAsIdentifier port.name) →
        Interface.ofText (moduleText separator name ports) =
          .ok ⟨name, ⟨7, 7 + byteLength name.toList⟩, ports, []⟩) ∧
      ∀ source interface, Interface.ofText source = .ok interface →
        (∀ port ∈ interface.ports, LexesAsIdentifier port.name) ∧
          ∀ name, name = interface.name ∨ LexesAsIdentifier name →
            Interface.ofText (moduleText separator name interface.ports) =
              .ok ⟨name, ⟨7, 7 + byteLength name.toList⟩, interface.ports, []⟩ := by
  simp only [lexesAsIdentifier_iff]
  constructor
  · intro name ports hname hnames
    exact ofText_moduleText_of_spellsWord hseparator hname.spellsWord hnames
  · intro source interface hread
    obtain ⟨hword, hnames⟩ := spellsWord_of_ofText hread
    refine ⟨hnames, fun name hname => ofText_moduleText_of_spellsWord hseparator ?_ hnames⟩
    rcases hname with rfl | hname
    · exact hword
    · exact hname.spellsWord

/-- A port of the greatest width and one of one bit, with names that are odd but identifiers; and
a source that names its module by a keyword and declares two ports at once. -/
theorem ofText_moduleText_widest :
    let ports : List Port :=
      [⟨"a$1", .input, .wire, ⟨4294967295, by decide, by decide⟩⟩, ⟨"_b", .inout, .reg, .one⟩]
    let declared : List Port := ["x", "y"].map (⟨·, .output, .logic, ⟨2, by decide, by decide⟩⟩)
    IsSeparator "; " ∧ LexesAsIdentifier "_m$" ∧ (∀ port ∈ ports, LexesAsIdentifier port.name) ∧
      moduleText "; " "_m$" ports =
        "module _m$(input wire [4294967294:0] a$1; inout reg _b); endmodule" ∧
      Interface.ofText (moduleText "; " "_m$" ports) = .ok ⟨"_m$", ⟨7, 10⟩, ports, []⟩ ∧
      Interface.ofText "module module(output logic [2:1] x, y); endmodule" =
        .ok ⟨"module", ⟨7, 13⟩, declared, []⟩ ∧
      Interface.ofText (moduleText "; " "module" declared) =
        .ok ⟨"module", ⟨7, 13⟩, declared, []⟩ := by
  intro ports declared
  have hseparator : IsSeparator "; " := Or.inr rfl
  have hname : LexesAsIdentifier "_m$" := by decide +kernel
  have hnames : ∀ port ∈ ports, LexesAsIdentifier port.name := by decide +kernel
  have hread : Interface.ofText "module module(output logic [2:1] x, y); endmodule" =
      .ok ⟨"module", ⟨7, 13⟩, declared, []⟩ := by
    decide +kernel
  obtain ⟨hwritten, hreread⟩ := ofText_moduleText "; " hseparator
  exact ⟨hseparator, hname, hnames, by decide +kernel, hwritten "_m$" ports hname hnames, hread,
    (hreread _ _ hread).2 "module" (Or.inl rfl)⟩

end HdlModule
