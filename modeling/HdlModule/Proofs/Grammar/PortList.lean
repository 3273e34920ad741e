import HdlModule.Interface.PortList
import HdlModule.Proofs.Grammar.Header

/-!
# The grammar of port lists

A declaration of ports says once what its ports are and then names them. Its names go on behind a
comma with an identifier behind it. As the next declaration starts with a keyword, a comma never
leaves a choice.

## Main definitions

* `PortNet`, `PortRange`, `PortNames`: the parts of a declaration
* `PortDeclaration`, `PortDeclarations`: the ports that are declared
* `PortSection ls ports`: a port list

## Main results

* `exists_portSection`: what `readPortList` reads is a port list
* `readPortList_append`: a port list is read, whatever stands behind it
-/

namespace HdlModule

/-! ### The grammar -/

/-- A kind of net, which may be missing. -/
inductive PortNet : List Lexeme → NetKind → Prop
  | absent : PortNet [] .wire
  | present {l : Lexeme} {net : NetKind} (hl : l.kind = .keyword (.net net)) : PortNet [l] net

/-- A range, which may be missing, and its width. The high bound is at least the low one, and the
width is one that a port can have. -/
inductive PortRange : List Lexeme → Width → Prop
  | absent : PortRange [] .one
  | present {opener l colon l' closer : Lexeme} {high low : Nat} {width : Width}
      (hopener : opener.kind = .leftBracket) (hhigh : IntegerLiteral l high)
      (hcolon : colon.kind = .colon) (hlow : IntegerLiteral l' low)
      (hcloser : closer.kind = .rightBracket) (hle : low ≤ high)
      (hwidth : width.bits = high - low + 1) : PortRange [opener, l, colon, l', closer] width

/-- Identifiers with commas between them. -/
inductive PortNames : List Lexeme → List String → Prop
  | last {l : Lexeme} (hl : l.kind = .identifier) : PortNames [l] [l.text]
  | cons {l separator : Lexeme} {ls : List Lexeme} {names : List String}
      (hl : l.kind = .identifier) (hseparator : separator.kind = .comma)
      (hnames : PortNames ls names) : PortNames (l :: separator :: ls) (l.text :: names)

/-- The declaration of one or more ports. -/
inductive PortDeclaration : List Lexeme → List Port → Prop
  | mk {keyword : Lexeme} {nets signs range ls : List Lexeme} {direction : Direction}
      {net : NetKind} {signText names : List String} {width : Width}
      (hkeyword : keyword.kind = .keyword (.direction direction)) (hnets : PortNet nets net)
      (hsigns : OptionalKeyword TokenKind.isSign signs signText) (hrange : PortRange range width)
      (hnames : PortNames ls names) :
      PortDeclaration (keyword :: (nets ++ (signs ++ (range ++ ls))))
        (names.map fun name => ⟨name, direction, net, width⟩)

/-- Declarations with commas or semicolons between them. -/
inductive PortDeclarations : List Lexeme → List Port → Prop
  | last {ls : List Lexeme} {ports : List Port} (hports : PortDeclaration ls ports) :
      PortDeclarations ls ports
  | cons {ls ls' : List Lexeme} {separator : Lexeme} {ports more : List Port}
      (hports : PortDeclaration ls ports)
      (hseparator : separator.kind = .comma ∨ separator.kind = .semicolon)
      (hmore : PortDeclarations ls' more) :
      PortDeclarations (ls ++ separator :: ls') (ports ++ more)

/-- The port list of a module: empty, or with declarations. -/
inductive PortSection : List Lexeme → List Port → Prop
  | empty {opener closer : Lexeme} (hopener : opener.kind = .leftParen)
      (hcloser : closer.kind = .rightParen) : PortSection [opener, closer] []
  | list {opener closer : Lexeme} {ls : List Lexeme} {ports : List Port}
      (hopener : opener.kind = .leftParen) (hports : PortDeclarations ls ports)
      (hcloser : closer.kind = .rightParen) : PortSection (opener :: (ls ++ [closer])) ports

/-! ### What stands in front of the names -/

section Head

variable {q : TokenKind → Bool} {ls : List Lexeme} {net : NetKind} {width : Width}
  {used rest ts : List Token}

theorem exists_portNet (ts : List Token) :
    ∃ used, ts = used ++ (takeNet ts).2 ∧
      PortNet (used.map Token.toLexeme) (takeNet ts).1 := by
  unfold takeNet
  split
  · next t rest =>
    split
    · next net ht => exact ⟨[t], rfl, .present ht⟩
    · exact ⟨[], rfl, .absent⟩
  · exact ⟨[], rfl, .absent⟩

theorem takeNet_append (h : PortNet ls net) (hls : used.map Token.toLexeme = ls)
    (hrest : NextNot TokenKind.isNetKind rest) : takeNet (used ++ rest) = (net, rest) := by
  cases h with
  | absent =>
    obtain rfl := List.map_eq_nil_iff.1 hls
    cases rest with
    | nil => rfl
    | cons t rest =>
      have ht := nextNot_cons.1 hrest
      rw [List.nil_append, takeNet]
      split
      · next net hnet =>
        rw [hnet] at ht
        cases ht
      · rfl
  | present hl =>
    obtain ⟨t, rfl, rfl⟩ := List.map_eq_singleton_iff.1 hls
    simp only [takeNet, List.singleton_append, hl]

theorem exists_skipSign (ts : List Token) :
    ∃ used parts, ts = used ++ skipSign ts ∧
      OptionalKeyword TokenKind.isSign (used.map Token.toLexeme) parts := by
  unfold skipSign
  split
  · next t rest =>
    split
    · next ht => exact ⟨[t], _, rfl, .present ht⟩
    · exact ⟨[], [], rfl, .absent⟩
  · exact ⟨[], [], rfl, .absent⟩

theorem skipSign_append {parts : List String} (h : OptionalKeyword TokenKind.isSign ls parts)
    (hls : used.map Token.toLexeme = ls) (hrest : NextNot TokenKind.isSign rest) :
    skipSign (used ++ rest) = rest := by
  cases h with
  | absent =>
    obtain rfl := List.map_eq_nil_iff.1 hls
    cases rest with
    | nil => rfl
    | cons t rest => simp [skipSign, nextNot_cons.1 hrest]
  | present hl =>
    obtain ⟨t, rfl, rfl⟩ := List.map_eq_singleton_iff.1 hls
    simp only [skipSign, List.singleton_append, hl, if_true]

theorem refuseType_eq_ok_iff {direction : Direction} :
    refuseType direction ts = .ok () ↔ NextNot TokenKind.isParameterType ts := by
  cases ts with
  | nil => simp [refuseType]
  | cons t ts => cases ht : t.kind.isParameterType <;> simp [refuseType, ht]

theorem readBound_eq_ok_iff {n : Nat} :
    readBound ts = .ok (n, rest) ↔
      ∃ literal, ts = literal :: rest ∧ IntegerLiteral literal.toLexeme n := by
  constructor
  · intro h
    unfold readBound at h
    split at h
    · cases h
    · next literal tail =>
      split at h
      · next hkind =>
        split at h
        · cases h
        · next value hvalue =>
          cases h
          exact ⟨literal, rfl, hkind, hvalue⟩
      · cases h
  · rintro ⟨literal, rfl, hkind, hn⟩
    simp only [readBound, hkind, if_true, hn]

theorem ofBits?_eq_some_iff {n : Nat} : Width.ofBits? n = some width ↔ width.bits = n := by
  unfold Width.ofBits?
  split
  · next h =>
    rw [Option.some.injEq]
    constructor
    · rintro rfl
      rfl
    · rintro rfl
      rfl
  · next h =>
    simp only [reduceCtorEq, false_iff]
    rintro rfl
    exact h ⟨width.bits_pos, width.bits_lt⟩

theorem rangeWidth_eq_ok_iff {opener closer : Token} {high low : Nat} :
    rangeWidth opener closer high low = .ok width ↔
      low ≤ high ∧ width.bits = high - low + 1 := by
  unfold rangeWidth
  split
  · next hlt => simp [Nat.not_le.2 hlt]
  · next hle =>
    rw [← ofBits?_eq_some_iff]
    simp only [Nat.not_lt.1 hle, true_and]
    cases Width.ofBits? (high - low + 1) <;> simp

theorem exists_portRange (h : readRange ts = .ok (width, rest)) :
    ∃ used, ts = used ++ rest ∧ PortRange (used.map Token.toLexeme) width := by
  unfold readRange at h
  split at h
  · cases h
    exact ⟨[], rfl, .absent⟩
  · next opener tail =>
    split at h
    · next hopener =>
      simp only [bind_eq_ok] at h
      obtain ⟨⟨high, ts₁⟩, h₁, ⟨colon, ts₂⟩, h₂, ⟨low, ts₃⟩, h₃, ⟨closer, ts₄⟩, h₄, width', hwidth,
        hresult⟩ := h
      cases hresult
      obtain ⟨l, rfl, hhigh⟩ := readBound_eq_ok_iff.1 h₁
      obtain ⟨rfl, hcolon⟩ := takeToken_eq_ok.1 h₂
      obtain ⟨l', rfl, hlow⟩ := readBound_eq_ok_iff.1 h₃
      obtain ⟨rfl, hcloser⟩ := takeToken_eq_ok.1 h₄
      obtain ⟨hle, hbits⟩ := rangeWidth_eq_ok_iff.1 hwidth
      exact ⟨[opener, l, colon, l', closer], rfl,
        .present hopener hhigh hcolon hlow hcloser hle hbits⟩
    · cases h
      exact ⟨[], rfl, .absent⟩

theorem readRange_append (h : PortRange ls width) (hls : used.map Token.toLexeme = ls)
    (hrest : NextNot (· = .leftBracket) rest) : readRange (used ++ rest) = .ok (width, rest) := by
  cases h with
  | absent =>
    obtain rfl := List.map_eq_nil_iff.1 hls
    cases rest with
    | nil => rfl
    | cons t rest =>
      have ht := nextNot_cons.1 hrest
      simp only [decide_eq_false_iff_not] at ht
      simp [readRange, ht]
  | @present opener l colon l' closer high low _ hopener hhigh hcolon hlow hcloser hle hwidth =>
    obtain ⟨opener, tail, rfl, rfl, htail⟩ := List.map_eq_cons_iff.1 hls
    obtain ⟨l, tail₁, rfl, rfl, htail₁⟩ := List.map_eq_cons_iff.1 htail
    obtain ⟨colon, tail₂, rfl, rfl, htail₂⟩ := List.map_eq_cons_iff.1 htail₁
    obtain ⟨l', tail₃, rfl, rfl, htail₃⟩ := List.map_eq_cons_iff.1 htail₂
    obtain ⟨closer, rfl, rfl⟩ := List.map_eq_singleton_iff.1 htail₃
    simp only [List.cons_append, List.nil_append, readRange, hopener, if_true, bind_eq_ok]
    exact ⟨(high, _), readBound_eq_ok_iff.2 ⟨l, rfl, hhigh⟩, (colon, _),
      takeToken_eq_ok.2 ⟨rfl, hcolon⟩, (low, _), readBound_eq_ok_iff.2 ⟨l', rfl, hlow⟩,
      (closer, rest), takeToken_eq_ok.2 ⟨rfl, hcloser⟩, width,
      rangeWidth_eq_ok_iff.2 ⟨hle, hwidth⟩, rfl⟩

theorem PortRange.nextNot (h : PortRange ls width) (hls : used.map Token.toLexeme = ls)
    (hq : q .leftBracket = false) : NextNot q used := by
  cases h with
  | absent =>
    obtain rfl := List.map_eq_nil_iff.1 hls
    exact nextNot_nil
  | present hopener =>
    obtain ⟨t, tail, rfl, rfl, -⟩ := List.map_eq_cons_iff.1 hls
    exact nextNot_cons.2 (by rw [hopener, hq])

end Head

/-! ### Declarations -/

section Declarations

variable {ls : List Lexeme} {names : List String} {ports : List Port} {direction : Direction}
  {opener : Token} {used rest ts : List Token}

/-- The names of a declaration end here: no comma follows with an identifier behind it. -/
def EndsNames (rest : List Token) : Prop :=
  ∀ separator next tail, rest = separator :: next :: tail → separator.kind = .comma →
    next.kind ≠ .identifier

theorem exists_portNames (h : readPortNames direction ts = .ok (names, rest)) :
    ∃ used, ts = used ++ rest ∧ PortNames (used.map Token.toLexeme) names := by
  fun_induction readPortNames direction ts generalizing names rest with
  | case1 => cases h
  | case2 t hname =>
    cases h
    exact ⟨[t], rfl, .last hname⟩
  | case3 => cases h
  | case4 t t' hname =>
    cases h
    exact ⟨[t], rfl, .last hname⟩
  | case5 => cases h
  | case6 t separator next tail hname hgoes ih =>
    simp only [bind_eq_ok] at h
    obtain ⟨⟨more, rest'⟩, hmore, hnames⟩ := h
    cases hnames
    obtain ⟨used, hts, hused⟩ := ih hmore
    refine ⟨t :: separator :: used, by rw [hts, List.cons_append, List.cons_append], ?_⟩
    exact .cons hname hgoes.1 hused
  | case7 t separator next tail hname _ =>
    cases h
    exact ⟨[t], rfl, .last hname⟩
  | case8 => cases h

/-- Names start with an identifier. -/
theorem PortNames.exists_cons (h : PortNames ls names) :
    ∃ l ls', ls = l :: ls' ∧ l.kind = .identifier := by
  cases h with
  | last hl => exact ⟨_, _, rfl, hl⟩
  | cons hl => exact ⟨_, _, rfl, hl⟩

theorem readPortNames_append (h : PortNames ls names) (hls : used.map Token.toLexeme = ls)
    (hrest : EndsNames rest) :
    readPortNames direction (used ++ rest) = .ok (names, rest) := by
  induction h generalizing used with
  | last hl =>
    obtain ⟨t, rfl, rfl⟩ := List.map_eq_singleton_iff.1 hls
    -- the two tokens behind a name decide whether the names go on
    rcases rest with _ | ⟨separator, _ | ⟨next, tail⟩⟩
    · simp only [List.singleton_append, readPortNames, hl, if_true]
      rfl
    · simp only [List.singleton_append, readPortNames, hl, if_true]
      rfl
    · have hends : ¬ (separator.kind = .comma ∧ next.kind = .identifier) :=
        fun hgoes => hrest separator next tail rfl hgoes.1 hgoes.2
      simp only [List.singleton_append, readPortNames, hl, if_true, hends, if_false]
      rfl
  | cons hl hseparator hnames ih =>
    obtain ⟨t, tail, rfl, rfl, htail⟩ := List.map_eq_cons_iff.1 hls
    obtain ⟨separator, used', rfl, rfl, hused'⟩ := List.map_eq_cons_iff.1 htail
    have hread := ih hused'
    obtain ⟨l, ls', hcons, hnext⟩ := hnames.exists_cons
    obtain ⟨next, used'', rfl, rfl, -⟩ := List.map_eq_cons_iff.1 (hused'.trans hcons)
    have hgoes : separator.kind = .comma ∧ next.kind = .identifier := ⟨hseparator, hnext⟩
    simp only [List.cons_append] at hread ⊢
    simp only [readPortNames, hl, if_true, hgoes, and_self, bind_eq_ok]
    exact ⟨(_, rest), hread, rfl⟩

theorem isNetKind_of_isSign {k : TokenKind} (hk : k.isSign = true) : k.isNetKind = false := by
  obtain ⟨sign, rfl⟩ := exists_sign_of_isSign hk
  rfl

theorem exists_portDeclaration (h : readPortDeclaration opener ts = .ok (ports, rest)) :
    ∃ used, ts = used ++ rest ∧ PortDeclaration (used.map Token.toLexeme) ports := by
  simp only [readPortDeclaration, bind_eq_ok] at h
  obtain ⟨⟨head, ts₁⟩, hhead, ⟨names, ts₂⟩, hnames, hports⟩ := h
  cases hports
  obtain ⟨ls, hnamed, hls⟩ := exists_portNames hnames
  unfold readPortHead at hhead
  split at hhead
  · cases hhead
  · next t tail =>
    split at hhead
    · next direction hdirection =>
      simp only [bind_eq_ok] at hhead
      obtain ⟨_, -, ⟨width, ts₃⟩, hwidth, hresult⟩ := hhead
      cases hresult
      obtain ⟨nets, htail, hnets⟩ := exists_portNet tail
      obtain ⟨signs, signText, hbehind, hsigns⟩ := exists_skipSign (takeNet tail).2
      obtain ⟨range, htyped, hrange⟩ := exists_portRange hwidth
      refine ⟨t :: (nets ++ (signs ++ (range ++ ls))), ?_, ?_⟩
      · simp only [List.cons_append, List.append_assoc]
        simp only at hnamed
        rw [← hnamed, ← htyped, ← hbehind, ← htail]
      · simp only [List.map_cons, List.map_append]
        exact .mk hdirection hnets hsigns hrange hls
    · cases hhead

theorem readPortDeclaration_append (h : PortDeclaration ls ports)
    (hls : used.map Token.toLexeme = ls) (hrest : EndsNames rest) :
    readPortDeclaration opener (used ++ rest) = .ok (ports, rest) := by
  cases h with
  | @mk _ _ _ _ _ direction net _ names width hkeyword hnets hsigns hrange hnames =>
    obtain ⟨t, tail, rfl, rfl, htail⟩ := List.map_eq_cons_iff.1 hls
    obtain ⟨nets', tail', rfl, hnets', htail'⟩ := List.map_eq_append_iff.1 htail
    obtain ⟨signs', tail'', rfl, hsigns', htail''⟩ := List.map_eq_append_iff.1 htail'
    obtain ⟨range', names', rfl, hrange', hnames'⟩ := List.map_eq_append_iff.1 htail''
    have hname : ∀ q : TokenKind → Bool, q .identifier = false → NextNot q (names' ++ rest) := by
      intro q hq
      obtain ⟨l, ls', hcons, hl⟩ := hnames.exists_cons
      obtain ⟨t, tail, rfl, rfl, -⟩ := List.map_eq_cons_iff.1 (hnames'.trans hcons)
      exact nextNot_cons.2 (by rw [hl, hq])
    have hbehindSigns : ∀ q : TokenKind → Bool, q .leftBracket = false → q .identifier = false →
        NextNot q (range' ++ (names' ++ rest)) := by
      intro q hbracket hidentifier
      exact (hrange.nextNot hrange' hbracket).append (hname q hidentifier)
    have hbehindNets : NextNot TokenKind.isNetKind (signs' ++ (range' ++ (names' ++ rest))) :=
      (hsigns.nextNot hsigns' fun _ => isNetKind_of_isSign).append (hbehindSigns _ rfl rfl)
    simp only [List.cons_append, List.append_assoc, readPortDeclaration, bind_eq_ok]
    refine ⟨(⟨direction, net, width⟩, names' ++ rest), ?_, (names, rest),
      readPortNames_append hnames hnames' hrest, rfl⟩
    simp only [readPortHead, hkeyword, bind_eq_ok, takeNet_append hnets hnets' hbehindNets,
      skipSign_append hsigns hsigns' (hbehindSigns _ rfl rfl)]
    exact ⟨(), refuseType_eq_ok_iff.2 (hbehindSigns _ rfl rfl), (width, _),
      readRange_append hrange hrange' (hname _ rfl), rfl⟩

/-! ### The list -/

theorem exists_portDeclarations (h : readPorts opener ts = .ok (ports, rest)) :
    ∃ used closer, ts = used ++ closer :: rest ∧ closer.kind = .rightParen ∧
      PortDeclarations (used.map Token.toLexeme) ports := by
  fun_induction readPorts opener ts generalizing ports rest with
  | case1 => cases h
  | case2 => cases h
  | case3 ts declared t tail hread hseparator ih =>
    simp only [bind_eq_ok] at h
    obtain ⟨⟨more, rest'⟩, hmore, hports⟩ := h
    cases hports
    obtain ⟨used, rfl, hdeclared⟩ := exists_portDeclaration hread
    obtain ⟨used', closer, rfl, hcloser, hmore⟩ := ih hmore
    refine ⟨used ++ t :: used', closer, ?_, hcloser, ?_⟩
    · rw [List.append_assoc, List.cons_append]
    · rw [List.map_append, List.map_cons]
      exact .cons hdeclared hseparator hmore
  | case4 ts declared t tail hread _ hcloser =>
    cases h
    obtain ⟨used, rfl, hdeclared⟩ := exists_portDeclaration hread
    exact ⟨used, t, rfl, hcloser, .last hdeclared⟩
  | case5 => cases h

/-- Declarations start with a direction. -/
theorem PortDeclarations.exists_cons (h : PortDeclarations ls ports) :
    ∃ l ls' direction, ls = l :: ls' ∧ l.kind = .keyword (.direction direction) := by
  cases h with
  | last hports =>
    obtain ⟨hkeyword, -, -, -, -⟩ := hports
    exact ⟨_, _, _, rfl, hkeyword⟩
  | cons hports =>
    obtain ⟨hkeyword, -, -, -, -⟩ := hports
    exact ⟨_, _, _, rfl, hkeyword⟩

theorem readPorts_append {closer : Token} (h : PortDeclarations ls ports)
    (hls : used.map Token.toLexeme = ls) (hcloser : closer.kind = .rightParen) :
    readPorts opener (used ++ closer :: rest) = .ok (ports, rest) := by
  induction h generalizing used with
  | last hports =>
    have hends : EndsNames (closer :: rest) := by
      rintro separator next tail ⟨⟩ hcomma
      rw [hcloser] at hcomma
      cases hcomma
    rw [readPorts, readPortDeclaration_append hports hls hends]
    simp [hcloser]
  | cons hports hseparator hmore ih =>
    obtain ⟨used', tail, rfl, hused', htail⟩ := List.map_eq_append_iff.1 hls
    obtain ⟨separator, used₁, rfl, rfl, hused₁⟩ := List.map_eq_cons_iff.1 htail
    have hread := ih hused₁
    obtain ⟨l, ls', direction, hcons, hl⟩ := hmore.exists_cons
    obtain ⟨next, used₂, rfl, rfl, -⟩ := List.map_eq_cons_iff.1 (hused₁.trans hcons)
    -- a comma does not go on with names, as a direction stands behind it
    have hends : EndsNames (separator :: (next :: used₂ ++ closer :: rest)) := by
      rintro _ _ _ ⟨⟩ -
      rw [hl]
      simp
    rw [List.append_assoc, List.cons_append, readPorts,
      readPortDeclaration_append hports hused' hends]
    simp only [hseparator, if_true, hread]
    rfl

theorem portSection_of_readPorts (hopener : opener.kind = .leftParen)
    (h : readPorts opener ts = .ok (ports, rest)) :
    ∃ used, opener :: ts = used ++ rest ∧ PortSection (used.map Token.toLexeme) ports := by
  obtain ⟨used, closer, rfl, hcloser, hports⟩ := exists_portDeclarations h
  refine ⟨opener :: (used ++ [closer]), by simp, ?_⟩
  simp only [List.map_cons, List.map_append, List.map_nil]
  exact .list hopener hports hcloser

/-- **What is read as a port list is one.** -/
theorem exists_portSection {name : String} (h : readPortList name ts = .ok (ports, rest)) :
    ∃ used, ts = used ++ rest ∧ PortSection (used.map Token.toLexeme) ports := by
  simp only [readPortList, bind_eq_ok] at h
  obtain ⟨⟨opener, tail⟩, htake, h⟩ := h
  obtain ⟨rfl, hopener⟩ := takeToken_eq_ok.1 htake
  cases tail with
  | nil => exact portSection_of_readPorts hopener h
  | cons closer tail' =>
    simp only at h
    split at h
    · next hcloser =>
      cases h
      exact ⟨[opener, closer], rfl, .empty hopener hcloser⟩
    · exact portSection_of_readPorts hopener h

/-- **A port list is read**, whatever stands behind it. -/
theorem readPortList_append {name : String} (h : PortSection ls ports)
    (hls : used.map Token.toLexeme = ls) :
    readPortList name (used ++ rest) = .ok (ports, rest) := by
  cases h with
  | empty hopener hcloser =>
    obtain ⟨opener, tail, rfl, rfl, htail⟩ := List.map_eq_cons_iff.1 hls
    obtain ⟨closer, rfl, rfl⟩ := List.map_eq_singleton_iff.1 htail
    simp only [List.cons_append, List.nil_append, readPortList, bind_eq_ok]
    refine ⟨(opener, closer :: rest), takeToken_eq_ok.2 ⟨rfl, hopener⟩, ?_⟩
    simp only [hcloser, if_true]
    rfl
  | list hopener hports hcloser =>
    obtain ⟨opener, tail, rfl, rfl, htail⟩ := List.map_eq_cons_iff.1 hls
    obtain ⟨used', last, rfl, hused', hlast⟩ := List.map_eq_append_iff.1 htail
    obtain ⟨closer, rfl, rfl⟩ := List.map_eq_singleton_iff.1 hlast
    have hread : readPorts opener (used' ++ closer :: rest) = .ok (ports, rest) :=
      readPorts_append hports hused' hcloser
    obtain ⟨l, ls', direction, hcons, hl⟩ := hports.exists_cons
    obtain ⟨t, used₁, rfl, rfl, -⟩ := List.map_eq_cons_iff.1 (hused'.trans hcons)
    simp only [List.cons_append, List.append_assoc, List.nil_append, readPortList, bind_eq_ok]
    refine ⟨(opener, _), takeToken_eq_ok.2 ⟨rfl, hopener⟩, ?_⟩
    simp only [hl, reduceCtorEq, if_false]
    exact hread

end Declarations

end HdlModule
