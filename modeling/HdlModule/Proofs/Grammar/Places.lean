import HdlModule.Proofs.Grammar.Module
import HdlModule.Proofs.Lexing.Layout

/-!
# Places do not matter to readers

The readers of a module decide by the kinds and the characters of tokens, and by nothing else. If
all tokens are moved to other places, the readers find the same interface, or the same fault at
the moved tokens. So texts whose significant tokens have the same lexemes declare the same
interface, or are refused in the same words.

Blanks may so be inserted between any two tokens, also within the range of a parameter, behind a
comment or in an unfinished literal, and comments may be worded anew. A string that is broken off
is the exception: blanks behind it would become a part of it, and it is quoted in messages.

## Main definitions

* `Token.moved`, `Fault.moved`: a token, and a fault with its tokens, at another place
* `moved place value x`: the result of a reader, at another place
* `SameButPlaces`: two results of reading a text that differ in places only

## Main results

* `ofTokens_moved`: the interface that moved tokens declare
* `sameButPlaces_ofText`: texts with the same significant lexemes
* `sameButPlaces_of_layoutEdit`: an edit of the layout changes nothing but places
-/

namespace HdlModule

/-! ### Moving tokens -/

/-- The token at another place. -/
def Token.moved (place : Token → Nat) (t : Token) : Token := { t with start := place t }

/-- The fault with its tokens at other places. -/
def Fault.moved (place : Token → Nat) : Fault → Fault
  | noHeader => .noHeader
  | unexpected expected found => .unexpected expected (found.map (Token.moved place))
  | unclosed list opener => .unclosed list (opener.moved place)
  | parameterLiteral parameter literal fault =>
    .parameterLiteral parameter (literal.moved place) fault
  | valueContinues parameter first last =>
    .valueContinues parameter (first.moved place) (last.moved place)
  | boundLiteral literal fault => .boundLiteral (literal.moved place) fault
  | ascendingRange opener closer high low =>
    .ascendingRange (opener.moved place) (closer.moved place) high low
  | wideRange opener closer high low =>
    .wideRange (opener.moved place) (closer.moved place) high low
  | noEnd start name => .noEnd (start.moved place) (name.moved place)

/-- The result of a reader whose tokens are moved. What becomes of a value is given. -/
def moved {α β : Type} (place : Token → Nat) (value : α → β) : Except Fault α → Except Fault β
  | .error fault => .error (fault.moved place)
  | .ok a => .ok (value a)

/-- The tokens at other places. -/
def movedTokens (place : Token → Nat) : List Token → List Token := List.map (Token.moved place)

section Moved

variable {place : Token → Nat} {t : Token} {ts : List Token}

-- These hold by definition, but an `if` whose condition is rewritten by definition keeps the
-- decision for the old condition, so they are proved in another way.
theorem kind_moved : (t.moved place).kind = t.kind := by rw [Token.moved]

theorem chars_moved : (t.moved place).chars = t.chars := by rw [Token.moved]

theorem text_moved : (t.moved place).text = t.text := by rw [Token.moved, Token.text, Token.text]

@[simp]
theorem movedTokens_nil : movedTokens place [] = [] := rfl

@[simp]
theorem movedTokens_cons :
    movedTokens place (t :: ts) = t.moved place :: movedTokens place ts := rfl

/-- A reading in two steps is moved if both steps are. -/
theorem moved_bind {α α' β β' : Type} {x : Except Fault α} {x' : Except Fault α'}
    {f : α → Except Fault β} {f' : α' → Except Fault β'} {value : α → α'} {value' : β → β'}
    (hx : x' = moved place value x) (hf : ∀ a, f' (value a) = moved place value' (f a)) :
    (x' >>= f') = moved place value' (x >>= f) := by
  subst hx
  cases x with
  | error fault => rfl
  | ok a => exact hf a

/-! ### Readers of headers and parameters -/

theorem findHeader?_moved (before : Option TokenKind) :
    findHeader? before (movedTokens place ts) =
      (findHeader? before ts).map fun header =>
        (header.1.moved place, header.2.1.moved place, movedTokens place header.2.2) := by
  fun_induction findHeader? before ts with
  | case1 before start name rest hat =>
    simp only [movedTokens_cons, findHeader?, kind_moved, if_pos hat, Option.map_some]
  | case2 before start name rest hat ih =>
    simp only [movedTokens_cons, findHeader?, kind_moved, if_neg hat] at ih ⊢
    exact ih
  | case3 ts before hshort =>
    rcases ts with _ | ⟨t, _ | ⟨t', tail⟩⟩
    · rfl
    · rfl
    · exact absurd rfl (hshort _ _ _)

theorem takeToken_moved (kind : TokenKind) (expected : Expectation) :
    takeToken kind expected (movedTokens place ts) =
      moved place (Prod.map (Token.moved place) (movedTokens place))
        (takeToken kind expected ts) := by
  cases ts with
  | nil => rfl
  | cons t ts =>
    simp only [movedTokens_cons, takeToken, kind_moved]
    split <;> rfl

theorem throughBracket_moved :
    throughBracket (movedTokens place ts) =
      ((throughBracket ts).map (movedTokens place) (movedTokens place)) := by
  induction ts with
  | nil => rfl
  | cons t ts ih =>
    simp only [movedTokens_cons, throughBracket, kind_moved, ih]
    split <;> rfl

theorem takeKeyword_moved (p : TokenKind → Bool) :
    takeKeyword p (movedTokens place ts) = (takeKeyword p ts).map id (movedTokens place) := by
  cases ts with
  | nil => rfl
  | cons t ts =>
    simp only [movedTokens_cons, takeKeyword, kind_moved]
    split <;> rfl

theorem takeRange_moved :
    takeRange (movedTokens place ts) = (takeRange ts).map id (movedTokens place) := by
  cases ts with
  | nil => rfl
  | cons t ts =>
    simp only [movedTokens_cons, takeRange, kind_moved, throughBracket_moved]
    split
    · simp [movedTokens, Function.comp_def, text_moved]
    · rfl

theorem declaredType_moved :
    declaredType (movedTokens place ts) = (declaredType ts).map id (movedTokens place) := by
  simp only [declaredType, takeKeyword_moved, takeRange_moved, Prod.map_fst, Prod.map_snd, id_eq]
  rfl

theorem nextType_moved (inherited : Option String) :
    nextType inherited (movedTokens place ts) =
      (nextType inherited ts).map id (movedTokens place) := by
  cases ts with
  | nil => rfl
  | cons t ts =>
    simp only [movedTokens_cons, nextType, kind_moved, declaredType_moved]
    split <;> rfl

theorem takeSign_moved :
    takeSign (movedTokens place ts) =
      (takeSign ts).map (Option.map (Token.moved place)) (movedTokens place) := by
  cases ts with
  | nil => rfl
  | cons t ts =>
    simp only [movedTokens_cons, takeSign, kind_moved]
    split <;> rfl

theorem signedValue_moved (sign? : Option Token) (value : Nat) :
    signedValue (sign?.map (Token.moved place)) value = signedValue sign? value := by
  cases sign? <;> rfl

/-- A reader of a value finds the same value, or the same fault, among moved tokens. -/
def Moves {α : Type} (place : Token → Nat) (read : List Token → Except Fault (α × List Token)) :
    Prop :=
  ∀ ts, read (movedTokens place ts) = moved place (Prod.map id (movedTokens place)) (read ts)

theorem readLiteral_moved (parameter : String) (sign? : Option Token) :
    readLiteral parameter (sign?.map (Token.moved place)) (movedTokens place ts) =
      moved place (Prod.map id (movedTokens place)) (readLiteral parameter sign? ts) := by
  rcases ts with _ | ⟨literal, rest⟩
  · rfl
  · simp only [movedTokens_cons, readLiteral, kind_moved, chars_moved, signedValue_moved]
    split
    · cases literalValue literal.chars with
      | error fault => rfl
      | ok value =>
        rcases rest with _ | ⟨next, rest⟩
        · rfl
        · simp only [movedTokens_cons, kind_moved]
          split
          · rfl
          · cases sign? <;> rfl
    · rfl

theorem readValue_moved (parameter : String) : Moves place (readValue parameter) := by
  intro ts
  rw [readValue, takeSign_moved]
  exact readLiteral_moved parameter (takeSign ts).1

theorem readParameter_moved (inherited : Option String) :
    Moves place (readParameter inherited) := by
  intro ts
  rw [readParameter, readParameter, nextType_moved]
  refine moved_bind (takeToken_moved _ _) ?_
  rintro ⟨name, ts⟩
  refine moved_bind (takeToken_moved _ _) ?_
  rintro ⟨_, ts⟩
  refine moved_bind (readValue_moved _ _) ?_
  rintro ⟨value, ts⟩
  rfl

/-- The parameters of a list, without the proof that the recursion ends. -/
theorem readParameters_eq (opener : Token) (inherited : Option String) (ts : List Token) :
    readParameters opener inherited ts = readParameter inherited ts >>= fun r =>
      match r.2 with
      | [] => .error (.unclosed .parameters opener)
      | t :: rest =>
        if t.kind = .comma then
          readParameters opener r.1.type? rest >>= fun more => .ok (r.1 :: more.1, more.2)
        else if t.kind = .rightParen then .ok ([r.1], rest)
        else .error (.unexpected .parameterSeparator (some t)) := by
  rw [readParameters]
  split
  · next h => rw [h]; rfl
  · next h => rw [h]; rfl
  · next h => rw [h]; rfl

theorem readParameters_moved (opener : Token) (inherited : Option String) (ts : List Token) :
    readParameters (opener.moved place) inherited (movedTokens place ts) =
      moved place (Prod.map id (movedTokens place)) (readParameters opener inherited ts) := by
  fun_induction readParameters opener inherited ts with
  | case1 inherited ts fault h =>
    rw [readParameters_eq, readParameter_moved, h]
    rfl
  | case2 inherited ts p h =>
    rw [readParameters_eq, readParameter_moved, h]
    rfl
  | case3 inherited ts p t rest h hcomma ih =>
    -- the list goes on; what the next parameter inherits is a text, which has no place
    rw [readParameters_eq, readParameter_moved, h]
    show (if (t.moved place).kind = .comma then _ else _) = _
    rw [kind_moved, if_pos hcomma]
    exact moved_bind ih fun _ => rfl
  | case4 inherited ts p t rest h hcomma hclose =>
    rw [readParameters_eq, readParameter_moved, h]
    show (if (t.moved place).kind = .comma then _ else _) = _
    rw [kind_moved, if_neg hcomma, if_pos hclose]
    rfl
  | case5 inherited ts p t rest h hcomma hclose =>
    rw [readParameters_eq, readParameter_moved, h]
    show (if (t.moved place).kind = .comma then _ else _) = _
    rw [kind_moved, if_neg hcomma, if_neg hclose]
    rfl

theorem readParameterList_moved : Moves place readParameterList := by
  intro ts
  rcases ts with _ | ⟨t, rest⟩
  · rfl
  · simp only [movedTokens_cons, readParameterList, kind_moved]
    split
    · refine moved_bind (takeToken_moved _ _) ?_
      rintro ⟨opener, rest⟩
      rcases rest with _ | ⟨t, rest⟩
      · exact readParameters_moved opener none []
      · simp only [Prod.map_apply, movedTokens_cons, kind_moved]
        split
        · rfl
        · exact readParameters_moved opener none (t :: rest)
    · rfl

/-! ### Readers of ports -/

theorem readBound_moved : Moves place readBound := by
  intro ts
  rcases ts with _ | ⟨literal, rest⟩
  · rfl
  · simp only [movedTokens_cons, readBound, kind_moved, chars_moved]
    split
    · cases literalValue literal.chars <;> rfl
    · rfl

theorem rangeWidth_moved (opener closer : Token) (high low : Nat) :
    rangeWidth (opener.moved place) (closer.moved place) high low =
      moved place id (rangeWidth opener closer high low) := by
  unfold rangeWidth
  split
  · rfl
  · cases Width.ofBits? (high - low + 1) <;> rfl

theorem readRange_moved : Moves place readRange := by
  intro ts
  rcases ts with _ | ⟨opener, rest⟩
  · rfl
  · simp only [movedTokens_cons, readRange, kind_moved]
    split
    · refine moved_bind (readBound_moved _) ?_
      rintro ⟨high, rest⟩
      refine moved_bind (takeToken_moved _ _) ?_
      rintro ⟨_, rest⟩
      refine moved_bind (readBound_moved _) ?_
      rintro ⟨low, rest⟩
      refine moved_bind (takeToken_moved _ _) ?_
      rintro ⟨closer, rest⟩
      exact moved_bind (rangeWidth_moved opener closer high low) fun _ => rfl
    · rfl

theorem takeNet_moved :
    takeNet (movedTokens place ts) = (takeNet ts).map id (movedTokens place) := by
  cases ts with
  | nil => rfl
  | cons t ts =>
    simp only [movedTokens_cons, takeNet, kind_moved]
    split <;> rfl

theorem skipSign_moved :
    skipSign (movedTokens place ts) = movedTokens place (skipSign ts) := by
  cases ts with
  | nil => rfl
  | cons t ts =>
    simp only [movedTokens_cons, skipSign, kind_moved]
    split <;> rfl

theorem refuseType_moved (direction : Direction) :
    refuseType direction (movedTokens place ts) = moved place id (refuseType direction ts) := by
  cases ts with
  | nil => rfl
  | cons t ts =>
    simp only [movedTokens_cons, refuseType, kind_moved]
    split <;> rfl

theorem readPortHead_moved (opener : Token) (ts : List Token) :
    readPortHead (opener.moved place) (movedTokens place ts) =
      moved place (Prod.map id (movedTokens place)) (readPortHead opener ts) := by
  rcases ts with _ | ⟨t, rest⟩
  · rfl
  · simp only [movedTokens_cons, readPortHead, kind_moved, takeNet_moved, Prod.map_snd,
      Prod.map_fst, skipSign_moved]
    split
    · refine moved_bind (refuseType_moved _) fun _ => ?_
      exact moved_bind (readRange_moved _) fun _ => rfl
    · rfl

theorem readPortNames_moved (direction : Direction) : Moves place (readPortNames direction) := by
  intro ts
  fun_induction readPortNames direction ts with
  | case1 => rfl
  | case2 t hname =>
    simp only [movedTokens_cons, movedTokens_nil, readPortNames, kind_moved, if_pos hname,
      text_moved]
    rfl
  | case3 t hname =>
    simp only [movedTokens_cons, movedTokens_nil, readPortNames, kind_moved, if_neg hname]
    rfl
  | case4 t t' hname =>
    simp only [movedTokens_cons, movedTokens_nil, readPortNames, kind_moved, if_pos hname,
      text_moved]
    rfl
  | case5 t t' hname =>
    simp only [movedTokens_cons, movedTokens_nil, readPortNames, kind_moved, if_neg hname]
    rfl
  | case6 t separator next rest hname hnext ih =>
    simp only [movedTokens_cons, readPortNames, kind_moved, if_pos hname, if_pos hnext, text_moved]
    exact moved_bind ih fun _ => rfl
  | case7 t separator next rest hname hnext =>
    simp only [movedTokens_cons, readPortNames, kind_moved, if_pos hname, if_neg hnext, text_moved]
    rfl
  | case8 t separator next rest hname =>
    simp only [movedTokens_cons, readPortNames, kind_moved, if_neg hname]
    rfl

theorem readPortDeclaration_moved (opener : Token) (ts : List Token) :
    readPortDeclaration (opener.moved place) (movedTokens place ts) =
      moved place (Prod.map id (movedTokens place)) (readPortDeclaration opener ts) := by
  refine moved_bind (readPortHead_moved opener ts) ?_
  rintro ⟨head, ts⟩
  exact moved_bind (readPortNames_moved _ _) fun _ => rfl

/-- The ports of a list, without the proof that the recursion ends. -/
theorem readPorts_eq (opener : Token) (ts : List Token) :
    readPorts opener ts = readPortDeclaration opener ts >>= fun r =>
      match r.2 with
      | [] => .error (.unclosed .ports opener)
      | t :: rest =>
        if t.kind = .comma ∨ t.kind = .semicolon then
          readPorts opener rest >>= fun more => .ok (r.1 ++ more.1, more.2)
        else if t.kind = .rightParen then .ok (r.1, rest)
        else .error (.unexpected .portSeparator (some t)) := by
  rw [readPorts]
  split
  · next h => rw [h]; rfl
  · next h => rw [h]; rfl
  · next h => rw [h]; rfl

theorem readPorts_moved (opener : Token) (ts : List Token) :
    readPorts (opener.moved place) (movedTokens place ts) =
      moved place (Prod.map id (movedTokens place)) (readPorts opener ts) := by
  fun_induction readPorts opener ts with
  | case1 ts fault h =>
    rw [readPorts_eq, readPortDeclaration_moved, h]
    rfl
  | case2 ts ports h =>
    rw [readPorts_eq, readPortDeclaration_moved, h]
    rfl
  | case3 ts ports t rest h hseparator ih =>
    rw [readPorts_eq, readPortDeclaration_moved, h]
    show (if (t.moved place).kind = .comma ∨ (t.moved place).kind = .semicolon then _ else _) = _
    rw [kind_moved, if_pos hseparator]
    exact moved_bind ih fun _ => rfl
  | case4 ts ports t rest h hseparator hclose =>
    rw [readPorts_eq, readPortDeclaration_moved, h]
    show (if (t.moved place).kind = .comma ∨ (t.moved place).kind = .semicolon then _ else _) = _
    rw [kind_moved, if_neg hseparator, if_pos hclose]
    rfl
  | case5 ts ports t rest h hseparator hclose =>
    rw [readPorts_eq, readPortDeclaration_moved, h]
    show (if (t.moved place).kind = .comma ∨ (t.moved place).kind = .semicolon then _ else _) = _
    rw [kind_moved, if_neg hseparator, if_neg hclose]
    rfl

theorem readPortList_moved (name : String) : Moves place (readPortList name) := by
  intro ts
  refine moved_bind (takeToken_moved _ _) ?_
  rintro ⟨opener, ts⟩
  rcases ts with _ | ⟨t, rest⟩
  · exact readPorts_moved opener []
  · simp only [Prod.map_apply, movedTokens_cons, kind_moved]
    split
    · rfl
    · exact readPorts_moved opener (t :: rest)

/-! ### Interfaces -/

/-- The interface without the place of the name. -/
def Interface.unplaced (i : Interface) : Interface := { i with nameSpan := Span.emptyAt 0 }

/-- **Moved tokens declare the same interface**, but for the place of the name, or have the same
fault. -/
theorem ofTokens_moved (place : Token → Nat) (ts : List Token) :
    Interface.unplaced <$> Interface.ofTokens (movedTokens place ts) =
      moved place Interface.unplaced (Interface.ofTokens ts) := by
  rw [Interface.ofTokens, Interface.ofTokens, findHeader?_moved]
  rcases findHeader? none ts with _ | ⟨start, name, rest⟩
  · rfl
  · simp only [Option.map_some, map_bind, text_moved]
    refine moved_bind (readParameterList_moved _) ?_
    rintro ⟨parameters, rest⟩
    refine moved_bind (readPortList_moved _ _) ?_
    rintro ⟨ports, rest⟩
    have hany : (movedTokens place rest).any (·.kind = .keyword .moduleEnd) =
        rest.any (·.kind = .keyword .moduleEnd) := List.any_map
    simp only [Prod.map_apply, hany]
    split <;> rfl

end Moved

/-! ### Texts with the same lexemes -/

/-- What a diagnostic says: the code, the message, the hint, and the messages of the related
places. -/
def Diagnostic.words (d : Diagnostic) : DiagnosticCode × String × Option String × List String :=
  (d.code, d.message, d.hint?, d.related.map RelatedPlace.message)

/-- Two results of reading a text that differ in places only. -/
def SameButPlaces : Except Diagnostic Interface → Except Diagnostic Interface → Prop
  | .ok i, .ok i' => i.name = i'.name ∧ i.ports = i'.ports ∧ i.parameters = i'.parameters
  | .error d, .error d' => d.words = d'.words
  | _, _ => False

/-- What a diagnostic says does not depend on places, nor on the size of the text. -/
theorem words_diagnostic_moved (place : Token → Nat) (size size' : Nat) (fault : Fault) :
    ((fault.moved place).diagnostic size').words = (fault.diagnostic size).words := by
  cases fault with
  | unexpected expected found => cases found <;> rfl
  | _ => rfl

/-- Tokens with the same lexemes come to the same if they are moved to one place. -/
theorem movedTokens_zero (ts : List Token) :
    movedTokens (fun _ => 0) ts = (ts.map Token.toLexeme).map fun l => ⟨l, 0⟩ := by
  rw [movedTokens, List.map_map]
  rfl

/-- **Texts whose significant tokens have the same lexemes** declare the same interface, or are
refused in the same words. -/
theorem sameButPlaces_ofText {source source' : String}
    (h : (significantTokens source).map Token.toLexeme =
      (significantTokens source').map Token.toLexeme) :
    SameButPlaces (Interface.ofText source) (Interface.ofText source') := by
  have hmoved := ofTokens_moved (fun _ => 0) (significantTokens source)
  rw [movedTokens_zero, h, ← movedTokens_zero, ofTokens_moved] at hmoved
  unfold Interface.ofText
  cases hread : Interface.ofTokens (significantTokens source) with
  | ok i =>
    cases hread' : Interface.ofTokens (significantTokens source') with
    | ok i' =>
      rw [hread, hread'] at hmoved
      have hunplaced : i'.unplaced = i.unplaced := Except.ok.inj hmoved
      have hname := congrArg Interface.name hunplaced
      have hports := congrArg Interface.ports hunplaced
      have hparameters := congrArg Interface.parameters hunplaced
      exact ⟨hname.symm, hports.symm, hparameters.symm⟩
    | error fault' =>
      rw [hread, hread'] at hmoved
      cases hmoved
  | error fault =>
    cases hread' : Interface.ofTokens (significantTokens source') with
    | ok i' =>
      rw [hread, hread'] at hmoved
      cases hmoved
    | error fault' =>
      rw [hread, hread'] at hmoved
      have hfault : fault'.moved (fun _ => 0) = fault.moved (fun _ => 0) := Except.error.inj hmoved
      show (fault.diagnostic _).words = (fault'.diagnostic _).words
      rw [← words_diagnostic_moved (fun _ => 0) _ 0 fault, ← hfault, words_diagnostic_moved]

/-! ### Edits of the layout -/

/-- **An edit of the layout changes nothing but places**: both texts declare the same name, ports
and parameters, or both are refused with the same code, message, hint and related messages. -/
theorem sameButPlaces_of_layoutEdit {source source' : String}
    (h : LayoutEdit source.toList source'.toList) :
    SameButPlaces (Interface.ofText source) (Interface.ofText source') := by
  apply sameButPlaces_ofText
  rw [map_toLexeme_significantTokens, map_toLexeme_significantTokens]
  exact h.significant_eq.symm

/-- A blank and a line end in an unfinished literal, in the range of a parameter of a text that is
refused; and a comment between the ports of a text that is accepted. -/
theorem sameButPlaces_of_layoutEdit_unfinished :
    SameButPlaces (Interface.ofText "module A#(parameter[8'q]N)();//\nendmodule")
        (Interface.ofText "module A#(parameter[8 \n'q]N)();//\nendmodule") ∧
      SameButPlaces (Interface.ofText "module A(input a//x\n);endmodule")
        (Interface.ofText "module A(input a///* (\n);endmodule") := by
  constructor
  · apply sameButPlaces_of_layoutEdit
    let ls := lexemes "module A#(parameter[8'q]N)();//\nendmodule".toList
    have htext : "module A#(parameter[8 \n'q]N)();//\nendmodule".toList =
        (ls.take 8).flatMap Lexeme.chars ++ ([' ', '\n'] ++ (ls.drop 8).flatMap Lexeme.chars) := by
      decide +kernel
    rw [htext]
    have hblank : ∀ c ∈ [' ', '\n'], isSpace c = true :=
      List.forall_mem_cons.2 ⟨rfl, List.forall_mem_singleton.2 rfl⟩
    exact .blanks (List.take_append_drop 8 ls).symm (by decide +kernel) (List.cons_ne_nil _ _)
      hblank
  · apply sameButPlaces_of_layoutEdit
    let ls := lexemes "module A(input a//x\n);endmodule".toList
    have hsplit : ls = ls.take 7 ++ ⟨.lineComment, ['/', '/', 'x']⟩ :: ls.drop 8 := by
      decide +kernel
    have htext : "module A(input a///* (\n);endmodule".toList =
        (ls.take 7).flatMap Lexeme.chars ++
          '/' :: '/' :: (['/', '*', ' ', '('] ++ (ls.drop 8).flatMap Lexeme.chars) := by
      decide +kernel
    rw [htext]
    have hline : ∀ c ∈ ['/', '*', ' ', '('], isLineEnd c = false :=
      by simp [isLineEnd]
    exact .comment hsplit hline

end HdlModule
