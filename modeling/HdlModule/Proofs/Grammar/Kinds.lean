import HdlModule.Proofs.Grammar.Module

/-!
# The kinds of lexemes in lists

The lists of a header have lexemes of few kinds. Only in the range of a parameter, which is not
read, may any lexeme stand. So a kind that has no place in lists is found there in ranges or not
at all.

## Main definitions

* `TokenKind.standsInLists`: the kinds that the grammar of both lists speaks of
* `InRange l ls`: the lexeme stands behind a bracket that is not closed in front of it

## Main results

* `PortSection.inLists`: all lexemes of a port list are of these kinds
* `ParameterSection.placed`: the other lexemes of a parameter list stand in ranges
-/

namespace HdlModule

/-- Whether the grammar of parameter lists and port lists speaks of the kind. -/
def TokenKind.standsInLists : TokenKind → Bool
  | identifier | integer | basedInteger | leftParen | rightParen | leftBracket | rightBracket
  | semicolon | colon | comma | equals | hash | plus | minus => true
  | keyword .parameter | keyword (.direction _) | keyword (.net _) | keyword (.sign _)
  | keyword (.integerType _) => true
  | _ => false

section Lists

variable {l : Lexeme} {ls ls' : List Lexeme}

/-- All lexemes are of kinds that stand in lists. -/
def InLists (ls : List Lexeme) : Prop := ∀ l ∈ ls, l.kind.standsInLists = true

@[simp]
theorem inLists_nil : InLists [] := by simp [InLists]

@[simp]
theorem inLists_cons : InLists (l :: ls) ↔ l.kind.standsInLists = true ∧ InLists ls :=
  List.forall_mem_cons

@[simp]
theorem inLists_append : InLists (ls ++ ls') ↔ InLists ls ∧ InLists ls' := List.forall_mem_append

theorem IntegerLiteral.standsInLists {n : Nat} (h : IntegerLiteral l n) :
    l.kind.standsInLists = true := by
  obtain ⟨hkind, -⟩ := h
  unfold TokenKind.isInteger at hkind
  split at hkind
  · next hl => rw [hl]; rfl
  · next hl => rw [hl]; rfl
  · cases hkind

theorem standsInLists_of_isSign {k : TokenKind} (hk : k.isSign = true) :
    k.standsInLists = true := by
  obtain ⟨sign, rfl⟩ := exists_sign_of_isSign hk
  rfl

theorem standsInLists_of_isParameterType {k : TokenKind} (hk : k.isParameterType = true) :
    k.standsInLists = true := by
  unfold TokenKind.isParameterType at hk
  split at hk
  · rfl
  · rfl
  · rfl
  · cases hk

theorem OptionalKeyword.inLists {p : TokenKind → Bool} {parts : List String}
    (h : OptionalKeyword p ls parts) (hp : ∀ k, p k = true → k.standsInLists = true) :
    InLists ls := by
  cases h with
  | absent => exact inLists_nil
  | present hl => exact inLists_cons.2 ⟨hp _ hl, inLists_nil⟩

/-! ### Port lists -/

theorem PortNet.inLists {net : NetKind} (h : PortNet ls net) : InLists ls := by
  cases h with
  | absent => exact inLists_nil
  | present hl => simp +decide [hl, TokenKind.standsInLists]

theorem PortRange.inLists {width : Width} (h : PortRange ls width) : InLists ls := by
  cases h with
  | absent => exact inLists_nil
  | present hopener hhigh hcolon hlow hcloser =>
    simp +decide [hopener, hhigh.standsInLists, hcolon, hlow.standsInLists, hcloser]

theorem PortNames.inLists {names : List String} (h : PortNames ls names) : InLists ls := by
  induction h with
  | last hl => simp +decide [hl]
  | cons hl hseparator _ ih => simp +decide [hl, hseparator, ih]

theorem PortDeclaration.inLists {ports : List Port} (h : PortDeclaration ls ports) :
    InLists ls := by
  obtain ⟨hkeyword, hnets, hsigns, hrange, hnames⟩ := h
  simp +decide [hkeyword, TokenKind.standsInLists, hnets.inLists,
    hsigns.inLists fun _ => standsInLists_of_isSign, hrange.inLists, hnames.inLists]

theorem PortDeclarations.inLists {ports : List Port} (h : PortDeclarations ls ports) :
    InLists ls := by
  induction h with
  | last hports => exact hports.inLists
  | cons hports hseparator _ ih =>
    rcases hseparator with hcomma | hsemicolon
    · simp +decide [hports.inLists, hcomma, ih]
    · simp +decide [hports.inLists, hsemicolon, ih]

/-- **All lexemes of a port list are of kinds that stand in lists.** -/
theorem PortSection.inLists {ports : List Port} (h : PortSection ls ports) : InLists ls := by
  cases h with
  | empty hopener hcloser => simp +decide [hopener, hcloser]
  | list hopener hports hcloser => simp +decide [hopener, hports.inLists, hcloser]

/-! ### Parameter lists -/

/-- The lexeme stands behind a bracket that is opened and not closed in front of it. -/
def InRange (l : Lexeme) (ls : List Lexeme) : Prop :=
  ∃ front opener inside behind, ls = front ++ opener :: (inside ++ l :: behind) ∧
    opener.kind = .leftBracket ∧ ∀ l' ∈ inside, l'.kind ≠ .rightBracket

theorem InRange.mem (h : InRange l ls) : l ∈ ls := by
  obtain ⟨front, opener, inside, behind, rfl, -⟩ := h
  simp

theorem InRange.append_left (h : InRange l ls) (ls' : List Lexeme) : InRange l (ls' ++ ls) := by
  obtain ⟨front, opener, inside, behind, rfl, hopener, hinside⟩ := h
  exact ⟨ls' ++ front, opener, inside, behind, by simp, hopener, hinside⟩

theorem InRange.append_right (h : InRange l ls) (ls' : List Lexeme) : InRange l (ls ++ ls') := by
  obtain ⟨front, opener, inside, behind, rfl, hopener, hinside⟩ := h
  exact ⟨front, opener, inside, behind ++ ls', by simp, hopener, hinside⟩

/-- What stands between the brackets of a range stands in a range. -/
theorem inRange_of_mem {opener : Lexeme} (hopener : opener.kind = .leftBracket)
    (hls : ∀ l ∈ ls, l.kind ≠ .rightBracket) (hl : l ∈ ls) (behind : List Lexeme) :
    InRange l (opener :: (ls ++ behind)) := by
  obtain ⟨inside, rest, rfl⟩ := List.append_of_mem hl
  exact ⟨[], opener, inside, rest ++ behind, by simp, hopener,
    fun l' hl' => hls l' (List.mem_append_left _ hl')⟩

/-- The lexemes are of kinds that stand in lists, or they stand in ranges. -/
def Placed (ls : List Lexeme) : Prop := ∀ l ∈ ls, l.kind.standsInLists = true ∨ InRange l ls

theorem InLists.placed (h : InLists ls) : Placed ls := fun l hl => Or.inl (h l hl)

theorem Placed.append (h : Placed ls) (h' : Placed ls') : Placed (ls ++ ls') := by
  intro l hl
  rcases List.mem_append.1 hl with hl | hl
  · exact (h l hl).imp_right fun hrange => hrange.append_right ls'
  · exact (h' l hl).imp_right fun hrange => hrange.append_left ls

theorem placed_singleton (hl : l.kind.standsInLists = true) : Placed [l] :=
  InLists.placed (inLists_cons.2 ⟨hl, inLists_nil⟩)

theorem Placed.cons (h : Placed ls) (hl : l.kind.standsInLists = true) : Placed (l :: ls) :=
  (placed_singleton hl).append h

theorem BracketRange.placed {parts : List String} (h : BracketRange ls parts) : Placed ls := by
  cases h with
  | absent => exact InLists.placed inLists_nil
  | @present opener closer ls hopener hls hcloser =>
    intro l hl
    rcases List.mem_cons.1 hl with rfl | hl
    · exact Or.inl (by simp +decide [hopener])
    · rcases List.mem_append.1 hl with hl | hl
      · exact Or.inr (inRange_of_mem hopener hls hl [closer])
      · obtain rfl := List.mem_singleton.1 hl
        exact Or.inl (by simp +decide [hcloser])

theorem ParameterStyle.placed {inherited type? : Option String}
    (h : ParameterStyle inherited ls type?) : Placed ls := by
  cases h with
  | inherits => exact InLists.placed inLists_nil
  | declares hkeyword htypes hsigns hrange =>
    have htypes := htypes.inLists fun _ => standsInLists_of_isParameterType
    have hsigns := hsigns.inLists fun _ => standsInLists_of_isSign
    exact (htypes.placed.append (hsigns.placed.append hrange.placed)).cons (by rw [hkeyword]; rfl)

theorem ParameterValue.inLists {value : Int64} (h : ParameterValue ls value) : InLists ls := by
  cases h with
  | plain hl => simp [hl.standsInLists]
  | plus hs hl => simp +decide [hs, hl.standsInLists]
  | minus hs hl => simp +decide [hs, hl.standsInLists]

theorem ParameterDeclaration.placed {inherited : Option String} {parameter : Parameter}
    (h : ParameterDeclaration inherited ls parameter) : Placed ls := by
  cases h with
  | mk hstyle hname hequals hvalue =>
    refine hstyle.placed.append (InLists.placed ?_)
    simp +decide [hname, hequals, hvalue.inLists]

theorem ParameterDeclarations.placed {inherited : Option String} {parameters : List Parameter}
    (h : ParameterDeclarations inherited ls parameters) : Placed ls := by
  induction h with
  | last hp => exact hp.placed
  | cons hp hseparator _ ih => exact hp.placed.append (ih.cons (by rw [hseparator]; rfl))

/-- **The lexemes of a parameter list** are of kinds that stand in lists, or they stand in
ranges. -/
theorem ParameterSection.placed {parameters : List Parameter}
    (h : ParameterSection ls parameters) : Placed ls := by
  cases h with
  | absent => exact InLists.placed inLists_nil
  | empty hhash hopener hcloser => exact InLists.placed (by simp +decide [hhash, hopener, hcloser])
  | list hhash hopener hps hcloser =>
    have hclosed := hps.placed.append (placed_singleton (by rw [hcloser]; rfl))
    exact (hclosed.cons (by rw [hopener]; rfl)).cons (by rw [hhash]; rfl)

end Lists

end HdlModule
