import HdlModule.Proofs.Grammar.Header
import HdlModule.Proofs.Grammar.Lookahead

/-!
# The tokens that faults cite

The places of a diagnostic are those of the tokens that the fault holds. These are tokens of the
text, and a fault holds them in the order in which they stand in the text: a reader passes over
the tokens from left to right and never goes back, so a token that was kept stands in front of
one that is met later.

A reader may be given tokens that stand in front of those it reads: the parenthesis that opens a
list, or the sign of a literal.

## Main definitions

* `Fault.tokens fault`: the tokens that a fault holds
* `Cites seen ts x`: a fault `x` of a reader holds tokens that it was given, `seen`, and then
  tokens of `ts`

## Main results

* `ListReader.cites`: a list cites its tokens if its items do
* `sublist_of_ofTokens`: a fault holds significant tokens, in their order
-/

namespace HdlModule

/-- The tokens that a fault holds. -/
@[simp]
def Fault.tokens : Fault → List Token
  | noHeader => []
  | unexpected _ found => found.toList
  | unclosed _ opener => [opener]
  | parameterLiteral _ literal _ => [literal]
  | valueContinues _ first last => [first, last]
  | boundLiteral literal _ => [literal]
  | ascendingRange opener closer _ _ => [opener, closer]
  | wideRange opener closer _ _ => [opener, closer]
  | noEnd start name => [start, name]

/-! ### Readers in steps -/

section Cites

variable {α β : Type} {seen seen' ts ts' : List Token}

/-- A fault holds tokens that the reader was given and tokens that it was to read, in order. -/
def Cites (seen ts : List Token) (x : Except Fault α) : Prop :=
  ∀ fault, x = .error fault → fault.tokens.Sublist (seen ++ ts)

theorem cites_ok (a : α) : Cites seen ts (.ok a) := by
  intro fault h
  cases h

theorem cites_error {fault : Fault} (h : fault.tokens.Sublist (seen ++ ts)) :
    Cites seen ts (.error fault : Except Fault α) := by
  rintro _ ⟨⟩
  exact h

/-- A fault about the end of the text holds no token. -/
theorem cites_none {fault : Fault} (h : fault.tokens = []) :
    Cites seen ts (.error fault : Except Fault α) :=
  cites_error (h ▸ List.nil_sublist _)

/-- A fault may hold the token that a reader meets. -/
theorem cites_head {fault : Fault} {t : Token} (h : fault.tokens = [t]) :
    Cites seen (t :: ts) (.error fault : Except Fault α) := by
  refine cites_error ?_
  rw [h]
  exact List.singleton_sublist.2 (List.mem_append_right seen List.mem_cons_self)

theorem Cites.mono {x : Except Fault α} (h : Cites seen ts x)
    (htokens : (seen ++ ts).Sublist (seen' ++ ts')) : Cites seen' ts' x :=
  fun fault hx => (h fault hx).trans htokens

theorem Cites.of_suffix {x : Except Fault α} (h : Cites seen ts x) (hts : ts <:+ ts') :
    Cites seen ts' x :=
  h.mono ((List.Sublist.refl seen).append hts.sublist)

/-- A token that is passed over is one that the reader behind it is given. -/
theorem Cites.behind {t : Token} {x : Except Fault α} (h : Cites (seen ++ [t]) ts x) :
    Cites seen (t :: ts) x :=
  h.mono (List.append_cons seen t ts ▸ List.Sublist.refl _)

theorem Cites.bind {x : Except Fault α} {f : α → Except Fault β} (hx : Cites seen ts x)
    (hf : ∀ a, x = .ok a → Cites seen ts (f a)) : Cites seen ts (x >>= f) := by
  cases x with
  | error fault =>
    rintro _ ⟨⟩
    exact hx fault rfl
  | ok a => exact hf a rfl

/-- What is read behind a reader that stays within its tokens cites tokens of these. -/
theorem Cites.bindWithin {x : Except Fault (α × List Token)}
    {f : α × List Token → Except Fault β} (hx : Cites seen ts x) (hwithin : Within ts x)
    (hf : ∀ a rest, Cites seen rest (f (a, rest))) : Cites seen ts (x >>= f) := by
  refine hx.bind fun s hs => ?_
  rw [hs] at hwithin
  exact (hf s.1 s.2).of_suffix hwithin

/-- The token that is taken is cited by what is read behind it. -/
theorem cites_takeToken {kind : TokenKind} {expected : Expectation}
    {f : Token × List Token → Except Fault β}
    (hf : ∀ t rest, Cites (seen ++ [t]) rest (f (t, rest))) :
    Cites seen ts (takeToken kind expected ts >>= f) := by
  cases ts with
  | nil => exact cites_none rfl
  | cons t rest =>
    rw [takeToken]
    split
    · exact (hf t rest).behind
    · exact cites_head rfl

end Cites

/-! ### Readers of parameters -/

section Parameters

variable {seen ts : List Token}

/-- The sign is put aside, and nothing else. -/
theorem toList_append_takeSign (ts : List Token) :
    (takeSign ts).1.toList ++ (takeSign ts).2 = ts := by
  unfold takeSign
  split
  · split <;> rfl
  · rfl

/-- A value that goes on is cited from its sign to the token with which it goes on. -/
theorem cites_readLiteral (parameter : String) (sign? : Option Token) (ts : List Token) :
    Cites sign?.toList ts (readLiteral parameter sign? ts) := by
  cases ts with
  | nil => exact cites_none rfl
  | cons literal rest =>
    rw [readLiteral]
    split
    · split
      · exact cites_head rfl
      · cases rest with
        | nil => exact cites_ok _
        | cons next rest =>
          dsimp only
          split
          · exact cites_ok _
          · refine cites_error ?_
            have hnext : [next].Sublist (next :: rest) :=
              List.singleton_sublist.2 List.mem_cons_self
            cases sign? with
            | none => exact hnext.cons_cons literal
            | some sign => exact (hnext.cons literal).cons_cons sign
    · exact cites_head rfl

theorem cites_readValue (parameter : String) : Cites seen ts (readValue parameter ts) := by
  refine (cites_readLiteral parameter (takeSign ts).1 (takeSign ts).2).mono ?_
  rw [toList_append_takeSign]
  exact List.sublist_append_right seen ts

theorem cites_readParameter (inherited : Option String) :
    Cites seen ts (readParameter inherited ts) := by
  have htype : (nextType inherited ts).2 <:+ ts := (decides_nextType inherited).within ts
  refine Cites.of_suffix ?_ htype
  unfold readParameter
  refine cites_takeToken fun name rest => ?_
  refine cites_takeToken fun equals rest => ?_
  exact (cites_readValue name.text).bind fun value _ => cites_ok _

end Parameters

/-! ### Lists -/

namespace ListReader

variable {α β ι : Type} (L : ListReader ι α β) {seen : List Token}

/-- **A list cites its tokens** if its items do and what opens it is among those in front. -/
theorem cites (hunclosed : L.unclosed.tokens.Sublist seen)
    (hitem : ∀ i ts, Cites seen ts (L.item i ts)) (i : ι) (ts : List Token) :
    Cites seen ts (L.read i ts) := by
  -- by the length of the tokens: what stands behind an item is shorter
  rw [L.read_eq_behind]
  refine (hitem i ts).bind fun s hs => ?_
  have hwithin : s.2 <:+ ts := by
    have h := (L.item_decides i).within ts
    rwa [hs] at h
  refine Cites.of_suffix ?_ hwithin
  have hlt := L.item_lt i ts s hs
  rcases s with ⟨a, _ | ⟨t, rest⟩⟩
  · exact cites_error (hunclosed.trans (List.sublist_append_left seen []))
  · rw [behind]
    split
    · have hrest : rest.length < ts.length := by
        rw [List.length_cons] at hlt
        omega
      have hread := cites hunclosed hitem (L.next a) rest
      exact (hread.bind fun _ _ => cites_ok _).of_suffix (List.suffix_cons t rest)
    · split
      · exact cites_ok _
      · exact cites_head rfl
termination_by ts.length

end ListReader

/-- A list that may be empty cites its tokens if one that is not does. -/
theorem cites_orEmpty {α : Type} {read : List Token → Except Fault (α × List Token)} {empty : α}
    {seen : List Token} (hread : ∀ ts, Cites seen ts (read ts)) (ts : List Token) :
    Cites seen ts (orEmpty read empty ts) := by
  unfold orEmpty
  split
  · exact hread []
  · split
    · exact cites_ok _
    · exact hread _

theorem cites_readParameterList {seen ts : List Token} :
    Cites seen ts (readParameterList ts) := by
  cases ts with
  | nil => exact cites_ok _
  | cons t rest =>
    rw [readParameterList]
    split
    · refine Cites.behind (cites_takeToken fun opener rest => ?_)
      exact cites_orEmpty ((parameterReader opener).cites (by simp [parameterReader])
        (fun inherited _ => cites_readParameter inherited) none) rest
    · exact cites_ok _

/-! ### Readers of ports -/

section Ports

variable {seen ts : List Token} {opener : Token}

theorem cites_readBound : Cites seen ts (readBound ts) := by
  cases ts with
  | nil => exact cites_none rfl
  | cons literal rest =>
    rw [readBound]
    split
    · split
      · exact cites_head rfl
      · exact cites_ok _
    · exact cites_head rfl

/-- A range is cited by its brackets. -/
theorem cites_rangeWidth {closer : Token} {high low : Nat}
    (h : [opener, closer].Sublist (seen ++ ts)) :
    Cites seen ts (rangeWidth opener closer high low) := by
  unfold rangeWidth
  split
  · exact cites_error h
  · split
    · exact cites_ok _
    · exact cites_error h

theorem cites_readRange : Cites seen ts (readRange ts) := by
  cases ts with
  | nil => exact cites_ok _
  | cons opener rest =>
    rw [readRange]
    split
    · refine Cites.behind ?_
      refine cites_readBound.bindWithin (decides_readBound.within rest) fun high rest => ?_
      refine cites_takeToken fun colon rest => ?_
      refine cites_readBound.bindWithin (decides_readBound.within rest) fun low rest => ?_
      refine cites_takeToken fun closer rest => ?_
      refine Cites.bind (cites_rangeWidth ?_) fun width _ => cites_ok _
      have hcloser : [closer].Sublist (closer :: rest) :=
        List.singleton_sublist.2 List.mem_cons_self
      simp only [List.append_assoc, List.singleton_append]
      exact ((hcloser.cons colon).cons_cons opener).trans (List.sublist_append_right seen _)
    · exact cites_ok _

theorem cites_refuseType (direction : Direction) : Cites seen ts (refuseType direction ts) := by
  cases ts with
  | nil => exact cites_ok _
  | cons t rest =>
    rw [refuseType]
    split
    · exact cites_head rfl
    · exact cites_ok _

theorem cites_readPortHead (hopener : opener ∈ seen) :
    Cites seen ts (readPortHead opener ts) := by
  cases ts with
  | nil =>
    exact cites_error (List.singleton_sublist.2 (List.mem_append_left [] hopener))
  | cons t rest =>
    rw [readPortHead]
    split
    · have hnet : (takeNet rest).2 <:+ rest := decides_takeNet.within rest
      have hsign : skipSign (takeNet rest).2 <:+ (takeNet rest).2 := decides_skipSign.within _
      refine Cites.of_suffix ?_ ((hsign.trans hnet).trans (List.suffix_cons t rest))
      refine (cites_refuseType _).bind fun _ _ => ?_
      exact cites_readRange.bind fun width _ => cites_ok _
    · exact cites_head rfl

theorem cites_readPortNames (direction : Direction) :
    Cites seen ts (readPortNames direction ts) := by
  fun_induction readPortNames direction ts with
  | case1 => exact cites_none rfl
  | case2 => exact cites_ok _
  | case3 => exact cites_head rfl
  | case4 => exact cites_ok _
  | case5 => exact cites_head rfl
  | case6 t separator next rest _ _ ih =>
    refine (ih.bind fun names _ => cites_ok _).of_suffix ?_
    exact (List.suffix_cons separator _).trans (List.suffix_cons t _)
  | case7 => exact cites_ok _
  | case8 => exact cites_head rfl

theorem cites_readPortDeclaration (hopener : opener ∈ seen) :
    Cites seen ts (readPortDeclaration opener ts) := by
  unfold readPortDeclaration
  refine (cites_readPortHead hopener).bindWithin ((decides_readPortHead opener).within ts) ?_
  intro head rest
  exact (cites_readPortNames head.direction).bind fun names _ => cites_ok _

theorem cites_readPortList (name : String) : Cites seen ts (readPortList name ts) := by
  unfold readPortList
  refine cites_takeToken fun opener rest => ?_
  have hopener : opener ∈ seen ++ [opener] := List.mem_append_right seen List.mem_cons_self
  exact cites_orEmpty ((portReader opener).cites (List.singleton_sublist.2 hopener)
    (fun _ _ => cites_readPortDeclaration hopener) ()) rest

end Ports

/-! ### Interfaces -/

/-- **A fault holds tokens of the text in their order.** -/
theorem sublist_of_ofTokens {ts : List Token} {fault : Fault}
    (h : Interface.ofTokens ts = .error fault) : fault.tokens.Sublist ts := by
  have hcites : Cites [] ts (Interface.ofTokens ts) := by
    unfold Interface.ofTokens
    split
    · exact cites_error (List.nil_sublist _)
    · next start name rest hfound =>
      obtain ⟨pre, rfl, -⟩ := findHeader?_eq_some_iff.1 hfound
      suffices hlists : Cites [start, name] rest _ from
        hlists.mono (List.sublist_append_right pre _)
      refine cites_readParameterList.bindWithin (decides_readParameterList.within rest) ?_
      intro parameters rest
      refine (cites_readPortList name.text).bind fun ports _ => ?_
      dsimp only
      split
      · exact cites_ok _
      · exact cites_error (List.sublist_append_left [start, name] rest)
  exact hcites fault h

end HdlModule
