import HdlModule.Proofs.LegalName
import HdlModule.Proofs.Lexing.Rules

/-!
# The grammar of names

The legal names are the words of a regular language without the reserved words. A name that is
refused may break several rules at once. The rules have an order, and the name is refused for the
first one that it breaks.

Underscores stand between groups of letters and digits. So a name can be read group by group, or
its underscores can be looked at one by one: there is none at the end, and no two are neighbours.

## Main definitions

* `nameWords`: the words `[A-Za-z][A-Za-z0-9]*(_[A-Za-z0-9]+)*`
* `Breaks cs reason`, `HasFault shown name e`: a rule that a name breaks, whatever the others
* `MalformedName.rank`, `NameError.rank`: the order of the rules

## Main results

* `nameShape_eq_ok_iff`: the names that break no rule of the grammar are the words of the language
* `validateName_exact`: the legal names, and the reason for which any other name is refused
-/

open Computability

namespace HdlModule

/-! ### Names as a regular language -/

/-- What may stand behind the first letter of a name: letters and digits, and then groups of these
with an underscore in front of each. -/
def nameTails : Language Char :=
  (letters + digits)∗ * (oneOf "_" * oneOrMore (letters + digits))∗

/-- The words `[A-Za-z][A-Za-z0-9]*(_[A-Za-z0-9]+)*`. -/
def nameWords : Language Char := letters * nameTails

section Words

variable {c : Char} {cs : List Char}

theorem singleton_mem_charWords {p : Char → Bool} : [c] ∈ charWords p ↔ p c = true := by
  constructor
  · rintro ⟨d, hd, hp⟩
    rwa [List.singleton_inj.1 hd]
  · exact fun hp => ⟨c, rfl, hp⟩

theorem alphanumerics_eq : letters + digits = charWords Char.isAlphanum := by
  rw [letters_eq, digits_eq, charWords_add]
  rfl

theorem nameCharacters_eq : letters + digits + oneOf "_" = charWords isNameChar := directiveParts_eq

/-- A tail is empty, or it goes on behind a letter or a digit, which may have an underscore in
front. -/
theorem nameTails_eq :
    nameTails = 1 + (charWords Char.isAlphanum * nameTails +
      oneOf "_" * (charWords Char.isAlphanum * nameTails)) := by
  have hgroups : (oneOf "_" * oneOrMore (letters + digits))∗ =
      1 + oneOf "_" * (charWords Char.isAlphanum * nameTails) := by
    conv_lhs => rw [← Language.one_add_self_mul_kstar_eq_kstar]
    rw [nameTails, oneOrMore, alphanumerics_eq]
    simp only [mul_assoc]
  conv_lhs => rw [nameTails, ← Language.one_add_self_mul_kstar_eq_kstar]
  rw [add_mul, one_mul, mul_assoc, ← nameTails, hgroups, alphanumerics_eq, add_assoc,
    add_comm (oneOf "_" * _)]

theorem mem_nameTails_iff :
    cs ∈ nameTails ↔ cs = [] ∨
      (∃ c ds, cs = c :: ds ∧ c.isAlphanum = true ∧ ds ∈ nameTails) ∨
      ∃ c ds, cs = '_' :: c :: ds ∧ c.isAlphanum = true ∧ ds ∈ nameTails := by
  conv_lhs => rw [nameTails_eq]
  rw [Language.mem_add, Language.mem_add, Language.mem_one, mem_charWords_mul,
    mem_oneOf_mul String.toList_ofList]
  simp only [mem_charWords_mul]
  refine or_congr_right (or_congr_right ?_)
  constructor
  · rintro ⟨_, rfl, c, ds, rfl, hc, hds⟩
    exact ⟨c, ds, rfl, hc, hds⟩
  · rintro ⟨c, ds, rfl, hc, hds⟩
    exact ⟨_, rfl, c, ds, rfl, hc, hds⟩

theorem nil_mem_nameTails : [] ∈ nameTails := mem_nameTails_iff.2 (Or.inl rfl)

theorem cons_mem_nameTails_iff (hc : c.isAlphanum = true) :
    c :: cs ∈ nameTails ↔ cs ∈ nameTails := by
  rw [mem_nameTails_iff]
  constructor
  · rintro (h | ⟨_, _, h, -, hds⟩ | ⟨_, _, h, -, -⟩)
    · cases h
    · rwa [(List.cons.inj h).2]
    · rw [(List.cons.inj h).1] at hc
      cases hc
  · exact fun hcs => Or.inr (Or.inl ⟨c, cs, rfl, hc, hcs⟩)

theorem underscore_mem_nameTails_iff :
    '_' :: cs ∈ nameTails ↔ ∃ c ds, cs = c :: ds ∧ c.isAlphanum = true ∧ ds ∈ nameTails := by
  rw [mem_nameTails_iff]
  constructor
  · rintro (h | ⟨_, _, h, hc, -⟩ | ⟨c, ds, h, hc, hds⟩)
    · cases h
    · rw [← (List.cons.inj h).1] at hc
      cases hc
    · exact ⟨c, ds, (List.cons.inj h).2, hc, hds⟩
  · rintro ⟨c, ds, rfl, hc, hds⟩
    exact Or.inr (Or.inr ⟨c, ds, rfl, hc, hds⟩)

end Words

/-! ### Underscores one by one -/

/-- The characters may stand in a name, and each underscore has another character behind it. -/
structure Separated (cs : List Char) : Prop where
  isNameChar : ∀ c ∈ cs, isNameChar c = true
  getLast?_ne : cs.getLast? ≠ some '_'
  alone : hasDoubleUnderscore cs = false

section Separated

variable {c d : Char} {cs : List Char}

theorem isNameChar_iff : isNameChar c = true ↔ c.isAlphanum = true ∨ c = '_' := by
  rw [isNameChar, Bool.or_eq_true, beq_iff_eq]

theorem ne_underscore_of_isAlphanum (hc : c.isAlphanum = true) : c ≠ '_' := by
  rintro rfl
  cases hc

theorem hasDoubleUnderscore_cons_of_ne (hc : c ≠ '_') :
    hasDoubleUnderscore (c :: cs) = hasDoubleUnderscore cs := by
  cases cs with
  | nil => rfl
  | cons d cs => simp [hasDoubleUnderscore, hc]

theorem separated_nil : Separated [] := ⟨List.forall_mem_nil _, by simp, rfl⟩

/-- A letter or a digit in front does not matter. -/
theorem separated_cons_iff (hc : c.isAlphanum = true) : Separated (c :: cs) ↔ Separated cs := by
  have hne := ne_underscore_of_isAlphanum hc
  have hlast : (c :: cs).getLast? = some '_' ↔ cs.getLast? = some '_' := by
    rw [List.getLast?_cons]
    cases cs.getLast? <;> simp [hne]
  constructor
  · intro h
    exact ⟨(List.forall_mem_cons.1 h.isNameChar).2, mt hlast.2 h.getLast?_ne,
      (hasDoubleUnderscore_cons_of_ne hne).symm.trans h.alone⟩
  · intro h
    exact ⟨List.forall_mem_cons.2 ⟨isNameChar_iff.2 (Or.inl hc), h.isNameChar⟩,
      mt hlast.1 h.getLast?_ne, (hasDoubleUnderscore_cons_of_ne hne).trans h.alone⟩

theorem separated_underscore_iff :
    Separated ('_' :: cs) ↔ ∃ d ds, cs = d :: ds ∧ d.isAlphanum = true ∧ Separated (d :: ds) := by
  constructor
  · intro h
    cases cs with
    | nil => exact absurd rfl h.getLast?_ne
    | cons d ds =>
      have hname := (List.forall_mem_cons.1 h.isNameChar).2
      have halone : (d == '_') = false ∧ hasDoubleUnderscore (d :: ds) = false := by
        simpa [hasDoubleUnderscore] using h.alone
      have hd : d.isAlphanum = true :=
        (isNameChar_iff.1 (List.forall_mem_cons.1 hname).1).resolve_right
          (beq_eq_false_iff_ne.1 halone.1)
      have hlast : (d :: ds).getLast? ≠ some '_' := by
        simpa using h.getLast?_ne
      exact ⟨d, ds, rfl, hd, hname, hlast, halone.2⟩
  · rintro ⟨d, ds, rfl, hd, h⟩
    have halone : hasDoubleUnderscore ('_' :: d :: ds) = false := by
      simp [hasDoubleUnderscore, ne_underscore_of_isAlphanum hd, h.alone]
    exact ⟨List.forall_mem_cons.2 ⟨rfl, h.isNameChar⟩, by simpa using h.getLast?_ne, halone⟩

/-- **Groups behind underscores, or underscores one by one.** -/
theorem mem_nameTails_iff_separated : cs ∈ nameTails ↔ Separated cs := by
  induction cs with
  | nil => exact iff_of_true nil_mem_nameTails separated_nil
  | cons c cs ih =>
    by_cases hc : c.isAlphanum = true
    · rw [cons_mem_nameTails_iff hc, separated_cons_iff hc, ih]
    · by_cases hunderscore : c = '_'
      · subst hunderscore
        rw [underscore_mem_nameTails_iff, separated_underscore_iff]
        refine exists_congr fun d => exists_congr fun ds => and_congr_right ?_
        rintro rfl
        refine and_congr_right fun hd => ?_
        rw [← ih, cons_mem_nameTails_iff hd]
      · refine iff_of_false (fun h => ?_) fun h => ?_
        · obtain h | ⟨_, _, h, hd, -⟩ | ⟨_, _, h, -, -⟩ := mem_nameTails_iff.1 h
          · cases h
          · rw [← (List.cons.inj h).1] at hd
            exact hc hd
          · exact hunderscore (List.cons.inj h).1
        · obtain hd | hd := isNameChar_iff.1 (h.isNameChar c List.mem_cons_self)
          · exact hc hd
          · exact hunderscore hd

end Separated

/-! ### The rules in order -/

/-- The characters of names stand in front of the first one that may not stand there. -/
def FirstInvalid (cs : List Char) (bad : Char) : Prop :=
  ∃ pre post, cs = pre ++ bad :: post ∧ (∀ c ∈ pre, [c] ∈ letters + digits + oneOf "_") ∧
    [bad] ∉ letters + digits + oneOf "_"

/-- A rule of the grammar that a name breaks, whatever the other rules. -/
inductive Breaks (name : List Char) : MalformedName → Prop
  | empty (hname : name = []) : Breaks name .empty
  | leadingNonLetter {c : Char} {cs : List Char} (hname : name = c :: cs) (hc : [c] ∉ letters) :
      Breaks name .leadingNonLetter
  | invalidCharacter {c bad : Char} {cs : List Char} (hname : name = c :: cs)
      (hbad : FirstInvalid cs bad) : Breaks name (.invalidCharacter bad)
  | trailingUnderscore {pre : List Char} (hname : name = pre ++ ['_']) :
      Breaks name .trailingUnderscore
  | doubleUnderscore {pre post : List Char} (hname : name = pre ++ '_' :: '_' :: post) :
      Breaks name .doubleUnderscore

/-- The place of a rule of the grammar in the order. -/
def MalformedName.rank : MalformedName → Nat
  | .empty => 0
  | .leadingNonLetter => 1
  | .invalidCharacter _ => 2
  | .trailingUnderscore => 3
  | .doubleUnderscore => 4

section Rules

variable {cs name : List Char} {reason reason' : MalformedName}

theorem hasDoubleUnderscore_iff :
    hasDoubleUnderscore cs = true ↔ ∃ pre post, cs = pre ++ '_' :: '_' :: post := by
  fun_induction hasDoubleUnderscore cs with
  | case1 c d cs ih =>
    rw [Bool.or_eq_true, ih, Bool.and_eq_true, beq_iff_eq, beq_iff_eq]
    constructor
    · rintro (⟨rfl, rfl⟩ | ⟨pre, post, hcs⟩)
      · exact ⟨[], cs, rfl⟩
      · exact ⟨c :: pre, post, by rw [hcs, List.cons_append]⟩
    · rintro ⟨pre, post, hcs⟩
      cases pre with
      | nil =>
        obtain ⟨hc, hcs⟩ := List.cons.inj hcs
        exact Or.inl ⟨hc, (List.cons.inj hcs).1⟩
      | cons x pre => exact Or.inr ⟨pre, post, (List.cons.inj hcs).2⟩
  | case2 cs hshort =>
    simp only [Bool.false_eq_true, false_iff]
    rintro ⟨pre, post, rfl⟩
    rcases pre with _ | ⟨x, _ | ⟨y, pre⟩⟩
    · exact hshort '_' '_' post rfl
    · exact hshort x '_' ('_' :: post) rfl
    · exact hshort x y (pre ++ '_' :: '_' :: post) rfl

theorem find?_eq_some_iff_firstInvalid {bad : Char} :
    cs.find? (!isNameChar ·) = some bad ↔ FirstInvalid cs bad := by
  simp only [FirstInvalid, nameCharacters_eq, singleton_mem_charWords,
    List.find?_eq_some_iff_append, Bool.not_eq_true', Bool.not_eq_true, Bool.not_not]
  constructor
  · rintro ⟨hbad, pre, post, hcs, hpre⟩
    exact ⟨pre, post, hcs, hpre, hbad⟩
  · rintro ⟨pre, post, hcs, hpre, hbad⟩
    exact ⟨hbad, pre, post, hcs, hpre⟩

theorem letter_iff {c : Char} : [c] ∈ letters ↔ c.isAlpha = true := by
  rw [letters_eq, singleton_mem_charWords]

/-- A name is refused for a rule that it breaks. -/
theorem breaks_of_nameShape (h : nameShape name = .error reason) : Breaks name reason := by
  unfold nameShape at h
  split at h
  · cases h
    exact .empty rfl
  · next c cs =>
    split at h
    · next hc =>
      cases h
      exact .leadingNonLetter rfl (mt letter_iff.1 (by simpa using hc))
    · split at h
      · next bad hbad =>
        cases h
        exact .invalidCharacter rfl (find?_eq_some_iff_firstInvalid.1 hbad)
      · split at h
        · next hlast =>
          cases h
          obtain ⟨pre, hname⟩ := List.getLast?_eq_some_iff.1 hlast
          exact .trailingUnderscore hname
        · split at h
          · next hdouble =>
            cases h
            obtain ⟨pre, post, hname⟩ := hasDoubleUnderscore_iff.1 hdouble
            exact .doubleUnderscore hname
          · cases h

/-- A name that breaks a rule is refused, for this rule or for one in front of it. -/
theorem exists_nameShape_of_breaks (h : Breaks name reason) :
    ∃ first, nameShape name = .error first ∧ first.rank ≤ reason.rank := by
  -- the rules in front of the broken one are gone through until one of them is broken as well
  cases h with
  | empty hname =>
    subst hname
    exact ⟨_, rfl, le_rfl⟩
  | leadingNonLetter hname hc =>
    subst hname
    exact ⟨_, if_pos (by simpa using mt letter_iff.2 hc), le_rfl⟩
  | invalidCharacter hname hbad =>
    subst hname
    simp only [nameShape, find?_eq_some_iff_firstInvalid.2 hbad]
    split
    · exact ⟨_, rfl, (by decide : 1 ≤ 2)⟩
    · exact ⟨_, rfl, le_rfl⟩
  | trailingUnderscore hname =>
    have hlast : name.getLast? = some '_' := List.getLast?_eq_some_iff.2 ⟨_, hname⟩
    cases name with
    | nil => exact ⟨_, rfl, (by decide : 0 ≤ 3)⟩
    | cons c cs =>
      simp only [nameShape, if_pos hlast]
      split
      · exact ⟨_, rfl, (by decide : 1 ≤ 3)⟩
      · split
        · exact ⟨_, rfl, (by decide : 2 ≤ 3)⟩
        · exact ⟨_, rfl, le_rfl⟩
  | doubleUnderscore hname =>
    have hdouble : hasDoubleUnderscore name = true := hasDoubleUnderscore_iff.2 ⟨_, _, hname⟩
    cases name with
    | nil => exact ⟨_, rfl, (by decide : 0 ≤ 4)⟩
    | cons c cs =>
      simp only [nameShape, if_pos hdouble]
      split
      · exact ⟨_, rfl, (by decide : 1 ≤ 4)⟩
      · split
        · exact ⟨_, rfl, (by decide : 2 ≤ 4)⟩
        · split
          · exact ⟨_, rfl, (by decide : 3 ≤ 4)⟩
          · exact ⟨_, rfl, le_rfl⟩

/-- Two rules of the same place are the same rule, for the same character. -/
theorem Breaks.eq_of_rank_eq (h : Breaks name reason) (h' : Breaks name reason')
    (hrank : reason.rank = reason'.rank) : reason = reason' := by
  cases h with
  | invalidCharacter hname hbad =>
    cases h' with
    | invalidCharacter hname' hbad' =>
      obtain ⟨-, rfl⟩ := List.cons.inj (hname.symm.trans hname')
      rw [← find?_eq_some_iff_firstInvalid] at hbad hbad'
      rw [Option.some.inj (hbad.symm.trans hbad')]
    | _ => cases hrank
  | _ =>
    cases h' with
    | invalidCharacter => cases hrank
    | _ => first | rfl | cases hrank

theorem nameShape_cons_eq_ok_iff {c : Char} :
    nameShape (c :: cs) = .ok () ↔ c.isAlpha = true ∧ Separated (c :: cs) := by
  have hfind : cs.find? (!isNameChar ·) = none ↔ ∀ d ∈ cs, isNameChar d = true := by simp
  rw [nameShape]
  constructor
  · intro h
    split at h
    · cases h
    · next hletter =>
      have hc : c.isAlpha = true := by simpa using hletter
      have hname : isNameChar c = true :=
        isNameChar_iff.2 (Or.inl (Bool.or_eq_true_iff.2 (Or.inl hc)))
      split at h
      · cases h
      · next hnone =>
        split at h
        · cases h
        · next hlast =>
          split at h
          · cases h
          · next hdouble =>
            exact ⟨hc, List.forall_mem_cons.2 ⟨hname, hfind.1 hnone⟩, hlast, by simpa using hdouble⟩
  · rintro ⟨hc, h⟩
    have hnone := hfind.2 (List.forall_mem_cons.1 h.isNameChar).2
    simp [hc, hnone, h.getLast?_ne, h.alone]

/-- **The names that break no rule of the grammar are the words of the language.** -/
theorem nameShape_eq_ok_iff : nameShape name = .ok () ↔ name ∈ nameWords := by
  rw [nameWords, letters_eq, mem_charWords_mul]
  constructor
  · intro h
    cases name with
    | nil => cases h
    | cons c cs =>
      obtain ⟨hc, hcs⟩ := nameShape_cons_eq_ok_iff.1 h
      have hc' : c.isAlphanum = true := Bool.or_eq_true_iff.2 (Or.inl hc)
      exact ⟨c, cs, rfl, hc, mem_nameTails_iff_separated.2 ((separated_cons_iff hc').1 hcs)⟩
  · rintro ⟨c, cs, rfl, hc, hcs⟩
    have hc' : c.isAlphanum = true := Bool.or_eq_true_iff.2 (Or.inl hc)
    exact nameShape_cons_eq_ok_iff.2
      ⟨hc, (separated_cons_iff hc').2 (mem_nameTails_iff_separated.1 hcs)⟩

end Rules

/-! ### Refused names -/

/-- Something that is wrong with a name, whatever else is. A reserved word is shown in the case of
keywords. -/
inductive HasFault (shown : KeywordCase) (name : String) : NameError → Prop
  | malformed {reason : MalformedName} (h : Breaks name.toList reason) :
      HasFault shown name (.malformed name reason)
  | reserved (h : name.toLower ∈ reservedKeywords) :
      HasFault shown name (.reserved name (shown.apply name))

/-- The place of a fault in the order. The grammar comes first. -/
def NameError.rank : NameError → Nat
  | .malformed _ reason => reason.rank
  | .reserved _ _ => 5
  | .duplicate _ => 6

section Names

variable {shown : KeywordCase} {name : String} {e e' : NameError}

theorem MalformedName.rank_lt (reason : MalformedName) : reason.rank < 5 := by
  cases reason with
  | invalidCharacter => exact (by decide : 2 < 5)
  | _ => decide

/-- A name is refused for something that is wrong with it. -/
theorem hasFault_of_validateName (h : validateName shown name = .error e) :
    HasFault shown name e := by
  unfold validateName at h
  split at h
  · next hshape =>
    cases h
    exact .malformed (breaks_of_nameShape hshape)
  · split at h
    · next hreserved =>
      cases h
      exact .reserved (isReserved_iff.1 hreserved)
    · cases h

/-- A name with a fault is refused, for this fault or for one in front of it. -/
theorem exists_validateName_of_hasFault (h : HasFault shown name e) :
    ∃ first, validateName shown name = .error first ∧ first.rank ≤ e.rank := by
  cases h with
  | malformed hbreaks =>
    obtain ⟨first, hshape, hrank⟩ := exists_nameShape_of_breaks hbreaks
    exact ⟨.malformed name first, by rw [validateName, hshape], hrank⟩
  | reserved hmem =>
    cases hshape : nameShape name.toList with
    | error first =>
      exact ⟨.malformed name first, by rw [validateName, hshape], first.rank_lt.le⟩
    | ok _ =>
      refine ⟨.reserved name (shown.apply name), ?_, le_rfl⟩
      rw [validateName, hshape]
      exact if_pos (isReserved_iff.2 hmem)

theorem HasFault.eq_of_rank_eq (h : HasFault shown name e) (h' : HasFault shown name e')
    (hrank : e.rank = e'.rank) : e = e' := by
  cases h with
  | malformed hbreaks =>
    cases h' with
    | malformed hbreaks' => rw [hbreaks.eq_of_rank_eq hbreaks' hrank]
    | reserved => exact absurd hrank (MalformedName.rank_lt _).ne
  | reserved =>
    cases h' with
    | malformed => exact absurd hrank (MalformedName.rank_lt _).ne'
    | reserved => rfl

/-- **A name is legal if it is a word of the language and no reserved word, and any other name is
refused for the first of its faults.** A word is found in the table of reserved words if it is
there, whatever the case of its letters. -/
theorem validateName_exact (shown : KeywordCase) (name : String) :
    (validateName shown name = .ok () ↔
      name.toList ∈ nameWords ∧ name.toLower ∉ reservedKeywords) ∧
    (∀ e, validateName shown name = .error e ↔
      HasFault shown name e ∧ ∀ e', HasFault shown name e' → e.rank ≤ e'.rank) ∧
    (isReserved name = true ↔ name.toLower ∈ reservedKeywords) := by
  refine ⟨?_, fun e => ⟨fun h => ⟨hasFault_of_validateName h, fun e' h' => ?_⟩, ?_⟩,
    isReserved_iff⟩
  · rw [validateName_eq_ok_iff, nameShape_eq_ok_iff, ← isReserved_iff, Bool.not_eq_true]
  · obtain ⟨first, hfirst, hrank⟩ := exists_validateName_of_hasFault h'
    rwa [Except.error.inj (h.symm.trans hfirst)]
  · rintro ⟨hfault, hleast⟩
    obtain ⟨first, hfirst, hrank⟩ := exists_validateName_of_hasFault hfault
    have hfault' := hasFault_of_validateName hfirst
    rw [hfirst, hfault'.eq_of_rank_eq hfault (le_antisymm hrank (hleast first hfault'))]

/-- Of three faults, the character comes first. -/
example : validateName .lower "a-b__" = .error (.malformed "a-b__" (.invalidCharacter '-')) := by
  decide

end Names

end HdlModule
