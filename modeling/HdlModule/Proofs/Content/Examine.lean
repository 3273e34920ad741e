import HdlModule.Content.Edit
import HdlModule.Proofs.LegalName

/-!
# What an accepted edit has passed

A text is accepted if the checker accepts it, if an interface can be read from it and if the
names in the interface are legal, the name of the module being new in the design unless the
content has it already. Edits are described here by these conditions, without the order in which
they are tried.

## Main definitions

* `Environment.CheckEnds env text`: the check of a text comes to an end

## Main results

* `Environment.checkEnds_iff`: the checks from which an outcome follows
* `Content.examine_eq_ok_iff`: the conditions under which a text is accepted
* `Content.setText_eq`, `Content.review_of_ok`, `Content.review_of_error`: the cases of an edit
* `Content.rename_name_self`, `Content.rename_of_judgeName_error`, `Content.rename_eq_setText`:
  the cases of a change of the name
-/

namespace HdlModule

theorem mapError_eq_ok_iff {ε ε' α : Type} {x : Except ε α} {f : ε → ε'} {a : α} :
    x.mapError f = .ok a ↔ x = .ok a := by
  cases x with
  | error e =>
    constructor
    · intro h
      cases h
    · intro h
      cases h
  | ok b =>
    constructor
    · intro h
      cases h
      rfl
    · intro h
      cases h
      rfl

theorem eq_ok_of_isOk {ε : Type} {x : Except ε Unit} (h : x.isOk = true) : x = .ok () := by
  cases x with
  | error e => cases h
  | ok u => rfl

namespace Environment

variable {env : Environment}

/-- The check of a text comes to an end: it has a limit, or the checker accepts the text or refuses
it. -/
def CheckEnds (env : Environment) (text : String) : Prop :=
  ∀ checker ∈ env.checker?, env.settings.checkLimit? = none →
    checker text ≠ .stopped ∧ checker text ≠ .silent

/-- An outcome follows from the checks that come to an end, and from no others. -/
theorem checkEnds_iff {text : String} :
    env.CheckEnds text ↔ env.check? text = some (env.check text) := by
  rw [CheckEnds, check, check?]
  cases env.checker? with
  | none => simp
  | some checker =>
    cases env.settings.checkLimit? <;> cases hanswer : checker text <;> simp [judge, hanswer]

/-- A name is accepted if it is legal, and new in the design where it must be. -/
theorem judgeName_eq_ok_iff {name : String} {mustBeNew : Bool} {u : Unit} :
    env.judgeName name mustBeNew = .ok u ↔
      LegalName name ∧ (mustBeNew = true → name ∉ env.names.toList) := by
  rw [legalName_iff env.settings.keywordCase, judgeName]
  cases validateName env.settings.keywordCase name with
  | error e => simp
  | ok _ => cases mustBeNew <;> simp [ModuleNames.contains]

/-- Parameters are accepted if all of their names are legal. -/
theorem judgeParameters_eq_ok_iff {ps : List Parameter} {u : Unit} :
    env.judgeParameters ps = .ok u ↔ ∀ p ∈ ps, LegalName p.name := by
  induction ps with
  | nil => simp [judgeParameters]
  | cons p ps ih =>
    rw [judgeParameters, List.forall_mem_cons, legalName_iff env.settings.keywordCase,
      ← ih]
    cases validateName env.settings.keywordCase p.name <;> simp

end Environment

namespace Content

variable {env : Environment} {supply : Nat} {c : Content} {i : Interface}

/-- **A text is accepted** if the checker accepts it, and it declares an interface with legal
names, where the name of the module is new in the design or the present one. -/
theorem examine_eq_ok_iff :
    c.examine env = .ok i ↔
      env.check c.text = .ok () ∧ Interface.ofText c.text = .ok i ∧ LegalName i.name ∧
        (i.name ≠ c.name → i.name ∉ env.names.toList) ∧ ∀ p ∈ i.parameters, LegalName p.name := by
  simp only [examine, bind_eq_ok, mapError_eq_ok_iff, Environment.judgeName_eq_ok_iff,
    Environment.judgeParameters_eq_ok_iff]
  constructor
  · rintro ⟨_, hcheck, i', hread, _, ⟨hlegal, hnew⟩, _, hparameters, hi⟩
    obtain rfl : i' = i := Except.ok.inj hi
    exact ⟨hcheck, hread, hlegal, fun hne => hnew (bne_iff_ne.2 hne), hparameters⟩
  · rintro ⟨hcheck, hread, hlegal, hnew, hparameters⟩
    exact ⟨(), hcheck, i, hread, (), ⟨hlegal, fun hne => hnew (bne_iff_ne.1 hne)⟩, (),
      hparameters, rfl⟩

/-- A valid content is not touched by its own text. Any other text is stored and examined. -/
theorem setText_eq (env : Environment) (supply : Nat) (c : Content) (text : String) :
    c.setText env supply text =
      if c.isValid ∧ c.text = text then ⟨.ok (), c, supply, []⟩
      else { c with text := text, isValid := false }.review env supply := by
  unfold setText storeText
  by_cases h : c.isValid ∧ c.text = text
  · rw [if_pos h, if_pos h]
  · rw [if_neg h, if_neg h]

theorem review_of_ok (h : c.examine env = .ok i) :
    c.review env supply =
      ⟨.ok (), (c.adopt supply i).settle none,
        supply + (c.reconciled supply i.parameters).bound,
        env.checkEffects c.text ++ c.adoptEffects supply i ++
          ((c.adopt supply i).settle none).notify .contentSet⟩ := by
  rw [review, h]

theorem review_of_error {e : Refusal} (h : c.examine env = .error e) :
    c.review env supply =
      ⟨.error e, c.settle (some e), supply,
        env.checkEffects c.text ++ (c.settle (some e)).notify .contentSet⟩ := by
  rw [review, h]

/-- The present name is accepted without a look at it. -/
theorem rename_name_self : c.rename env supply c.name = ⟨.ok (), c, supply, []⟩ :=
  if_pos rfl

/-- A name that is not accepted leaves everything as it is. -/
theorem rename_of_judgeName_error {n : String} {e : NameError} (hne : n ≠ c.name)
    (hjudge : env.judgeName n true = .error e) :
    c.rename env supply n = ⟨.error (.name e), c, supply, []⟩ := by
  rw [rename, if_neg hne, hjudge]

/-- A name that is accepted is edited into the text. -/
theorem rename_eq_setText {n : String} (hne : n ≠ c.name)
    (hjudge : env.judgeName n true = .ok ()) :
    c.rename env supply n = c.setText env supply (renameModule c.text c.name n) := by
  rw [rename, if_neg hne, hjudge]

end Content

end HdlModule
