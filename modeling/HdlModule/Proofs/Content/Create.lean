import HdlModule.Proofs.Content.Effects
import HdlModule.Proofs.Content.Examine
import HdlModule.Proofs.Design.Template

/-!
# New contents

A new content has no text, no parameters and no listeners before its text is examined. So where
its text is accepted under the name that is asked for, nothing stands against the name: it is
judged as the name of the content itself, and the names of the design are not looked at.

## Main results

* `Content.ofText_of_examine`: a new content that is accepted without parameters
* `Content.create_of_validateName`: a module can be created under each legal name
-/

namespace HdlModule.Content

variable {env : Environment} {supply : Nat} {name : String}

/-- A new content has its text examined. -/
theorem ofText_eq_review (env : Environment) (supply : Nat) (name text : String) :
    ofText env supply name text = { blank name with text := text }.review env supply := by
  rw [ofText, setText_eq, if_neg (by simp [blank])]
  rfl

/-- A new content that is accepted under its name and has no parameters is the interface of its
text. There is nothing to bind and nobody to tell. -/
theorem ofText_of_examine {text : String} {span : Span} {ports : List Port}
    (hexamine : { blank name with text := text }.examine env = .ok ⟨name, span, ports, []⟩) :
    ofText env supply name text =
      ⟨.ok (), ⟨text, name, ports, [], true, none, .evolution, Emitter.empty⟩, supply,
        env.checkEffects text⟩ := by
  have heffects : ({ blank name with text := text } : Content).adoptEffects supply
      ⟨name, span, ports, []⟩ = [] := if_pos rfl
  rw [ofText_eq_review, review_of_ok hexamine, heffects, List.append_nil]
  exact congrArg (Outcome.mk (Except.ok ()) _ supply) (List.append_nil _)

/-- **A module can be created under each legal name**, if the text of the new module passes the
check. The design may have a module of that name already. -/
theorem create_of_validateName (env : Environment) (supply : Nat) (name : String)
    {shown : KeywordCase} (hname : validateName shown name = .ok ())
    (htemplate : env.settings.template? = none)
    (hcheck : env.check (renderTemplate none name env.settings.keywordCase) = .ok ()) :
    let text := renderTemplate none name env.settings.keywordCase
    create env supply name =
        ⟨.ok (), ⟨text, name, [], [], true, none, .evolution, Emitter.empty⟩, supply,
          env.checkEffects text⟩ ∧
      (create env supply name).effects.filterMap Effect.binderCall? = [] := by
  intro text
  have hlegal : LegalName name := (legalName_iff shown).2 hname
  have hread : Interface.ofText text = .ok ⟨name, ⟨7, 7 + byteLength name.toList⟩, [], []⟩ :=
    ofText_renderTemplate hlegal.spellsIdentifier.spellsWord _
  -- the name is that of the content already, so it need not be new in the design
  have hexamine : { blank name with text := text }.examine env =
      .ok ⟨name, ⟨7, 7 + byteLength name.toList⟩, [], []⟩ :=
    examine_eq_ok_iff.2 ⟨hcheck, hread, hlegal, fun hne => absurd rfl hne, List.forall_mem_nil _⟩
  have hcreate : create env supply name =
      ⟨.ok (), ⟨text, name, [], [], true, none, .evolution, Emitter.empty⟩, supply,
        env.checkEffects text⟩ := by
    rw [create, htemplate]
    exact ofText_of_examine hexamine
  exact ⟨hcreate, hcreate ▸ filterMap_binderCall?_checkEffects⟩

/-- Under a name that a module of the design has already, with keywords in upper case and a checker
that accepts everything. -/
theorem create_of_validateName_taken :
    let env : Environment := ⟨⟨true, none, none⟩, some fun _ => .accepted, .ofList ["Adder_9"]⟩
    let text := renderTemplate none "Adder_9" .upper
    validateName .lower "Adder_9" = .ok () ∧ "Adder_9" ∈ env.names.toList ∧
      create env 5 "Adder_9" =
        ⟨.ok (), ⟨text, "Adder_9", [], [], true, none, .evolution, Emitter.empty⟩, 5,
          [.checked text .accepted]⟩ := by
  intro env text
  have hname : validateName .lower "Adder_9" = .ok () := by decide +kernel
  have htaken : "Adder_9" ∈ env.names.toList := by decide
  exact ⟨hname, htaken, (create_of_validateName env 5 "Adder_9" hname rfl rfl).1⟩

end HdlModule.Content
