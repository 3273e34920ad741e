import HdlModule.Proofs.Content.Effects
import HdlModule.Proofs.Content.History
import HdlModule.Proofs.Grammar.Rename

/-!
# Renaming contents

A content is renamed through its text: the old name is exchanged, and the new text is examined
like any other. A valid content comes out as it was, but for the name. A content whose text was
refused or not examined may hold the text of another module. Then the text does not name the
module by the old name, nothing is exchanged, and the content takes over the name that it finds.

## Main results

* `rename_of_isValid`: a valid content is renamed, and all else about it stays
* `rename_name_iff`: the contents that have the new name after they were renamed
* `not_forall_rename_name`: a content may be renamed without a refusal and have another name
-/

namespace HdlModule

/-! ### Renaming as an edit -/

namespace Content

variable {env : Environment} {supply : Nat} {c : Content} {n : String}

/-- The text of a content that is in step with it names the module as the content does. -/
theorem declaredName?_of_inStep (hstep : InStep c) : declaredName? c.text = some c.name := by
  obtain ⟨i, hread, hname, -, -⟩ := hstep.interface
  rw [declaredName?_of_ofText hread, hname]

/-- In the text of a content that is in step with it the name is found and exchanged. -/
theorem declaredName?_renameModule_of_inStep (hstep : InStep c) (hlegal : LegalName n) :
    declaredName? (renameModule c.text c.name n) = some n := by
  obtain ⟨_, _, _, -, -, hkind⟩ := hstep.name.spellsIdentifier
  have hself : equalIgnoringCase c.name.toList c.name.toList = true := by
    simp [equalIgnoringCase]
  rw [declaredName?_renameModule c.text c.name n hlegal.spellsIdentifier,
    declaredName?_of_inStep hstep, Option.map_some, if_pos ⟨hkind, hself⟩]

/-- Renaming changes the text of a content that is in step with it. -/
theorem renameModule_ne_text (hstep : InStep c) (hlegal : LegalName n) (hne : n ≠ c.name) :
    renameModule c.text c.name n ≠ c.text := by
  intro htext
  -- one text would name its module by the old name and by the new one
  have hdeclared := declaredName?_renameModule_of_inStep hstep hlegal
  rw [htext, declaredName?_of_inStep hstep, Option.some.injEq] at hdeclared
  exact hne hdeclared.symm

/-- A name that is accepted leads to an examination of the new text. -/
theorem rename_eq_review (hsound : Sound c) (hne : n ≠ c.name)
    (hjudge : env.judgeName n true = .ok ()) :
    c.rename env supply n =
      { c with text := renameModule c.text c.name n, isValid := false }.review env supply := by
  rw [rename_eq_setText hne hjudge, setText_eq, if_neg]
  rintro ⟨hvalid, htext⟩
  have hlegal := (Environment.judgeName_eq_ok_iff.1 hjudge).1
  exact renameModule_ne_text (hsound hvalid) hlegal hne htext.symm

/-! ### Valid contents -/

/-- Parameters that have not changed keep their handles in their places. -/
theorem reconciled_self (c : Content) (supply : Nat) :
    c.reconciled supply (c.parameters.map Prod.fst) =
      ⟨c.parameters, c.parameters.map fun entry => .refresh entry.2 entry.1⟩ := by
  refine reconcile_self (fun p => ?_) Handle.mk supply c.parameters
  simp [Parameter.sameIdentity]

/-- A text that is accepted and has the parameters of the content, but another name: every handle
stays, and listeners are told of the name and of the end of the edit. -/
theorem review_of_parameters_eq (supply : Nat) {i : Interface} (hexamine : c.examine env = .ok i)
    (hparameters : i.parameters = c.parameters.map Prod.fst) (hname : c.name ≠ i.name) :
    let outcome := c.review env supply
    outcome.result = .ok () ∧
      outcome.content = { c with
        isValid := true
        name := i.name
        ports := i.ports
        lastRefusal? := none } ∧
      outcome.supply = supply ∧
      outcome.effects.filterMap Effect.binderCall? =
        c.parameters.map (fun entry => .refresh entry.2 entry.1) ∧
      outcome.effects.filterMap Effect.notice? =
        c.listeners.listeners.map (fun listener => (listener, .nameChanged c.name i.name)) ++
          c.listeners.listeners.map (fun listener => (listener, .contentSet)) := by
  have hreconciled := reconciled_self c supply
  rw [← hparameters] at hreconciled
  rw [review_of_ok hexamine]
  refine ⟨rfl, ?_, ?_, ?_, ?_⟩
  · simp only [adopt, settle, hreconciled]
  · simp [hreconciled, Reconciled.bound, List.countP_map, Function.comp_def, BinderCall.isBind]
  · simp only [adoptEffects, hreconciled, if_neg hname, List.filterMap_append,
      filterMap_binderCall?_checkEffects, filterMap_binderCall?_binder,
      filterMap_binderCall?_notify, List.nil_append, List.append_nil]
  · simp only [adoptEffects, hreconciled, if_neg hname, List.filterMap_append,
      filterMap_notice?_checkEffects, filterMap_notice?_binder, filterMap_notice?_notify,
      List.nil_append]
    rfl

end Content

/-- **A valid content is renamed, and all else about it stays.** The new name has to be legal, new
in the design and another one than before, and the checker has to accept the new text. No
parameter list may have a keyword in it that starts or ends a module. Then the content has the new
name and the new text, each parameter keeps its handle, no handle is bound or released, and each
listener is told of the new name and then of the end of the edit. -/
theorem History.rename_of_isValid {c : Content} {es : List Effect} (h : History c es)
    (hvalid : c.isValid = true)
    (hlist : ∀ t ∈ parameterListTokens c.text, t.kind.delimitsModule = false)
    (env : Environment) (supply : Nat) (n : String) (hne : n ≠ c.name)
    (hlegal : validateName env.settings.keywordCase n = .ok ()) (hnew : n ∉ env.names.toList)
    (hcheck : env.check (renameModule c.text c.name n) = .ok ()) :
    let outcome := c.rename env supply n
    outcome.result = .ok () ∧ outcome.content.isValid = true ∧
      outcome.content = { c with
        text := renameModule c.text c.name n
        name := n
        lastRefusal? := none } ∧
      outcome.supply = supply ∧
      outcome.effects.filterMap Effect.binderCall? =
        c.parameters.map (fun entry => .refresh entry.2 entry.1) ∧
      outcome.effects.filterMap Effect.notice? =
        c.listeners.listeners.map (fun listener => (listener, .nameChanged c.name n)) ++
          c.listeners.listeners.map (fun listener => (listener, .contentSet)) := by
  have hlegal := (legalName_iff env.settings.keywordCase).2 hlegal
  have hstep := h.sound.1 hvalid
  obtain ⟨i, hread, hname, hports, hparameters⟩ := hstep.interface
  obtain ⟨span, hread'⟩ := ofText_renameModule hread (hname ▸ hstep.name)
    hlegal.spellsIdentifier hlist
  rw [hname] at hread'
  have hexamine : Content.examine env
      { c with text := renameModule c.text c.name n, isValid := false } =
        .ok { i with name := n, nameSpan := span } := by
    refine Content.examine_eq_ok_iff.2 ⟨hcheck, hread', hlegal, fun _ => hnew, ?_⟩
    intro p hp
    obtain ⟨entry, hentry, rfl⟩ := List.mem_map.1 (hparameters ▸ hp)
    exact hstep.parameters entry hentry
  have hjudge : env.judgeName n true = .ok () :=
    Environment.judgeName_eq_ok_iff.2 ⟨hlegal, fun _ => hnew⟩
  obtain ⟨hresult, hcontent, hsupply, hcalls, hnotices⟩ :=
    Content.review_of_parameters_eq supply hexamine hparameters hne.symm
  rw [← Content.rename_eq_review h.sound.1 hne hjudge] at hresult hcontent hsupply hcalls hnotices
  refine ⟨hresult, by rw [hcontent], ?_, hsupply, hcalls, hnotices⟩
  rw [hcontent, hports, hvalid]

/-- A prototype of the module stands in front of it, it is named again at its end, and two of its
parameters count as the same. -/
theorem History.rename_of_isValid_prototype :
    ∃ c es, History c es ∧ c.parameters.length = 2 ∧ c.listeners.listeners = ["log"] ∧
      let outcome := c.rename .initial 2 "B"
      outcome.result = .ok () ∧ outcome.content.name = "B" ∧
        outcome.content.parameters = c.parameters ∧
        outcome.content.text =
          "extern module B(); module B #(N=1, N=2) (); endmodule : B" ∧
        outcome.effects.filterMap Effect.notice? =
          c.listeners.listeners.map (fun listener => (listener, .nameChanged c.name "B")) ++
            c.listeners.listeners.map (fun listener => (listener, .contentSet)) := by
  have hread := History.ofText .initial 0 "A"
    "extern module a(); module A #(N=1, N=2) (); endmodule : A"
  have hheard := hread.perform .initial 2 (.subscribe "log")
  obtain ⟨hresult, -, hcontent, -, -, hnotices⟩ := hheard.rename_of_isValid (by decide +kernel)
    (by decide +kernel) .initial 2 "B" (by decide +kernel)
    (validateName_eq_ok_iff.2 ⟨rfl, by decide +kernel⟩) (by decide) rfl
  refine ⟨_, _, hheard, by decide +kernel, by decide +kernel, hresult, ?_, ?_, ?_, hnotices⟩
  · rw [hcontent]
  · rw [hcontent]
  · rw [hcontent]
    decide +kernel

/-! ### All contents -/

/-- After a renaming that was not refused the content has the name in the new text. -/
theorem declaredName?_of_rename {env : Environment} {supply : Nat} {c : Content} {n : String}
    (hsound : Sound c) (hne : n ≠ c.name) (hresult : (c.rename env supply n).result = .ok ()) :
    LegalName n ∧ LegalName (c.rename env supply n).content.name ∧
      declaredName? (renameModule c.text c.name n) =
        some (c.rename env supply n).content.name := by
  cases hjudge : env.judgeName n true with
  | error e =>
    rw [Content.rename, if_neg hne, hjudge] at hresult
    cases hresult
  | ok u =>
    rw [Content.rename_eq_review hsound hne hjudge] at hresult ⊢
    cases hexamine : Content.examine env
        { c with text := renameModule c.text c.name n, isValid := false } with
    | error e =>
      rw [Content.review_of_error hexamine] at hresult
      cases hresult
    | ok i =>
      rw [Content.review_of_ok hexamine]
      obtain ⟨-, hread, hlegal, -⟩ := Content.examine_eq_ok_iff.1 hexamine
      exact ⟨(Environment.judgeName_eq_ok_iff.1 hjudge).1, hlegal, declaredName?_of_ofText hread⟩

/-- The name after a renaming that was not refused is the word that names the module, exchanged
if it is the old name but for case. -/
theorem exists_word_of_rename {env : Environment} {supply : Nat} {c : Content} {n : String}
    (hsound : Sound c) (hne : n ≠ c.name) (hresult : (c.rename env supply n).result = .ok ()) :
    ∃ word, declaredName? c.text = some word ∧
      (c.rename env supply n).content.name =
        if equalIgnoringCase word.toList c.name.toList then n else word := by
  obtain ⟨hlegal, hname, hdeclared⟩ := declaredName?_of_rename hsound hne hresult
  rw [declaredName?_renameModule _ _ _ hlegal.spellsIdentifier] at hdeclared
  obtain ⟨word, hword, hcases⟩ := Option.map_eq_some_iff.1 hdeclared
  refine ⟨word, hword, ?_⟩
  rw [← hcases] at hname ⊢
  by_cases hold : equalIgnoringCase word.toList c.name.toList = true
  · rw [if_pos hold]
    by_cases hkind : wordKind word.toList = .identifier
    · rw [if_pos ⟨hkind, hold⟩]
    · -- a keyword would have stayed, and it is no legal name
      rw [if_neg (fun h => hkind h.1)] at hname
      obtain ⟨_, _, _, -, -, hidentifier⟩ := hname.spellsIdentifier
      exact absurd hidentifier hkind
  · rw [if_neg (fun h => hold h.2), if_neg hold]

/-- **A content has the new name after it was renamed** exactly if it had it already or if its
text names the module by the old name, but for case, or by the new one. Otherwise the content has
another name, although nothing was refused. In a valid content the text has the old name. -/
theorem History.rename_name_iff {c : Content} {es : List Effect} (h : History c es)
    (env : Environment) (supply : Nat) (n : String)
    (hresult : (c.rename env supply n).result = .ok ()) :
    ((c.rename env supply n).content.name = n ↔
      n = c.name ∨ ∃ word, declaredName? c.text = some word ∧
        (equalIgnoringCase word.toList c.name.toList = true ∨ word = n)) ∧
      (c.isValid = true → (c.rename env supply n).content.name = n) := by
  have hiff : (c.rename env supply n).content.name = n ↔
      n = c.name ∨ ∃ word, declaredName? c.text = some word ∧
        (equalIgnoringCase word.toList c.name.toList = true ∨ word = n) := by
    by_cases hne : n = c.name
    · simp [Content.rename, hne]
    · obtain ⟨word, hword, hname⟩ := exists_word_of_rename h.sound.1 hne hresult
      rw [hname, hword]
      by_cases hold : equalIgnoringCase word.toList c.name.toList = true
      · simp [hold]
      · simp [hold, hne]
  refine ⟨hiff, fun hvalid => hiff.2 (Or.inr ?_)⟩
  obtain ⟨i, hread, hname, -, -⟩ := (h.sound.1 hvalid).interface
  refine ⟨c.name, hname ▸ declaredName?_of_ofText hread, Or.inl ?_⟩
  simp [equalIgnoringCase]

/-- The text of another module may be stored without being examined. Its name is exchanged if it
is the old one but for case. -/
theorem History.rename_name_iff_stored :
    ∃ c es, History c es ∧ c.name = "A" ∧ declaredName? c.text = some "a" ∧
      (c.rename .initial 0 "C").result = .ok () ∧
      (c.rename .initial 0 "C").content.name = "C" := by
  have hread := History.ofText .initial 0 "A" "module A(); endmodule"
  have hstored := hread.perform .initial 0 (.storeText "module a(); endmodule")
  refine ⟨_, _, hstored, by decide +kernel, by decide +kernel, ?_, ?_⟩
  · exact eq_ok_of_isOk (by decide +kernel)
  · refine (hstored.rename_name_iff .initial 0 "C"
      (eq_ok_of_isOk (by decide +kernel))).1.2 (Or.inr ⟨"a", ?_, Or.inl ?_⟩)
    · decide +kernel
    · decide +kernel

/-- A content may be renamed without a refusal and have another name than the one asked for: the
text that it holds was not examined, and is that of another module. -/
theorem History.not_forall_rename_name :
    ¬ ∀ (c : Content) (es : List Effect) (env : Environment) (supply : Nat) (n : String),
      History c es → (c.rename env supply n).result = .ok () →
        (c.rename env supply n).content.name = n := by
  intro hall
  have hread := History.ofText .initial 0 "A" "module A(); endmodule"
  have hstored := hread.perform .initial 0 (.storeText "module B(); endmodule")
  have hname := hall _ _ .initial 0 "C" hstored (eq_ok_of_isOk (by decide +kernel))
  revert hname
  decide +kernel

end HdlModule
