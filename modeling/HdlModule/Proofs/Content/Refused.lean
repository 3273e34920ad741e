import HdlModule.Workspace
import HdlModule.Proofs.Content.Effects
import HdlModule.Proofs.Content.Examine

/-!
# Refused edits

A text is examined in stages, and it is refused for the first thing that is wrong with it. The
refused text stays in the content, which loses its mark and keeps the reason. Nothing else is
different behind the edit, in the content or around it: an interface that was read before a later
stage failed has left no trace. Each listener is told that the edit is finished, and nothing more.

A new name is judged before the text is touched. If it is refused then, nothing changes at all.

## Main definitions

* `FirstFault env name text e`: `e` is the first thing that is wrong with a text, in a content
  with a name

## Main results

* `Content.examine_eq_error_iff`, `Content.setText_eq_error_iff`: the texts that are refused, and
  the reason for which each is
* `Content.setText_of_refused`: the content and the effects behind a refused edit
* `Workspace.step_of_refused`: a refused edit changes nothing else in the workspace, and a refused
  name changes nothing
-/

namespace HdlModule

theorem mapError_eq_error_iff {ε ε' α : Type} {x : Except ε α} {f : ε → ε'} {e' : ε'} :
    x.mapError f = .error e' ↔ ∃ e, x = .error e ∧ f e = e' := by
  cases x with
  | error e =>
    constructor
    · intro h
      exact ⟨e, rfl, Except.error.inj h⟩
    · rintro ⟨_, h, rfl⟩
      cases h
      rfl
  | ok a =>
    constructor
    · intro h
      cases h
    · rintro ⟨_, h, -⟩
      cases h

/-- An examination in two steps fails in the first step, or passes it and fails in the second. -/
theorem bind_eq_error {ε α β : Type} {x : Except ε α} {f : α → Except ε β} {e : ε} :
    (x >>= f) = .error e ↔ x = .error e ∨ ∃ a, x = .ok a ∧ f a = .error e := by
  cases x <;> simp [bind, Except.bind]

/-! ### The first fault of a text -/

/-- The first thing that is wrong with a text that is put into a content with a name. Each stage
comes into play when the stages before it are passed: the checker, the reading, the name of the
module, which has to be new in the design unless it is the present one, and the names of the
parameters in their order. -/
inductive FirstFault (env : Environment) (name text : String) : Refusal → Prop
  | check {e : Refusal} (h : env.check text = .error e) : FirstFault env name text e
  | reading {d : Diagnostic} (hcheck : env.check text = .ok ())
      (h : Interface.ofText text = .error d) :
      FirstFault env name text (.ofDiagnostic d text)
  | moduleName {i : Interface} {e : NameError} (hcheck : env.check text = .ok ())
      (hread : Interface.ofText text = .ok i)
      (h : validateName env.settings.keywordCase i.name = .error e) :
      FirstFault env name text (.name e)
  | takenName {i : Interface} (hcheck : env.check text = .ok ())
      (hread : Interface.ofText text = .ok i) (hlegal : LegalName i.name)
      (hne : i.name ≠ name) (h : i.name ∈ env.names.toList) :
      FirstFault env name text (.name (.duplicate i.name))
  | parameterName {i : Interface} {before after : List Parameter} {p : Parameter} {e : NameError}
      (hcheck : env.check text = .ok ()) (hread : Interface.ofText text = .ok i)
      (hlegal : LegalName i.name) (hnew : i.name ≠ name → i.name ∉ env.names.toList)
      (hparameters : i.parameters = before ++ p :: after)
      (hbefore : ∀ q ∈ before, LegalName q.name)
      (h : validateName env.settings.keywordCase p.name = .error e) :
      FirstFault env name text (.name e)

namespace Environment

variable {env : Environment}

/-- A name is refused because it is not legal, or because it is taken and must be new. -/
theorem judgeName_eq_error_iff {name : String} {mustBeNew : Bool} {e : NameError} :
    env.judgeName name mustBeNew = .error e ↔
      validateName env.settings.keywordCase name = .error e ∨
        LegalName name ∧ mustBeNew = true ∧ name ∈ env.names.toList ∧ e = .duplicate name := by
  rw [legalName_iff env.settings.keywordCase, judgeName]
  cases validateName env.settings.keywordCase name with
  | error e' => simp
  | ok _ =>
    by_cases htaken : mustBeNew = true ∧ name ∈ env.names.toList
    · simp [ModuleNames.contains, htaken, eq_comm]
    · have hnot : (mustBeNew && env.names.contains name) = false := by
        simpa [ModuleNames.contains] using htaken
      simp only [hnot, Bool.false_eq_true, if_false, reduceCtorEq, false_or, false_iff]
      rintro ⟨-, hnew, hmem, -⟩
      exact htaken ⟨hnew, hmem⟩

/-- Parameters are refused for the first one whose name is not legal. -/
theorem judgeParameters_eq_error_iff {ps : List Parameter} {e : NameError} :
    env.judgeParameters ps = .error e ↔
      ∃ before p after, ps = before ++ p :: after ∧ (∀ q ∈ before, LegalName q.name) ∧
        validateName env.settings.keywordCase p.name = .error e := by
  induction ps with
  | nil => simp [judgeParameters]
  | cons p ps ih =>
    cases hp : validateName env.settings.keywordCase p.name with
    | error e' =>
      have hillegal : ¬ LegalName p.name := by
        rw [legalName_iff env.settings.keywordCase, hp]
        simp
      simp only [judgeParameters, hp, Except.error.injEq]
      constructor
      · rintro rfl
        exact ⟨[], p, ps, rfl, by simp, hp⟩
      · rintro ⟨before, q, after, hps, hbefore, hq⟩
        cases before with
        | nil =>
          obtain ⟨rfl, -⟩ := List.cons.inj hps
          exact Except.error.inj (hp.symm.trans hq)
        | cons b before =>
          obtain ⟨rfl, -⟩ := List.cons.inj hps
          exact absurd (hbefore p List.mem_cons_self) hillegal
    | ok u =>
      have hlegal : LegalName p.name := (legalName_iff env.settings.keywordCase).2 hp
      simp only [judgeParameters, hp, ih]
      constructor
      · rintro ⟨before, q, after, rfl, hbefore, hq⟩
        exact ⟨p :: before, q, after, rfl, List.forall_mem_cons.2 ⟨hlegal, hbefore⟩, hq⟩
      · rintro ⟨before, q, after, hps, hbefore, hq⟩
        cases before with
        | nil =>
          obtain ⟨rfl, -⟩ := List.cons.inj hps
          rw [hp] at hq
          cases hq
        | cons b before =>
          obtain ⟨rfl, rfl⟩ := List.cons.inj hps
          exact ⟨before, q, after, rfl, (List.forall_mem_cons.1 hbefore).2, hq⟩

end Environment

namespace Content

variable {env : Environment} {supply : Nat} {c : Content} {text : String} {e : Refusal}

/-- **A text is refused for the first thing that is wrong with it.** -/
theorem examine_eq_error_iff : c.examine env = .error e ↔ FirstFault env c.name c.text e := by
  simp only [examine, bind_eq_error, mapError_eq_error_iff, mapError_eq_ok_iff,
    Environment.judgeName_eq_error_iff, Environment.judgeName_eq_ok_iff,
    Environment.judgeParameters_eq_error_iff]
  constructor
  · rintro (hcheck | ⟨_, hcheck, hread | ⟨i, hread, hname | ⟨_, ⟨hlegal, hnew⟩, hlater⟩⟩⟩)
    · exact .check hcheck
    · obtain ⟨d, hread, rfl⟩ := hread
      exact .reading hcheck hread
    · obtain ⟨e', hname | ⟨hlegal, hne, htaken, rfl⟩, rfl⟩ := hname
      · exact .moduleName hcheck hread hname
      · exact .takenName hcheck hread hlegal (bne_iff_ne.1 hne) htaken
    · rcases hlater with ⟨e', ⟨before, p, after, hps, hbefore, hp⟩, rfl⟩ | ⟨_, -, h⟩
      · exact .parameterName hcheck hread hlegal (fun hne => hnew (bne_iff_ne.2 hne)) hps
          hbefore hp
      · cases h
  · intro h
    cases h with
    | check hcheck => exact Or.inl hcheck
    | reading hcheck hread => exact Or.inr ⟨(), hcheck, Or.inl ⟨_, hread, rfl⟩⟩
    | moduleName hcheck hread hname =>
      exact Or.inr ⟨(), hcheck, Or.inr ⟨_, hread, Or.inl ⟨_, Or.inl hname, rfl⟩⟩⟩
    | takenName hcheck hread hlegal hne htaken =>
      exact Or.inr ⟨(), hcheck, Or.inr ⟨_, hread, Or.inl ⟨_, Or.inr
        ⟨hlegal, bne_iff_ne.2 hne, htaken, rfl⟩, rfl⟩⟩⟩
    | parameterName hcheck hread hlegal hnew hps hbefore hp =>
      have hjudge := And.intro hlegal fun hne => hnew (bne_iff_ne.1 hne)
      exact Or.inr ⟨(), hcheck, Or.inr ⟨_, hread, Or.inr ⟨(), hjudge, Or.inl
        ⟨_, ⟨_, _, _, hps, hbefore, hp⟩, rfl⟩⟩⟩⟩

/-- An edit is refused if the text is another one than that of a valid content, and something is
wrong with it. -/
theorem setText_eq_error_iff :
    (c.setText env supply text).result = .error e ↔
      ¬ (c.isValid ∧ c.text = text) ∧ FirstFault env c.name text e := by
  rw [setText_eq]
  by_cases hsame : c.isValid ∧ c.text = text
  · simp [hsame]
  · have hfault : FirstFault env c.name text e ↔
        examine env { c with text := text, isValid := false } = .error e :=
      (examine_eq_error_iff (c := { c with text := text, isValid := false })).symm
    rw [if_neg hsame, hfault]
    cases hexamine : examine env { c with text := text, isValid := false } with
    | error e' =>
      rw [review_of_error hexamine]
      simp [hsame]
    | ok i =>
      rw [review_of_ok hexamine]
      simp

/-- A refused text stays in the content, which loses its mark and keeps the reason. Only the
checker and the listeners take notice. -/
theorem setText_of_refused (h : (c.setText env supply text).result = .error e) :
    let refused := { c with text := text, isValid := false, lastRefusal? := some e }
    c.setText env supply text =
      ⟨.error e, refused, supply, env.checkEffects text ++ refused.notify .contentSet⟩ := by
  obtain ⟨hother, hfault⟩ := setText_eq_error_iff.1 h
  have hexamine : examine env { c with text := text, isValid := false } = .error e :=
    examine_eq_error_iff.2 hfault
  rw [setText_eq, if_neg hother, review_of_error hexamine]
  rfl

end Content

/-! ### Around a refused edit -/

/-- The reason of an answer that refuses an edit. -/
def Answer.refusal? : Answer → Option Refusal
  | .edited (.error e) => some e
  | _ => none

theorem Answer.eq_edited_of_refusal? {a : Answer} {e : Refusal} (h : a.refusal? = some e) :
    a = .edited (.error e) := by
  unfold refusal? at h
  split at h
  · rw [Option.some.inj h]
  · cases h

namespace Workspace

/-- **A refused edit changes the text, the mark and the reason, and nothing else.** The reason is
the first thing that is wrong with the text. The interface, the handles, the appearance and the
listeners of the content are those before, the other contents, the registry, the names and the
settings are not touched, the binder is not called, and each listener is told once that the edit
is finished. A new name that is refused before the text is touched changes nothing, and nobody is
told or asked. -/
theorem step_of_refused (w : Workspace) (slot : String) (c : Content)
    (hc : w.content? slot = some c) :
    (∀ text e, (w.step slot (.setText text)).1 = .edited (.error e) →
      let effects := (w.step slot (.setText text)).2.1
      let after := (w.step slot (.setText text)).2.2
      let refused := { c with text := text, isValid := false, lastRefusal? := some e }
      FirstFault w.env c.name text e ∧
        after.content? slot = some refused ∧
        (∀ other, other ≠ slot → after.content? other = w.content? other) ∧
        after.registry = w.registry ∧ after.supply = w.supply ∧ after.env = w.env ∧
        after.subscriptions = w.subscriptions ∧
        effects = w.env.checkEffects text ++ refused.notify .contentSet ∧
        effects.filterMap Effect.binderCall? = [] ∧
        effects.filterMap Effect.notice? =
          c.listeners.listeners.map fun listener => (listener, .contentSet)) ∧
    ∀ name e, name ≠ c.name → w.env.judgeName name true = .error e →
      let after := (w.step slot (.rename name)).2.2
      (w.step slot (.rename name)).1 = .edited (.error (.name e)) ∧
        (w.step slot (.rename name)).2.1 = [] ∧
        (∀ other, after.content? other = w.content? other) ∧
        after.registry = w.registry ∧ after.supply = w.supply ∧ after.env = w.env ∧
        after.checks = w.checks ∧ after.subscriptions = w.subscriptions := by
  constructor
  · intro text e h
    have hstep : w.step slot (.setText text) =
        (.edited (c.setText w.env w.supply text).result,
          w.settle slot [] (c.setText w.env w.supply text)) := by
      simp only [step, hc, stepOn]
    rw [hstep] at h ⊢
    have hresult : (c.setText w.env w.supply text).result = .error e := Answer.edited.inj h
    rw [Content.setText_of_refused hresult]
    have hcalls : (w.env.checkEffects text ++ Content.notify
        { c with text := text, isValid := false, lastRefusal? := some e }
        .contentSet).filterMap Effect.binderCall? = [] := by
      simp
    refine ⟨(Content.setText_eq_error_iff.1 hresult).2, content?_settle_self,
      fun other hother => content?_settle_of_ne hother, ?_, rfl, rfl, rfl, rfl, hcalls, ?_⟩
    · show (List.filterMap Effect.binderCall? _).foldl Registry.follow w.registry = _
      rw [List.nil_append, hcalls]
      rfl
    · simp [settle]
  · intro name e hne hjudge
    have hstep : w.step slot (.rename name) =
        (.edited (.error (.name e)), w.settle slot []
          (⟨.error (.name e), c, w.supply, []⟩ : Outcome (Except Refusal Unit))) := by
      simp only [step, hc, stepOn, Content.rename_of_judgeName_error hne hjudge]
    rw [hstep]
    refine ⟨rfl, rfl, fun other => ?_, rfl, rfl, rfl, rfl, rfl⟩
    by_cases hother : other = slot
    · rw [hother, hc]
      exact content?_settle_self
    · exact content?_settle_of_ne hother

/-- An edit that is refused in the last stage, for the second parameter of an interface that
passed all other stages, and a name that another module has. -/
theorem step_of_refused_late :
    let text := "module B #(N=2, always=1) (); endmodule"
    let e := Refusal.name (.reserved "always" "always")
    ∃ (w : Workspace) (c : Content), w.content? "a" = some c ∧ c.parameters.length = 1 ∧
      c.listeners.listeners = ["log"] ∧
      (w.step "a" (.setText text)).1 = .edited (.error e) ∧
      FirstFault w.env c.name text e ∧
      (w.step "a" (.setText text)).2.2.content? "a" =
        some { c with text := text, isValid := false, lastRefusal? := some e } ∧
      (w.step "a" (.setText text)).2.2.registry = w.registry ∧
      (w.step "a" (.setText text)).2.1.filterMap Effect.notice? = [("log", .contentSet)] ∧
      (w.step "a" (.rename "top")).1 = .edited (.error (.name (.duplicate "top"))) ∧
      (w.step "a" (.rename "top")).2.1 = [] := by
  intro text e
  let env : Environment := ⟨Settings.standard, none, ModuleNames.ofList ["top"]⟩
  let made := ((start env).step "a" (.parse "A" "module A #(N=1) (input a); endmodule")).2.2
  let w := (made.step "a" (.subscribe "log")).2.2
  let c := (w.content? "a").get (by decide +kernel)
  have hc : w.content? "a" = some c := (Option.some_get _).symm
  have hheard : c.listeners.listeners = ["log"] := by decide +kernel
  obtain ⟨hedited, hnamed⟩ := w.step_of_refused "a" c hc
  have hanswer : (w.step "a" (.setText text)).1 = .edited (.error e) :=
    Answer.eq_edited_of_refusal? (by decide +kernel)
  obtain ⟨hfault, hcontent, -, hregistry, -, -, -, -, -, hnotices⟩ := hedited text e hanswer
  have hlegal : LegalName "top" :=
    (legalName_iff .lower).2 (validateName_eq_ok_iff.2 ⟨rfl, by decide +kernel⟩)
  have htaken : w.env.judgeName "top" true = .error (.duplicate "top") :=
    Environment.judgeName_eq_error_iff.2 (Or.inr ⟨hlegal, rfl, by decide +kernel, rfl⟩)
  obtain ⟨hrefused, hsilent, -⟩ := hnamed "top" _ (by decide +kernel) htaken
  rw [hheard] at hnotices
  exact ⟨w, c, hc, by decide +kernel, hheard, hanswer, hfault, hcontent, hregistry, hnotices,
    hrefused, hsilent⟩

end Workspace

end HdlModule
