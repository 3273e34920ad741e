import HdlModule.Workspace
import HdlModule.Proofs.Content.Revision
import Mathlib.Data.List.Nodup

/-!
# Parameters behind a command

A command acts on the parameters in its own slot only. It makes a revision there, which passes
handles on, or it gives up all the handles, or it does both when a new content takes the place of
another: the old content gives up its handles, and then the new one binds its own. The registry
follows the calls, in whatever slot they were made.

## Main definitions

* `Workspace.parametersIn`: the parameters of the content in a slot, with their handles
* `Workspace.held`: the handles that the contents hold
* `Command.opens`: the command puts a new content into its slot
* `Workspace.taken?`: the interface that a content takes over with a command
* `Workspace.StepCases`: what a command can do, as far as parameters are concerned

## Main results

* `Workspace.stepCases`: every command is one of the cases
* `Workspace.parametersIn_step_of_ne`, `Workspace.registry_step`: what lies outside the slot
* `Workspace.revises_step`: a command that leaves the content in its slot
* `Workspace.revises_step_of_opens`: a command that puts a new content into its slot
* `Workspace.parametersIn_step_drop`: the command that empties its slot
* `Workspace.nodup_slots_step`: there is one content in each slot
-/

namespace HdlModule

/-- Whether a command puts a new content into its slot. -/
def Command.opens : Command → Bool
  | create _ | parse _ _ => true
  | _ => false

namespace Workspace

/-- The parameters of the content in a slot with their handles. An empty slot has none. -/
def parametersIn (w : Workspace) (slot : String) : List (Parameter × Handle) :=
  ((w.content? slot).map Content.parameters).getD []

/-- The slots with a content. -/
def slots (w : Workspace) : List String := w.contents.map Prod.fst

/-- The handles that the contents hold. -/
def held (w : Workspace) : List Handle :=
  w.contents.flatMap fun entry => entry.2.parameters.map Prod.snd

/-- The interface that the content in a slot takes over with a command, if it does. That may be
a new content. -/
def taken? (w : Workspace) (slot : String) : Command → Option Interface
  | .create name =>
    (Content.blank name).taken? w.env
      (renderTemplate w.env.settings.template? name w.env.settings.keywordCase)
  | .parse name text => (Content.blank name).taken? w.env text
  | .setText text => (w.content? slot).bind (·.taken? w.env text)
  | .rename name => (w.content? slot).bind (·.takenByRename? w.env name)
  | _ => none

section Step

variable {w : Workspace} {slot other : String} {c : Content} {command : Command}

theorem parametersIn_of_content? (h : w.content? slot = some c) :
    w.parametersIn slot = c.parameters := by
  rw [parametersIn, h]
  rfl

theorem parametersIn_of_empty (h : w.content? slot = none) : w.parametersIn slot = [] := by
  rw [parametersIn, h]
  rfl

/-- The calls that give up what is in a slot. -/
theorem filterMap_binderCall?_releases :
    (w.releases slot).filterMap Effect.binderCall? =
      (w.parametersIn slot).map fun entry => .release entry.2 := by
  cases h : w.content? slot with
  | none => rw [releases, h, parametersIn_of_empty h]; rfl
  | some c =>
    rw [releases, h, parametersIn_of_content? h]
    simp [Content.releases, List.filterMap_map, Function.comp_def, Effect.binderCall?]

/-! ### The cases -/

/-- What a command can do, as far as parameters are concerned. -/
inductive StepCases (w : Workspace) (slot : String) (command : Command) : Prop
  | opened (outcome : Outcome (Except Refusal Unit)) (hopens : command.opens = true)
      (hstep : (w.step slot command).2 = w.settle slot (w.releases slot) outcome)
      (hrevises : Revises w.supply (revision w.supply [] (w.taken? slot command))
        outcome.content.parameters outcome.supply outcome.effects)
  | dropped (hdrop : command = .drop)
  | edited (outcome : Outcome (Except Refusal Unit)) (hopens : command.opens = false)
      (hdrop : command ≠ .drop)
      (hstep : (w.step slot command).2 = w.settle slot [] outcome)
      (hrevises : Revises w.supply
        (revision w.supply (w.parametersIn slot) (w.taken? slot command))
        outcome.content.parameters outcome.supply outcome.effects)
  | quiet (hopens : command.opens = false) (hdrop : command ≠ .drop)
      (htaken : w.taken? slot command = none)
      (hcalls : (w.step slot command).2.1.filterMap Effect.binderCall? = [])
      (hregistry : (w.step slot command).2.2.registry = w.registry)
      (hsupply : (w.step slot command).2.2.supply = w.supply)
      (hcontents : (w.step slot command).2.2.contents = w.contents ∨
        ∃ c c', w.content? slot = some c ∧ c'.parameters = c.parameters ∧
          (w.step slot command).2.2.contents = (w.put slot c').contents)

namespace StepCases

/-- A command that leaves everything but the names of the design as it is. -/
theorem of_env (effects : List Effect) {env : Environment} (hopens : command.opens = false)
    (hdrop : command ≠ .drop) (htaken : w.taken? slot command = none)
    (hstep : (w.step slot command).2 = (effects, { w with env := env }))
    (hcalls : effects.filterMap Effect.binderCall? = []) : StepCases w slot command :=
  .quiet hopens hdrop htaken (by rw [hstep, hcalls]) (by rw [hstep]) (by rw [hstep])
    (Or.inl (by rw [hstep]))

/-- A command that leaves everything as it is. -/
theorem of_same (effects : List Effect) (hopens : command.opens = false)
    (hdrop : command ≠ .drop) (htaken : w.taken? slot command = none)
    (hstep : (w.step slot command).2 = (effects, w))
    (hcalls : effects.filterMap Effect.binderCall? = []) : StepCases w slot command :=
  .of_env effects hopens hdrop htaken (hstep : _ = (effects, { w with env := w.env })) hcalls

/-- A command that changes something about a content, but not its parameters. -/
theorem of_put (effects : List Effect) (c' : Content)
    {subscriptions : List (String × ListenerId)} (hc : w.content? slot = some c)
    (hopens : command.opens = false) (hdrop : command ≠ .drop)
    (htaken : w.taken? slot command = none) (hparameters : c'.parameters = c.parameters)
    (hstep : (w.step slot command).2 =
      (effects, { w.put slot c' with subscriptions := subscriptions }))
    (hcalls : effects.filterMap Effect.binderCall? = []) : StepCases w slot command :=
  .quiet hopens hdrop htaken (by rw [hstep, hcalls]) (by rw [hstep]; rfl) (by rw [hstep]; rfl)
    (Or.inr ⟨c, c', hc, hparameters, by rw [hstep]⟩)

end StepCases

/-- In an empty slot there is no content to which a command could happen. -/
theorem stepCases_of_empty (h : w.content? slot = none) (hopens : command.opens = false)
    (hdrop : command ≠ .drop) : StepCases w slot command := by
  have htaken : w.taken? slot command = none := by
    cases command with
    | create _ | parse _ _ => cases hopens
    | setText _ | rename _ => rw [taken?, h]; rfl
    | _ => rfl
  cases command with
  | create _ | parse _ _ => cases hopens
  | drop => exact absurd rfl hdrop
  | insertName _ | removeName _ | renameName _ _ => exact .of_env [] hopens hdrop htaken rfl rfl
  | _ => exact .of_same [] hopens hdrop htaken (by simp only [step, h]) rfl

theorem stepCases_of_content? (h : w.content? slot = some c) (hopens : command.opens = false)
    (hdrop : command ≠ .drop) : StepCases w slot command := by
  cases command with
  | create _ | parse _ _ => cases hopens
  | drop => exact absurd rfl hdrop
  | setText text =>
    refine .edited (c.setText w.env w.supply text) hopens hdrop (by simp only [step, h, stepOn]) ?_
    rw [taken?, h, parametersIn_of_content? h]
    exact Content.revises_setText text
  | rename name =>
    refine .edited (c.rename w.env w.supply name) hopens hdrop (by simp only [step, h, stepOn]) ?_
    rw [taken?, h, parametersIn_of_content? h]
    exact Content.revises_rename name
  | storeText text =>
    refine .of_put [] (c.storeText text).2 h hopens hdrop rfl ?_
      (by simp only [step, h, stepOn]; rfl) rfl
    rw [Content.storeText]
    split <;> rfl
  | setAppearance appearance =>
    refine .of_put (c.setAppearance appearance).2 (c.setAppearance appearance).1 h hopens hdrop
      rfl ?_ (by simp only [step, h, stepOn]; rfl) ?_
    all_goals
      rw [Content.setAppearance]
      split <;> simp
  | subscribe tag =>
    exact .of_put [] (c.subscribe tag).2 h hopens hdrop rfl rfl
      (by simp only [step, h, stepOn]; rfl) rfl
  | unsubscribe tag =>
    cases hfind : w.subscriptions.find? (·.1 = tag) with
    | none => exact .of_same [] hopens hdrop rfl (by simp only [step, h, stepOn, hfind]) rfl
    | some entry =>
      exact .of_put [] (c.unsubscribe entry.2).2 h hopens hdrop rfl rfl
        (by simp only [step, h, stepOn, hfind]; rfl) rfl
  | aboutToSave =>
    exact .of_same c.aboutToSave hopens hdrop rfl (by simp only [step, h, stepOn])
      filterMap_binderCall?_notify
  | parseValue parameter text =>
    cases hget : (c.handleOf? parameter).bind w.registry.get? with
    | none => exact .of_same [] hopens hdrop rfl (by simp only [step, h, stepOn, hget]) rfl
    | some a => exact .of_same [] hopens hdrop rfl (by simp only [step, h, stepOn, hget]) rfl
  | insertName _ | removeName _ | renameName _ _ => exact .of_env [] hopens hdrop rfl rfl rfl
  | _ => exact .of_same [] hopens hdrop rfl (by simp only [step, h, stepOn]) rfl

/-- **Every command is one of the cases.** -/
theorem stepCases (w : Workspace) (slot : String) (command : Command) :
    StepCases w slot command := by
  cases hopens : command.opens with
  | true =>
    cases command with
    | create name => exact .opened _ rfl rfl (Content.revises_ofText _ _)
    | parse name text => exact .opened _ rfl rfl (Content.revises_ofText _ _)
    | _ => cases hopens
  | false =>
    by_cases hdrop : command = .drop
    · exact .dropped hdrop
    · cases h : w.content? slot with
      | none => exact stepCases_of_empty h hopens hdrop
      | some c => exact stepCases_of_content? h hopens hdrop

/-! ### Outside the slot -/

theorem content?_step_of_ne (h : other ≠ slot) :
    (w.step slot command).2.2.content? other = w.content? other := by
  cases stepCases w slot command with
  | opened outcome _ hstep _ => rw [hstep, content?_settle_of_ne h]
  | dropped hdrop =>
    rw [hdrop]
    exact content?_clear_of_ne h
  | edited outcome _ _ hstep _ => rw [hstep, content?_settle_of_ne h]
  | quiet _ _ _ _ _ _ hcontents =>
    obtain hsame | ⟨c, c', -, -, hput⟩ := hcontents
    · rw [content?, hsame, content?]
    · rw [content?, hput]
      exact content?_put_of_ne h

theorem parametersIn_step_of_ne (h : other ≠ slot) :
    (w.step slot command).2.2.parametersIn other = w.parametersIn other := by
  rw [parametersIn, content?_step_of_ne h, parametersIn]

/-- **The registry follows the calls** of a command, and nothing else changes it. -/
theorem registry_step :
    (w.step slot command).2.2.registry =
      ((w.step slot command).2.1.filterMap Effect.binderCall?).foldl Registry.follow
        w.registry := by
  cases stepCases w slot command with
  | opened outcome _ hstep _ => rw [hstep]; rfl
  | dropped hdrop => rw [hdrop]; rfl
  | edited outcome _ _ hstep _ => rw [hstep]; rfl
  | quiet _ _ _ hcalls hregistry _ _ => rw [hregistry, hcalls]; rfl

/-! ### In the slot -/

/-- **A command that leaves the content in its slot makes the revision** for the interface that
is taken over. -/
theorem revises_step (w : Workspace) (slot : String) (hopens : command.opens = false)
    (hdrop : command ≠ .drop) :
    Revises w.supply (revision w.supply (w.parametersIn slot) (w.taken? slot command))
      ((w.step slot command).2.2.parametersIn slot) (w.step slot command).2.2.supply
      (w.step slot command).2.1 := by
  cases stepCases w slot command with
  | opened outcome hopens' _ _ =>
    rw [hopens] at hopens'
    cases hopens'
  | dropped hdrop' => exact absurd hdrop' hdrop
  | edited outcome _ _ hstep hrevises =>
    rw [hstep, parametersIn_of_content? content?_settle_self]
    exact hrevises
  | quiet _ _ htaken hcalls _ hsupply hcontents =>
    have hparameters : (w.step slot command).2.2.parametersIn slot = w.parametersIn slot := by
      obtain hsame | ⟨c, c', hc, hparameters, hput⟩ := hcontents
      · rw [parametersIn, content?, hsame, parametersIn, content?]
      · rw [parametersIn_of_content? hc, ← hparameters, parametersIn, content?, hput]
        exact parametersIn_of_content? content?_put_self
    rw [htaken, hparameters, hsupply]
    exact .of_none hcalls

/-- **A command that puts a new content into its slot** has the old one give up its handles, and
then makes the revision for the interface that is taken over. -/
theorem revises_step_of_opens (w : Workspace) (slot : String) (hopens : command.opens = true) :
    ∃ effects, (w.step slot command).2.1 = w.releases slot ++ effects ∧
      Revises w.supply (revision w.supply [] (w.taken? slot command))
        ((w.step slot command).2.2.parametersIn slot) (w.step slot command).2.2.supply effects := by
  cases stepCases w slot command with
  | opened outcome _ hstep hrevises =>
    refine ⟨outcome.effects, by rw [hstep]; rfl, ?_⟩
    rw [hstep, parametersIn_of_content? content?_settle_self]
    exact hrevises
  | dropped hdrop => rw [hdrop] at hopens; cases hopens
  | edited _ hopens' _ _ _ => rw [hopens] at hopens'; cases hopens'
  | quiet hopens' _ _ _ _ _ _ => rw [hopens] at hopens'; cases hopens'

/-- The parameters in a slot are those of the interface that was taken over there. -/
theorem map_fst_parametersIn_step {i : Interface} (htaken : w.taken? slot command = some i) :
    ((w.step slot command).2.2.parametersIn slot).map Prod.fst = i.parameters := by
  cases hopens : command.opens with
  | true =>
    obtain ⟨effects, -, hrevises⟩ := w.revises_step_of_opens slot hopens
    rw [hrevises.entries, htaken]
    exact map_fst_entries_reconcile ..
  | false =>
    have hdrop : command ≠ .drop := by
      rintro rfl
      cases htaken
    rw [(w.revises_step slot hopens hdrop).entries, htaken]
    exact map_fst_entries_reconcile ..

theorem parametersIn_step_drop : (w.step slot .drop).2.2.parametersIn slot = [] :=
  parametersIn_of_empty content?_clear_self

/-! ### One content in each slot -/

theorem nodup_slots_clear (hw : w.slots.Nodup) : (w.clear slot).slots.Nodup :=
  hw.sublist (List.filter_sublist.map Prod.fst)

theorem nodup_slots_put (hw : w.slots.Nodup) : (w.put slot c).slots.Nodup := by
  refine List.nodup_cons.2 ⟨?_, nodup_slots_clear hw⟩
  simp

/-- No command puts two contents into one slot. -/
theorem nodup_slots_step (hw : w.slots.Nodup) : (w.step slot command).2.2.slots.Nodup := by
  cases stepCases w slot command with
  | opened outcome _ hstep _ =>
    rw [hstep]
    exact nodup_slots_put hw
  | dropped hdrop =>
    rw [hdrop]
    exact nodup_slots_clear hw
  | edited outcome _ _ hstep _ =>
    rw [hstep]
    exact nodup_slots_put hw
  | quiet _ _ _ _ _ _ hcontents =>
    rcases hcontents with hsame | ⟨c, c', -, -, hput⟩
    · rw [slots, hsame]
      exact hw
    · rw [slots, hput]
      exact nodup_slots_put hw

/-- If there is one content in each slot, then each is found in its slot. -/
theorem content?_eq_some_iff (hw : w.slots.Nodup) :
    w.content? slot = some c ↔ (slot, c) ∈ w.contents := by
  constructor
  · intro h
    obtain ⟨⟨other, c'⟩, hfind, rfl⟩ := Option.map_eq_some_iff.1 h
    have hslot : other = slot := by simpa using List.find?_some hfind
    rw [← hslot]
    exact List.mem_of_find?_eq_some hfind
  · intro h
    cases hfind : w.contents.find? (·.1 = slot) with
    | none =>
      have := List.find?_eq_none.1 hfind _ h
      simp at this
    | some entry =>
      have hslot : entry.1 = slot := by simpa using List.find?_some hfind
      have heq : entry = (slot, c) :=
        List.inj_on_of_nodup_map hw (List.mem_of_find?_eq_some hfind) h hslot
      rw [content?, hfind, heq]
      rfl

/-- The handles that are held are those of the parameters in some slot. -/
theorem mem_held_iff (hw : w.slots.Nodup) {h : Handle} :
    h ∈ w.held ↔ ∃ slot p, (p, h) ∈ w.parametersIn slot := by
  simp only [held, List.mem_flatMap, List.mem_map, Prod.exists, exists_eq_right]
  constructor
  · rintro ⟨slot, c, hc, p, hp⟩
    exact ⟨slot, p, by rwa [parametersIn_of_content? ((content?_eq_some_iff hw).2 hc)]⟩
  · rintro ⟨slot, p, hp⟩
    cases hc : w.content? slot with
    | none => simp [parametersIn_of_empty hc] at hp
    | some c =>
      rw [parametersIn_of_content? hc] at hp
      exact ⟨slot, c, (content?_eq_some_iff hw).1 hc, p, hp⟩

end Step

end Workspace

end HdlModule
