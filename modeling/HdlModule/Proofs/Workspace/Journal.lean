import HdlModule.Proofs.Attribute.Ledger
import HdlModule.Proofs.Attribute.Registry
import HdlModule.Proofs.Workspace.Step

/-!
# Runs of a workspace

A workspace goes through commands in any of its slots. Between two commands the settings, the
checker and the names of the design may become others. A journal goes along with the workspace:
it counts the contents that were put into each slot, and it keeps the calls to the binder, each
with the content on whose behalf it was made.

What a journal says about parameters is a ledger, and a command is a course of revisions of it. So
whatever holds of ledgers, above all the life of a handle, holds of journals.

## Main definitions

* `Happening`, `Workspace.run`: what happens to a workspace, and the workspace behind it
* `Tenant`: a content, told from others that were in its slot
* `Journal`, `Journal.run`: the record of a run
* `Journal.ledger`: what a journal says about parameters

## Main results

* `Journal.ledger_command_of_edit`, `Journal.ledger_command_of_opens`,
  `Journal.ledger_command_drop`: the revisions that a command makes
* `Journal.consistent_run`: behind every run the ledger has come about by revisions, and the
  registry has followed the calls
-/

namespace HdlModule

/-! ### Runs -/

/-- What happens to a workspace. -/
inductive Happening where
  | command (slot : String) (command : Command)
  /-- The settings, the checker and the names of the design become others. -/
  | environment (env : Environment)

namespace Workspace

/-- The workspace behind a happening. -/
def next (w : Workspace) : Happening → Workspace
  | .command slot command => (w.step slot command).2.2
  | .environment env => { w with env := env }

/-- The workspace behind a run. -/
def run (w : Workspace) (happenings : List Happening) : Workspace := happenings.foldl next w

/-- The workspace is behind some run. -/
def Reached (w : Workspace) : Prop := ∃ env happenings, w = (start env).run happenings

end Workspace

/-- A content, told from others in its slot by the number of contents that were put there until
it came. -/
structure Tenant where
  slot : String
  number : Nat
deriving DecidableEq

/-- A workspace with a record of how it has come about. -/
structure Journal where
  workspace : Workspace
  /-- The number of contents that were put into a slot. -/
  tenancies : String → Nat
  /-- The calls so far, each with the content on whose behalf it was made. -/
  calls : List (Tenant × BinderCall Parameter Handle)

namespace Journal

/-- Nothing has happened. -/
def start (env : Environment) : Journal := ⟨Workspace.start env, fun _ => 0, []⟩

/-- The content in a slot, or the last one that was there. -/
def tenant (j : Journal) (slot : String) : Tenant := ⟨slot, j.tenancies slot⟩

/-- The next content in a slot. -/
def newcomer (j : Journal) (slot : String) : Tenant := ⟨slot, j.tenancies slot + 1⟩

/-- The calls among effects that happen on behalf of a content. -/
def callsFor (t : Tenant) (effects : List Effect) : List (Tenant × BinderCall Parameter Handle) :=
  (effects.filterMap Effect.binderCall?).map (t, ·)

/-- The journal behind a command. If a new content is put into the slot, then the first effects
are those of the old one, which gives up its handles. -/
def command (j : Journal) (slot : String) (command : Command) : Journal :=
  let effects := (j.workspace.step slot command).2.1
  let farewell := (j.workspace.releases slot).length
  if command.opens then
    { workspace := (j.workspace.step slot command).2.2
      tenancies := Function.update j.tenancies slot (j.tenancies slot + 1)
      calls := j.calls ++ callsFor (j.tenant slot) (effects.take farewell) ++
        callsFor (j.newcomer slot) (effects.drop farewell) }
  else
    { workspace := (j.workspace.step slot command).2.2
      tenancies := j.tenancies
      calls := j.calls ++ callsFor (j.tenant slot) effects }

/-- The journal behind a happening. -/
def next (j : Journal) : Happening → Journal
  | .command slot command => j.command slot command
  | .environment env => { j with workspace := { j.workspace with env := env } }

/-- The journal behind a run. -/
def run (j : Journal) (happenings : List Happening) : Journal := happenings.foldl next j

/-- The calls about a handle. -/
def about (j : Journal) (h : Handle) : List (Tenant × BinderCall Parameter Handle) :=
  j.calls.filter (·.2.handle = h)

/-- What a journal says about parameters. Only contents that are still in their slots hold
any. -/
def ledger (j : Journal) : Ledger Tenant where
  holdings := fun t =>
    if t.number = j.tenancies t.slot then j.workspace.parametersIn t.slot else []
  supply := j.workspace.supply
  calls := j.calls

end Journal

/-! ### Revisions behind commands -/

namespace Ledger

variable {T : Type} [DecidableEq T] {l : Ledger T} {t : T}

/-- The ledger after an owner has taken over an interface, or none. -/
def take (l : Ledger T) (t : T) : Option Interface → Ledger T
  | none => l
  | some i => l.revise t i.parameters

/-- A ledger is the one behind a take-over if it is so in every part. -/
theorem eq_take {l' : Ledger T} {i? : Option Interface}
    (hheld : l'.holdings t = (revision l.supply (l.holdings t) i?).entries)
    (hothers : ∀ t', t' ≠ t → l'.holdings t' = l.holdings t')
    (hsupply : l'.supply = l.supply + (revision l.supply (l.holdings t) i?).bound)
    (hcalls : l'.calls = l.calls ++ (revision l.supply (l.holdings t) i?).calls.map (t, ·)) :
    l' = l.take t i? := by
  cases i? with
  | none =>
    apply Ledger.ext
    · funext t'
      by_cases ht : t' = t
      · rw [ht, hheld]
        rfl
      · exact hothers t' ht
    · exact hsupply
    · rw [hcalls]
      exact List.append_nil _
  | some i => exact eq_revise hheld hothers hsupply hcalls

@[simp]
theorem holdings_revise_nil : (l.revise t []).holdings t = [] :=
  holdings_revise_self.trans rfl

@[simp]
theorem supply_revise_nil : (l.revise t []).supply = l.supply := by
  simp [revise, reconciled_nil, Reconciled.bound, BinderCall.isBind]

theorem calls_revise_nil :
    (l.revise t []).calls =
      l.calls ++ (l.holdings t).map fun entry => (t, .release entry.2) := by
  simp [revise, reconciled_nil, Function.comp_def]

theorem Reachable.take (hl : l.Reachable) (t : T) (i? : Option Interface) :
    (l.take t i?).Reachable := by
  cases i? with
  | none => exact hl
  | some i => exact hl.revise t i.parameters

end Ledger

namespace Journal

variable {j : Journal} {slot : String} {command : Command}

theorem holdings_ledger {t : Tenant} :
    j.ledger.holdings t =
      if t.number = j.tenancies t.slot then j.workspace.parametersIn t.slot else [] := rfl

theorem holdings_ledger_tenant :
    j.ledger.holdings (j.tenant slot) = j.workspace.parametersIn slot := if_pos rfl

/-- Nobody holds anything under a number that has not been given yet, or is no longer the last. -/
theorem holdings_ledger_of_ne {t : Tenant} (h : t.number ≠ j.tenancies t.slot) :
    j.ledger.holdings t = [] := if_neg h

/-- The journal behind a command that leaves the content in its slot, or empties the slot. -/
theorem command_of_not_opens (hopens : command.opens = false) :
    j.command slot command =
      ⟨(j.workspace.step slot command).2.2, j.tenancies,
        j.calls ++ callsFor (j.tenant slot) (j.workspace.step slot command).2.1⟩ := by
  rw [Journal.command, hopens]
  rfl

/-- A content that is another than the one a command is about holds what it held. -/
theorem holdings_ledger_command_of_ne (hopens : command.opens = false) {t : Tenant}
    (ht : t ≠ j.tenant slot) :
    (j.command slot command).ledger.holdings t = j.ledger.holdings t := by
  rw [command_of_not_opens hopens]
  by_cases hnumber : t.number = j.tenancies t.slot
  · have hslot : t.slot ≠ slot := by
      intro hslot
      apply ht
      rw [tenant, ← hslot, ← hnumber]
    rw [holdings_ledger, holdings_ledger, Workspace.parametersIn_step_of_ne hslot]
  · rw [holdings_ledger_of_ne hnumber]
    exact holdings_ledger_of_ne hnumber

/-- A command that leaves the content in its slot makes one revision at most. -/
theorem ledger_command_of_edit (hopens : command.opens = false) (hdrop : command ≠ .drop) :
    (j.command slot command).ledger =
      j.ledger.take (j.tenant slot) (j.workspace.taken? slot command) := by
  obtain ⟨hentries, hsupply, hcalls⟩ := j.workspace.revises_step slot hopens hdrop
  apply Ledger.eq_take
  · rw [command_of_not_opens hopens, holdings_ledger_tenant]
    exact holdings_ledger_tenant.trans hentries
  · intro t ht
    exact holdings_ledger_command_of_ne hopens ht
  · rw [command_of_not_opens hopens, holdings_ledger_tenant]
    exact hsupply
  · rw [command_of_not_opens hopens, holdings_ledger_tenant]
    show j.calls ++ callsFor _ _ = _
    rw [callsFor, hcalls]
    rfl

/-- A command that empties a slot makes the revision that gives up everything. -/
theorem ledger_command_drop :
    (j.command slot .drop).ledger = j.ledger.revise (j.tenant slot) [] := by
  apply Ledger.eq_revise
  · rw [command_of_not_opens rfl]
    exact holdings_ledger_tenant.trans Workspace.parametersIn_step_drop
  · intro t ht
    exact holdings_ledger_command_of_ne rfl ht
  · rw [command_of_not_opens rfl]
    exact (Ledger.supply_revise_nil (l := j.ledger)).symm
  · rw [command_of_not_opens rfl, Ledger.reconciled_nil, holdings_ledger_tenant]
    show j.calls ++ callsFor (j.tenant slot) (j.workspace.releases slot) = _
    rw [callsFor, Workspace.filterMap_binderCall?_releases]
    rfl

/-- The journal behind a command that puts a new content into its slot. -/
theorem command_of_opens (hopens : command.opens = true) {effects : List Effect}
    (heffects : (j.workspace.step slot command).2.1 = j.workspace.releases slot ++ effects) :
    j.command slot command =
      ⟨(j.workspace.step slot command).2.2,
        Function.update j.tenancies slot (j.tenancies slot + 1),
        j.calls ++ callsFor (j.tenant slot) (j.workspace.releases slot) ++
          callsFor (j.newcomer slot) effects⟩ := by
  simp only [Journal.command, hopens, heffects, if_true, List.take_left, List.drop_left]

/-- All but a new content hold what is left when the old one has given up everything. -/
theorem holdings_ledger_command_of_ne_newcomer (hopens : command.opens = true) {t : Tenant}
    (ht : t ≠ j.newcomer slot) :
    (j.command slot command).ledger.holdings t =
      (j.ledger.revise (j.tenant slot) []).holdings t := by
  obtain ⟨effects, heffects, -⟩ := j.workspace.revises_step_of_opens slot hopens
  have htenancies : (j.command slot command).tenancies =
      Function.update j.tenancies slot (j.tenancies slot + 1) := by
    rw [command_of_opens hopens heffects]
  obtain ⟨other, number⟩ := t
  by_cases hslot : other = slot
  · subst hslot
    have hnew : number ≠ (j.command other command).tenancies other := by
      rw [htenancies, Function.update_self]
      rintro rfl
      exact ht rfl
    rw [holdings_ledger_of_ne hnew]
    by_cases hnumber : number = j.tenancies other
    · rw [hnumber]
      exact Ledger.holdings_revise_nil.symm
    · have hold : (⟨other, number⟩ : Tenant) ≠ j.tenant other := by
        rintro ⟨⟩
        exact hnumber rfl
      rw [Ledger.holdings_revise_of_ne hold, holdings_ledger_of_ne hnumber]
  · have hold : (⟨other, number⟩ : Tenant) ≠ j.tenant slot := by
      rintro ⟨⟩
      exact hslot rfl
    rw [Ledger.holdings_revise_of_ne hold, holdings_ledger, holdings_ledger, htenancies,
      Function.update_of_ne hslot, command_of_opens hopens heffects,
      Workspace.parametersIn_step_of_ne hslot]

/-- A command that puts a new content into a slot makes the revision in which the old one gives
up everything, and then one of the new one at most. -/
theorem ledger_command_of_opens (hopens : command.opens = true) :
    (j.command slot command).ledger =
      (j.ledger.revise (j.tenant slot) []).take (j.newcomer slot)
        (j.workspace.taken? slot command) := by
  obtain ⟨effects, heffects, hentries, hsupply, hcalls⟩ :=
    j.workspace.revises_step_of_opens slot hopens
  have hne : j.newcomer slot ≠ j.tenant slot := by
    intro heq
    exact Nat.succ_ne_self _ (congrArg Tenant.number heq)
  have hnewcomer : (j.ledger.revise (j.tenant slot) []).holdings (j.newcomer slot) = [] := by
    rw [Ledger.holdings_revise_of_ne hne]
    exact holdings_ledger_of_ne (Nat.succ_ne_self _)
  apply Ledger.eq_take
  · rw [hnewcomer, Ledger.supply_revise_nil, command_of_opens hopens heffects]
    refine Eq.trans (if_pos ?_) hentries
    show j.tenancies slot + 1 = Function.update j.tenancies slot (j.tenancies slot + 1) slot
    rw [Function.update_self]
  · intro t ht
    exact holdings_ledger_command_of_ne_newcomer hopens ht
  · rw [hnewcomer, Ledger.supply_revise_nil, command_of_opens hopens heffects]
    exact hsupply
  · rw [hnewcomer, Ledger.supply_revise_nil, command_of_opens hopens heffects]
    show j.calls ++ callsFor _ _ ++ callsFor _ effects = _
    rw [callsFor, callsFor, hcalls, Workspace.filterMap_binderCall?_releases,
      Ledger.calls_revise_nil, holdings_ledger_tenant, List.map_map]
    rfl

/-! ### What holds in every run -/

@[simp]
theorem map_snd_callsFor {t : Tenant} {effects : List Effect} :
    (callsFor t effects).map Prod.snd = effects.filterMap Effect.binderCall? := by
  simp [callsFor, Function.comp_def]

/-- A journal records all the calls of a command, in their order. -/
theorem map_snd_calls_command :
    (j.command slot command).calls.map Prod.snd =
      j.calls.map Prod.snd ++
        (j.workspace.step slot command).2.1.filterMap Effect.binderCall? := by
  cases hopens : command.opens with
  | true =>
    obtain ⟨effects, heffects, -⟩ := j.workspace.revises_step_of_opens slot hopens
    simp [command_of_opens hopens heffects, heffects]
  | false => simp [command_of_not_opens hopens]

theorem workspace_command :
    (j.command slot command).workspace = (j.workspace.step slot command).2.2 := by
  rw [Journal.command]
  split <;> rfl

/-- A journal never forgets a call. -/
theorem calls_prefix_next (happening : Happening) : j.calls <+: (j.next happening).calls := by
  cases happening with
  | environment env => exact List.prefix_rfl
  | command slot command =>
    show j.calls <+: (j.command slot command).calls
    rw [Journal.command]
    split
    · rw [List.append_assoc]
      exact List.prefix_append _ _
    · exact List.prefix_append _ _

theorem calls_prefix_run (happenings : List Happening) : j.calls <+: (j.run happenings).calls := by
  induction happenings generalizing j with
  | nil => exact List.prefix_rfl
  | cons happening rest ih => exact (calls_prefix_next happening).trans ih

theorem workspace_next (happening : Happening) :
    (j.next happening).workspace = j.workspace.next happening := by
  cases happening with
  | environment env => rfl
  | command slot command => exact workspace_command

/-- A journal goes along with its workspace. -/
theorem workspace_run (happenings : List Happening) :
    (j.run happenings).workspace = j.workspace.run happenings := by
  induction happenings generalizing j with
  | nil => rfl
  | cons happening rest ih =>
    refine ih.trans ?_
    rw [workspace_next]
    rfl

/-- What the parts of a journal have to do with each other. -/
structure Consistent (j : Journal) : Prop where
  /-- What is held has come about by revisions. -/
  ledger : j.ledger.Reachable
  /-- The registry has followed the calls. -/
  registry : j.workspace.registry = (j.calls.map Prod.snd).foldl Registry.follow Registry.empty
  /-- There is one content in each slot. -/
  slots : j.workspace.slots.Nodup

theorem consistent_start (env : Environment) : (start env).Consistent where
  ledger := by
    have hstart : (start env).ledger = Ledger.empty := by
      apply Ledger.ext
      · funext t
        exact ite_self _
      · rfl
      · rfl
    rw [hstart]
    exact .empty
  registry := rfl
  slots := List.nodup_nil

/-- Every command is a course of revisions. -/
theorem reachable_ledger_command (hj : j.ledger.Reachable) :
    (j.command slot command).ledger.Reachable := by
  cases hopens : command.opens with
  | true =>
    rw [ledger_command_of_opens hopens]
    exact (hj.revise _ _).take _ _
  | false =>
    by_cases hdrop : command = .drop
    · rw [hdrop, ledger_command_drop]
      exact hj.revise _ _
    · rw [ledger_command_of_edit hopens hdrop]
      exact hj.take _ _

theorem consistent_next (hj : j.Consistent) (happening : Happening) :
    (j.next happening).Consistent := by
  cases happening with
  | environment env => exact ⟨hj.ledger, hj.registry, hj.slots⟩
  | command slot command =>
    refine ⟨reachable_ledger_command hj.ledger, ?_, ?_⟩
    · show (j.command slot command).workspace.registry =
        ((j.command slot command).calls.map Prod.snd).foldl Registry.follow Registry.empty
      rw [workspace_command, Workspace.registry_step, map_snd_calls_command, List.foldl_append,
        hj.registry]
    · show (j.command slot command).workspace.slots.Nodup
      rw [workspace_command]
      exact Workspace.nodup_slots_step hj.slots

/-- **The parts of a journal go together** behind every run. -/
theorem consistent_run (hj : j.Consistent) (happenings : List Happening) :
    (j.run happenings).Consistent := by
  induction happenings generalizing j with
  | nil => exact hj
  | cons happening rest ih => exact ih (consistent_next hj happening)

end Journal

/-- Every run has a journal. -/
theorem Workspace.Reached.exists_journal {w : Workspace} (hw : w.Reached) :
    ∃ j : Journal, j.Consistent ∧ j.workspace = w := by
  obtain ⟨env, happenings, rfl⟩ := hw
  refine ⟨(Journal.start env).run happenings, ?_, ?_⟩
  · exact Journal.consistent_run (Journal.consistent_start env) happenings
  · exact Journal.workspace_run happenings

end HdlModule
