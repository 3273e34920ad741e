import HdlModule.Proofs.Workspace.Custody
import HdlModule.Proofs.Content.History

/-!
# How long a parameter keeps its handle

A parameter is recognized in another text by its name and its declared type. As long as each text
that is accepted declares it once, it has the same handle, wherever it stands in the text, whatever
its default value is, and however many edits are refused in between. When a text is accepted that
does not declare it, the handle is gone for good.

The first half is a matter of one slot, and goes by induction on the run: a revision passes handles
on to parameters that count as the same. The second half needs the whole workspace. A handle stays
with the content it was bound for, and with the identity it was bound to, so it is released in that
very step; and the calls of the run keep the release on record.

## Main definitions

* `Happening.keeps`: the happening leaves the content in its slot
* `Workspace.takeovers`: the interfaces that are taken over in a slot during a run

## Main results

* `Workspace.handle_persists`: as long as it is declared once in each accepted text, a parameter
  keeps its handle, and the handle never comes back after that
-/

namespace HdlModule

/-- Whether a happening leaves the content in a slot where it is. -/
def Happening.keeps (slot : String) : Happening → Bool
  | .command other asked => other ≠ slot || !(asked.opens || asked = .drop)
  | .environment _ => true

namespace Workspace

/-- The interface that the content in a slot takes over, if it does. -/
def takenBy? (w : Workspace) (slot : String) : Happening → Option Interface
  | .command other command => if other = slot then w.taken? slot command else none
  | .environment _ => none

/-- The interfaces that are taken over in a slot during a run, in their order. -/
def takeovers (w : Workspace) (slot : String) : List Happening → List Interface
  | [] => []
  | happening :: rest =>
    (w.takenBy? slot happening).toList ++ (w.next happening).takeovers slot rest

section Persistence

variable {w : Workspace} {slot : String} {p q : Parameter} {h : Handle}

/-! ### As long as the parameter is declared -/

/-- A parameter that is there once, and once in what is taken over, keeps its handle. -/
theorem filter_revision {supply : Nat} {old : List (Parameter × Handle)} {i? : Option Interface}
    (hold : old.filter (·.1.sameIdentity q) = [(p, h)])
    (hi : ∀ i ∈ i?, i.parameters.countP (·.sameIdentity q) = 1) :
    ∃ p', (revision supply old i?).entries.filter (·.1.sameIdentity q) = [(p', h)] := by
  cases i? with
  | none => exact ⟨p, hold⟩
  | some i =>
    have hcount : i.parameters.countP (·.sameIdentity q) = 1 := hi i rfl
    have hlength : ((revision supply old (some i)).entries.filter
        (·.1.sameIdentity q)).length = 1 := by
      have hparameters : (revision supply old (some i)).entries.map Prod.fst = i.parameters :=
        map_fst_entries_reconcile ..
      rw [← hparameters, List.countP_map, List.countP_eq_length_filter] at hcount
      exact hcount
    obtain ⟨⟨p', h'⟩, hentry⟩ := List.length_eq_one_iff.1 hlength
    have hprefix : ((old.filter (·.1.sameIdentity q)).map Prod.snd).take
        (i.parameters.countP (·.sameIdentity q)) <+:
          ((revision supply old (some i)).entries.filter (·.1.sameIdentity q)).map Prod.snd :=
      take_prefix_reconcile Parameter.sameIdentity_equivalence q
    rw [hold, hcount, hentry] at hprefix
    have hhandle : h = h' := by simpa using hprefix
    exact ⟨p', by rw [hentry, hhandle]⟩

theorem keeps_next {happening : Happening} (hkeeps : happening.keeps slot = true)
    (hold : (w.parametersIn slot).filter (·.1.sameIdentity q) = [(p, h)])
    (hi : ∀ i ∈ w.takenBy? slot happening, i.parameters.countP (·.sameIdentity q) = 1) :
    ∃ p', ((w.next happening).parametersIn slot).filter (·.1.sameIdentity q) = [(p', h)] := by
  cases happening with
  | environment env => exact ⟨p, hold⟩
  | command other command =>
    by_cases hslot : other = slot
    · subst hslot
      obtain ⟨hopens, hdrop⟩ : command.opens = false ∧ command ≠ .drop := by
        simpa [Happening.keeps] using hkeeps
      show ∃ p', ((w.step other command).2.2.parametersIn other).filter _ = _
      rw [(w.revises_step other hopens hdrop).entries]
      apply filter_revision hold
      intro i hmem
      apply hi
      rw [takenBy?, if_pos rfl]
      exact hmem
    · refine ⟨p, ?_⟩
      show ((w.step other command).2.2.parametersIn slot).filter _ = _
      rw [parametersIn_step_of_ne (Ne.symm hslot), hold]

/-- **A parameter keeps its handle** as long as it is declared once in each text that is
accepted. -/
theorem keeps_run {edits : List Happening} (hkeeps : ∀ e ∈ edits, e.keeps slot = true)
    (hold : (w.parametersIn slot).filter (·.1.sameIdentity q) = [(p, h)])
    (hi : ∀ i ∈ w.takeovers slot edits, i.parameters.countP (·.sameIdentity q) = 1) :
    ∃ p', ((w.run edits).parametersIn slot).filter (·.1.sameIdentity q) = [(p', h)] := by
  induction edits generalizing w p with
  | nil => exact ⟨p, hold⟩
  | cons e rest ih =>
    rw [List.forall_mem_cons] at hkeeps
    simp only [takeovers, List.mem_append, Option.mem_toList, or_imp, forall_and] at hi
    obtain ⟨p', hnext⟩ := keeps_next hkeeps.1 hold hi.1
    exact ih hkeeps.2 hnext hi.2

end Persistence

end Workspace

/-! ### When the parameter is declared no more -/

namespace Journal

variable {j : Journal} {slot : String} {command : Command} {p q : Parameter} {h : Handle}
  {i : Interface}

/-- A handle is gone when a text is accepted that does not declare the parameter. -/
theorem not_mem_held_command (hj : j.Consistent) (hp : (p, h) ∈ j.workspace.parametersIn slot)
    (hq : p.sameIdentity q = true) (happenings : List Happening)
    (htaken : (j.run happenings).workspace.taken? slot command = some i)
    (hi : i.parameters.countP (·.sameIdentity q) = 0) :
    h ∉ ((j.run happenings).command slot command).workspace.held := by
  have hj' : ((j.run happenings).command slot command).Consistent :=
    consistent_next (consistent_run hj happenings) (.command slot command)
  have hcalls : j.calls <+: ((j.run happenings).command slot command).calls :=
    (calls_prefix_run happenings).trans (calls_prefix_next (.command slot command))
  intro hmem
  obtain ⟨t, p', hp'⟩ := (mem_held_iff hj').1 hmem
  rw [← holdings_ledger_tenant] at hp
  obtain ⟨rfl, hsame⟩ := owner_stays hj hj' hcalls hp hp'
  -- whoever holds it would be a parameter of the interface, with the identity that is not there
  have hthere := (eq_tenant_of_mem_holdings hp').2
  rw [workspace_command] at hthere
  have hdeclared : p' ∈ i.parameters := by
    rw [← Workspace.map_fst_parametersIn_step htaken]
    exact List.mem_map_of_mem hthere
  exact List.countP_eq_zero.1 hi p' hdeclared (Parameter.sameIdentity_trans hsame hq)

end Journal

namespace Workspace

variable {w : Workspace} {slot : String} {p q : Parameter} {h : Handle}

/-- **A parameter keeps its handle** through any edits of its content, as long as each text that is
accepted declares it once. After a text is accepted that does not declare it, no content ever
holds the handle again. -/
theorem handle_persists (hw : w.Reached)
    (hold : (w.parametersIn slot).filter (·.1.sameIdentity q) = [(p, h)]) :
    (∀ edits : List Happening, (∀ e ∈ edits, e.keeps slot = true) →
      (∀ i ∈ w.takeovers slot edits, i.parameters.countP (·.sameIdentity q) = 1) →
      ∃ p', ((w.run edits).parametersIn slot).filter (·.1.sameIdentity q) = [(p', h)]) ∧
    ∀ (happenings : List Happening) (command : Command) (i : Interface),
      (w.run happenings).taken? slot command = some i →
      i.parameters.countP (·.sameIdentity q) = 0 →
      ∀ rest : List Happening,
        h ∉ (((w.run happenings).next (.command slot command)).run rest).held := by
  refine ⟨fun edits hkeeps hi => keeps_run hkeeps hold hi, ?_⟩
  intro happenings command i htaken hi rest
  obtain ⟨j, hj, rfl⟩ := hw.exists_journal
  rw [← Journal.workspace_run] at htaken
  rw [← Journal.workspace_run, ← Journal.workspace_next, ← Journal.workspace_run]
  obtain ⟨hp, hq⟩ := List.mem_filter.1 (hold ▸ List.mem_singleton_self (p, h))
  have hgone := Journal.not_mem_held_command hj hp hq happenings htaken hi
  have hj' := Journal.consistent_next (Journal.consistent_run hj happenings) (.command slot command)
  apply Journal.not_mem_held_later hj' (Journal.consistent_run hj' rest)
    (Journal.calls_prefix_run rest) ?_ hgone
  apply Journal.about_ne_nil_later
    ((Journal.calls_prefix_run happenings).trans (Journal.calls_prefix_next _))
  rw [← Journal.holdings_ledger_tenant] at hp
  exact Journal.about_ne_nil hj hp

/-- A parameter that moves to another place and gets another default value, with a refused edit in
between, until it is left out; then another content declares it. -/
theorem handle_persists_moved :
    let edits : List Happening :=
      [.command "a" (.setText "module A #(N="), .command "a" (.rename "end"),
        .command "a" (.setText "module A#(M=2,N=7)();endmodule")]
    let command := Command.setText "module A#(M=2)();endmodule"
    let rest : List Happening := [.command "b" (.parse "B" "module B#(N=1)();endmodule")]
    ∃ w : Workspace, w.Reached ∧
      (w.parametersIn "a").filter (·.1.sameIdentity ⟨"N", none, 0⟩) = [(⟨"N", none, 1⟩, ⟨0⟩)] ∧
      (∃ p', ((w.run edits).parametersIn "a").filter (·.1.sameIdentity ⟨"N", none, 0⟩) =
        [(p', ⟨0⟩)]) ∧
      (((w.run edits).next (.command "a" command)).run rest).held = [⟨2⟩, ⟨1⟩] ∧
      ⟨0⟩ ∉ (((w.run edits).next (.command "a" command)).run rest).held := by
  intro edits command rest
  let w := (start .initial).run [.command "a" (.parse "A" "module A#(N=1,M=2)();endmodule")]
  have hold : (w.parametersIn "a").filter (·.1.sameIdentity ⟨"N", none, 0⟩) =
      [(⟨"N", none, 1⟩, ⟨0⟩)] := by decide +kernel
  have hw : w.Reached := ⟨_, _, rfl⟩
  obtain ⟨hkept, hgone⟩ := handle_persists hw hold
  have hleft : ((w.run edits).taken? "a" command).any (fun i =>
      i.parameters.countP (·.sameIdentity ⟨"N", none, 0⟩) = 0) = true := by decide +kernel
  obtain ⟨i, htaken, hi⟩ := (Option.any_eq_true _ _).1 hleft
  refine ⟨w, hw, hold, hkept edits (by decide) (by decide +kernel), by decide +kernel, ?_⟩
  exact hgone edits command i htaken (of_decide_eq_true hi) rest

end Workspace

end HdlModule
