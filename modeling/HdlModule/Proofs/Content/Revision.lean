import HdlModule.Proofs.Content.Effects
import HdlModule.Proofs.Content.Examine

/-!
# Parameters behind an edit

Of all that an edit does, only one thing concerns the parameters: a text that is examined and not
refused makes the content take over an interface, and the handles are reconciled with its
parameters. Any other edit leaves entries and handles alone and does not call the binder.

## Main definitions

* `Content.taken?`, `Content.takenByRename?`: the interface that an edit takes over, if it does
* `revision`: the entries behind an edit, with the calls that lead to them
* `Revises`: the entries, the supply and the calls behind an operation are those of a revision

## Main results

* `Content.taken?_eq_some_iff`: the edits that take over an interface
* `Content.revises_setText`, `Content.revises_rename`: every edit makes the revision for the
  interface that it takes over
-/

namespace HdlModule

namespace Content

/-- The interface that the content takes over when it is given a text. The text has to be
examined, and accepted. -/
def taken? (env : Environment) (c : Content) (text : String) : Option Interface :=
  match c.storeText text with
  | (true, _) => none
  | (false, c') => (c'.examine env).toOption

/-- The interface that the content takes over when it is given a name. -/
def takenByRename? (env : Environment) (c : Content) (name : String) : Option Interface :=
  if name = c.name then none
  else
    match env.judgeName name true with
    | .error _ => none
    | .ok () => c.taken? env (renameModule c.text c.name name)

end Content

/-- What becomes of entries when an interface is taken over, or none. -/
def revision (supply : Nat) (old : List (Parameter × Handle)) :
    Option Interface → Reconciled Parameter Handle
  | none => ⟨old, []⟩
  | some i => reconcile Parameter.sameIdentity Handle.mk supply old i.parameters

/-- The entries, the supply and the effects behind an operation are those of a revision. -/
structure Revises (supply : Nat) (r : Reconciled Parameter Handle)
    (entries : List (Parameter × Handle)) (supply' : Nat) (effects : List Effect) : Prop where
  entries : entries = r.entries
  supply : supply' = supply + r.bound
  calls : effects.filterMap Effect.binderCall? = r.calls

/-- Nothing is revised if nothing is taken over. -/
theorem Revises.of_none {supply : Nat} {old : List (Parameter × Handle)} {effects : List Effect}
    (h : effects.filterMap Effect.binderCall? = []) :
    Revises supply (revision supply old none) old supply effects :=
  ⟨rfl, rfl, h⟩

namespace Content

variable {env : Environment} {supply : Nat} {c : Content}

/-- The calls of a content that takes over an interface come first among the effects. -/
theorem filterMap_binderCall?_adoptEffects (i : Interface) :
    (c.adoptEffects supply i).filterMap Effect.binderCall? =
      (c.reconciled supply i.parameters).calls := by
  rw [adoptEffects, List.filterMap_append, filterMap_binderCall?_binder]
  split <;> simp

/-- A text that is examined makes the revision for its interface, or none if it is refused. -/
theorem revises_review :
    Revises supply (revision supply c.parameters (c.examine env).toOption)
      (c.review env supply).content.parameters (c.review env supply).supply
      (c.review env supply).effects := by
  cases h : c.examine env with
  | error e =>
    rw [review_of_error h]
    exact .of_none (by simp)
  | ok i =>
    rw [review_of_ok h]
    refine ⟨rfl, rfl, ?_⟩
    simp only [List.filterMap_append, filterMap_binderCall?_checkEffects,
      filterMap_binderCall?_adoptEffects, filterMap_binderCall?_notify, List.nil_append,
      List.append_nil]
    rfl

/-- **An edit of the text makes the revision** for the interface that it takes over. -/
theorem revises_setText (text : String) :
    Revises supply (revision supply c.parameters (c.taken? env text))
      (c.setText env supply text).content.parameters (c.setText env supply text).supply
      (c.setText env supply text).effects := by
  rw [setText_eq, taken?, storeText]
  by_cases h : c.isValid ∧ c.text = text
  · rw [if_pos h, if_pos h]
    exact .of_none rfl
  · rw [if_neg h, if_neg h]
    exact revises_review

/-- An interface is taken over if and only if it is that of the text, and the edit examines the
text and does not refuse it. -/
theorem taken?_eq_some_iff {text : String} {i : Interface} :
    c.taken? env text = some i ↔
      ¬ (c.isValid ∧ c.text = text) ∧ (c.setText env supply text).result = .ok () ∧
        Interface.ofText text = .ok i := by
  rw [setText_eq, taken?, storeText]
  by_cases h : c.isValid ∧ c.text = text
  · rw [if_pos h]
    simp [h]
  · rw [if_neg h, if_neg h]
    show (examine env { c with text := text, isValid := false }).toOption = some i ↔ _
    cases hexamine : examine env { c with text := text, isValid := false } with
    | error e =>
      rw [review_of_error hexamine]
      simp [Except.toOption]
    | ok i' =>
      have hread : Interface.ofText text = .ok i' := (examine_eq_ok_iff.1 hexamine).2.1
      rw [review_of_ok hexamine, hread]
      simp [Except.toOption, h]

/-- A new content has no entries before it takes over an interface. -/
theorem revises_ofText (name text : String) :
    Revises supply (revision supply [] ((blank name).taken? env text))
      (ofText env supply name text).content.parameters (ofText env supply name text).supply
      (ofText env supply name text).effects :=
  revises_setText text

/-- **A change of the name makes the revision** for the interface that it takes over. -/
theorem revises_rename (name : String) :
    Revises supply (revision supply c.parameters (c.takenByRename? env name))
      (c.rename env supply name).content.parameters (c.rename env supply name).supply
      (c.rename env supply name).effects := by
  rw [takenByRename?]
  by_cases hname : name = c.name
  · rw [if_pos hname, hname, rename_name_self]
    exact .of_none rfl
  · rw [if_neg hname]
    cases hjudge : env.judgeName name true with
    | error e =>
      rw [rename_of_judgeName_error hname hjudge]
      exact .of_none rfl
    | ok u =>
      rw [rename_eq_setText hname hjudge]
      exact revises_setText _

end Content

end HdlModule
