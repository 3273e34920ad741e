import HdlModule.Content.Edit
import HdlModule.Content.Summary

/-!
# Workspaces

A workspace holds the contents of several modules of one design. They share the settings, the
checker, the names of the design and the registry of attributes. A command acts on the content in
a slot, or on the names of the design; the registry follows the calls to the binder that the
contents make.

## Main definitions

* `Workspace`: the shared state and the contents
* `Command`, `Answer`: what can be asked, and what is said about it
* `Workspace.step`: the answer to a command, its effects, and the workspace behind it
-/

namespace HdlModule

/-- The state that the contents of a design share, and the contents. -/
structure Workspace where
  env : Environment
  registry : Registry
  /-- The number of the next fresh handle. -/
  supply : Nat
  /-- How often a checker was asked. -/
  checks : Nat
  /-- The contents in their slots. -/
  contents : List (String × Content)
  /-- The last subscription under each tag. -/
  subscriptions : List (String × ListenerId)

/-- What can be asked about the content in a slot, or about the design. -/
inductive Command where
  /-- Puts a new module into the slot. -/
  | create (name : String)
  /-- Puts a module with a text into the slot. -/
  | parse (name text : String)
  /-- Empties the slot. -/
  | drop
  | setText (text : String)
  | storeText (text : String)
  | rename (name : String)
  | setAppearance (appearance : Appearance)
  | aboutToSave
  | subscribe (tag : String)
  | unsubscribe (tag : String)
  | matchesText (text : String)
  | handleOf (parameter : String)
  /-- Reads a value of the attribute of a parameter. -/
  | parseValue (parameter text : String)
  | insertName (name : String)
  | removeName (name : String)
  | renameName (old new : String)
  | summary
  | environmentSummary
deriving DecidableEq

/-- What is said about a command. -/
inductive Answer where
  /-- Nothing is said, or the slot is empty. -/
  | silence
  | edited (result : Except Refusal Unit)
  | flag (value : Bool)
  | subscribed (id : ListenerId)
  | handle (handle? : Option Handle)
  | value (owner : Attribute) (result : Except Refusal (Option Int32))
  | text (text : String)

namespace Workspace

/-- A workspace without contents. -/
def start (env : Environment) : Workspace := ⟨env, Registry.empty, 0, 0, [], []⟩

/-- The content in a slot. -/
def content? (w : Workspace) (slot : String) : Option Content :=
  (w.contents.find? (·.1 = slot)).map Prod.snd

/-- The workspace with a content in a slot. -/
def put (w : Workspace) (slot : String) (c : Content) : Workspace :=
  { w with contents := (slot, c) :: w.contents.filter (·.1 ≠ slot) }

/-- The workspace with nothing in a slot. -/
def clear (w : Workspace) (slot : String) : Workspace :=
  { w with contents := w.contents.filter (·.1 ≠ slot) }

/-- The workspace after effects of its contents. -/
def follow (w : Workspace) (effects : List Effect) : Workspace :=
  { w with
    registry := (effects.filterMap Effect.binderCall?).foldl Registry.follow w.registry
    checks := w.checks + effects.countP Effect.isCheck }

/-- The workspace with other names in its design. -/
def withNames (w : Workspace) (names : ModuleNames) : Workspace :=
  { w with env := { w.env with names := names } }

/-- The effects of dropping what is in a slot. -/
def releases (w : Workspace) (slot : String) : List Effect :=
  match w.content? slot with
  | some c => c.releases
  | none => []

/-- The workspace with the outcome of an operation in a slot. -/
def settle {α : Type} (w : Workspace) (slot : String) (before : List Effect)
    (outcome : Outcome α) : List Effect × Workspace :=
  let effects := before ++ outcome.effects
  (effects, { (w.put slot outcome.content).follow effects with supply := outcome.supply })

/-- The answer to a command about the content in a slot, its effects, and the workspace behind
it. -/
def stepOn (w : Workspace) (slot : String) (c : Content) :
    Command → Answer × List Effect × Workspace
  | .setText text =>
    let outcome := c.setText w.env w.supply text
    (.edited outcome.result, w.settle slot [] outcome)
  | .rename name =>
    let outcome := c.rename w.env w.supply name
    (.edited outcome.result, w.settle slot [] outcome)
  | .storeText text => (.flag (c.storeText text).1, [], w.put slot (c.storeText text).2)
  | .setAppearance appearance =>
    (.silence, (c.setAppearance appearance).2, w.put slot (c.setAppearance appearance).1)
  | .aboutToSave => (.silence, c.aboutToSave, w)
  | .subscribe tag =>
    (.subscribed (c.subscribe tag).1, [],
      { w.put slot (c.subscribe tag).2 with
        subscriptions := (tag, (c.subscribe tag).1) :: w.subscriptions })
  | .unsubscribe tag =>
    match w.subscriptions.find? (·.1 = tag) with
    | some (_, id) => (.flag (c.unsubscribe id).1, [], w.put slot (c.unsubscribe id).2)
    | none => (.flag false, [], w)
  | .matchesText text => (.flag (c.matchesText text), [], w)
  | .handleOf parameter => (.handle (c.handleOf? parameter), [], w)
  | .parseValue parameter text =>
    match (c.handleOf? parameter).bind w.registry.get? with
    | some a => (.value a (a.parse text), [], w)
    | none => (.silence, [], w)
  | .summary => (.text c.summary, [], w)
  | _ => (.silence, [], w)

/-- The answer to a command, its effects, and the workspace behind it. A content that is replaced
or dropped gives up its handles first. -/
def step (w : Workspace) (slot : String) (command : Command) :
    Answer × List Effect × Workspace :=
  match command with
  | .create name =>
    (.silence, w.settle slot (w.releases slot) (Content.create w.env w.supply name))
  | .parse name text =>
    (.silence, w.settle slot (w.releases slot) (Content.ofText w.env w.supply name text))
  | .drop => (.silence, w.releases slot, (w.clear slot).follow (w.releases slot))
  | .insertName name =>
    (.flag (w.env.names.insert name).1, [], w.withNames (w.env.names.insert name).2)
  | .removeName name =>
    (.flag (w.env.names.remove name).1, [], w.withNames (w.env.names.remove name).2)
  | .renameName old new =>
    (.flag (w.env.names.rename old new).1, [], w.withNames (w.env.names.rename old new).2)
  | .environmentSummary => (.text w.env.summary, [], w)
  | command =>
    match w.content? slot with
    | some c => w.stepOn slot c command
    | none => (.silence, [], w)

/-! ### Slots -/

section Slots

variable {w : Workspace} {slot other : String} {c : Content}

@[simp]
theorem content?_put_self : (w.put slot c).content? slot = some c := by
  simp [content?, put]

@[simp]
theorem content?_clear_self : (w.clear slot).content? slot = none := by
  simp [content?, clear]

theorem content?_clear_of_ne (h : other ≠ slot) :
    (w.clear slot).content? other = w.content? other := by
  simp only [content?, clear, List.find?_filter]
  refine congrArg (fun p => (w.contents.find? p).map Prod.snd) (funext fun entry => ?_)
  by_cases hentry : entry.1 = other
  · simp [hentry, h]
  · simp [hentry]

theorem content?_put_of_ne (h : other ≠ slot) :
    (w.put slot c).content? other = w.content? other := by
  refine Eq.trans ?_ (content?_clear_of_ne h)
  simp only [content?, put, clear]
  rw [List.find?_cons_of_neg (by simpa using h.symm)]

@[simp]
theorem content?_follow {effects : List Effect} :
    (w.follow effects).content? slot = w.content? slot := rfl

variable {α : Type} {before : List Effect} {outcome : Outcome α}

@[simp]
theorem content?_settle_self :
    (w.settle slot before outcome).2.content? slot = some outcome.content :=
  content?_put_self

theorem content?_settle_of_ne (h : other ≠ slot) :
    (w.settle slot before outcome).2.content? other = w.content? other :=
  content?_put_of_ne h

end Slots

end Workspace

end HdlModule
