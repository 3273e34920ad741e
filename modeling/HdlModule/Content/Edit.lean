import HdlModule.Content.Basic
import HdlModule.Interface.Read
import HdlModule.Token.Rename
import HdlModule.Design.Template

/-!
# Editing contents

An edit stores the new text first. Then the text is examined: the checker is asked, the interface
is read, its names are judged. If nothing is wrong, the content takes over the interface, and
parameters that stay keep their handles. Listeners are told of a new name, and always, at the
end, that the edit is finished.

## Main definitions

* `Content.examine`: the interface of the text of a content, or the first reason to refuse it
* `Content.adopt`, `Content.adoptEffects`: a content with the interface of its text, and what
  happens on the way
* `Content.setText`, `Content.storeText`: edits with and without examination
* `Content.rename`: a change of the name in the text
* `Content.ofText`, `Content.create`: new contents
-/

namespace HdlModule

/-! ### Examination -/

/-- What follows from the check of a text, if the check comes to an end. -/
def Environment.check? (env : Environment) (text : String) : Option (Except Refusal Unit) :=
  match env.checker? with
  | some checker => judge env.settings.checkLimit? (checker text)
  | none => some (.ok ())

/-- What follows from the check of a text. An edit whose check does not come to an end does not come
back: it has stored its text, as `Content.storeText` does, and it does no more. There is nothing to
say about its outcome, so that the value for such a check, that of a checker that stopped, is
arbitrary. -/
def Environment.check (env : Environment) (text : String) : Except Refusal Unit :=
  (env.check? text).getD (.error checkerStopped)

/-- The record of asking the checker. -/
def Environment.checkEffects (env : Environment) (text : String) : List Effect :=
  match env.checker? with
  | some checker => [.checked text (checker text)]
  | none => []

/-- Accepts a legal name, which has to be new in the design if `mustBeNew` says so. -/
def Environment.judgeName (env : Environment) (name : String) (mustBeNew : Bool) :
    Except NameError Unit :=
  match validateName env.settings.keywordCase name with
  | .error e => .error e
  | .ok () => if mustBeNew && env.names.contains name then .error (.duplicate name) else .ok ()

/-- Accepts parameters with legal names. -/
def Environment.judgeParameters (env : Environment) : List Parameter → Except NameError Unit
  | [] => .ok ()
  | p :: ps =>
    match validateName env.settings.keywordCase p.name with
    | .error e => .error e
    | .ok () => env.judgeParameters ps

namespace Content

/-- The interface of the text, or the first reason to refuse it. The checker comes first, then
the reading, then the name of the module, which may be the present one, then the names of the
parameters. -/
def examine (env : Environment) (c : Content) : Except Refusal Interface := do
  env.check c.text
  let interface ← (Interface.ofText c.text).mapError (Refusal.ofDiagnostic · c.text)
  (env.judgeName interface.name (interface.name != c.name)).mapError Refusal.name
  (env.judgeParameters interface.parameters).mapError Refusal.name
  return interface

/-! ### Edits -/

/-- The handles for new parameters, where `supply` is the number of the next fresh handle. -/
def reconciled (c : Content) (supply : Nat) (parameters : List Parameter) :
    Reconciled Parameter Handle :=
  reconcile Parameter.sameIdentity Handle.mk supply c.parameters parameters

/-- The content with the interface of its text. -/
def adopt (c : Content) (supply : Nat) (interface : Interface) : Content :=
  { c with
    isValid := true
    name := interface.name
    ports := interface.ports
    parameters := (c.reconciled supply interface.parameters).entries }

/-- What happens when a content takes over an interface: the calls to the binder, and the word to
the listeners if the name is another. -/
def adoptEffects (c : Content) (supply : Nat) (interface : Interface) : List Effect :=
  (c.reconciled supply interface.parameters).calls.map .binder ++
    if c.name = interface.name then []
    else (c.adopt supply interface).notify (.nameChanged c.name interface.name)

/-- The content after an edit that was refused for a reason, or accepted without one. -/
def settle (c : Content) (refusal? : Option Refusal) : Content :=
  { c with lastRefusal? := refusal? }

/-- The content with another text, which is not examined. A valid content is not touched by its
own text, and the answer says whether that was so. -/
def storeText (c : Content) (text : String) : Bool × Content :=
  if c.isValid ∧ c.text = text then (true, c)
  else (false, { c with text := text, isValid := false })

/-- The content after its text was examined. The listeners are told in the end. -/
def review (env : Environment) (supply : Nat) (c : Content) :
    Outcome (Except Refusal Unit) :=
  match c.examine env with
  | .error e =>
    ⟨.error e, c.settle (some e), supply,
      env.checkEffects c.text ++ (c.settle (some e)).notify .contentSet⟩
  | .ok interface =>
    ⟨.ok (), (c.adopt supply interface).settle none,
      supply + (c.reconciled supply interface.parameters).bound,
      env.checkEffects c.text ++ c.adoptEffects supply interface ++
        ((c.adopt supply interface).settle none).notify .contentSet⟩

/-- The content with another text, which is examined unless it is that of a valid content. -/
def setText (env : Environment) (supply : Nat) (c : Content) (text : String) :
    Outcome (Except Refusal Unit) :=
  match c.storeText text with
  | (true, c) => ⟨.ok (), c, supply, []⟩
  | (false, c) => c.review env supply

/-- The content with another name, in its text as well. A name that is not legal or not new is
refused before anything changes. -/
def rename (env : Environment) (supply : Nat) (c : Content) (name : String) :
    Outcome (Except Refusal Unit) :=
  if name = c.name then ⟨.ok (), c, supply, []⟩
  else
    match env.judgeName name true with
    | .error e => ⟨.error (.name e), c, supply, []⟩
    | .ok () => c.setText env supply (renameModule c.text c.name name)

/-- The content with another appearance. Listeners are told of a change. -/
def setAppearance (c : Content) (appearance : Appearance) : Content × List Effect :=
  if c.appearance = appearance then (c, [])
  else
    let changed := { c with appearance := appearance }
    (changed, changed.notify (.appearanceChanged c.appearance appearance))

/-- The notifications that the design is about to be written out. -/
def aboutToSave (c : Content) : List Effect := c.notify .aboutToSave

/-! ### New contents -/

/-- The content of a module with a text. It is there also if the text is refused. -/
def ofText (env : Environment) (supply : Nat) (name text : String) :
    Outcome (Except Refusal Unit) :=
  (blank name).setText env supply text

/-- The content of a new module, from the template. -/
def create (env : Environment) (supply : Nat) (name : String) :
    Outcome (Except Refusal Unit) :=
  ofText env supply name (renderTemplate env.settings.template? name env.settings.keywordCase)

end Content

end HdlModule
