import HdlModule.Attribute.Registry
import HdlModule.Design.Settings
import HdlModule.Content.Emitter
import HdlModule.Interface.Basic
import HdlModule.Design.Names
import HdlModule.Design.Checker
import HdlModule.Text.Lines

/-!
# Contents of modules

A content is the text of one module together with the interface that was last read from it. A
valid content has the interface of exactly its text. After a refused edit the text is the refused
one, while the interface stays that of the last text that was accepted.

Operations on a content may call the binder, ask the checker and notify listeners. These effects
are recorded in the order in which they happen, and a notification records the content as the
listener sees it at that moment.

## Main definitions

* `Content`: the state of a module
* `Event`, `Effect`: what listeners are told, and what an operation does outside the content
* `Outcome`: the result, the new state and the effects of an operation
* `Environment`: what an operation may consult
-/

namespace HdlModule

/-- The style of symbol in which a module is drawn. -/
inductive Appearance where
  | classic
  | evolution
  | fpga
deriving DecidableEq

/-- What listeners are told about a content. -/
inductive Event where
  /-- An edit of the text is finished, accepted or not. -/
  | contentSet
  | nameChanged (old new : String)
  | appearanceChanged (old new : Appearance)
  /-- The design is about to be written out. -/
  | aboutToSave
deriving DecidableEq

/-- The state of a module. -/
structure Content where
  text : String
  name : String
  ports : List Port
  parameters : List (Parameter × Handle)
  /-- Whether name, ports and parameters are those of the text. -/
  isValid : Bool
  /-- Why the last edit of the text was refused, if it was. -/
  lastRefusal? : Option Refusal
  appearance : Appearance
  /-- The listeners, each with a tag by which it is told from others. -/
  listeners : Emitter String

/-- What an operation does outside the content. -/
inductive Effect where
  /-- The checker was asked about a text. -/
  | checked (text : String) (answer : CheckAnswer)
  /-- The binder was called. -/
  | binder (call : BinderCall Parameter Handle)
  /-- A listener was told an event, and saw the content. -/
  | notified (listener : String) (event : Event) (seen : Content)

namespace Effect

/-- The call to the binder, if the effect is one. -/
def binderCall? : Effect → Option (BinderCall Parameter Handle)
  | binder call => some call
  | _ => none

/-- Whether a checker was asked. -/
def isCheck : Effect → Bool
  | checked _ _ => true
  | _ => false

end Effect

/-- The result, the new content and the effects of an operation. Fresh handles are numbered;
`supply` is the next number. -/
structure Outcome (α : Type) where
  result : α
  content : Content
  supply : Nat
  effects : List Effect

/-- What an operation may consult. -/
structure Environment where
  settings : Settings
  /-- The checker of texts, if there is one. -/
  checker? : Option Checker
  /-- The names of the modules of the design. -/
  names : ModuleNames

namespace Content

/-- A content without a text. -/
def blank (name : String) : Content :=
  ⟨"", name, [], [], false, none, .evolution, Emitter.empty⟩

/-- The notifications of all listeners, in the order of their subscriptions. -/
def notify (c : Content) (event : Event) : List Effect :=
  c.listeners.listeners.map fun listener => .notified listener event c

/-- The handle of the first parameter with a name. -/
def handleOf? (c : Content) (parameter : String) : Option Handle :=
  (c.parameters.find? (·.1.name = parameter)).map Prod.snd

/-- Whether a text is that of the content but for the style of line endings. -/
def matchesText (c : Content) (text : String) : Bool :=
  joinLines c.text.toList == joinLines text.toList

/-- Adds a listener. -/
def subscribe (c : Content) (tag : String) : ListenerId × Content :=
  ((c.listeners.subscribe tag).1, { c with listeners := (c.listeners.subscribe tag).2 })

/-- Removes a listener, and says whether there was one. -/
def unsubscribe (c : Content) (id : ListenerId) : Bool × Content :=
  ((c.listeners.unsubscribe id).1, { c with listeners := (c.listeners.unsubscribe id).2 })

/-- The calls that give up the handles of a content that is dropped. -/
def releases (c : Content) : List Effect :=
  c.parameters.map fun entry => .binder (.release entry.2)

end Content

end HdlModule
