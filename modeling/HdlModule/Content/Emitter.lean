/-!
# Emitters

An emitter calls its listeners in the order in which they subscribed. A subscription has an
identifier that is never given out again.

## Main definitions

* `Emitter α`: the subscriptions, with listeners of type `α`
* `Emitter.subscribe`, `Emitter.unsubscribe`: adding and removing a listener
* `Emitter.emit`: calling all listeners, each of which may change its own state
-/

namespace HdlModule

/-- The identifier of a subscription. -/
structure ListenerId where
  number : Nat
deriving DecidableEq

/-- The identifier as it is shown. -/
def ListenerId.text (id : ListenerId) : String := "ListenerId(" ++ toString id.number ++ ")"

/-- The subscriptions, in the order in which they were made, and the next identifier. -/
structure Emitter (α : Type) where
  subscriptions : List (ListenerId × α)
  next : Nat

namespace Emitter

variable {α β : Type}

/-- No subscriptions. -/
def empty : Emitter α := ⟨[], 0⟩

/-- The listeners, in the order of their subscriptions. -/
def listeners (e : Emitter α) : List α := e.subscriptions.map Prod.snd

/-- The number of subscriptions. -/
def size (e : Emitter α) : Nat := e.subscriptions.length

/-- Adds a listener behind the others. -/
def subscribe (e : Emitter α) (listener : α) : ListenerId × Emitter α :=
  (⟨e.next⟩, ⟨e.subscriptions ++ [(⟨e.next⟩, listener)], e.next + 1⟩)

/-- Removes a subscription, and says whether there was one. -/
def unsubscribe (e : Emitter α) (id : ListenerId) : Bool × Emitter α :=
  (e.subscriptions.any (·.1 = id),
    { e with subscriptions := e.subscriptions.filter (·.1 ≠ id) })

/-- Calls each listener in order. A call gives an answer and the listener's new state. -/
def emit (e : Emitter α) (call : α → β × α) : List β × Emitter α :=
  (e.listeners.map fun listener => (call listener).1,
    { e with subscriptions := e.subscriptions.map fun s => (s.1, (call s.2).2) })

/-! ### Operations and listeners -/

@[simp]
theorem listeners_empty : (empty : Emitter α).listeners = [] := rfl

@[simp]
theorem listeners_subscribe (e : Emitter α) (listener : α) :
    (e.subscribe listener).2.listeners = e.listeners ++ [listener] := by
  simp [subscribe, listeners]

@[simp]
theorem length_emit (e : Emitter α) (call : α → β × α) :
    (e.emit call).1.length = e.size := by
  simp [emit, listeners, size]

@[simp]
theorem listeners_emit (e : Emitter α) (call : α → β × α) :
    (e.emit call).2.listeners = e.listeners.map fun listener => (call listener).2 := by
  simp [emit, listeners]

/-- The emitter as it is shown. -/
def text (e : Emitter α) : String :=
  "EventEmitter \x7b listeners: " ++ toString e.size ++ " \x7d"

end Emitter

end HdlModule
