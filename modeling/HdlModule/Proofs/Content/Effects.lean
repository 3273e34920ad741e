import HdlModule.Content.Edit

/-!
# Traces of effects

What an operation does outside a content is a list of effects. Two views of such a list matter
apart from each other: the calls to the binder, and the notices that listeners are given. Each
sort of effect shows in at most one of them. Together with an event a listener sees the content,
as it is at that moment.

## Main definitions

* `Effect.notice?`: the listener and the event of a notification
* `Shows P es`: the contents that listeners see have a property
-/

namespace HdlModule

/-- The listener and the event of a notification. -/
def Effect.notice? : Effect → Option (String × Event)
  | notified listener event _ => some (listener, event)
  | _ => none

section Effects

variable {calls : List (BinderCall Parameter Handle)} {env : Environment} {text : String}
  {c : Content} {event : Event}

@[simp]
theorem filterMap_notice?_notify :
    (c.notify event).filterMap Effect.notice? =
      c.listeners.listeners.map fun listener => (listener, event) := by
  simp only [Content.notify, List.filterMap_map, Function.comp_def, Effect.notice?]
  rw [List.filterMap_eq_map']

@[simp]
theorem filterMap_notice?_binder :
    (calls.map Effect.binder).filterMap Effect.notice? = [] := by
  simp [Effect.notice?]

@[simp]
theorem filterMap_notice?_checkEffects :
    (env.checkEffects text).filterMap Effect.notice? = [] := by
  unfold Environment.checkEffects
  split <;> rfl

@[simp]
theorem filterMap_binderCall?_notify :
    (c.notify event).filterMap Effect.binderCall? = [] := by
  simp [Content.notify, Effect.binderCall?]

@[simp]
theorem filterMap_binderCall?_binder :
    (calls.map Effect.binder).filterMap Effect.binderCall? = calls := by
  simp [List.filterMap_map, Function.comp_def, Effect.binderCall?]

@[simp]
theorem filterMap_binderCall?_checkEffects :
    (env.checkEffects text).filterMap Effect.binderCall? = [] := by
  unfold Environment.checkEffects
  split <;> rfl

end Effects

/-! ### What listeners see -/

section Shows

/-- Each content that a listener sees has a property, which may depend on the event that the
listener is told. -/
def Shows (P : Event → Content → Prop) (es : List Effect) : Prop :=
  ∀ listener event seen, Effect.notified listener event seen ∈ es → P event seen

variable {P : Event → Content → Prop} {es es' : List Effect} {c : Content} {event : Event}

@[simp]
theorem shows_nil : Shows P [] := by
  intro listener event seen h
  cases h

@[simp]
theorem shows_append : Shows P (es ++ es') ↔ Shows P es ∧ Shows P es' := by
  simp only [Shows, List.mem_append]
  constructor
  · intro h
    exact ⟨fun l e s hs => h l e s (Or.inl hs), fun l e s hs => h l e s (Or.inr hs)⟩
  · rintro ⟨h, h'⟩ l e s (hs | hs)
    · exact h l e s hs
    · exact h' l e s hs

theorem shows_notify (h : P event c) : Shows P (c.notify event) := by
  intro listener event' seen hseen
  obtain ⟨_, -, heq⟩ := List.mem_map.1 hseen
  cases heq
  exact h

/-- A notification shows the content itself, if there is anyone to see it. -/
theorem shows_notify_iff :
    Shows P (c.notify event) ↔ c.listeners.listeners = [] ∨ P event c := by
  constructor
  · intro h
    cases hlisteners : c.listeners.listeners with
    | nil => exact Or.inl rfl
    | cons listener rest =>
      refine Or.inr (h listener event c (List.mem_map.2 ⟨listener, ?_, rfl⟩))
      rw [hlisteners]
      exact List.mem_cons_self
  · rintro (h | h)
    · rw [Content.notify, h]
      exact shows_nil
    · exact shows_notify h

/-- An effect that shows a listener a content shows it with the property. -/
def Effect.Shows (P : Event → Content → Prop) : Effect → Prop
  | notified _ event seen => P event seen
  | _ => True

instance [∀ event seen, Decidable (P event seen)] (effect : Effect) :
    Decidable (effect.Shows P) :=
  match effect with
  | .notified _ event seen => inferInstanceAs (Decidable (P event seen))
  | .checked _ _ | .binder _ => isTrue trivial

theorem shows_iff_forall_mem : Shows P es ↔ ∀ effect ∈ es, effect.Shows P := by
  constructor
  · intro h effect heffect
    cases effect with
    | notified listener event seen => exact h listener event seen heffect
    | _ => trivial
  · exact fun h listener event seen hseen => h _ hseen

instance [∀ event seen, Decidable (P event seen)] : Decidable (Shows P es) :=
  decidable_of_iff _ shows_iff_forall_mem.symm

theorem shows_checkEffects (env : Environment) (text : String) :
    Shows P (env.checkEffects text) := by
  intro listener event seen hseen
  unfold Environment.checkEffects at hseen
  split at hseen <;> simp at hseen

theorem shows_binder (calls : List (BinderCall Parameter Handle)) :
    Shows P (calls.map .binder) := by
  intro listener event seen hseen
  simp at hseen

end Shows

end HdlModule
