import HdlModule.Proofs.Content.Announcement

/-!
# The status that listeners see

A content that is valid has no reason for a refusal: the edit that made it valid took away the
reason that was there. This is so behind every operation. In the middle of an edit it need not be
so. The change of the name is announced when the content is valid already and the reason of an
earlier refusal is still there; the end of the edit is announced when it is gone.

## Main definitions

* `Cleared c`: the content has no reason for a refusal if it is valid
* `Content.HidesRefusal c c'`: nothing of an earlier refusal can be seen between two contents

## Main results

* `Content.shows_review_iff`: what an edit shows its listeners
* `Content.cleared_perform`: every operation keeps a content cleared
* `Content.shows_cleared_perform_iff`: when an operation shows listeners cleared contents only
* `History.shows_cleared_iff`: the same for histories, and what listeners saw in them
* `History.not_forall_shows_cleared`: listeners need not see cleared contents only
-/

namespace HdlModule

/-- The content has no reason for a refusal if it is valid. -/
def Cleared (c : Content) : Prop := c.isValid = true → c.lastRefusal? = none

instance (c : Content) : Decidable (Cleared c) :=
  inferInstanceAs (Decidable (c.isValid = true → c.lastRefusal? = none))

theorem cleared_of_not_isValid {c : Content} (h : c.isValid = false) : Cleared c := by
  intro hc
  rw [h] at hc
  cases hc

/-- A content that is shown to listeners is cleared, unless they are told of another name. -/
def ClearedUnlessRenamed (event : Event) (seen : Content) : Prop :=
  event.nameChange? = none → Cleared seen

namespace Content

variable {env : Environment} {supply : Nat} {c : Content}

/-! ### What an operation keeps -/

/-- An edit shows its listeners the content at its end, and before that the content with its new
name, if it has one. -/
theorem shows_review_iff {P : Event → Content → Prop} :
    Shows P (c.review env supply).effects ↔
      (c.listeners.listeners = [] ∨ P .contentSet (c.review env supply).content) ∧
      ∀ i, c.examine env = .ok i → c.name ≠ i.name →
        c.listeners.listeners = [] ∨ P (.nameChanged c.name i.name) (c.adopt supply i) := by
  cases hexamine : c.examine env with
  | error e =>
    rw [review_of_error hexamine, shows_append, shows_notify_iff]
    constructor
    · exact fun ⟨_, hend⟩ => ⟨hend, fun i hi => nomatch hi⟩
    · exact fun ⟨hend, _⟩ => ⟨shows_checkEffects env c.text, hend⟩
  | ok i =>
    rw [review_of_ok hexamine, shows_append, shows_append, adoptEffects, shows_append,
      shows_notify_iff]
    constructor
    · rintro ⟨⟨-, -, hname⟩, hend⟩
      refine ⟨hend, fun i' hi' hne => ?_⟩
      cases hi'
      rw [if_neg hne] at hname
      exact shows_notify_iff.1 hname
    · rintro ⟨hend, hname⟩
      refine ⟨⟨shows_checkEffects env c.text, shows_binder _, ?_⟩, hend⟩
      split
      · exact shows_nil
      · next hne => exact shows_notify_iff.2 (hname i rfl hne)

/-- An edit that is finished leaves a reason for its refusal only on a content that is not
valid. -/
theorem cleared_review (h : c.isValid = false) : Cleared (c.review env supply).content := by
  cases hexamine : c.examine env with
  | error e =>
    rw [review_of_error hexamine]
    exact cleared_of_not_isValid h
  | ok i =>
    rw [review_of_ok hexamine]
    exact fun _ => rfl

theorem cleared_setText (h : Cleared c) (text : String) :
    Cleared (c.setText env supply text).content ∧
      Shows ClearedUnlessRenamed (c.setText env supply text).effects := by
  rw [setText_eq]
  split
  · exact ⟨h, shows_nil⟩
  · refine ⟨cleared_review rfl, shows_review_iff.2 ⟨Or.inr fun _ => cleared_review rfl, ?_⟩⟩
    exact fun i _ _ => Or.inr fun hevent => nomatch hevent

theorem cleared_rename (h : Cleared c) (name : String) :
    Cleared (c.rename env supply name).content ∧
      Shows ClearedUnlessRenamed (c.rename env supply name).effects := by
  unfold rename
  split
  · exact ⟨h, shows_nil⟩
  · split
    · exact ⟨h, shows_nil⟩
    · exact cleared_setText h _

/-- **Every operation keeps a content cleared**, and listeners that are not told of another name
see cleared contents on the way. -/
theorem cleared_perform (env : Environment) (supply : Nat) (h : Cleared c)
    (operation : Operation) :
    Cleared (c.perform env supply operation).1 ∧
      Shows ClearedUnlessRenamed (c.perform env supply operation).2 := by
  cases operation with
  | setText text => exact cleared_setText h text
  | storeText text =>
    refine ⟨?_, shows_nil⟩
    show Cleared (c.storeText text).2
    unfold storeText
    split
    · exact h
    · exact cleared_of_not_isValid rfl
  | rename name => exact cleared_rename h name
  | setAppearance appearance =>
    show Cleared (c.setAppearance appearance).1 ∧
      Shows ClearedUnlessRenamed (c.setAppearance appearance).2
    unfold setAppearance
    split
    · exact ⟨h, shows_nil⟩
    · exact ⟨h, shows_notify fun _ => h⟩
  | aboutToSave => exact ⟨h, shows_notify fun _ => h⟩
  | subscribe tag => exact ⟨h, shows_nil⟩
  | unsubscribe id => exact ⟨h, shows_nil⟩

/-! ### When listeners see a refusal that is over -/

/-- Nothing of an earlier refusal can be seen on the way from one content to another: there is
nothing, there is nobody to see it, or the name stays. -/
def HidesRefusal (c c' : Content) : Prop :=
  c.lastRefusal? = none ∨ c.listeners.listeners = [] ∨ c'.name = c.name

theorem shows_cleared_of_name_eq {es : List Effect} {c' : Content}
    (hes : Shows (fun _ => Cleared) es) (hname : c'.name = c.name) :
    Shows (fun _ => Cleared) es ↔ c.HidesRefusal c' :=
  ⟨fun _ => Or.inr (Or.inr hname), fun _ => hes⟩

theorem shows_cleared_review_iff (h : c.isValid = false) :
    Shows (fun _ => Cleared) (c.review env supply).effects ↔
      c.HidesRefusal (c.review env supply).content := by
  rw [shows_review_iff, and_iff_right (Or.inr (cleared_review h)), HidesRefusal]
  cases hexamine : c.examine env with
  | error e =>
    rw [review_of_error hexamine]
    exact iff_of_true (fun i hi => nomatch hi) (Or.inr (Or.inr rfl))
  | ok i =>
    rw [review_of_ok hexamine]
    constructor
    · intro hseen
      by_cases hname : c.name = i.name
      · exact Or.inr (Or.inr hname.symm)
      · -- the content that takes over the interface is valid, and still has the refusal
        exact (hseen i rfl hname).elim (fun hnobody => Or.inr (Or.inl hnobody))
          fun hcleared => Or.inl (hcleared rfl)
    · rintro (hnone | hnobody | hname) i' hi' hne
      · exact Or.inr fun _ => hnone
      · exact Or.inl hnobody
      · cases hi'
        exact absurd hname.symm hne

theorem shows_cleared_setText_iff (text : String) :
    Shows (fun _ => Cleared) (c.setText env supply text).effects ↔
      c.HidesRefusal (c.setText env supply text).content := by
  rw [setText_eq]
  split
  · exact shows_cleared_of_name_eq shows_nil rfl
  · exact shows_cleared_review_iff rfl

theorem shows_cleared_rename_iff (name : String) :
    Shows (fun _ => Cleared) (c.rename env supply name).effects ↔
      c.HidesRefusal (c.rename env supply name).content := by
  unfold rename
  split
  · exact shows_cleared_of_name_eq shows_nil rfl
  · split
    · exact shows_cleared_of_name_eq shows_nil rfl
    · exact shows_cleared_setText_iff _

/-- **Listeners see cleared contents only**, during an operation on a cleared content, exactly if
nothing was left of an earlier refusal, or there are no listeners, or the name stays. -/
theorem shows_cleared_perform_iff (env : Environment) (supply : Nat) (h : Cleared c)
    (operation : Operation) :
    Shows (fun _ => Cleared) (c.perform env supply operation).2 ↔
      c.HidesRefusal (c.perform env supply operation).1 := by
  cases operation with
  | setText text => exact shows_cleared_setText_iff text
  | storeText text =>
    refine shows_cleared_of_name_eq shows_nil ?_
    simp only [perform, storeText]
    split <;> rfl
  | rename name => exact shows_cleared_rename_iff name
  | setAppearance appearance =>
    show Shows (fun _ => Cleared) (c.setAppearance appearance).2 ↔
      c.HidesRefusal (c.setAppearance appearance).1
    unfold setAppearance
    split
    · exact shows_cleared_of_name_eq shows_nil rfl
    · exact shows_cleared_of_name_eq (shows_notify h) rfl
  | aboutToSave => exact shows_cleared_of_name_eq (shows_notify h) rfl
  | subscribe tag => exact shows_cleared_of_name_eq shows_nil rfl
  | unsubscribe id => exact shows_cleared_of_name_eq shows_nil rfl

end Content

/-! ### Histories -/

namespace History

variable {c : Content} {es : List Effect}

/-- Behind every operation, and where listeners are not told of another name, contents are
cleared. -/
theorem cleared_and_shows (h : History c es) : Cleared c ∧ Shows ClearedUnlessRenamed es := by
  induction h with
  | create env supply name =>
    exact Content.cleared_setText (cleared_of_not_isValid rfl) _
  | ofText env supply name text =>
    exact Content.cleared_setText (cleared_of_not_isValid rfl) text
  | perform _ env supply operation ih =>
    obtain ⟨hc, hes⟩ := ih
    obtain ⟨hc', hes'⟩ := Content.cleared_perform env supply hc operation
    exact ⟨hc', shows_append.2 ⟨hes, hes'⟩⟩

/-- **Validity and refusal agree where listeners look**, but for one moment. A content is cleared
behind every operation, and listeners that are told of anything but another name saw it cleared.
All that listeners see during an operation is cleared exactly if nothing was left of an earlier
refusal, or there are no listeners, or the operation keeps the name. -/
theorem shows_cleared_iff (h : History c es) :
    Cleared c ∧
    (∀ listener event seen, Effect.notified listener event seen ∈ es →
      event.nameChange? = none → Cleared seen) ∧
    ∀ env supply operation,
      Shows (fun _ => Cleared) (c.perform env supply operation).2 ↔
        c.lastRefusal? = none ∨ c.listeners.listeners = [] ∨
          (c.perform env supply operation).1.name = c.name := by
  obtain ⟨hc, hes⟩ := h.cleared_and_shows
  exact ⟨hc, hes, fun env supply operation =>
    Content.shows_cleared_perform_iff env supply hc operation⟩

/-- Behind a refused edit, an edit that keeps the name shows its listener cleared contents, and an
edit with another name does not. -/
theorem shows_cleared_iff_refused :
    ∃ c es, History c es ∧ c.lastRefusal?.isSome = true ∧ Cleared c ∧
      Shows (fun _ => Cleared)
        (c.perform .initial 0 (.setText "module A(input a); endmodule")).2 ∧
      ¬ Shows (fun _ => Cleared)
        (c.perform .initial 0 (.setText "module B(input a); endmodule")).2 := by
  have hread := History.ofText .initial 0 "A" "module A("
  have hheard := hread.perform .initial 0 (.subscribe "log")
  obtain ⟨hc, -, hshows⟩ := hheard.shows_cleared_iff
  refine ⟨_, _, hheard, by decide +kernel, hc, (hshows _ _ _).2 (Or.inr (Or.inr ?_)),
    fun hseen => absurd ((hshows _ _ _).1 hseen) ?_⟩
  · decide +kernel
  · decide +kernel

/-- Listeners need not see cleared contents only: one that is told the new name behind a refused
edit sees a valid content with the reason of that refusal. -/
theorem not_forall_shows_cleared :
    ¬ ∀ c es, History c es → Shows (fun _ => Cleared) es := by
  intro h
  have hread := History.ofText .initial 0 "A" "module A();"
  have hheard := hread.perform .initial 0 (.subscribe "log")
  have hseen := h _ _ (hheard.perform .initial 0 (.setText "module B(); endmodule"))
  exact absurd hseen (by decide +kernel)

end History

end HdlModule
