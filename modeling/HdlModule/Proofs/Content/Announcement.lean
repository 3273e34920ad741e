import HdlModule.Proofs.Content.History
import HdlModule.Proofs.Content.Subscription

/-!
# What listeners are told

An operation announces events: it tells all listeners of one event, then all of the next. Every
change of the name or of the appearance is announced, once, with the value before and the value
after it. So whoever knows the name and the appearance at some time, and receives the events from
then on, knows them at all later times.

## Main definitions

* `replay`: the value to which announced changes lead
* `Announces c effects events c'`: the effects announce the events, which lead from one content to
  the other
* `Content.after`, `Content.receivedIn`: a course of operations, and what a subscription is told
  in it

## Main results

* `Content.notices_setText_of_renamed`, `Content.notices_setText_of_kept`: what an edit announces
* `Content.exists_announces`: what operations announce leads to the content behind them
* `History.replay_received`: a listener knows the name and the appearance of its content
-/

namespace HdlModule

/-! ### Replaying changes -/

/-- The old and the new name, if the event tells of a change of the name. -/
def Event.nameChange? : Event → Option (String × String)
  | nameChanged old new => some (old, new)
  | _ => none

/-- The old and the new appearance, if the event tells of a change of the appearance. -/
def Event.appearanceChange? : Event → Option (Appearance × Appearance)
  | appearanceChanged old new => some (old, new)
  | _ => none

section Replay

variable {α : Type} [DecidableEq α] {change? : Event → Option (α × α)} {value old new : α}
  {event : Event} {events events' : List Event}

/-- The value to which events lead. Each change has to start from the value that is reached by
then, or there is none. -/
def replay (change? : Event → Option (α × α)) (value : α) : List Event → Option α
  | [] => some value
  | event :: events =>
    match change? event with
    | some (old, new) => if old = value then replay change? new events else none
    | none => replay change? value events

theorem replay_cons_of_some (h : change? event = some (value, new)) :
    replay change? value (event :: events) = replay change? new events := by
  rw [replay, h]
  exact if_pos rfl

theorem replay_append {reached : α} (h : replay change? value events = some reached) :
    replay change? value (events ++ events') = replay change? reached events' := by
  induction events generalizing value with
  | nil =>
    cases h
    rfl
  | cons event events ih =>
    rw [List.cons_append, replay]
    rw [replay] at h
    cases hchange : change? event with
    | none =>
      rw [hchange] at h
      exact ih h
    | some change =>
      rw [hchange] at h
      by_cases hold : change.1 = value
      · simp only [if_pos hold] at h ⊢
        exact ih h
      · simp only [if_neg hold] at h
        cases h

end Replay

/-! ### Announcements -/

/-- The effects announce the events to all listeners of a content, and the changes among them lead
to the name and the appearance of another one. -/
structure Announces (c : Content) (effects : List Effect) (events : List Event) (c' : Content) :
    Prop where
  notices : effects.filterMap Effect.notice? = c.listeners.rounds events
  name : replay Event.nameChange? c.name events = some c'.name
  appearance : replay Event.appearanceChange? c.appearance events = some c'.appearance

namespace Content

variable {env : Environment} {supply : Nat} {c c' : Content} {text : String} {i : Interface}

/-- Where nothing is announced, the name and the appearance stay. -/
theorem announces_nil (hname : c'.name = c.name) (happearance : c'.appearance = c.appearance) :
    Announces c [] [] c' :=
  ⟨rfl, congrArg some hname.symm, congrArg some happearance.symm⟩

theorem filterMap_notice?_notify_eq_rounds (event : Event) :
    (c.notify event).filterMap Effect.notice? = c.listeners.rounds [event] := by
  rw [filterMap_notice?_notify]
  exact (List.append_nil _).symm

/-- A content that takes over an interface with the same name announces nothing. -/
theorem notices_adoptEffects_of_eq (h : i.name = c.name) :
    (c.adoptEffects supply i).filterMap Effect.notice? = [] := by
  rw [adoptEffects, if_pos h.symm, List.append_nil, filterMap_notice?_binder]

/-- A content that takes over an interface with another name announces the change. -/
theorem notices_adoptEffects_of_ne (h : i.name ≠ c.name) :
    (c.adoptEffects supply i).filterMap Effect.notice? =
      c.listeners.rounds [.nameChanged c.name i.name] := by
  rw [adoptEffects, if_neg (Ne.symm h), List.filterMap_append, filterMap_notice?_binder,
    filterMap_notice?_notify_eq_rounds]
  rfl

/-- A text that is refused changes nothing that is announced. -/
theorem announces_review_of_error (supply : Nat) {e : Refusal} (h : c.examine env = .error e) :
    Announces c (c.review env supply).effects [.contentSet] (c.review env supply).content := by
  rw [review_of_error h]
  refine ⟨?_, rfl, rfl⟩
  rw [List.filterMap_append, filterMap_notice?_checkEffects, filterMap_notice?_notify_eq_rounds]
  rfl

theorem announces_review_of_kept (supply : Nat) (h : c.examine env = .ok i)
    (hname : i.name = c.name) :
    Announces c (c.review env supply).effects [.contentSet] (c.review env supply).content := by
  rw [review_of_ok h]
  refine ⟨?_, congrArg some hname.symm, rfl⟩
  rw [List.filterMap_append, List.filterMap_append, filterMap_notice?_checkEffects,
    notices_adoptEffects_of_eq hname, filterMap_notice?_notify_eq_rounds]
  rfl

/-- A text that is accepted with another name announces the change before the end of the edit. -/
theorem announces_review_of_renamed (supply : Nat) (h : c.examine env = .ok i)
    (hname : i.name ≠ c.name) :
    Announces c (c.review env supply).effects [.nameChanged c.name i.name, .contentSet]
      (c.review env supply).content := by
  rw [review_of_ok h]
  refine ⟨?_, replay_cons_of_some rfl, rfl⟩
  rw [List.filterMap_append, List.filterMap_append, filterMap_notice?_checkEffects,
    notices_adoptEffects_of_ne hname, filterMap_notice?_notify_eq_rounds]
  exact (List.flatMap_append ..).symm

/-! ### What an edit announces -/

/-- The text of a valid content is not announced again. -/
theorem setText_effects_of_same (h : c.isValid = true ∧ c.text = text) :
    (c.setText env supply text).effects = [] := by
  rw [setText_eq, if_pos h]

/-- An edit that is accepted and changes the name announces the change, and then its end. -/
theorem notices_setText_of_renamed (hother : ¬ (c.isValid = true ∧ c.text = text))
    (hresult : (c.setText env supply text).result = .ok ())
    (hread : Interface.ofText text = .ok i) (hname : i.name ≠ c.name) :
    (c.setText env supply text).effects.filterMap Effect.notice? =
      c.listeners.rounds [.nameChanged c.name i.name, .contentSet] := by
  rw [setText_eq, if_neg hother] at hresult ⊢
  cases hexamine : examine env { c with text := text, isValid := false } with
  | error e =>
    rw [review_of_error hexamine] at hresult
    cases hresult
  | ok i' =>
    have hread' : Interface.ofText text = .ok i' := (examine_eq_ok_iff.1 hexamine).2.1
    obtain rfl : i = i' := Except.ok.inj (hread.symm.trans hread')
    exact (announces_review_of_renamed supply hexamine hname).notices

/-- An edit that is refused or keeps the name announces its end only. -/
theorem notices_setText_of_kept (hother : ¬ (c.isValid = true ∧ c.text = text))
    (hkept : ∀ i, (c.setText env supply text).result = .ok () → Interface.ofText text = .ok i →
      i.name = c.name) :
    (c.setText env supply text).effects.filterMap Effect.notice? =
      c.listeners.rounds [.contentSet] := by
  rw [setText_eq, if_neg hother] at hkept ⊢
  cases hexamine : examine env { c with text := text, isValid := false } with
  | error e => exact (announces_review_of_error supply hexamine).notices
  | ok i =>
    have hname : i.name = c.name := by
      refine hkept i ?_ (examine_eq_ok_iff.1 hexamine).2.1
      rw [review_of_ok hexamine]
    exact (announces_review_of_kept supply hexamine hname).notices

/-! ### What operations announce -/

theorem exists_announces_review (env : Environment) (supply : Nat) (c : Content) :
    ∃ events, Announces c (c.review env supply).effects events
      (c.review env supply).content := by
  cases hexamine : c.examine env with
  | error e => exact ⟨_, announces_review_of_error supply hexamine⟩
  | ok i =>
    by_cases hname : i.name = c.name
    · exact ⟨_, announces_review_of_kept supply hexamine hname⟩
    · exact ⟨_, announces_review_of_renamed supply hexamine hname⟩

theorem exists_announces_setText (text : String) :
    ∃ events, Announces c (c.setText env supply text).effects events
      (c.setText env supply text).content := by
  rw [setText_eq]
  split
  · exact ⟨[], announces_nil rfl rfl⟩
  · obtain ⟨events, hnotices, hname, happearance⟩ :=
      exists_announces_review env supply { c with text := text, isValid := false }
    exact ⟨events, hnotices, hname, happearance⟩

theorem exists_announces_rename (name : String) :
    ∃ events, Announces c (c.rename env supply name).effects events
      (c.rename env supply name).content := by
  by_cases hname : name = c.name
  · rw [hname, rename_name_self]
    exact ⟨[], announces_nil rfl rfl⟩
  · cases hjudge : env.judgeName name true with
    | error e =>
      rw [rename_of_judgeName_error hname hjudge]
      exact ⟨[], announces_nil rfl rfl⟩
    | ok u =>
      rw [rename_eq_setText hname hjudge]
      exact exists_announces_setText _

theorem exists_announces_setAppearance (appearance : Appearance) :
    ∃ events, Announces c (c.setAppearance appearance).2 events (c.setAppearance appearance).1 := by
  rw [setAppearance]
  split
  · exact ⟨[], announces_nil rfl rfl⟩
  · refine ⟨[.appearanceChanged c.appearance appearance], ?_, rfl, replay_cons_of_some rfl⟩
    exact filterMap_notice?_notify_eq_rounds _

/-- **Every change is announced**: what an operation announces leads to the name and the
appearance behind it. -/
theorem exists_announces (env : Environment) (supply : Nat) (c : Content) (operation : Operation) :
    ∃ events, Announces c (c.perform env supply operation).2 events
      (c.perform env supply operation).1 := by
  cases operation with
  | setText text => exact exists_announces_setText text
  | storeText text =>
    refine ⟨[], announces_nil ?_ ?_⟩
    all_goals
      simp only [perform, storeText]
      split <;> rfl
  | rename name => exact exists_announces_rename name
  | setAppearance appearance => exact exists_announces_setAppearance appearance
  | aboutToSave => exact ⟨[.aboutToSave], filterMap_notice?_notify_eq_rounds _, rfl, rfl⟩
  | subscribe tag => exact ⟨[], announces_nil rfl rfl⟩
  | unsubscribe id => exact ⟨[], announces_nil rfl rfl⟩

/-! ### Listeners behind an operation -/

theorem listeners_review : (c.review env supply).content.listeners = c.listeners := by
  unfold review
  split <;> rfl

theorem listeners_setText (text : String) :
    (c.setText env supply text).content.listeners = c.listeners := by
  rw [setText_eq]
  split
  · rfl
  · exact listeners_review

theorem listeners_rename (name : String) :
    (c.rename env supply name).content.listeners = c.listeners := by
  unfold rename
  split
  · rfl
  · split
    · rfl
    · exact listeners_setText _

/-- Only subscribing and unsubscribing change the listeners. -/
theorem listeners_perform (env : Environment) (supply : Nat) (c : Content)
    (operation : Operation) :
    (c.perform env supply operation).1.listeners =
      match operation with
      | .subscribe tag => (c.listeners.subscribe tag).2
      | .unsubscribe id => (c.listeners.unsubscribe id).2
      | _ => c.listeners := by
  cases operation with
  | setText text => exact listeners_setText text
  | storeText text =>
    simp only [perform, storeText]
    split <;> rfl
  | rename name => exact listeners_rename name
  | setAppearance appearance =>
    simp only [perform, setAppearance]
    split <;> rfl
  | aboutToSave => rfl
  | subscribe tag => rfl
  | unsubscribe id => rfl

theorem numbered_perform (hc : c.listeners.Numbered) (operation : Operation) :
    (c.perform env supply operation).1.listeners.Numbered := by
  rw [listeners_perform]
  split
  · exact hc.subscribe _
  · exact hc.unsubscribe _
  · exact hc

/-- A subscription stays until it is given up. -/
theorem mem_ids_perform {id : ListenerId} (hid : id ∈ c.listeners.ids) {operation : Operation}
    (hkeep : operation ≠ .unsubscribe id) :
    id ∈ (c.perform env supply operation).1.listeners.ids := by
  rw [listeners_perform]
  split
  · rw [Emitter.ids_subscribe]
    exact List.mem_append_left _ hid
  · next id' =>
    rw [Emitter.ids_unsubscribe]
    refine List.mem_filter.2 ⟨hid, decide_eq_true ?_⟩
    rintro rfl
    exact hkeep rfl
  · exact hid

end Content

/-! ### Courses of operations -/

/-- An operation, with what it consults and the number of the next fresh handle. -/
structure Performance where
  env : Environment
  supply : Nat
  operation : Operation

namespace Content

/-- The content behind a course of operations. -/
def after (c : Content) (course : List Performance) : Content :=
  course.foldl (fun c p => (c.perform p.env p.supply p.operation).1) c

/-- What a subscription is told in a course of operations. -/
def receivedIn (c : Content) (id : ListenerId) : List Performance → List Event
  | [] => []
  | p :: rest =>
    c.listeners.received id ((c.perform p.env p.supply p.operation).2.filterMap Effect.notice?) ++
      (c.perform p.env p.supply p.operation).1.receivedIn id rest

/-- What a subscription is told in a course of operations leads to the name and the appearance
behind it. -/
theorem replay_receivedIn {c : Content} {id : ListenerId} (hc : c.listeners.Numbered)
    (hid : id ∈ c.listeners.ids) {course : List Performance}
    (hkeep : ∀ p ∈ course, p.operation ≠ .unsubscribe id) :
    replay Event.nameChange? c.name (c.receivedIn id course) = some (c.after course).name ∧
      replay Event.appearanceChange? c.appearance (c.receivedIn id course) =
        some (c.after course).appearance := by
  induction course generalizing c with
  | nil => exact ⟨rfl, rfl⟩
  | cons p rest ih =>
    rw [List.forall_mem_cons] at hkeep
    obtain ⟨events, hnotices, hname, happearance⟩ := exists_announces p.env p.supply c p.operation
    have hreceived : c.receivedIn id (p :: rest) =
        events ++ (c.perform p.env p.supply p.operation).1.receivedIn id rest := by
      rw [receivedIn, hnotices, Emitter.received_rounds hc hid]
    rw [hreceived, replay_append hname, replay_append happearance]
    exact ih (numbered_perform hc _) (mem_ids_perform hid hkeep.1) hkeep.2

end Content

namespace History

/-- Subscriptions are numbered in every history. -/
theorem numbered_listeners {c : Content} {es : List Effect} (h : History c es) :
    c.listeners.Numbered := by
  induction h with
  | create env supply name =>
    have hlisteners : (Content.create env supply name).content.listeners = Emitter.empty :=
      Content.listeners_setText _
    rw [hlisteners]
    exact Emitter.numbered_empty
  | ofText env supply name text =>
    have hlisteners : (Content.ofText env supply name text).content.listeners = Emitter.empty :=
      Content.listeners_setText _
    rw [hlisteners]
    exact Emitter.numbered_empty
  | perform _ env supply operation ih => exact Content.numbered_perform ih operation

/-- **Edits are announced, and a listener knows the name and the appearance of its content.** An
edit that gives a valid content its own text announces nothing. Any other edit whose check comes to
an end announces its own end, once, to all listeners in the order of their subscriptions, and before
that the change of the name if it is accepted and the name in the text is another one. Other
operations make their calls in rounds as well. Whoever subscribes, and does not unsubscribe in the
operations that follow, is told changes that lead, each from the value before it, to the name and
the appearance behind these operations.

An edit that is accepted has a check that ended, so the end of the check has to be supposed of the
other ones only. Where a check without a limit does not come back, there is no end of the edit to be
announced. -/
theorem replay_received {c : Content} {es : List Effect} (h : History c es) :
    (∀ env supply text,
      let outcome := c.setText env supply text
      let notices := outcome.effects.filterMap Effect.notice?
      (c.isValid = true ∧ c.text = text → notices = []) ∧
        (¬ (c.isValid = true ∧ c.text = text) →
          (∀ i, outcome.result = .ok () → Interface.ofText text = .ok i → i.name ≠ c.name →
            notices = c.listeners.rounds [.nameChanged c.name i.name, .contentSet]) ∧
          (env.CheckEnds text →
            (∀ i, outcome.result = .ok () → Interface.ofText text = .ok i → i.name = c.name) →
            notices = c.listeners.rounds [.contentSet]))) ∧
    (∀ env supply operation, ∃ events,
      (c.perform env supply operation).2.filterMap Effect.notice? = c.listeners.rounds events) ∧
    ∀ (tag : String) (course : List Performance),
      let id := (c.subscribe tag).1
      let joined := (c.subscribe tag).2
      (∀ p ∈ course, p.operation ≠ .unsubscribe id) →
        replay Event.nameChange? joined.name (joined.receivedIn id course) =
            some (joined.after course).name ∧
          replay Event.appearanceChange? joined.appearance (joined.receivedIn id course) =
            some (joined.after course).appearance := by
  refine ⟨?_, ?_, ?_⟩
  · intro env supply text outcome notices
    refine ⟨fun hsame => ?_, fun hother => ⟨fun i => ?_, fun _ => ?_⟩⟩
    · show List.filterMap _ (c.setText env supply text).effects = []
      rw [Content.setText_effects_of_same hsame]
      rfl
    · exact Content.notices_setText_of_renamed hother
    · exact Content.notices_setText_of_kept hother
  · intro env supply operation
    obtain ⟨events, hannounces⟩ := Content.exists_announces env supply c operation
    exact ⟨events, hannounces.notices⟩
  · intro tag course id joined hkeep
    exact Content.replay_receivedIn (h.numbered_listeners.subscribe tag)
      (Emitter.mem_ids_subscribe tag) hkeep

/-- Two listeners that cannot be told apart, one of which goes away. The other one hears of a new
name, of an edit that is refused, of another appearance, and of the name that is found in a text
behind the refused one. It hears of the end of an edit whose checker stops within its limit, and of
an edit with a check without a limit that accepts the text. -/
theorem replay_received_twins :
    let course : List Performance :=
      [⟨.initial, 0, .subscribe "log"⟩, ⟨.initial, 0, .rename "B"⟩,
        ⟨.initial, 0, .setText "module B("⟩, ⟨.initial, 0, .setAppearance .fpga⟩,
        ⟨.initial, 0, .unsubscribe ⟨1⟩⟩, ⟨.initial, 0, .setText "module C(); endmodule"⟩]
    let stopping : Environment := ⟨.standard, some fun _ => .stopped, .empty⟩
    let unlimited : Environment := ⟨⟨false, none, none⟩, some fun _ => .accepted, .empty⟩
    let text := "module D(); endmodule"
    ∃ c es, History c es ∧
      let id := (c.subscribe "log").1
      let joined := (c.subscribe "log").2
      id = ⟨0⟩ ∧
        joined.receivedIn id course =
          [.nameChanged "A" "B", .contentSet, .contentSet,
            .appearanceChanged .evolution .fpga, .nameChanged "B" "C", .contentSet] ∧
        replay Event.nameChange? joined.name (joined.receivedIn id course) =
          some (joined.after course).name ∧
        (joined.after course).name = "C" ∧
        stopping.CheckEnds text ∧
        (joined.setText stopping 0 text).effects.filterMap Effect.notice? =
          joined.listeners.rounds [.contentSet] ∧
        (joined.setText unlimited 0 text).effects.filterMap Effect.notice? =
          joined.listeners.rounds [.nameChanged joined.name "D", .contentSet] := by
  intro course stopping unlimited text
  have hread := History.ofText .initial 0 "A" "module A(); endmodule"
  obtain ⟨-, -, hheard⟩ := hread.replay_received
  obtain ⟨hnames, -⟩ := hheard "log" course (by decide +kernel)
  obtain ⟨hedits, -, -⟩ := (hread.perform .initial 0 (.subscribe "log")).replay_received
  obtain ⟨-, hstopping⟩ := hedits stopping 0 text
  obtain ⟨-, hunlimited⟩ := hedits unlimited 0 text
  have hends : stopping.CheckEnds text := by
    intro checker _ hlimit
    cases hlimit
  refine ⟨_, _, hread, by decide +kernel, by decide +kernel, hnames, by decide +kernel, hends,
    (hstopping (by decide +kernel)).2 hends ?_,
    (hunlimited (by decide +kernel)).1 ⟨"D", ⟨7, 8⟩, [], []⟩ ?_ ?_ ?_⟩
  · intro i hresult
    exact absurd hresult (by decide +kernel)
  · decide +kernel
  · decide +kernel
  · decide +kernel

end History

end HdlModule
