import HdlModule.Content.Basic
import HdlModule.Proofs.Content.Subscription
import Mathlib.Data.List.Induction
import Mathlib.Data.List.TakeWhile

/-!
# The bookkeeping of an emitter

Listeners come and go, and events are emitted in between, in any order. Identifiers may be
unsubscribed more than once, or without ever having been issued. A history tells which
subscriptions were made, and of each of them what happened since. What an emitter answers and what
it holds can be read off from there: who is subscribed, in which order, and what each of them has
been told.

Listeners have a state, which a call may change, and give an answer to each call. Nothing is said
about the answers. If listeners act on something that they share, the answers are the actions, in
the order in which they are done.

## Main definitions

* `Emitter.Operation`, `Emitter.perform`, `Emitter.after`: what is done with an emitter
* `Emitter.answers`: what the operations of a history give back
* `Emitter.Subscription`, `Emitter.made`: the subscriptions of a history, each with what happened
  since
* `Emitter.current`: the subscriptions that were not ended
* `Emitter.tell`: what a listener answers to events, and what becomes of it
* `Emitter.KeepsBook`: an emitter holds what a history has left of the subscriptions

## Main results

* `Emitter.KeepsBook.perform`, `Emitter.keepsBook_reached`: every operation keeps the book, and so
  does every history
* `Emitter.answersTo_id`: a subscription is called once for every event until it is ended
* `Emitter.run_exact`: identifiers, subscriptions, calls and their number, for every history
* `Content.notify_eq_emit`: a content tells its listeners of an event by an emission
-/

namespace HdlModule

namespace Emitter

variable {α β ε τ : Type}

/-! ### Histories -/

/-- What is done with an emitter. -/
inductive Operation (α ε τ : Type) where
  | subscribe (listener : α)
  | unsubscribe (id : ListenerId)
  | emit (event : ε) (target : τ)

namespace Operation

/-- The event and its target, if the operation emits one. -/
def emission? : Operation α ε τ → Option (ε × τ)
  | emit event target => some (event, target)
  | _ => none

/-- Whether the operation unsubscribes an identifier. -/
def ends (id : ListenerId) : Operation α ε τ → Bool
  | unsubscribe id' => id' = id
  | _ => false

@[simp]
theorem ends_subscribe (id : ListenerId) (listener : α) :
    (subscribe listener : Operation α ε τ).ends id = false := rfl

@[simp]
theorem ends_unsubscribe (id id' : ListenerId) :
    (unsubscribe id' : Operation α ε τ).ends id = decide (id' = id) := rfl

@[simp]
theorem ends_emit (id : ListenerId) (event : ε) (target : τ) :
    (emit event target : Operation α ε τ).ends id = false := rfl

end Operation

/-- What an operation gives back. The calls of an emission are listed in their order, each with
the subscription and the answer of its listener. -/
inductive Answer (β : Type) where
  | subscribed (id : ListenerId)
  | unsubscribed (found : Bool)
  | called (calls : List (ListenerId × β))

namespace Answer

/-- The identifier, if one is given out. -/
def issued? : Answer β → Option ListenerId
  | subscribed id => some id
  | _ => none

/-- The calls, if some are made. -/
def calls : Answer β → List (ListenerId × β)
  | called calls => calls
  | _ => []

end Answer

section Run

variable (call : ε → τ → α → β × α)

/-- The answer to an operation, and the emitter behind it. -/
def perform (e : Emitter α) : Operation α ε τ → Answer β × Emitter α
  | .subscribe listener => (.subscribed (e.subscribe listener).1, (e.subscribe listener).2)
  | .unsubscribe id => (.unsubscribed (e.unsubscribe id).1, (e.unsubscribe id).2)
  | .emit event target =>
    (.called (e.ids.zip (e.emit (call event target)).1), (e.emit (call event target)).2)

/-- The emitter behind a history. -/
def after (e : Emitter α) (history : List (Operation α ε τ)) : Emitter α :=
  history.foldl (fun e operation => (e.perform call operation).2) e

/-- The answers to the operations of a history. -/
def answers (e : Emitter α) : List (Operation α ε τ) → List (Answer β)
  | [] => []
  | operation :: history =>
    (e.perform call operation).1 :: answers (e.perform call operation).2 history

/-- The emitter that a history leads to. -/
def reached (history : List (Operation α ε τ)) : Emitter α := empty.after call history

/-- The identifiers that subscribers receive. -/
def issued (history : List (Operation α ε τ)) : List ListenerId :=
  (empty.answers call history).filterMap Answer.issued?

/-- The answers that come from a subscription, one for each call to its listener. -/
def answersTo (history : List (Operation α ε τ)) (id : ListenerId) : List β :=
  (((empty.answers call history).flatMap Answer.calls).filter (·.1 = id)).map (·.2)

/-- A listener is told an event behind others. -/
def tellNext (told : List β × α) (emission : ε × τ) : List β × α :=
  (told.1 ++ [(call emission.1 emission.2 told.2).1], (call emission.1 emission.2 told.2).2)

/-- The answers of a listener that is told some events, and what becomes of it. -/
def tell (listener : α) (emissions : List (ε × τ)) : List β × α :=
  emissions.foldl (tellNext call) ([], listener)

end Run

/-! ### Subscriptions -/

/-- A subscription with all that happened since. -/
structure Subscription (α ε τ : Type) where
  id : ListenerId
  listener : α
  since : List (Operation α ε τ)

namespace Subscription

/-- The subscription was not ended. -/
def isLive (s : Subscription α ε τ) : Bool := !s.since.any (Operation.ends s.id)

/-- The events that were emitted until the subscription was ended, or until now. -/
def heard (s : Subscription α ε τ) : List (ε × τ) :=
  (s.since.takeWhile fun operation => !operation.ends s.id).filterMap Operation.emission?

/-- What becomes of the listener. -/
def state (call : ε → τ → α → β × α) (s : Subscription α ε τ) : α :=
  (tell call s.listener s.heard).2

/-- What an emitter holds of the subscription. -/
def entry (call : ε → τ → α → β × α) (s : Subscription α ε τ) : ListenerId × α :=
  (s.id, s.state call)

/-- The subscription after one more operation. -/
def later (operation : Operation α ε τ) (s : Subscription α ε τ) : Subscription α ε τ :=
  { s with since := s.since ++ [operation] }

end Subscription

/-- The subscriptions that are made in a history, in order. They are numbered from `n`. -/
def madeFrom (n : Nat) : List (Operation α ε τ) → List (Subscription α ε τ)
  | [] => []
  | .subscribe listener :: since => ⟨⟨n⟩, listener, since⟩ :: madeFrom (n + 1) since
  | .unsubscribe _ :: since => madeFrom n since
  | .emit _ _ :: since => madeFrom n since

/-- The subscriptions that are made in the history of an emitter, in order. -/
def made (history : List (Operation α ε τ)) : List (Subscription α ε τ) := madeFrom 0 history

/-- The subscriptions that a history leaves, in the order in which they were made. -/
def current (history : List (Operation α ε τ)) : List (Subscription α ε τ) :=
  (made history).filter Subscription.isLive

section Later

variable {s : Subscription α ε τ} {operation : Operation α ε τ}

@[simp]
theorem Subscription.fst_entry (call : ε → τ → α → β × α) : (s.entry call).1 = s.id := rfl

@[simp]
theorem Subscription.id_later : (s.later operation).id = s.id := rfl

theorem Subscription.isLive_later :
    (s.later operation).isLive = (s.isLive && !operation.ends s.id) := by
  simp [isLive, later, Bool.not_or]

/-- A subscription hears what is emitted as long as it is not ended. -/
theorem Subscription.heard_later_of_isLive (hs : s.isLive = true) :
    (s.later operation).heard = s.heard ++ operation.emission?.toList := by
  have hall : ∀ o ∈ s.since, (!o.ends s.id) = true := by simpa [isLive] using hs
  rw [heard, heard, later, List.takeWhile_append_of_pos hall, List.takeWhile_eq_self_iff.2 hall,
    List.filterMap_append]
  congr 1
  cases operation with
  | subscribe _ | emit _ _ => rfl
  | unsubscribe id =>
    by_cases h : id = s.id <;> simp [Operation.emission?, h]

theorem Subscription.heard_later_emit (hs : s.isLive = true) (event : ε) (target : τ) :
    (s.later (.emit event target)).heard = s.heard ++ [(event, target)] :=
  heard_later_of_isLive hs

/-- Once it is ended, a subscription does not hear anything. -/
theorem Subscription.heard_later_of_not_isLive (hs : s.isLive = false) :
    (s.later operation).heard = s.heard := by
  have hne : ¬(s.since.takeWhile fun o => !o.ends s.id).length = s.since.length := by
    intro h
    have hall := List.takeWhile_eq_self_iff.1 ((List.takeWhile_prefix _).eq_of_length h)
    simp only [isLive, Bool.not_eq_false', List.any_eq_true] at hs
    obtain ⟨o, ho, hends⟩ := hs
    simpa [hends] using hall o ho
  rw [heard, heard, later, List.takeWhile_append, if_neg hne]

variable {call : ε → τ → α → β × α}

/-- An operation that emits nothing does not change a listener. -/
theorem Subscription.state_later_of_emission?_eq_none (hs : s.isLive = true)
    (hoperation : operation.emission? = none) : (s.later operation).state call = s.state call := by
  rw [state, heard_later_of_isLive hs, hoperation, Option.toList_none, List.append_nil]
  rfl

end Later

section Tell

variable {call : ε → τ → α → β × α}

theorem tell_concat (listener : α) (emissions : List (ε × τ)) (emission : ε × τ) :
    tell call listener (emissions ++ [emission]) =
      tellNext call (tell call listener emissions) emission := by
  rw [tell, List.foldl_append]
  rfl

/-- A listener answers once to every event. -/
theorem length_tell (listener : α) (emissions : List (ε × τ)) :
    (tell call listener emissions).1.length = emissions.length := by
  induction emissions using List.reverseRecOn with
  | nil => rfl
  | append_singleton emissions emission ih => simp [tell_concat, tellNext, ih]

theorem Subscription.state_later_emit {s : Subscription α ε τ} (hs : s.isLive = true) (event : ε)
    (target : τ) :
    (s.later (.emit event target)).state call = (call event target (s.state call)).2 := by
  rw [state, heard_later_emit hs]
  exact congrArg Prod.snd (tell_concat _ _ _)

end Tell

section Made

variable {history : List (Operation α ε τ)} {operation : Operation α ε τ}

theorem madeFrom_concat (n : Nat) (history : List (Operation α ε τ))
    (operation : Operation α ε τ) :
    madeFrom n (history ++ [operation]) =
      (madeFrom n history).map (·.later operation) ++
        madeFrom (n + (madeFrom n history).length) [operation] := by
  -- a subscription takes with it all that is behind it, so the history is taken from the front
  induction history generalizing n with
  | nil => rfl
  | cons first history ih =>
    cases first with
    | subscribe listener =>
      simp only [List.cons_append, madeFrom, ih, List.map_cons, List.length_cons]
      rw [Nat.add_right_comm, Nat.add_assoc n]
      rfl
    | unsubscribe _ | emit _ _ => exact ih n

/-- Identifiers are numbered in the order of the subscriptions. -/
theorem map_id_madeFrom (n : Nat) (history : List (Operation α ε τ)) :
    (madeFrom n history).map Subscription.id =
      (List.range' n (madeFrom n history).length).map ListenerId.mk := by
  induction history generalizing n with
  | nil => rfl
  | cons first history ih =>
    cases first with
    | subscribe listener =>
      simp only [madeFrom, List.map_cons, List.length_cons, ih, List.range'_succ]
    | unsubscribe _ | emit _ _ => exact ih n

theorem nodup_map_id_made (history : List (Operation α ε τ)) :
    ((made history).map Subscription.id).Nodup := by
  rw [made, map_id_madeFrom]
  exact List.Nodup.map (fun _ _ h => ListenerId.mk.inj h) List.nodup_range'

/-- So no identifier exceeds the number of subscriptions. -/
theorem number_lt_of_mem_made {s : Subscription α ε τ} (hs : s ∈ made history) :
    s.id.number < (made history).length := by
  have hid := List.mem_map_of_mem (f := Subscription.id) hs
  rw [made, map_id_madeFrom] at hid
  obtain ⟨n, hn, hid⟩ := List.mem_map.1 hid
  rw [List.mem_range'_1] at hn
  rw [← hid]
  exact lt_of_lt_of_eq hn.2 (Nat.zero_add _)

theorem made_concat (history : List (Operation α ε τ)) (operation : Operation α ε τ) :
    made (history ++ [operation]) =
      (made history).map (·.later operation) ++ madeFrom (made history).length [operation] := by
  rw [made, madeFrom_concat, Nat.zero_add]
  rfl

/-- An operation ends one subscription at most, and begins one at most. -/
theorem current_concat (history : List (Operation α ε τ)) (operation : Operation α ε τ) :
    current (history ++ [operation]) =
      ((current history).filter fun s => !operation.ends s.id).map (·.later operation) ++
        madeFrom (made history).length [operation] := by
  have hnew (n : Nat) :
      (madeFrom n [operation]).filter Subscription.isLive = madeFrom n [operation] := by
    cases operation <;> rfl
  rw [current, made_concat, List.filter_append, hnew, List.filter_map, current, List.filter_filter]
  congr 3
  funext s
  rw [Function.comp_apply, Subscription.isLive_later, Bool.and_comm]

theorem isLive_of_mem_current {s : Subscription α ε τ} (hs : s ∈ current history) :
    s.isLive = true :=
  (List.mem_filter.1 hs).2

end Made

/-- What has a key of its own can be singled out. -/
theorem exists_eq_append_cons_of_nodup_map {γ κ : Type} {key : γ → κ} {l : List γ} {a : γ}
    (hl : (l.map key).Nodup) (ha : a ∈ l) :
    ∃ before behind, l = before ++ a :: behind ∧ ∀ b ∈ before ++ behind, key b ≠ key a := by
  obtain ⟨before, behind, rfl⟩ := List.append_of_mem ha
  rw [List.map_append, List.map_cons, List.nodup_middle, List.nodup_cons, ← List.map_append] at hl
  exact ⟨before, behind, rfl, fun b hb h => hl.1 (h ▸ List.mem_map_of_mem hb)⟩

/-! ### Keeping the book -/

section KeepsBook

variable {call : ε → τ → α → β × α} {e : Emitter α} {history : List (Operation α ε τ)}

/-- The subscriptions of an emitter are those that the history leaves, in their order, with what
has become of their listeners. All that were ever made are counted. -/
structure KeepsBook (call : ε → τ → α → β × α) (e : Emitter α) (history : List (Operation α ε τ)) :
    Prop where
  next_eq : e.next = (made history).length
  subscriptions_eq : e.subscriptions = (current history).map (Subscription.entry call)

theorem KeepsBook.ids_eq (he : KeepsBook call e history) :
    e.ids = (current history).map Subscription.id := by
  rw [ids, he.subscriptions_eq, List.map_map]
  rfl

/-- As long as nothing is emitted, the listeners that stay are as they were. -/
theorem map_entry_current_concat {operation : Operation α ε τ}
    (hoperation : operation.emission? = none) :
    (current (history ++ [operation])).map (Subscription.entry call) =
      ((current history).map (Subscription.entry call)).filter
          (fun entry => !operation.ends entry.1) ++
        (madeFrom (made history).length [operation]).map (Subscription.entry call) := by
  rw [current_concat, List.map_append, List.map_map, List.filter_map]
  congr 1
  refine List.map_congr_left fun s hs => ?_
  exact congrArg (Prod.mk s.id) (Subscription.state_later_of_emission?_eq_none
    (isLive_of_mem_current (List.mem_of_mem_filter hs)) hoperation)

theorem map_entry_current_concat_emit (event : ε) (target : τ) :
    (current (history ++ [.emit event target])).map (Subscription.entry call) =
      (current history).map fun s => (s.id, (call event target (s.state call)).2) := by
  simp only [current_concat, Operation.ends_emit, Bool.not_false, List.filter_true,
    List.map_append, List.map_map]
  refine (List.append_nil _).trans (List.map_congr_left fun s hs => ?_)
  exact congrArg (Prod.mk s.id) (Subscription.state_later_emit (isLive_of_mem_current hs) _ _)

/-- **Every operation keeps the book.** -/
theorem KeepsBook.perform (he : KeepsBook call e history) (operation : Operation α ε τ) :
    KeepsBook call (e.perform call operation).2 (history ++ [operation]) where
  next_eq := by
    rw [made_concat, List.length_append, List.length_map, ← he.next_eq]
    cases operation <;> rfl
  subscriptions_eq := by
    cases operation with
    | subscribe listener =>
      rw [map_entry_current_concat rfl, ← he.subscriptions_eq, ← he.next_eq]
      simp only [Operation.ends_subscribe, Bool.not_false, List.filter_true]
      rfl
    | unsubscribe id =>
      rw [map_entry_current_concat rfl, ← he.subscriptions_eq]
      simp [Emitter.perform, Emitter.unsubscribe, madeFrom, eq_comm]
    | emit event target =>
      rw [map_entry_current_concat_emit]
      simp [Emitter.perform, Emitter.emit, he.subscriptions_eq, Subscription.entry]

/-- **Every history keeps the book.** -/
theorem keepsBook_reached (call : ε → τ → α → β × α) (history : List (Operation α ε τ)) :
    KeepsBook call (reached call history) history := by
  -- the emitter only knows what happened before, so the history is taken from its end
  induction history using List.reverseRecOn with
  | nil => exact ⟨rfl, rfl⟩
  | append_singleton history operation ih =>
    rw [reached, after, List.foldl_append]
    exact ih.perform operation

/-- An emission calls the listeners of the subscriptions that the history leaves, each once, in
their order. -/
theorem KeepsBook.calls_emit (he : KeepsBook call e history) (event : ε) (target : τ) :
    (e.perform call (.emit event target)).1.calls =
      (current history).map fun s => (s.id, (call event target (s.state call)).1) := by
  have hanswers : (e.emit (call event target)).1 =
      (current history).map fun s => (call event target (s.state call)).1 := by
    simp only [emit, listeners, he.subscriptions_eq, List.map_map]
    rfl
  rw [Emitter.perform, Answer.calls, hanswers, he.ids_eq, List.zip_map']

/-- An identifier is found if its subscription was made and not ended. -/
theorem KeepsBook.unsubscribe_eq_true_iff (he : KeepsBook call e history) (id : ListenerId) :
    (e.unsubscribe id).1 = true ↔ ∃ s ∈ made history, s.id = id ∧ s.isLive = true := by
  have hfound : (e.unsubscribe id).1 = true ↔ id ∈ e.ids := by simp [unsubscribe, ids]
  rw [hfound, he.ids_eq, List.mem_map]
  simp only [current, List.mem_filter, and_assoc]
  exact exists_congr fun s => and_congr_right fun _ => and_comm

theorem KeepsBook.numbered (he : KeepsBook call e history) : e.Numbered where
  nodup_ids := by
    rw [he.ids_eq]
    exact (nodup_map_id_made history).sublist (List.filter_sublist.map _)
  number_lt := by
    rw [he.ids_eq, he.next_eq]
    intro id hid
    obtain ⟨s, hs, rfl⟩ := List.mem_map.1 hid
    exact number_lt_of_mem_made (List.mem_of_mem_filter hs)

end KeepsBook

/-! ### Unsubscribing -/

section Unsubscribe

variable {e : Emitter α} {id : ListenerId}

/-- What is not found is not removed. -/
theorem unsubscribe_of_not_found (h : (e.unsubscribe id).1 = false) : (e.unsubscribe id).2 = e := by
  have hne : ∀ s ∈ e.subscriptions, decide (s.1 ≠ id) = true := by
    simpa [unsubscribe] using h
  rw [unsubscribe, List.filter_eq_self.2 hne]

/-- What is found is removed, and nothing else. -/
theorem unsubscribe_of_found (he : e.ids.Nodup) (h : (e.unsubscribe id).1 = true) :
    ∃ before listener behind, e.subscriptions = before ++ (id, listener) :: behind ∧
      (e.unsubscribe id).2.subscriptions = before ++ behind := by
  simp only [unsubscribe, List.any_eq_true, decide_eq_true_eq] at h
  obtain ⟨⟨_, listener⟩, hmem, rfl⟩ := h
  obtain ⟨before, behind, heq, hne⟩ := exists_eq_append_cons_of_nodup_map he hmem
  refine ⟨before, listener, behind, heq, ?_⟩
  simp only [unsubscribe, heq, List.filter_append]
  rw [List.filter_cons_of_neg (by simp), ← List.filter_append,
    List.filter_eq_self.2 fun s hs => decide_eq_true (hne s hs)]

end Unsubscribe

/-! ### The answers of a history -/

section Answers

variable {call : ε → τ → α → β × α} {history : List (Operation α ε τ)}
  {operation : Operation α ε τ}

theorem answers_concat (e : Emitter α) (history : List (Operation α ε τ))
    (operation : Operation α ε τ) :
    e.answers call (history ++ [operation]) =
      e.answers call history ++ [((e.after call history).perform call operation).1] := by
  induction history generalizing e with
  | nil => rfl
  | cons first history ih => exact congrArg (List.cons _) (ih _)

/-- Every subscriber receives the identifier of its subscription. -/
theorem issued_eq (call : ε → τ → α → β × α) (history : List (Operation α ε τ)) :
    issued call history = (made history).map Subscription.id := by
  induction history using List.reverseRecOn with
  | nil => rfl
  | append_singleton history operation ih =>
    rw [issued, answers_concat, List.filterMap_append, ← issued, ih, made_concat, List.map_append,
      List.map_map, ← (keepsBook_reached call history).next_eq]
    cases operation <;> rfl

theorem answersTo_concat (history : List (Operation α ε τ)) (operation : Operation α ε τ)
    (id : ListenerId) :
    answersTo call (history ++ [operation]) id =
      answersTo call history id ++
        ((((reached call history).perform call operation).1.calls).filter (·.1 = id)).map
          (·.2) := by
  simp [answersTo, answers_concat, reached]

/-- Only subscriptions are called. -/
theorem answersTo_of_forall_ne {id : ListenerId} (hid : ∀ s ∈ made history, s.id ≠ id) :
    answersTo call history id = [] := by
  induction history using List.reverseRecOn with
  | nil => rfl
  | append_singleton history operation ih =>
    have hbefore : ∀ s ∈ made history, s.id ≠ id := by
      intro s hs
      refine hid (s.later operation) ?_
      rw [made_concat]
      exact List.mem_append_left _ (List.mem_map_of_mem hs)
    rw [answersTo_concat, ih hbefore, List.nil_append]
    cases operation with
    | subscribe _ | unsubscribe _ => rfl
    | emit event target =>
      have hnone : ∀ s ∈ current history, ¬decide (s.id = id) = true := by
        intro s hs
        simpa using hbefore s (List.mem_of_mem_filter hs)
      rw [(keepsBook_reached call history).calls_emit, List.filter_map]
      exact congrArg _ (congrArg _ (List.filter_eq_nil_iff.2 hnone))

/-- One subscription has its identifier. -/
theorem filter_id_made {s : Subscription α ε τ} (hs : s ∈ made history) :
    ((made history).filter fun s' => s'.id = s.id) = [s] := by
  obtain ⟨before, behind, heq, hne⟩ :=
    exists_eq_append_cons_of_nodup_map (nodup_map_id_made history) hs
  have hnone : (before ++ behind).filter (fun s' => s'.id = s.id) = [] :=
    List.filter_eq_nil_iff.2 fun s' hs' => by simpa using hne s' hs'
  rw [List.filter_append, List.append_eq_nil_iff] at hnone
  rw [heq, List.filter_append, List.filter_cons_of_pos (by simp), hnone.1, hnone.2, List.nil_append]

/-- One subscription that is left has its identifier, and none if it was ended. -/
theorem filter_id_current {s : Subscription α ε τ} (hs : s ∈ made history) :
    ((current history).filter fun s' => s'.id = s.id) = if s.isLive then [s] else [] := by
  rw [current, List.filter_comm, filter_id_made hs, List.filter_singleton,
    Bool.cond_eq_ite]

/-- An operation calls a subscription if it emits an event and the subscription was not ended. -/
theorem filter_calls_perform {s : Subscription α ε τ} (hs : s ∈ made history) :
    ((((reached call history).perform call operation).1.calls).filter (·.1 = s.id)).map (·.2) =
      if s.isLive then
        operation.emission?.toList.map fun emission =>
          (call emission.1 emission.2 (s.state call)).1
      else [] := by
  cases operation with
  | subscribe _ | unsubscribe _ => split <;> rfl
  | emit event target =>
    rw [(keepsBook_reached call history).calls_emit, List.filter_map]
    refine (congrArg _ (congrArg _ (filter_id_current hs))).trans ?_
    split <;> rfl

/-- **A subscription is called once for every event until it is ended.** Its listener answers from
the state in which the call before has left it. -/
theorem answersTo_id {s : Subscription α ε τ} (hs : s ∈ made history) :
    answersTo call history s.id = (tell call s.listener s.heard).1 := by
  induction history using List.reverseRecOn generalizing s with
  | nil => cases hs
  | append_singleton history operation ih =>
    rw [made_concat, List.mem_append] at hs
    obtain hs | hs := hs
    · obtain ⟨s, hmade, rfl⟩ := List.mem_map.1 hs
      rw [answersTo_concat, Subscription.id_later, ih hmade, filter_calls_perform hmade]
      by_cases hlive : s.isLive = true
      · rw [if_pos hlive, Subscription.heard_later_of_isLive hlive]
        cases operation.emission? with
        | none => rw [Option.toList_none, List.map_nil, List.append_nil, List.append_nil]; rfl
        | some emission => exact (congrArg Prod.fst (tell_concat _ _ _)).symm
      · rw [if_neg hlive, Subscription.heard_later_of_not_isLive (eq_false_of_ne_true hlive),
          List.append_nil]
        rfl
    · cases operation with
      | unsubscribe _ | emit _ _ => cases hs
      | subscribe listener =>
        obtain rfl := List.mem_singleton.1 hs
        have hne : ∀ s ∈ made history, s.id ≠ ⟨(made history).length⟩ := by
          intro s hs h
          exact (number_lt_of_mem_made hs).ne (congrArg ListenerId.number h)
        rw [answersTo_concat, answersTo_of_forall_ne hne]
        rfl

end Answers

/-! ### The whole book -/

/-- **The book of an emitter is right behind every history.**

* Every subscriber receives an identifier of its own. Its number is less than the number of
  subscriptions, so 64 bits are enough to count as long as there are fewer than `2 ^ 64` of them.
* Unsubscribing an identifier tells whether its subscription was made and not ended. If so, that
  subscription is removed and no other, and if not, nothing is.
* The emitter holds the subscriptions that were made and not ended, in the order in which they were
  made. An emission calls each of them once, in this order, with its event and its target.
* A subscription has been called once for every emission from its beginning to its end. Nobody else
  was called. -/
theorem run_exact (call : ε → τ → α → β × α) (history : List (Operation α ε τ)) :
    (issued call history = (made history).map Subscription.id ∧ (issued call history).Nodup ∧
      ∀ id ∈ issued call history, id.number < (made history).length) ∧
    (∀ id,
      (((reached call history).unsubscribe id).1 = true ↔
        ∃ s ∈ made history, s.id = id ∧ s.isLive = true) ∧
      (((reached call history).unsubscribe id).1 = true →
        ∃ before listener behind,
          (reached call history).subscriptions = before ++ (id, listener) :: behind ∧
            ((reached call history).unsubscribe id).2.subscriptions = before ++ behind) ∧
      (((reached call history).unsubscribe id).1 = false →
        ((reached call history).unsubscribe id).2 = reached call history)) ∧
    (reached call history).subscriptions =
      (current history).map (fun s => (s.id, s.state call)) ∧
    (reached call history).size = (current history).length ∧
    (∀ event target,
      ((reached call history).perform call (.emit event target)).1.calls =
        (current history).map fun s => (s.id, (call event target (s.state call)).1)) ∧
    (∀ s ∈ made history,
      answersTo call history s.id = (tell call s.listener s.heard).1 ∧
        (answersTo call history s.id).length = s.heard.length) ∧
    ∀ id ∉ issued call history, answersTo call history id = [] := by
  have hbook := keepsBook_reached call history
  refine ⟨⟨issued_eq call history, ?_, ?_⟩, fun id => ⟨hbook.unsubscribe_eq_true_iff id,
    unsubscribe_of_found hbook.numbered.nodup_ids, unsubscribe_of_not_found⟩,
    hbook.subscriptions_eq, ?_, hbook.calls_emit, fun s hs => ⟨answersTo_id hs, ?_⟩,
    fun id hid => answersTo_of_forall_ne ?_⟩
  · rw [issued_eq]
    exact nodup_map_id_made history
  · intro id hid
    rw [issued_eq] at hid
    obtain ⟨s, hs, rfl⟩ := List.mem_map.1 hid
    exact number_lt_of_mem_made hs
  · rw [size, hbook.subscriptions_eq, List.length_map]
  · rw [answersTo_id hs, length_tell]
  · rintro s hs rfl
    rw [issued_eq] at hid
    exact hid (List.mem_map_of_mem hs)

/-- Two listeners count the events that they are told. The first one is told two of three. -/
theorem run_exact_left :
    (⟨⟨0⟩, 0, [.emit 100 (), .subscribe 10, .emit 200 (), .unsubscribe ⟨0⟩, .emit 300 ()]⟩ :
        Subscription Nat Nat Unit) ∈
      made [.subscribe 0, .emit 100 (), .subscribe 10, .emit 200 (), .unsubscribe ⟨0⟩,
        .emit 300 ()] ∧
      answersTo (fun (event : Nat) (_ : Unit) count => (event + count, count + 1))
        [.subscribe 0, .emit 100 (), .subscribe 10, .emit 200 (), .unsubscribe ⟨0⟩,
          .emit 300 ()] ⟨0⟩ = [100, 201] := by
  have hmade : (⟨⟨0⟩, 0, [.emit 100 (), .subscribe 10, .emit 200 (), .unsubscribe ⟨0⟩,
      .emit 300 ()]⟩ : Subscription Nat Nat Unit) ∈ made [.subscribe 0, .emit 100 (),
        .subscribe 10, .emit 200 (), .unsubscribe ⟨0⟩, .emit 300 ()] := List.mem_cons_self
  obtain ⟨-, -, -, -, -, hanswers, -⟩ :=
    run_exact (fun (event : Nat) (_ : Unit) count => (event + count, count + 1))
      [.subscribe 0, .emit 100 (), .subscribe 10, .emit 200 (), .unsubscribe ⟨0⟩, .emit 300 ()]
  exact ⟨hmade, (hanswers _ hmade).1⟩

/-- A listener that has left cannot leave again, and nobody leaves who has not come. -/
example :
    empty.answers (fun (event : Nat) (_ : Unit) (count : Nat) => (event + count, count + 1))
        [.subscribe 0, .subscribe 10, .emit 100 (), .unsubscribe ⟨0⟩, .unsubscribe ⟨0⟩,
          .unsubscribe ⟨7⟩, .emit 200 (), .subscribe 20, .emit 300 ()] =
      [.subscribed ⟨0⟩, .subscribed ⟨1⟩, .called [(⟨0⟩, 100), (⟨1⟩, 110)], .unsubscribed true,
        .unsubscribed false, .unsubscribed false, .called [(⟨1⟩, 211)], .subscribed ⟨2⟩,
        .called [(⟨1⟩, 312), (⟨2⟩, 320)]] := rfl

end Emitter

/-- A content tells its listeners of an event by an emission, which leaves the emitter as it is. -/
theorem Content.notify_eq_emit (c : Content) (event : Event) :
    c.listeners.emit (fun listener => (Effect.notified listener event c, listener)) =
      (c.notify event, c.listeners) := by
  simp [Emitter.emit, Content.notify]

end HdlModule
