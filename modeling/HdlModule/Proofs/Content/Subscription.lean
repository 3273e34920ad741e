import HdlModule.Content.Emitter
import Mathlib.Data.List.Nodup

/-!
# What a subscription receives

An emitter calls its listeners in rounds. In each round every subscription has its turn, in the
order in which the subscriptions were made, and all of them are told the same. Two subscriptions
may have listeners that cannot be told apart, but their identifiers are different, so the turns
say which of the calls go to a subscription.

## Main definitions

* `Emitter.ids`: the identifiers of the subscriptions
* `Emitter.Numbered`: the identifiers are different, and none of them is still to be given out
* `Emitter.rounds`: the calls that tell some events
* `Emitter.received`: what a subscription is told by some calls

## Main results

* `Emitter.Numbered.subscribe`, `Emitter.Numbered.unsubscribe`: subscriptions stay numbered
* `Emitter.received_rounds`: a subscription is told every event once, in order
-/

namespace HdlModule

namespace Emitter

variable {α β : Type}

/-- The identifiers of the subscriptions, in their order. -/
def ids (e : Emitter α) : List ListenerId := e.subscriptions.map Prod.fst

/-- The identifiers of the subscriptions are different, and none of them is still to be given
out. -/
structure Numbered (e : Emitter α) : Prop where
  nodup_ids : e.ids.Nodup
  number_lt : ∀ id ∈ e.ids, id.number < e.next

/-- The calls that tell some events, one round for each event. -/
def rounds (e : Emitter α) (events : List β) : List (α × β) :=
  events.flatMap fun event => e.listeners.map fun listener => (listener, event)

/-- What a subscription is told by some calls, which are made in rounds. -/
def received (e : Emitter α) (id : ListenerId) (calls : List (α × β)) : List β :=
  let turns := (List.replicate calls.length e.ids).flatten
  ((turns.zip calls).filter (·.1 = id)).map (·.2.2)

variable {e : Emitter α} {id : ListenerId}

/-! ### Identifiers -/

@[simp]
theorem ids_subscribe (listener : α) : (e.subscribe listener).2.ids = e.ids ++ [⟨e.next⟩] := by
  simp [subscribe, ids]

@[simp]
theorem ids_unsubscribe : (e.unsubscribe id).2.ids = e.ids.filter (· ≠ id) := by
  simp [unsubscribe, ids, List.filter_map, Function.comp_def]

theorem numbered_empty : (empty : Emitter α).Numbered := ⟨List.nodup_nil, by simp [ids, empty]⟩

theorem Numbered.subscribe (he : e.Numbered) (listener : α) :
    (e.subscribe listener).2.Numbered where
  nodup_ids := by
    rw [ids_subscribe]
    refine List.nodup_append.2 ⟨he.nodup_ids, List.nodup_singleton _, ?_⟩
    rintro id hid _ hnew rfl
    rw [List.mem_singleton] at hnew
    have hlt := he.number_lt id hid
    rw [hnew] at hlt
    exact Nat.lt_irrefl _ hlt
  number_lt := by
    intro id hid
    rw [ids_subscribe, List.mem_append, List.mem_singleton] at hid
    obtain hid | rfl := hid
    · exact Nat.lt_succ_of_lt (he.number_lt id hid)
    · exact Nat.lt_succ_self _

theorem Numbered.unsubscribe (he : e.Numbered) (id : ListenerId) :
    (e.unsubscribe id).2.Numbered where
  nodup_ids := by
    rw [ids_unsubscribe]
    exact he.nodup_ids.filter _
  number_lt := by
    intro id' hid'
    rw [ids_unsubscribe] at hid'
    exact he.number_lt id' (List.mem_filter.1 hid').1

theorem mem_ids_subscribe (listener : α) :
    (e.subscribe listener).1 ∈ (e.subscribe listener).2.ids := by
  rw [ids_subscribe]
  exact List.mem_append_right _ (List.mem_singleton_self _)

/-! ### Rounds -/

theorem rounds_cons (event : β) (events : List β) :
    e.rounds (event :: events) =
      (e.listeners.map fun listener => (listener, event)) ++ e.rounds events := rfl

/-- The turns of one round. -/
theorem zip_ids_round (event : β) :
    e.ids.zip (e.listeners.map fun listener => (listener, event)) =
      e.subscriptions.map fun s => (s.1, s.2, event) := by
  rw [ids, listeners, List.map_map, List.zip_map']
  rfl

/-- A subscription has one turn in a round. -/
theorem filter_round (he : e.Numbered) (hid : id ∈ e.ids) (event : β) :
    ((e.subscriptions.map fun s => (s.1, s.2, event)).filter (·.1 = id)).map (·.2.2) =
      [event] := by
  have hlength : (e.subscriptions.filter (·.1 = id)).length = 1 := by
    have hcount := List.count_eq_one_of_mem he.nodup_ids hid
    rw [ids, List.count, List.countP_map, List.countP_eq_length_filter] at hcount
    exact hcount
  obtain ⟨s, hs⟩ := List.length_eq_one_iff.1 hlength
  simp only [List.filter_map, Function.comp_def, hs, List.map_singleton]

/-- As long as there are enough turns, it does not matter how many there are. -/
theorem filter_zip_rounds (he : e.Numbered) (hid : id ∈ e.ids) {events : List β} {n : Nat}
    (hn : events.length ≤ n) :
    (((List.replicate n e.ids).flatten.zip (e.rounds events)).filter (·.1 = id)).map (·.2.2) =
      events := by
  induction events generalizing n with
  | nil => simp [rounds]
  | cons event events ih =>
    obtain _ | n := n
    · cases hn
    · have hlength :
          e.ids.length = (e.listeners.map fun listener => (listener, event)).length := by
        simp [ids, listeners]
      rw [List.replicate_succ, List.flatten_cons, rounds_cons, List.zip_append hlength,
        List.filter_append, List.map_append, zip_ids_round, filter_round he hid,
        ih (Nat.le_of_succ_le_succ hn), List.singleton_append]

/-- **A subscription is told every event once**, in the order of the rounds. -/
theorem received_rounds (he : e.Numbered) (hid : id ∈ e.ids) (events : List β) :
    e.received id (e.rounds events) = events := by
  refine filter_zip_rounds he hid ?_
  have hpos : 0 < e.listeners.length := by
    have hids := List.length_pos_of_mem hid
    simpa [ids, listeners] using hids
  have hlength : (e.rounds events).length = events.length * e.listeners.length := by
    simp [rounds, List.length_flatMap]
  rw [hlength]
  exact Nat.le_mul_of_pos_right _ hpos

end Emitter

end HdlModule
