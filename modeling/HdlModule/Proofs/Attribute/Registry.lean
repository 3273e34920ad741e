import HdlModule.Attribute.Registry
import HdlModule.Proofs.Attribute.Reconcile
import Mathlib.Data.List.Nodup
import Mathlib.Data.List.Perm.Subperm

/-!
# What a registry holds

A registry follows the calls to the binder and nothing else, so what it holds under a handle is a
matter of the calls about that handle. A handle that is bound and passed on among parameters of
one identity has the attribute of the last of them: the key is that of the first parameter, which
has the same name. The handles stand in the order in which they were bound.

## Main definitions

* `BinderCall.update`: what a call makes of the attribute of its handle

## Main results

* `Registry.get?_foldl_follow`: the attribute of a handle, from the calls about it
* `Registry.handles_foldl_follow`: the handles, from those that were bound and those that have an
  attribute
-/

namespace HdlModule

/-- What a call makes of the attribute of its handle. -/
def BinderCall.update {H : Type} (a? : Option Attribute) : BinderCall Parameter H → Option Attribute
  | bind _ p => some (a?.getD (Attribute.ofParameter p))
  | refresh _ p => a?.map (·.refresh p)
  | release _ => none

/-- A part of a list without repetitions consists of those elements that are in it. -/
theorem eq_filter_of_sublist {α : Type} [DecidableEq α] {xs ys : List α} (h : xs.Sublist ys)
    (hys : ys.Nodup) : xs = ys.filter (· ∈ xs) := by
  have hxs : xs.filter (· ∈ xs) = xs := List.filter_eq_self.2 fun x hx => decide_eq_true hx
  have hsub : xs.Sublist (ys.filter (· ∈ xs)) := by
    conv_lhs => rw [← hxs]
    exact h.filter _
  -- the right-hand side repeats nothing and is within the left-hand side, so it is no longer
  refine hsub.eq_of_length_le ((hys.filter _).subperm fun x hx => ?_).length_le
  exact of_decide_eq_true (List.mem_filter.1 hx).2

namespace Registry

variable {r : Registry} {h : Handle} {p : Parameter} {call : BinderCall Parameter Handle}
  {calls : List (BinderCall Parameter Handle)}

/-! ### The attribute of a handle -/

theorem get?_bind_self :
    (r.bind h p).get? h = some ((r.get? h).getD (Attribute.ofParameter p)) := by
  rw [get?, bind, List.find?_append]
  cases hfind : r.entries.find? (·.1 = h) with
  | none => simp [get?, hfind]
  | some entry => simp [get?, hfind]

theorem get?_bind_of_ne {h' : Handle} (hne : h' ≠ h) : (r.bind h' p).get? h = r.get? h := by
  rw [get?, bind, List.find?_append]
  cases hfind : r.entries.find? (·.1 = h) with
  | none => simp [get?, hfind, hne]
  | some entry => simp [get?, hfind]

/-- A search for a handle is not disturbed by a refresh. -/
theorem find?_entries_refresh {h' : Handle} :
    (r.refresh h' p).entries.find? (·.1 = h) =
      (r.entries.find? (·.1 = h)).map fun entry =>
        if entry.1 = h' then (h', entry.2.refresh p) else entry := by
  rw [refresh, List.find?_map]
  refine congrArg (fun f => (r.entries.find? f).map _) (funext fun entry => ?_)
  by_cases hentry : entry.1 = h' <;> simp [hentry]

theorem get?_refresh_self : (r.refresh h p).get? h = (r.get? h).map (·.refresh p) := by
  rw [get?, get?, find?_entries_refresh]
  cases hfind : r.entries.find? (·.1 = h) with
  | none => rfl
  | some entry =>
    have hentry : entry.1 = h := by simpa using List.find?_some hfind
    simp [hentry]

theorem get?_refresh_of_ne {h' : Handle} (hne : h' ≠ h) : (r.refresh h' p).get? h = r.get? h := by
  rw [get?, get?, find?_entries_refresh]
  cases hfind : r.entries.find? (·.1 = h) with
  | none => rfl
  | some entry =>
    have hentry : entry.1 = h := by simpa using List.find?_some hfind
    simp [hentry, hne.symm]

theorem get?_release_self : (r.release h).get? h = none := by
  simp [get?, release]

theorem get?_release_of_ne {h' : Handle} (hne : h' ≠ h) : (r.release h').get? h = r.get? h := by
  simp only [get?, release, List.find?_filter]
  refine congrArg (fun f => (r.entries.find? f).map Prod.snd) (funext fun entry => ?_)
  by_cases hentry : entry.1 = h
  · simp [hentry, hne.symm]
  · simp [hentry]

/-- A call changes the attribute of its handle. -/
theorem get?_follow_of_eq (hcall : call.handle = h) :
    (r.follow call).get? h = call.update (r.get? h) := by
  subst hcall
  cases call with
  | bind _ p => exact get?_bind_self
  | refresh _ p => exact get?_refresh_self
  | release _ => exact get?_release_self

/-- A call leaves other handles alone. -/
theorem get?_follow_of_ne (hcall : call.handle ≠ h) : (r.follow call).get? h = r.get? h := by
  cases call with
  | bind _ p => exact get?_bind_of_ne hcall
  | refresh _ p => exact get?_refresh_of_ne hcall
  | release _ => exact get?_release_of_ne hcall

/-- The attribute of a handle comes from the calls about it. -/
theorem get?_foldl_follow :
    (calls.foldl follow r).get? h =
      (calls.filter (·.handle = h)).foldl BinderCall.update (r.get? h) := by
  induction calls generalizing r with
  | nil => rfl
  | cons call calls ih =>
    rw [List.foldl_cons, ih]
    by_cases hcall : call.handle = h
    · rw [List.filter_cons_of_pos (by simpa using hcall), List.foldl_cons, get?_follow_of_eq hcall]
    · rw [List.filter_cons_of_neg (by simpa using hcall), get?_follow_of_ne hcall]

/-- A handle that is passed on among parameters of one identity has the attribute of the last. -/
theorem foldl_update_refresh {qs : List Parameter} (hqs : ∀ q ∈ qs, q.sameIdentity p = true) :
    (qs.map (BinderCall.refresh h)).foldl BinderCall.update (some (Attribute.ofParameter p)) =
      some (Attribute.ofParameter ((p :: qs).getLast (List.cons_ne_nil p qs))) := by
  induction qs generalizing p with
  | nil => rfl
  | cons q qs ih =>
    have hq : q.sameIdentity p = true := hqs q List.mem_cons_self
    -- the key stays that of the first parameter, and parameters of one identity have one name
    have hrefresh : (Attribute.ofParameter p).refresh q = Attribute.ofParameter q := by
      rw [Attribute.ofParameter, Attribute.refresh, ← (Parameter.sameIdentity_iff.1 hq).1]
      rfl
    rw [List.map_cons, List.foldl_cons, BinderCall.update, Option.map_some, hrefresh,
      ih fun q' hq' => Parameter.sameIdentity_trans (hqs q' (List.mem_cons_of_mem q hq'))
        (Parameter.sameIdentity_symm hq)]
    rfl

/-- **The attribute of a handle that is bound** and passed on among parameters of one identity is
that of the last of them. -/
theorem get?_of_bind_refresh {qs : List Parameter}
    (hcalls : calls.filter (·.handle = h) = .bind h p :: qs.map (.refresh h))
    (hqs : ∀ q ∈ qs, q.sameIdentity p = true) :
    (calls.foldl follow empty).get? h =
      some (Attribute.ofParameter ((p :: qs).getLast (List.cons_ne_nil p qs))) := by
  rw [get?_foldl_follow, hcalls, List.foldl_cons]
  exact foldl_update_refresh hqs

/-- A handle has no attribute if the last call about it gave it up, or there was none. -/
theorem get?_of_release {before : List (BinderCall Parameter Handle)}
    (hcalls : calls.filter (·.handle = h) = before ++ [.release h]) :
    (calls.foldl follow empty).get? h = none := by
  rw [get?_foldl_follow, hcalls, List.foldl_append]
  rfl

theorem get?_of_absent (hcalls : calls.filter (·.handle = h) = []) :
    (calls.foldl follow empty).get? h = none := by
  rw [get?_foldl_follow, hcalls]
  rfl

/-! ### The handles in their order -/

theorem mem_handles_iff : h ∈ r.handles ↔ (r.get? h).isSome = true := by
  simp [handles, get?, List.find?_isSome]

/-- Handles come in at the end, and keep their order. -/
theorem handles_foldl_follow_sublist :
    (calls.foldl follow r).handles.Sublist
      (r.handles ++ calls.filterMap BinderCall.bound?) := by
  induction calls generalizing r with
  | nil => simp
  | cons call calls ih =>
    refine ih.trans ?_
    cases call with
    | bind h p =>
      rw [follow, handles_bind, List.filterMap_cons_some (BinderCall.bound?_bind h p),
        List.append_assoc]
      exact List.Sublist.refl _
    | refresh h p =>
      rw [follow, handles_refresh, List.filterMap_cons_none (BinderCall.bound?_refresh h p)]
    | release h =>
      rw [follow, handles_release, List.filterMap_cons_none (BinderCall.bound?_release h)]
      exact List.filter_sublist.append (List.Sublist.refl _)

/-- **The handles of a registry** are those of the bound ones that have an attribute, in the order
in which they were bound. -/
theorem handles_foldl_follow (hcalls : (calls.filterMap BinderCall.bound?).Nodup) :
    (calls.foldl follow empty).handles =
      (calls.filterMap BinderCall.bound?).filter fun h =>
        ((calls.foldl follow empty).get? h).isSome := by
  have hsub : (calls.foldl follow empty).handles.Sublist (calls.filterMap BinderCall.bound?) :=
    handles_foldl_follow_sublist
  refine (eq_filter_of_sublist hsub hcalls).trans ?_
  exact congrArg (List.filter · _) (funext fun h => by simp [mem_handles_iff])

end Registry

end HdlModule
