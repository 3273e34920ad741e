import HdlModule.Proofs.Attribute.Reconcile
import Mathlib.Data.List.FinRange
import Mathlib.Data.List.Forall2
import Mathlib.Data.List.Nodup
import Mathlib.Data.List.ReduceOption

/-!
# Which entry passes its handle on to which parameter

Handles may occur more than once among the old entries, so an entry is told apart by its place
here. Each new parameter has a donor, the old entry whose handle it takes over, or none. The
search for it passes over the entries that were taken before, and takes the first of the others
that counts as the same parameter. Nothing is asked of the relation that decides this.

## Main definitions

* `donors free ps`: the donors of the parameters, among the places `free`
* `TakesOver same old donor? entry`: a new entry has the handle of its donor
* `Accounts same fresh n old ps ds r`: what a reconciliation with these donors does to each handle,
  and the calls that it makes

## Main results

* `getElem?_donors`: the donor is the first entry that counts as the same and is not taken yet
* `exists_accounts_reconcile`: a reconciliation neither loses nor doubles a handle
-/

namespace HdlModule

/-! ### Places in a list -/

/-- A list is what stands at its places. -/
theorem map_eq_map_finRange {α β : Type} (f : α → β) (xs : List α) :
    xs.map f = (List.finRange xs.length).map fun j => f (xs.get j) :=
  calc xs.map f
    _ = ((List.finRange xs.length).map xs.get).map f := by rw [List.map_get_finRange]
    _ = (List.finRange xs.length).map fun j => f (xs.get j) := by rw [List.map_map]; rfl

section FirstPlace

variable {α : Type} [DecidableEq α] {f : α → Bool} {xs : List α} {x : α}

/-- Where nothing occurs twice, erasing the first element of a kind leaves all others. -/
theorem eraseP_eq_filter_of_nodup (hxs : xs.Nodup) (h : xs.find? f = some x) :
    xs.eraseP f = xs.filter (· ≠ x) := by
  obtain ⟨before, after, rfl, -, herase⟩ := exists_append_of_find? h
  obtain ⟨hx, -⟩ := List.nodup_cons.1 (List.nodup_middle.1 hxs)
  have hothers : ∀ y ∈ before ++ after, decide (y ≠ x) = true := by
    rintro y hy
    exact decide_eq_true fun heq => hx (heq ▸ hy)
  rw [herase, List.filter_append, List.filter_cons_of_neg (by simp), ← List.filter_append,
    List.filter_eq_self.2 hothers]

/-- No element in front of the first one of a kind is of the kind. -/
theorem eq_false_of_lt_of_find? {m : Nat} {f : Fin m → Bool} {js : List (Fin m)} {j j' : Fin m}
    (hjs : js.Pairwise (· < ·)) (h : js.find? f = some j) (hj' : j' ∈ js) (hlt : j' < j) :
    f j' = false := by
  obtain ⟨-, before, after, rfl, hbefore⟩ := List.find?_eq_some_iff_append.1 h
  obtain ⟨-, hafter, -⟩ := List.pairwise_append.1 hjs
  rcases List.mem_append.1 hj' with hmem | hmem
  · simpa using hbefore j' hmem
  · rcases List.mem_cons.1 hmem with rfl | hmem
    · exact absurd hlt (lt_irrefl _)
    · exact absurd hlt (lt_asymm ((List.pairwise_cons.1 hafter).1 j' hmem))

end FirstPlace

section Donors

variable {P H : Type} (same : P → P → Bool) (old : List (P × H))

/-- For each new parameter the place of its donor among the places that are free. A donor is not
free any more. -/
def donors (free : List (Fin old.length)) : List P → List (Option (Fin old.length))
  | [] => []
  | p :: ps =>
    match free.find? fun j => same (old.get j).1 p with
    | some j => some j :: donors (free.eraseP fun j => same (old.get j).1 p) ps
    | none => none :: donors free ps

variable {same old} {fresh : Nat → H} {n : Nat} {free : List (Fin old.length)} {p : P}
  {ps : List P}

@[simp]
theorem donors_nil : donors same old free [] = [] := rfl

theorem donors_cons_of_some {j : Fin old.length}
    (h : free.find? (fun j => same (old.get j).1 p) = some j) :
    donors same old free (p :: ps) =
      some j :: donors same old (free.eraseP fun j => same (old.get j).1 p) ps := by
  rw [donors, h]

theorem donors_cons_of_none (h : free.find? (fun j => same (old.get j).1 p) = none) :
    donors same old free (p :: ps) = none :: donors same old free ps := by
  rw [donors, h]

@[simp]
theorem length_donors : (donors same old free ps).length = ps.length := by
  induction ps generalizing free with
  | nil => rfl
  | cons p ps ih =>
    cases h : free.find? fun j => same (old.get j).1 p with
    | some j => rw [donors_cons_of_some h, List.length_cons, ih, List.length_cons]
    | none => rw [donors_cons_of_none h, List.length_cons, ih, List.length_cons]

/-- Donors are free. -/
theorem mem_free_of_mem_donors {j : Fin old.length} (h : some j ∈ donors same old free ps) :
    j ∈ free := by
  induction ps generalizing free with
  | nil => cases h
  | cons p ps ih =>
    cases hfind : free.find? fun j => same (old.get j).1 p with
    | some k =>
      rw [donors_cons_of_some hfind] at h
      rcases List.mem_cons.1 h with heq | h
      · cases heq
        exact List.mem_of_find?_eq_some hfind
      · exact List.mem_of_mem_eraseP (ih h)
    | none =>
      rw [donors_cons_of_none hfind] at h
      exact ih ((List.mem_cons.1 h).resolve_left nofun)

/-- The places that are free behind a donor are those that it and the later donors leave. -/
theorem filter_eraseP_donor {j : Fin old.length} (hfree : free.Nodup)
    (h : free.find? (fun j => same (old.get j).1 p) = some j)
    (ds : List (Option (Fin old.length))) :
    (free.eraseP fun j => same (old.get j).1 p).filter (some · ∉ ds) =
      free.filter (some · ∉ some j :: ds) := by
  rw [eraseP_eq_filter_of_nodup hfree h, List.filter_filter]
  refine List.filter_congr fun k _ => ?_
  simp [Bool.and_comm]

/-- **The donor of a parameter** is the first entry that counts as the same among those that no
parameter before it has taken. -/
theorem getElem?_donors (hfree : free.Nodup) {i : Nat} (hp : ps[i]? = some p) :
    (donors same old free ps)[i]? =
      some ((free.filter (some · ∉ (donors same old free ps).take i)).find?
        fun j => same (old.get j).1 p) := by
  induction ps generalizing free i with
  | nil => cases hp
  | cons q ps ih =>
    cases i with
    | zero =>
      obtain rfl : q = p := by simpa using hp
      have hall : free.filter (some · ∉ (donors same old free (q :: ps)).take 0) = free := by simp
      rw [hall]
      cases hfind : free.find? fun j => same (old.get j).1 q with
      | some j => rw [donors_cons_of_some hfind]; rfl
      | none => rw [donors_cons_of_none hfind]; rfl
    | succ i =>
      rw [List.getElem?_cons_succ] at hp
      cases hfind : free.find? fun j => same (old.get j).1 q with
      | some j =>
        rw [donors_cons_of_some hfind, List.getElem?_cons_succ, List.take_succ_cons,
          ← filter_eraseP_donor hfree hfind]
        exact ih (hfree.sublist List.eraseP_sublist) hp
      | none =>
        rw [donors_cons_of_none hfind, List.getElem?_cons_succ, List.take_succ_cons]
        simpa using ih hfree hp

/-! ### Reconciliations by their donors -/

/-- The call for a new entry. Its handle is passed on if it has a donor, and fresh otherwise. -/
def callFor {α : Type} (donor? : Option α) (entry : P × H) : BinderCall P H :=
  if donor?.isSome then .refresh entry.2 entry.1 else .bind entry.2 entry.1

@[simp]
theorem callFor_some {α : Type} (a : α) (entry : P × H) :
    callFor (some a) entry = .refresh entry.2 entry.1 := rfl

@[simp]
theorem callFor_none {α : Type} (entry : P × H) :
    callFor (none : Option α) entry = .bind entry.2 entry.1 := rfl

theorem reconcile_cons_of_donor {j : Fin old.length}
    (h : free.find? (fun j => same (old.get j).1 p) = some j) :
    reconcile same fresh n (free.map old.get) (p :: ps) =
      let rest := reconcile same fresh n
        ((free.eraseP fun j => same (old.get j).1 p).map old.get) ps
      ⟨(p, (old.get j).2) :: rest.entries, .refresh (old.get j).2 p :: rest.calls⟩ := by
  have hold : (free.map old.get).find? (fun entry => same entry.1 p) = some (old.get j) := by
    rw [List.find?_map]
    exact congrArg (Option.map old.get) h
  rw [reconcile_cons_of_some hold, List.eraseP_map]
  rfl

theorem reconcile_cons_of_no_donor (h : free.find? (fun j => same (old.get j).1 p) = none) :
    reconcile same fresh n (free.map old.get) (p :: ps) =
      let rest := reconcile same fresh (n + 1) (free.map old.get) ps
      ⟨(p, fresh n) :: rest.entries, .bind (fresh n) p :: rest.calls⟩ := by
  refine reconcile_cons_of_none ?_
  rw [List.find?_map]
  exact congrArg (Option.map old.get) h

/-- The entry has the handle of its donor, if it has one, which counts as the same parameter. -/
def TakesOver (same : P → P → Bool) (old : List (P × H)) (donor? : Option (Fin old.length))
    (entry : P × H) : Prop :=
  ∀ j ∈ donor?, entry.2 = (old.get j).2 ∧ same (old.get j).1 entry.1 = true

/-- The new entries take over the handles of their donors. -/
theorem forall₂_donors_entries (same : P → P → Bool) (fresh : Nat → H) (n : Nat)
    (free : List (Fin old.length)) (ps : List P) :
    List.Forall₂ (TakesOver same old) (donors same old free ps)
      (reconcile same fresh n (free.map old.get) ps).entries := by
  induction ps generalizing free n with
  | nil => exact .nil
  | cons p ps ih =>
    cases hfind : free.find? fun j => same (old.get j).1 p with
    | some j =>
      rw [donors_cons_of_some hfind, reconcile_cons_of_donor hfind]
      refine .cons ?_ (ih n _)
      rintro k ⟨⟩
      exact ⟨rfl, by simpa using List.find?_some hfind⟩
    | none =>
      rw [donors_cons_of_none hfind, reconcile_cons_of_no_donor hfind]
      exact .cons nofun (ih (n + 1) free)

/-- The calls of a reconciliation are one for each new entry, and then one for each old entry that
is nobody's donor. -/
theorem calls_reconcile_eq (same : P → P → Bool) (fresh : Nat → H) (n : Nat) (ps : List P)
    (hfree : free.Nodup) :
    (reconcile same fresh n (free.map old.get) ps).calls =
      List.zipWith callFor (donors same old free ps)
          (reconcile same fresh n (free.map old.get) ps).entries ++
        (free.filter (some · ∉ donors same old free ps)).map fun j => .release (old.get j).2 := by
  induction ps generalizing free n with
  | nil => simp [Function.comp_def]
  | cons p ps ih =>
    cases hfind : free.find? fun j => same (old.get j).1 p with
    | some j =>
      rw [donors_cons_of_some hfind, reconcile_cons_of_donor hfind,
        ← filter_eraseP_donor hfree hfind]
      exact congrArg _ (ih n (hfree.sublist List.eraseP_sublist))
    | none =>
      have hleft : free.filter (some · ∉ none :: donors same old free ps) =
          free.filter (some · ∉ donors same old free ps) := by
        simp
      rw [donors_cons_of_none hfind, reconcile_cons_of_no_donor hfind, hleft]
      exact congrArg _ (ih (n + 1) hfree)

/-- No entry is the donor of two parameters. -/
theorem nodup_donors (hfree : free.Nodup) : (donors same old free ps).reduceOption.Nodup := by
  induction ps generalizing free with
  | nil => exact .nil
  | cons p ps ih =>
    cases hfind : free.find? fun j => same (old.get j).1 p with
    | some j =>
      rw [donors_cons_of_some hfind, List.reduceOption_cons_of_some]
      refine List.nodup_cons.2 ⟨fun hj => ?_, ih (hfree.sublist List.eraseP_sublist)⟩
      have hmem := mem_free_of_mem_donors (List.reduceOption_mem_iff.1 hj)
      rw [eraseP_eq_filter_of_nodup hfree hfind] at hmem
      simp at hmem
    | none =>
      rw [donors_cons_of_none hfind, List.reduceOption_cons_of_none]
      exact ih hfree

/-- A place that is free is that of a donor or it is left. -/
theorem perm_donors (hfree : free.Nodup) :
    free.Perm ((donors same old free ps).reduceOption ++
      free.filter (some · ∉ donors same old free ps)) := by
  -- no place occurs twice on either side, so their elements are compared
  refine (List.perm_ext_iff_of_nodup hfree ?_).2 fun j => ?_
  · refine List.Nodup.append (nodup_donors hfree) (hfree.filter _) fun j hj hleft => ?_
    have hnot := (List.mem_filter.1 hleft).2
    simp only [decide_eq_true_eq] at hnot
    exact hnot (List.reduceOption_mem_iff.1 hj)
  · rw [List.mem_append, List.reduceOption_mem_iff, List.mem_filter, decide_eq_true_eq]
    constructor
    · intro hj
      by_cases hdonor : some j ∈ donors same old free ps
      · exact Or.inl hdonor
      · exact Or.inr ⟨hj, hdonor⟩
    · rintro (hdonor | ⟨hj, -⟩)
      · exact mem_free_of_mem_donors hdonor
      · exact hj

end Donors

/-! ### Handles that are passed on or given up -/

namespace BinderCall

variable {P H : Type}

/-- The handle that a call passes on, if it does. -/
def refreshed? : BinderCall P H → Option H
  | refresh h _ => some h
  | _ => none

/-- The handle that a call gives up, if it does. -/
def released? : BinderCall P H → Option H
  | release h => some h
  | _ => none

theorem isSome_refreshed? (call : BinderCall P H) : call.refreshed?.isSome = call.isRefresh := by
  cases call <;> rfl

theorem isSome_released? (call : BinderCall P H) : call.released?.isSome = call.isRelease := by
  cases call <;> rfl

end BinderCall

namespace Reconciled

variable {P H : Type} (r : Reconciled P H)

theorem kept_eq_length : r.kept = (r.calls.filterMap BinderCall.refreshed?).length := by
  rw [List.length_filterMap_eq_countP, kept]
  exact List.countP_congr fun call _ => by rw [BinderCall.isSome_refreshed?]

theorem released_eq_length : r.released = (r.calls.filterMap BinderCall.released?).length := by
  rw [List.length_filterMap_eq_countP, released]
  exact List.countP_congr fun call _ => by rw [BinderCall.isSome_released?]

end Reconciled

section Accounts

variable {P H : Type} {same : P → P → Bool} {fresh : Nat → H} {n : Nat} {old : List (P × H)}
  {ps : List P} {ds : List (Option (Fin old.length))} {entries : List (P × H)}

/-- The handles that are passed on are those of the donors, and the calls for new entries release
none. -/
theorem filterMap_zipWith_callFor
    (h : List.Forall₂ (TakesOver same old) ds entries) :
    (List.zipWith callFor ds entries).filterMap BinderCall.refreshed? =
        ds.reduceOption.map (fun j => (old.get j).2) ∧
      (List.zipWith callFor ds entries).filterMap BinderCall.released? = [] := by
  induction h with
  | nil => exact ⟨rfl, rfl⟩
  | @cons d entry ds entries hd _ ih =>
    cases d with
    | none => exact ih
    | some j =>
      rw [List.zipWith_cons_cons, callFor_some, (hd j rfl).1, List.reduceOption_cons_of_some]
      exact ⟨congrArg ((old.get j).2 :: ·) ih.1, ih.2⟩

theorem kept_reconcile_of_some {p : P} {entry : P × H}
    (hfind : old.find? (fun entry => same entry.1 p) = some entry) :
    (reconcile same fresh n old (p :: ps)).kept =
      (reconcile same fresh n (old.eraseP fun entry => same entry.1 p) ps).kept + 1 := by
  rw [reconcile_cons_of_some hfind]
  exact List.countP_cons_of_pos rfl

theorem kept_reconcile_of_none {p : P}
    (hfind : old.find? (fun entry => same entry.1 p) = none) :
    (reconcile same fresh n old (p :: ps)).kept = (reconcile same fresh (n + 1) old ps).kept := by
  rw [reconcile_cons_of_none hfind]
  exact List.countP_cons_of_neg nofun

/-- Each new parameter is bound, or a handle is passed on to it. -/
theorem kept_add_bound_reconcile :
    (reconcile same fresh n old ps).kept + (reconcile same fresh n old ps).bound = ps.length := by
  induction ps generalizing old n with
  | nil => simp [Reconciled.kept, Reconciled.bound, BinderCall.isRefresh, BinderCall.isBind]
  | cons p ps ih =>
    cases hfind : old.find? fun entry => same entry.1 p with
    | some entry =>
      have hrest := @ih n (old.eraseP fun entry => same entry.1 p)
      rw [bound_reconcile_of_some hfind, kept_reconcile_of_some hfind, List.length_cons]
      omega
    | none =>
      have hrest := @ih (n + 1) old
      rw [bound_reconcile_of_none hfind, kept_reconcile_of_none hfind, List.length_cons]
      omega

/-! ### The donors among all old entries -/

/-- For each new parameter the place of its donor among all old entries. -/
def donorsOf (same : P → P → Bool) (old : List (P × H)) (ps : List P) :
    List (Option (Fin old.length)) :=
  donors same old (List.finRange old.length) ps

theorem forall₂_donorsOf_entries :
    List.Forall₂ (TakesOver same old) (donorsOf same old ps)
      (reconcile same fresh n old ps).entries := by
  have h := forall₂_donors_entries same fresh n (List.finRange old.length) ps
  rwa [List.map_get_finRange] at h

theorem calls_reconcile :
    (reconcile same fresh n old ps).calls =
      List.zipWith callFor (donorsOf same old ps) (reconcile same fresh n old ps).entries ++
        ((List.finRange old.length).filter (some · ∉ donorsOf same old ps)).map
          fun j => .release (old.get j).2 := by
  have h := calls_reconcile_eq same fresh n ps (List.nodup_finRange old.length)
  rwa [List.map_get_finRange] at h

/-- The handles of the donors are passed on. -/
theorem filterMap_refreshed?_reconcile :
    (reconcile same fresh n old ps).calls.filterMap BinderCall.refreshed? =
      (donorsOf same old ps).reduceOption.map fun j => (old.get j).2 := by
  rw [calls_reconcile, List.filterMap_append, (filterMap_zipWith_callFor
    forall₂_donorsOf_entries).1]
  simp [BinderCall.refreshed?, Function.comp_def]

/-- The handles of the other entries are given up. -/
theorem filterMap_released?_reconcile :
    (reconcile same fresh n old ps).calls.filterMap BinderCall.released? =
      ((List.finRange old.length).filter (some · ∉ donorsOf same old ps)).map
        fun j => (old.get j).2 := by
  rw [calls_reconcile, List.filterMap_append, (filterMap_zipWith_callFor
    forall₂_donorsOf_entries).2]
  simp [BinderCall.released?, Function.comp_def]

/-- Each old handle is passed on or given up. -/
theorem perm_handles_reconcile (same : P → P → Bool) (fresh : Nat → H) (n : Nat)
    (old : List (P × H)) (ps : List P) :
    (old.map Prod.snd).Perm
      ((reconcile same fresh n old ps).calls.filterMap BinderCall.refreshed? ++
        (reconcile same fresh n old ps).calls.filterMap BinderCall.released?) := by
  rw [filterMap_refreshed?_reconcile, filterMap_released?_reconcile, map_eq_map_finRange,
    ← List.map_append]
  exact (perm_donors (List.nodup_finRange old.length)).map _

/-! ### The account -/

/-- `r` gives an account of every handle, with `ds` the donors of the new parameters. -/
structure Accounts (same : P → P → Bool) (fresh : Nat → H) (n : Nat) (old : List (P × H))
    (ps : List P) (ds : List (Option (Fin old.length))) (r : Reconciled P H) : Prop where
  /-- The new parameters are kept as they are, in their order. -/
  parameters : r.entries.map Prod.fst = ps
  /-- A parameter takes over the handle of its donor, which counts as the same. -/
  handed : List.Forall₂ (TakesOver same old) ds r.entries
  /-- No entry is a donor twice. -/
  once : ds.reduceOption.Nodup
  /-- No entry in front of a donor counts as the same that was not taken before. -/
  first : ∀ (i : Nat) p j, ps[i]? = some p → ds[i]? = some (some j) →
    ∀ j' < j, some j' ∉ ds.take i → same (old.get j').1 p = false
  /-- Where no donor is found, no entry counts as the same that nobody has taken. -/
  unmatched : ∀ (i : Nat) p, ps[i]? = some p → ds[i]? = some none →
    ∀ j, some j ∉ ds → same (old.get j).1 p = false
  /-- There is one call for each new parameter, in order, and then one release for each old entry
  that is no donor, in order. -/
  calls : r.calls = List.zipWith callFor ds r.entries ++
    ((List.finRange old.length).filter (some · ∉ ds)).map fun j => .release (old.get j).2
  /-- Fresh handles are bound in their order. -/
  freshly : r.calls.filterMap BinderCall.bound? = (List.range' n r.bound).map fresh
  /-- The old handles are those that are passed on and those that are released. -/
  handles : (old.map Prod.snd).Perm
    (r.calls.filterMap BinderCall.refreshed? ++ r.calls.filterMap BinderCall.released?)
  kept_add_bound : r.kept + r.bound = ps.length
  kept_add_released : r.kept + r.released = old.length

/-- **A reconciliation neither loses nor doubles a handle**, whatever counts as the same: each old
entry is the donor of one new parameter or is released, each new parameter has the first donor
that is left or is bound, and the calls follow the new parameters and then the old entries. -/
theorem exists_accounts_reconcile (same : P → P → Bool) (fresh : Nat → H) (n : Nat)
    (old : List (P × H)) (ps : List P) :
    ∃ ds, Accounts same fresh n old ps ds (reconcile same fresh n old ps) := by
  have hfree : (List.finRange old.length).Nodup := List.nodup_finRange _
  have hhandles := perm_handles_reconcile same fresh n old ps
  refine ⟨donorsOf same old ps, ?_⟩
  exact {
    parameters := map_fst_entries_reconcile same fresh n old ps
    handed := forall₂_donorsOf_entries
    once := nodup_donors hfree
    first := by
      intro i p j hp hd j' hlt hleft
      rw [donorsOf, getElem?_donors hfree hp, Option.some_inj] at hd
      exact eq_false_of_lt_of_find? ((List.pairwise_lt_finRange _).filter _) hd
        (List.mem_filter.2 ⟨List.mem_finRange j', decide_eq_true hleft⟩) hlt
    unmatched := by
      intro i p hp hd j hleft
      rw [donorsOf, getElem?_donors hfree hp, Option.some_inj] at hd
      refine Bool.eq_false_iff.2 (List.find?_eq_none.1 hd j (List.mem_filter.2 ⟨?_, ?_⟩))
      · exact List.mem_finRange j
      · exact decide_eq_true fun htaken => hleft (List.mem_of_mem_take htaken)
    calls := calls_reconcile
    freshly := filterMap_bound?_reconcile
    handles := hhandles
    kept_add_bound := kept_add_bound_reconcile
    kept_add_released := by
      rw [Reconciled.kept_eq_length, Reconciled.released_eq_length, ← List.length_append,
        ← hhandles.length_eq, List.length_map] }

end Accounts

end HdlModule
