import HdlModule.Attribute.Registry
import HdlModule.Proofs.Attribute.Reconcile
import Mathlib.Data.List.Nodup
import Mathlib.Logic.Function.Basic

/-!
# The life of a handle

Several owners of parameters share one binder. A ledger keeps what each of them holds, how many
handles were bound, and the calls to the binder, each with the owner that made it. It changes
only by revisions: an owner reconciles what it holds with other parameters, and it does so without
any when it gives up everything.

Every handle has the same life. It is unborn until the supply reaches its number. Then it is bound
for some owner, which alone holds it and passes it on among parameters of one identity, until that
owner releases it. After that nobody holds it, and the binder hears nothing of it any more. This
is the invariant `Ledger.Standing`, with one case for each age, and a revision takes a handle from
its age to the same or a later one.

## Main definitions

* `Ledger`, `Ledger.revise`: the ledger and its revisions
* `Ledger.Standing`: the three ages of a handle, with what is held and what was called in each
* `Ledger.Bound`: the handles that were bound are the first ones, in their order
* `Ledger.Reachable`: the ledger has come about by revisions

## Main results

* `Ledger.standing_revise`, `Ledger.bound_revise`: revisions keep the invariants
* `Ledger.Reachable.standing`: every handle has one of the ages, whatever the revisions were
* `Ledger.Standing.of_mem`: who holds a handle is the owner it was bound for
-/

namespace HdlModule

/-- What owners of parameters hold, and the calls to the binder that they share. -/
@[ext]
structure Ledger (T : Type) where
  holdings : T → List (Parameter × Handle)
  /-- The number of the next fresh handle. -/
  supply : Nat
  /-- The calls so far, each with the owner that made it. -/
  calls : List (T × BinderCall Parameter Handle)

namespace Ledger

variable {T : Type}

/-- Nothing is held, and there was no call. -/
def empty : Ledger T := ⟨fun _ => [], 0, []⟩

/-- The calls about a handle. -/
def about (l : Ledger T) (h : Handle) : List (T × BinderCall Parameter Handle) :=
  l.calls.filter (·.2.handle = h)

/-- The entries of an owner that have a handle. -/
def entriesOf (l : Ledger T) (t : T) (h : Handle) : List (Parameter × Handle) :=
  (l.holdings t).filter (·.2 = h)

/-- The handles of an owner after it has reconciled them with parameters. -/
def reconciled (l : Ledger T) (t : T) (ps : List Parameter) : Reconciled Parameter Handle :=
  reconcile Parameter.sameIdentity Handle.mk l.supply (l.holdings t) ps

/-- Who reconciles what it holds with nothing releases it all. -/
theorem reconciled_nil (l : Ledger T) (t : T) :
    l.reconciled t [] = ⟨[], (l.holdings t).map fun entry => .release entry.2⟩ := rfl

/-- The ledger after an owner has reconciled what it holds with parameters. -/
def revise [DecidableEq T] (l : Ledger T) (t : T) (ps : List Parameter) : Ledger T where
  holdings := Function.update l.holdings t (l.reconciled t ps).entries
  supply := l.supply + (l.reconciled t ps).bound
  calls := l.calls ++ (l.reconciled t ps).calls.map (t, ·)

/-- The age of a handle, with what is held and what was called about it. -/
inductive Standing (l : Ledger T) (h : Handle) : Prop
  | unborn (hnumber : l.supply ≤ h.number) (hcalls : l.about h = [])
      (hheld : ∀ t, l.entriesOf t h = [])
  | live (t : T) (p : Parameter) (qs : List Parameter) (hnumber : h.number < l.supply)
      (hqs : ∀ q ∈ qs, q.sameIdentity p = true)
      (hcalls : l.about h = (t, .bind h p) :: qs.map fun q => (t, .refresh h q))
      (hheld : l.entriesOf t h = [((p :: qs).getLast (List.cons_ne_nil p qs), h)])
      (hothers : ∀ t', t' ≠ t → l.entriesOf t' h = [])
  | released (t : T) (p : Parameter) (qs : List Parameter) (hnumber : h.number < l.supply)
      (hqs : ∀ q ∈ qs, q.sameIdentity p = true)
      (hcalls : l.about h =
        (t, .bind h p) :: qs.map (fun q => (t, .refresh h q)) ++ [(t, .release h)])
      (hheld : ∀ t', l.entriesOf t' h = [])

/-- The handles that were bound are the first ones, in their order. -/
def Bound (l : Ledger T) : Prop :=
  l.calls.filterMap (·.2.bound?) = (List.range l.supply).map Handle.mk

/-! ### Nothing has happened -/

theorem standing_empty (h : Handle) : (empty : Ledger T).Standing h :=
  .unborn (Nat.zero_le _) rfl fun _ => rfl

theorem bound_empty : (empty : Ledger T).Bound := rfl

/-! ### Revisions -/

section Revise

variable [DecidableEq T] {l : Ledger T} {t : T} {ps : List Parameter} {h : Handle}

theorem supply_le_revise : l.supply ≤ (l.revise t ps).supply := Nat.le_add_right _ _

theorem about_revise :
    (l.revise t ps).about h =
      l.about h ++ ((l.reconciled t ps).calls.filter (·.handle = h)).map (t, ·) := by
  simp only [about, revise, List.filter_append, List.filter_map, Function.comp_def]

theorem holdings_revise_self : (l.revise t ps).holdings t = (l.reconciled t ps).entries :=
  Function.update_self ..

theorem holdings_revise_of_ne {t' : T} (ht : t' ≠ t) :
    (l.revise t ps).holdings t' = l.holdings t' :=
  Function.update_of_ne ht ..

/-- A ledger is the one behind a revision if it is so in every part. -/
theorem eq_revise {l' : Ledger T} (hheld : l'.holdings t = (l.reconciled t ps).entries)
    (hothers : ∀ t', t' ≠ t → l'.holdings t' = l.holdings t')
    (hsupply : l'.supply = l.supply + (l.reconciled t ps).bound)
    (hcalls : l'.calls = l.calls ++ (l.reconciled t ps).calls.map (t, ·)) :
    l' = l.revise t ps := by
  apply Ledger.ext
  · funext t'
    by_cases ht : t' = t
    · rw [ht, hheld, holdings_revise_self]
    · rw [hothers t' ht, holdings_revise_of_ne ht]
  · exact hsupply
  · exact hcalls

theorem entriesOf_revise_self :
    (l.revise t ps).entriesOf t h = (l.reconciled t ps).entries.filter (·.2 = h) := by
  rw [entriesOf, holdings_revise_self]

theorem entriesOf_revise_of_ne {t' : T} (ht : t' ≠ t) :
    (l.revise t ps).entriesOf t' h = l.entriesOf t' h := by
  rw [entriesOf, holdings_revise_of_ne ht, entriesOf]

/-- A revision by someone who does not hold a handle, and does not come to hold it, changes
nothing about it. -/
theorem revise_of_absent (hheld : l.entriesOf t h = [])
    (hnumber : h.number < l.supply ∨ (l.revise t ps).supply ≤ h.number) :
    (l.revise t ps).about h = l.about h ∧
      ∀ t', (l.revise t ps).entriesOf t' h = l.entriesOf t' h := by
  have hfresh : ∀ k, l.supply ≤ k → k < l.supply + (l.reconciled t ps).bound →
      Handle.mk k ≠ h := by
    rintro k hk hlt rfl
    obtain hnumber | hnumber := hnumber
    · exact absurd hk (Nat.not_le.2 hnumber)
    · exact absurd hlt (Nat.not_lt.2 hnumber)
  obtain ⟨hentries, hcalls⟩ := reconcile_of_absent hheld hfresh
  refine ⟨?_, fun t' => ?_⟩
  · rw [about_revise, reconciled, hcalls, List.map_nil, List.append_nil]
  · by_cases ht : t' = t
    · rw [ht, entriesOf_revise_self, hheld]
      exact hentries
    · exact entriesOf_revise_of_ne ht

/-- A handle that is bound in a revision is alive then, with its owner alone. -/
theorem standing_revise_of_unborn (hnumber : l.supply ≤ h.number)
    (hborn : h.number < (l.revise t ps).supply) (hcalls : l.about h = [])
    (hheld : ∀ t', l.entriesOf t' h = []) : (l.revise t ps).Standing h := by
  have hinj : Function.Injective Handle.mk := fun _ _ hab => congrArg Handle.number hab
  obtain ⟨q, hentries, hnew⟩ := reconcile_of_fresh hinj hnumber hborn (hheld t)
  refine .live t q [] hborn (by simp) ?_ ?_ fun t' ht => ?_
  · rw [about_revise, hcalls, reconciled, hnew]
    rfl
  · rw [entriesOf_revise_self]
    exact hentries
  · rw [entriesOf_revise_of_ne ht, hheld t']

/-- The last parameter that a handle was passed on to has the identity of the first. -/
theorem sameIdentity_getLast {p : Parameter} {qs : List Parameter}
    (hqs : ∀ q ∈ qs, q.sameIdentity p = true) :
    ((p :: qs).getLast (List.cons_ne_nil p qs)).sameIdentity p = true := by
  rcases List.mem_cons.1 (List.getLast_mem (List.cons_ne_nil p qs)) with hp | hmem
  · rw [hp]
    exact Parameter.sameIdentity_self
  · exact hqs _ hmem

/-- A handle that is alive is passed on or released when its owner makes a revision. -/
theorem standing_revise_of_live {p : Parameter} {qs : List Parameter}
    (hnumber : h.number < l.supply) (hqs : ∀ q ∈ qs, q.sameIdentity p = true)
    (hcalls : l.about h = (t, .bind h p) :: qs.map fun q => (t, .refresh h q))
    (hheld : l.entriesOf t h = [((p :: qs).getLast (List.cons_ne_nil p qs), h)])
    (hothers : ∀ t', t' ≠ t → l.entriesOf t' h = []) : (l.revise t ps).Standing h := by
  have hnumber' : h.number < (l.revise t ps).supply :=
    Nat.lt_of_lt_of_le hnumber supply_le_revise
  have hfresh : ∀ k, l.supply ≤ k → Handle.mk k ≠ h := by
    rintro k hk rfl
    exact absurd hk (Nat.not_le.2 hnumber)
  obtain ⟨q, hsame, hentries, hnew⟩ | ⟨hentries, hnew⟩ := reconcile_of_held hheld hfresh
  · have hq : q.sameIdentity p = true :=
      Parameter.sameIdentity_trans (Parameter.sameIdentity_symm hsame) (sameIdentity_getLast hqs)
    refine .live t p (qs ++ [q]) hnumber' ?_ ?_ ?_ fun t' ht => ?_
    · simpa [or_imp, forall_and] using ⟨hqs, hq⟩
    · rw [about_revise, hcalls, reconciled, hnew, List.map_append]
      rfl
    · have hnew : (p :: (qs ++ [q])).getLast (List.cons_ne_nil p _) = q := by
        rw [List.getLast_cons (by simp), List.getLast_concat]
      rw [entriesOf_revise_self, hnew]
      exact hentries
    · rw [entriesOf_revise_of_ne ht, hothers t' ht]
  · refine .released t p qs hnumber' hqs ?_ fun t' => ?_
    · rw [about_revise, hcalls, reconciled, hnew]
      rfl
    · by_cases ht : t' = t
      · rw [ht, entriesOf_revise_self]
        exact hentries
      · rw [entriesOf_revise_of_ne ht, hothers t' ht]

/-- **A revision takes a handle from its age to the same or a later one.** -/
theorem standing_revise (hl : l.Standing h) : (l.revise t ps).Standing h := by
  cases hl with
  | unborn hnumber hcalls hheld =>
    obtain hborn | hunborn := Nat.lt_or_ge h.number (l.revise t ps).supply
    · exact standing_revise_of_unborn hnumber hborn hcalls hheld
    · obtain ⟨habout, hentries⟩ := revise_of_absent (hheld t) (Or.inr hunborn)
      exact .unborn hunborn (habout.trans hcalls) fun t' => (hentries t').trans (hheld t')
  | live t' p qs hnumber hqs hcalls hheld hothers =>
    by_cases ht : t' = t
    · subst ht
      exact standing_revise_of_live hnumber hqs hcalls hheld hothers
    · obtain ⟨habout, hentries⟩ := revise_of_absent (hothers t (Ne.symm ht)) (Or.inl hnumber)
      exact .live t' p qs (Nat.lt_of_lt_of_le hnumber supply_le_revise) hqs
        (habout.trans hcalls) ((hentries t').trans hheld)
        fun t'' ht'' => (hentries t'').trans (hothers t'' ht'')
  | released t' p qs hnumber hqs hcalls hheld =>
    obtain ⟨habout, hentries⟩ := revise_of_absent (hheld t) (Or.inl hnumber)
    exact .released t' p qs (Nat.lt_of_lt_of_le hnumber supply_le_revise) hqs
      (habout.trans hcalls) fun t'' => (hentries t'').trans (hheld t'')

/-- Fresh handles are numbered in the order in which they are bound. -/
theorem bound_revise (hl : l.Bound) : (l.revise t ps).Bound := by
  have hnew : (l.reconciled t ps).calls.filterMap BinderCall.bound? =
      (List.range' l.supply (l.reconciled t ps).bound).map Handle.mk := filterMap_bound?_reconcile
  have hrange : List.range (l.revise t ps).supply =
      List.range l.supply ++ List.range' l.supply (l.reconciled t ps).bound := by
    have happend : List.range' 0 l.supply ++ List.range' (0 + l.supply) (l.reconciled t ps).bound =
        List.range' 0 (l.supply + (l.reconciled t ps).bound) := List.range'_append_1
    rw [List.range_eq_range', List.range_eq_range']
    rw [Nat.zero_add] at happend
    exact happend.symm
  rw [Bound, hrange, List.map_append, ← hnew, ← hl, revise, List.filterMap_append,
    List.filterMap_map]
  rfl

end Revise

/-! ### Courses of revisions -/

/-- The ledger has come about by revisions. -/
inductive Reachable [DecidableEq T] : Ledger T → Prop
  | empty : Reachable empty
  | revise {l : Ledger T} (h : Reachable l) (t : T) (ps : List Parameter) :
    Reachable (l.revise t ps)

section Reachable

variable [DecidableEq T] {l : Ledger T} {t t' : T} {p p' : Parameter} {h : Handle}

/-- **Every handle has one of the three ages**, whatever the revisions were. -/
theorem Reachable.standing (hl : l.Reachable) (h : Handle) : l.Standing h := by
  induction hl with
  | empty => exact standing_empty h
  | revise _ t ps ih => exact standing_revise ih

/-- The handles that were bound are the first ones, in their order. -/
theorem Reachable.bound (hl : l.Reachable) : l.Bound := by
  induction hl with
  | empty => exact bound_empty
  | revise _ t ps ih => exact bound_revise ih

/-- Who holds a handle is the owner it was bound for, and holds it for a parameter of the identity
that it was bound to. -/
theorem Standing.of_mem (hl : l.Standing h) (hmem : (p, h) ∈ l.holdings t) :
    ∃ p₀, (l.about h).head? = some (t, .bind h p₀) ∧ p.sameIdentity p₀ = true := by
  have hentry : (p, h) ∈ l.entriesOf t h := List.mem_filter.2 ⟨hmem, by simp⟩
  -- only a handle that is alive is held, and its owner alone holds it
  cases hl with
  | unborn _ _ hheld => simp [hheld t] at hentry
  | released t' _ _ _ _ _ hheld => simp [hheld t] at hentry
  | live t' p₀ qs hnumber hqs hcalls hheld hothers =>
    by_cases ht : t = t'
    · subst ht
      rw [hheld, List.mem_singleton, Prod.mk.injEq] at hentry
      refine ⟨p₀, by rw [hcalls]; rfl, ?_⟩
      rw [hentry.1]
      exact sameIdentity_getLast hqs
    · simp [hothers t ht] at hentry

/-- Two entries with one handle belong to one owner. -/
theorem Standing.owner_unique (hl : l.Standing h) (hmem : (p, h) ∈ l.holdings t)
    (hmem' : (p', h) ∈ l.holdings t') : t = t' := by
  obtain ⟨p₀, hhead, -⟩ := hl.of_mem hmem
  obtain ⟨p₀', hhead', -⟩ := hl.of_mem hmem'
  rw [hhead] at hhead'
  cases hhead'
  rfl

/-- An owner does not hold a handle twice. -/
theorem Standing.length_entriesOf_le (hl : l.Standing h) (t : T) :
    (l.entriesOf t h).length ≤ 1 := by
  cases hl with
  | unborn _ _ hheld => simp [hheld t]
  | released _ _ _ _ _ _ hheld => simp [hheld t]
  | live t' p₀ qs hnumber hqs hcalls hheld hothers =>
    by_cases ht : t = t'
    · rw [ht, hheld]
      exact Nat.le_refl 1
    · simp [hothers t ht]

/-- The handles of an owner are different from each other. -/
theorem Reachable.nodup_handles (hl : l.Reachable) (t : T) :
    ((l.holdings t).map Prod.snd).Nodup := by
  refine List.nodup_iff_count_le_one.2 fun h => ?_
  have hcount : ((l.holdings t).map Prod.snd).count h = (l.entriesOf t h).length := by
    rw [List.count, List.countP_map, List.countP_eq_length_filter, entriesOf]
    rfl
  rw [hcount]
  exact (hl.standing h).length_entriesOf_le t

end Reachable

end Ledger

end HdlModule
