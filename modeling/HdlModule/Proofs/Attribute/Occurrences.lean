import HdlModule.Parameter
import HdlModule.Proofs.Attribute.Donors
import Mathlib.Algebra.BigOperators.Group.Finset.Basic
import Mathlib.Data.Multiset.UnionInter
import Mathlib.Order.Bounds.Basic

/-!
# Occurrences of parameters that count as the same

Where counting as the same is an equivalence, the parameters fall into sorts. A text may declare
several parameters of one sort, and then the first of them takes over the handle of the first old
entry of the sort, the second one that of the second, and so on, whatever stands in between. So of
each sort as many handles are passed on as there are old entries and new parameters for them, and
no other assignment of old entries to new parameters passes on more.

## Main definitions

* `occurrencesBefore same xs i p`: how many elements in front of the place `i` count as the same
* `KeepsOccurrences same old ps r`: the occurrences of each sort are paired in their order
* `IdentityClass hsame`: the sorts of parameters
* `Assignment same old ps ds`: an assignment of old entries to new parameters

## Main results

* `getElem?_donors_eq_getElem?_filter`: the donor of an occurrence is the same occurrence before
* `kept_eq_card_inter`: the handles that are passed on are counted by sorts
* `reconcile_occurrences`: all of this, and that it cannot be done better
-/

namespace HdlModule

/-! ### The elements of a kind -/

/-- An element of a list is found among those of its kind by the number of those in front. -/
theorem getElem?_filter_eq_some_iff {α : Type} {f : α → Bool} {xs : List α} {k : Nat} {x : α} :
    (xs.filter f)[k]? = some x ↔
      ∃ i, xs[i]? = some x ∧ f x = true ∧ (xs.take i).countP f = k := by
  induction xs generalizing k with
  | nil => simp
  | cons y ys ih =>
    constructor
    · intro h
      by_cases hy : f y = true
      · rw [List.filter_cons_of_pos hy] at h
        cases k with
        | zero =>
          obtain rfl : y = x := by simpa using h
          exact ⟨0, rfl, hy, rfl⟩
        | succ k =>
          obtain ⟨i, hi, hx, hk⟩ := ih.1 (by simpa using h)
          exact ⟨i + 1, hi, hx, by rw [List.take_succ_cons, List.countP_cons_of_pos hy, hk]⟩
      · rw [List.filter_cons_of_neg hy] at h
        obtain ⟨i, hi, hx, hk⟩ := ih.1 h
        exact ⟨i + 1, hi, hx, by rw [List.take_succ_cons, List.countP_cons_of_neg hy, hk]⟩
    · rintro ⟨i, hi, hx, rfl⟩
      cases i with
      | zero =>
        obtain rfl : y = x := by simpa using hi
        rw [List.filter_cons_of_pos hx]
        rfl
      | succ i =>
        have hrest := ih.2 ⟨i, by simpa using hi, hx, rfl⟩
        by_cases hy : f y = true
        · rw [List.filter_cons_of_pos hy, List.take_succ_cons, List.countP_cons_of_pos hy]
          simpa using hrest
        · rw [List.filter_cons_of_neg hy, List.take_succ_cons, List.countP_cons_of_neg hy]
          exact hrest

section Occurrences

variable {P H : Type} {same : P → P → Bool} {fresh : Nat → H} {n : Nat} {old : List (P × H)}
  {free : List (Fin old.length)} {p : P} {ps : List P}

/-! ### Donors by occurrence -/

/-- How many elements in front of the place `i` count as the same as `p`. -/
def occurrencesBefore (same : P → P → Bool) (xs : List P) (i : Nat) (p : P) : Nat :=
  (xs.take i).countP (same · p)

theorem occurrencesBefore_cons_of_pos {q : P} (hq : same q p = true) (i : Nat) :
    occurrencesBefore same (q :: ps) (i + 1) p = occurrencesBefore same ps i p + 1 :=
  List.countP_cons_of_pos (p := (same · p)) hq

theorem occurrencesBefore_cons_of_neg {q : P} (hq : same q p = false) (i : Nat) :
    occurrencesBefore same (q :: ps) (i + 1) p = occurrencesBefore same ps i p :=
  List.countP_cons_of_neg (p := (same · p)) (by simp [hq])

/-- **The donor of an occurrence** is the same occurrence among the entries that are free. -/
theorem getElem?_donors_eq_getElem?_filter (hsame : Equivalence fun a b => same a b = true)
    {i : Nat} (hp : ps[i]? = some p) :
    (donors same old free ps)[i]? =
      some ((free.filter fun j => same (old.get j).1 p)[occurrencesBefore same ps i p]?) := by
  induction ps generalizing free i with
  | nil => cases hp
  | cons q ps ih =>
    cases i with
    | zero =>
      obtain rfl : q = p := by simpa using hp
      have hfirst : (free.filter fun j => same (old.get j).1 q)[0]? =
          free.find? fun j => same (old.get j).1 q := by
        rw [← List.head?_eq_getElem?, List.head?_filter]
      rw [show occurrencesBefore same (q :: ps) 0 q = 0 from rfl, hfirst]
      cases hfind : free.find? fun j => same (old.get j).1 q with
      | some j => rw [donors_cons_of_some hfind]; rfl
      | none => rw [donors_cons_of_none hfind]; rfl
    | succ i =>
      rw [List.getElem?_cons_succ] at hp
      cases hq : same q p with
      | true =>
        have hplaces : (fun j : Fin old.length => same (old.get j).1 p) =
            fun j => same (old.get j).1 q :=
          funext fun j => (same_eq_same hsame hq (old.get j).1).symm
        rw [occurrencesBefore_cons_of_pos hq]
        cases hfind : free.find? fun j => same (old.get j).1 q with
        | some j =>
          rw [donors_cons_of_some hfind, List.getElem?_cons_succ, ih hp, hplaces,
            filter_eq_cons_of_find? hfind, List.getElem?_cons_succ]
        | none =>
          have hnone : free.filter (fun j => same (old.get j).1 p) = [] := by
            rw [hplaces]
            exact List.filter_eq_nil_iff.2 (List.find?_eq_none.1 hfind)
          rw [donors_cons_of_none hfind, List.getElem?_cons_succ, ih hp, hnone]
          rfl
      | false =>
        rw [occurrencesBefore_cons_of_neg hq]
        cases hfind : free.find? fun j => same (old.get j).1 q with
        | some j =>
          have hj : same (old.get j).1 q = true := by simpa using List.find?_some hfind
          have hother : same (old.get j).1 p = false := by
            refine Bool.eq_false_iff.2 fun hjp => ?_
            rw [hsame.trans (hsame.symm hj) hjp] at hq
            cases hq
          rw [donors_cons_of_some hfind, List.getElem?_cons_succ, ih hp,
            filter_eraseP_of_neg hfind hother]
        | none => rw [donors_cons_of_none hfind, List.getElem?_cons_succ, ih hp]

/-- The places of the entries of a sort, up to a place. -/
theorem countP_take_finRange (j : Nat) :
    ((List.finRange old.length).take j).countP (fun j => same (old.get j).1 p) =
      occurrencesBefore same (old.map Prod.fst) j p := by
  rw [occurrencesBefore, map_eq_map_finRange, ← List.map_take, List.countP_map]
  rfl

/-- The donor of a parameter is the entry of its sort that has as many of the sort in front. -/
theorem getElem?_donorsOf_eq_some_iff (hsame : Equivalence fun a b => same a b = true)
    {i : Nat} {j : Fin old.length} (hp : ps[i]? = some p) :
    (donorsOf same old ps)[i]? = some (some j) ↔
      same (old.get j).1 p = true ∧
        occurrencesBefore same (old.map Prod.fst) j p = occurrencesBefore same ps i p := by
  rw [donorsOf, getElem?_donors_eq_getElem?_filter hsame hp, Option.some_inj,
    getElem?_filter_eq_some_iff]
  constructor
  · rintro ⟨k, hk, hj, hcount⟩
    obtain ⟨hlt, rfl⟩ : ∃ h : k < old.length, (⟨k, h⟩ : Fin old.length) = j := by
      simpa [List.getElem?_eq_some_iff] using hk
    exact ⟨hj, by rw [← hcount, countP_take_finRange]⟩
  · rintro ⟨hj, hcount⟩
    exact ⟨j, by simp, hj, by rw [countP_take_finRange, hcount]⟩

/-- A parameter has no donor if as many of its sort stand in front of it as there are entries of
the sort. -/
theorem getElem?_donorsOf_eq_none (hsame : Equivalence fun a b => same a b = true) {i : Nat}
    (hp : ps[i]? = some p)
    (hcount : (old.map Prod.fst).countP (same · p) ≤ occurrencesBefore same ps i p) :
    (donorsOf same old ps)[i]? = some none := by
  rw [donorsOf, getElem?_donors_eq_getElem?_filter hsame hp, Option.some_inj,
    List.getElem?_eq_none_iff, ← List.countP_eq_length_filter]
  rwa [map_eq_map_finRange, List.countP_map] at hcount

/-- An entry is a donor if fewer entries of its sort stand in front of it than there are parameters
of the sort. -/
theorem mem_donorsOf_iff (hsame : Equivalence fun a b => same a b = true) {j : Fin old.length} :
    some j ∈ donorsOf same old ps ↔
      occurrencesBefore same (old.map Prod.fst) j (old.get j).1 <
        ps.countP (same · (old.get j).1) := by
  have hsort : ∀ {i : Nat} {p : P}, same (old.get j).1 p = true →
      (occurrencesBefore same (old.map Prod.fst) j p = occurrencesBefore same ps i p ↔
        (ps.take i).countP (same · (old.get j).1) =
          occurrencesBefore same (old.map Prod.fst) j (old.get j).1) := by
    intro i p hp
    have heq : (same · p) = (same · (old.get j).1) :=
      funext fun a => (same_eq_same hsame hp a).symm
    rw [occurrencesBefore, occurrencesBefore, occurrencesBefore, heq]
    exact eq_comm
  rw [List.countP_eq_length_filter]
  constructor
  · intro hmem
    obtain ⟨i, hi⟩ := List.mem_iff_getElem?.1 hmem
    have hlt : i < ps.length := by
      have := (List.getElem?_eq_some_iff.1 hi).1
      rwa [donorsOf, length_donors] at this
    have hat : ps[i]? = some ps[i] := List.getElem?_eq_getElem hlt
    obtain ⟨hp, hcount⟩ := (getElem?_donorsOf_eq_some_iff hsame hat).1 hi
    have hfilter := getElem?_filter_eq_some_iff (f := (same · (old.get j).1)).2
      ⟨i, hat, hsame.symm hp, (hsort hp).1 hcount⟩
    exact (List.getElem?_eq_some_iff.1 hfilter).1
  · intro hlt
    obtain ⟨i, hi, hp, hcount⟩ := getElem?_filter_eq_some_iff.1 (List.getElem?_eq_getElem hlt)
    have hp := hsame.symm hp
    exact List.mem_iff_getElem?.2
      ⟨i, (getElem?_donorsOf_eq_some_iff hsame hi).2 ⟨hp, (hsort hp).2 hcount⟩⟩

/-! ### Entries and calls by occurrence -/

/-- The entry of a parameter and the call for it, by the donor of the parameter. -/
theorem exists_getElem?_entries (fresh : Nat → H) (n : Nat) {i : Nat}
    {d : Option (Fin old.length)} (hp : ps[i]? = some p)
    (hd : (donorsOf same old ps)[i]? = some d) :
    ∃ h, (reconcile same fresh n old ps).entries[i]? = some (p, h) ∧
      (reconcile same fresh n old ps).calls[i]? = some (callFor d (p, h)) ∧
      ∀ j ∈ d, h = (old.get j).2 := by
  have hentries := map_fst_entries_reconcile same fresh n old ps
  rw [← hentries, List.getElem?_map] at hp
  obtain ⟨⟨q, h⟩, hi, rfl⟩ := Option.map_eq_some_iff.1 hp
  refine ⟨h, hi, ?_, fun j hj => ?_⟩
  · have hcall := List.getElem?_zipWith_eq_some (f := callFor).2 ⟨d, (q, h), hd, hi, rfl⟩
    rw [calls_reconcile, List.getElem?_append_left (List.getElem?_eq_some_iff.1 hcall).1]
    exact hcall
  · have hzip := List.mem_of_getElem? (List.getElem?_zip_eq_some (z := (d, (q, h))).2 ⟨hd, hi⟩)
    exact ((List.forall₂_iff_zip.1 forall₂_donorsOf_entries).2 hzip j hj).1

/-- `r` pairs the occurrences of each sort among the old entries with those among the new
parameters, in their order. -/
structure KeepsOccurrences (same : P → P → Bool) (old : List (P × H)) (ps : List P)
    (r : Reconciled P H) : Prop where
  /-- An occurrence among the new parameters takes over the handle of the same occurrence among the
  old entries. -/
  handed : ∀ (i j : Nat) p q h, ps[i]? = some p → old[j]? = some (q, h) → same q p = true →
    occurrencesBefore same (old.map Prod.fst) j p = occurrencesBefore same ps i p →
    r.entries[i]? = some (p, h) ∧ r.calls[i]? = some (.refresh h p)
  /-- An occurrence that has no equal among the old entries is bound. -/
  bound : ∀ (i : Nat) p, ps[i]? = some p →
    (old.map Prod.fst).countP (same · p) ≤ occurrencesBefore same ps i p →
    ∃ h, r.entries[i]? = some (p, h) ∧ r.calls[i]? = some (.bind h p)
  /-- The occurrences among the old entries that have no equal among the new parameters are
  released, and no others are. -/
  released : r.calls.drop ps.length =
    ((List.finRange old.length).filter fun j : Fin old.length =>
      ps.countP (same · (old.get j).1) ≤
        occurrencesBefore same (old.map Prod.fst) j (old.get j).1).map
          fun j : Fin old.length => .release (old.get j).2

theorem keepsOccurrences_reconcile (hsame : Equivalence fun a b => same a b = true) :
    KeepsOccurrences same old ps (reconcile same fresh n old ps) where
  handed := by
    intro i j p q h hp hold hq hcount
    obtain ⟨hlt, hj⟩ := List.getElem?_eq_some_iff.1 hold
    have hd := (getElem?_donorsOf_eq_some_iff (j := ⟨j, hlt⟩) hsame hp).2
      ⟨by simpa [hj] using hq, hcount⟩
    obtain ⟨h', hentry, hcall, hh⟩ := exists_getElem?_entries fresh n hp hd
    obtain rfl : h' = h := by simpa [hj] using hh ⟨j, hlt⟩ rfl
    exact ⟨hentry, hcall⟩
  bound := by
    intro i p hp hcount
    have hd := getElem?_donorsOf_eq_none hsame hp hcount
    obtain ⟨h, hentry, hcall, -⟩ := exists_getElem?_entries fresh n hp hd
    exact ⟨h, hentry, hcall⟩
  released := by
    have hlength : (List.zipWith callFor (donorsOf same old ps)
        (reconcile same fresh n old ps).entries).length = ps.length := by
      rw [List.length_zipWith, forall₂_donorsOf_entries.length_eq, Nat.min_self,
        ← List.length_map Prod.fst, map_fst_entries_reconcile]
    rw [calls_reconcile, List.drop_left' hlength]
    refine congrArg _ (List.filter_congr fun j _ => ?_)
    rw [decide_eq_decide, mem_donorsOf_iff hsame, Nat.not_lt]

/-! ### Parameters that stay in their places -/

/-- Parameters that count as those of the entries, one by one, keep every handle in its place. -/
theorem reconcile_of_forall₂ (h : List.Forall₂ (fun entry p => same entry.1 p = true) old ps) :
    (reconcile same fresh n old ps).entries = ps.zip (old.map Prod.snd) ∧
      (reconcile same fresh n old ps).calls =
        List.zipWith (fun entry p => .refresh entry.2 p) old ps := by
  induction h with
  | nil => exact ⟨rfl, rfl⟩
  | @cons entry p old ps hsame _ ih =>
    have hfind : (entry :: old).find? (fun e => same e.1 p) = some entry :=
      List.find?_cons_of_pos hsame
    have herase : (entry :: old).eraseP (fun e => same e.1 p) = old :=
      List.eraseP_cons_of_pos hsame
    rw [reconcile_cons_of_some hfind, herase, ih.1, ih.2]
    exact ⟨rfl, rfl⟩

/-! ### Sorts of parameters -/

/-- The sorts of parameters that count as the same. -/
def IdentityClass (hsame : Equivalence fun a b => same a b = true) : Type :=
  Quotient ⟨fun a b => same a b = true, hsame⟩

/-- The sort of a parameter. -/
def identityClass (hsame : Equivalence fun a b => same a b = true) (p : P) : IdentityClass hsame :=
  Quotient.mk _ p

theorem identityClass_eq_iff (hsame : Equivalence fun a b => same a b = true) {p q : P} :
    identityClass hsame p = identityClass hsame q ↔ same p q = true :=
  Quotient.eq

instance (hsame : Equivalence fun a b => same a b = true) : DecidableEq (IdentityClass hsame) :=
  fun c d => Quotient.recOnSubsingleton₂ c d fun p q =>
    decidable_of_iff (same p q = true) (identityClass_eq_iff hsame).symm

variable (hsame : Equivalence fun a b => same a b = true)

/-- The sorts of the parameters in a list, each one as often as it occurs. -/
def sorts (ps : List P) : Multiset (IdentityClass hsame) := ps.map (identityClass hsame)

@[simp]
theorem sorts_nil : sorts hsame [] = 0 := rfl

@[simp]
theorem sorts_cons : sorts hsame (p :: ps) = identityClass hsame p ::ₘ sorts hsame ps := rfl

theorem mem_sorts_iff : identityClass hsame p ∈ sorts hsame ps ↔ ∃ q ∈ ps, same q p = true := by
  simp only [sorts, Multiset.mem_coe, List.mem_map, identityClass_eq_iff]

/-- Where an entry is taken away, its sort occurs once less. -/
theorem sorts_eraseP :
    sorts hsame ((old.eraseP fun entry => same entry.1 p).map Prod.fst) =
      (sorts hsame (old.map Prod.fst)).erase (identityClass hsame p) := by
  have hclass : (fun c => identityClass hsame p == c) ∘ (identityClass hsame ∘ Prod.fst) =
      fun entry : P × H => same entry.1 p := by
    funext entry
    refine Bool.eq_iff_iff.2 ?_
    rw [Function.comp_apply, Function.comp_apply, beq_iff_eq, identityClass_eq_iff]
    exact ⟨hsame.symm, hsame.symm⟩
  rw [sorts, sorts, List.map_map, List.map_map, Multiset.coe_erase, List.erase_eq_eraseP,
    List.eraseP_map, hclass]

/-- **The handles that are passed on** are as many as the sorts that the old entries and the new
parameters have in common. -/
theorem kept_eq_card_inter :
    (reconcile same fresh n old ps).kept =
      (sorts hsame ps ∩ sorts hsame (old.map Prod.fst)).card := by
  induction ps generalizing old n with
  | nil => simp [Reconciled.kept, BinderCall.isRefresh]
  | cons p ps ih =>
    cases hfind : old.find? fun entry => same entry.1 p with
    | some entry =>
      have hmem : identityClass hsame p ∈ sorts hsame (old.map Prod.fst) :=
        (mem_sorts_iff hsame).2 ⟨entry.1, List.mem_map_of_mem (List.mem_of_find?_eq_some hfind),
          by simpa using List.find?_some hfind⟩
      rw [kept_reconcile_of_some hfind, sorts_cons, Multiset.cons_inter_of_pos _ hmem,
        Multiset.card_cons, ← sorts_eraseP, ih]
    | none =>
      have hmem : identityClass hsame p ∉ sorts hsame (old.map Prod.fst) := by
        rw [mem_sorts_iff]
        rintro ⟨q, hq, hqp⟩
        obtain ⟨entry, hentry, rfl⟩ := List.mem_map.1 hq
        exact List.find?_eq_none.1 hfind entry hentry hqp
      rw [kept_reconcile_of_none hfind, sorts_cons, Multiset.cons_inter_of_neg _ hmem, ih]

/-! ### The most that can be passed on -/

/-- `ds` assigns old entries to new parameters: an entry to one parameter at most, and only where
it counts as the same. -/
structure Assignment (same : P → P → Bool) (old : List (P × H)) (ps : List P)
    (ds : List (Option (Fin old.length))) : Prop where
  same : List.Forall₂ (fun d p => ∀ j ∈ d, same (old.get j).1 p = true) ds ps
  once : ds.reduceOption.Nodup

/-- The donors of a reconciliation are an assignment, and as many as the handles that it passes
on. -/
theorem assignment_donorsOf (same : P → P → Bool) (fresh : Nat → H) (n : Nat) (old : List (P × H))
    (ps : List P) :
    Assignment same old ps (donorsOf same old ps) ∧
      (donorsOf same old ps).reduceOption.length = (reconcile same fresh n old ps).kept := by
  refine ⟨⟨?_, nodup_donors (List.nodup_finRange _)⟩, ?_⟩
  · have h : List.Forall₂ _ _ (reconcile same fresh n old ps).entries := forall₂_donorsOf_entries
    have hsame : List.Forall₂ (fun d p => ∀ j ∈ d, same (old.get j).1 p = true)
        (donorsOf same old ps) ((reconcile same fresh n old ps).entries.map Prod.fst) :=
      List.forall₂_map_right_iff.2 (h.imp fun d entry hd j hj => (hd j hj).2)
    rwa [map_fst_entries_reconcile] at hsame
  · rw [Reconciled.kept_eq_length, filterMap_refreshed?_reconcile, List.length_map]

section Assignment

variable {ds : List (Option (Fin old.length))}

/-- The sorts of the entries that are assigned are among those of the entries. -/
theorem Assignment.sorts_le_old (h : Assignment same old ps ds) :
    sorts hsame (ds.reduceOption.map fun j => (old.get j).1) ≤ sorts hsame (old.map Prod.fst) := by
  -- no place is assigned twice, so the places that are assigned are some of all
  have hplaces : (ds.reduceOption : Multiset (Fin old.length)) ≤ List.finRange old.length :=
    (Multiset.le_iff_subset (Multiset.coe_nodup.2 h.once)).2 fun j _ => List.mem_finRange j
  rw [map_eq_map_finRange Prod.fst old, sorts, sorts, List.map_map, List.map_map]
  exact Multiset.map_le_map hplaces

/-- The sorts of the entries that are assigned are among those of the parameters. -/
theorem Assignment.sorts_le_new (h : Assignment same old ps ds) :
    sorts hsame (ds.reduceOption.map fun j => (old.get j).1) ≤ sorts hsame ps := by
  have hpairs := h.same
  clear h
  induction hpairs with
  | nil => exact Multiset.zero_le _
  | @cons d p ds ps hd _ ih =>
    cases d with
    | none =>
      rw [List.reduceOption_cons_of_none]
      exact ih.trans (Multiset.le_cons_self _ _)
    | some j =>
      have hclass : identityClass hsame (old.get j).1 = identityClass hsame p :=
        (identityClass_eq_iff hsame).2 (hd j rfl)
      rw [List.reduceOption_cons_of_some, List.map_cons, sorts_cons, sorts_cons, hclass]
      exact (Multiset.cons_le_cons_iff _).2 ih

end Assignment

/-- **No assignment passes on more handles** than a reconciliation. -/
theorem isGreatest_kept (hsame : Equivalence fun a b => same a b = true) :
    IsGreatest {m | ∃ ds, Assignment same old ps ds ∧ ds.reduceOption.length = m}
      (reconcile same fresh n old ps).kept := by
  refine ⟨⟨_, assignment_donorsOf same fresh n old ps⟩, ?_⟩
  rintro _ ⟨ds, hds, rfl⟩
  have hcard := Multiset.card_le_card
    (Multiset.le_inter (hds.sorts_le_new hsame) (hds.sorts_le_old hsame))
  rw [← kept_eq_card_inter] at hcard
  simpa [sorts] using hcard

/-- Of each sort as many handles are passed on as there are entries and parameters for them. -/
theorem kept_eq_sum (hsame : Equivalence fun a b => same a b = true) :
    (reconcile same fresh n old ps).kept =
      ∑ c ∈ (sorts hsame ps).toFinset,
        min ((sorts hsame (old.map Prod.fst)).count c) ((sorts hsame ps).count c) := by
  rw [kept_eq_card_inter hsame, ← Multiset.sum_count_eq_card (s := (sorts hsame ps).toFinset)]
  · refine Finset.sum_congr rfl fun c _ => ?_
    rw [Multiset.count_inter, Nat.min_comm]
  · intro c hc
    exact Multiset.mem_toFinset.2 (Multiset.mem_inter.1 hc).1

/-- **Parameters that count as the same keep their handles in the order in which they occur**: the
`k`-th new parameter of a sort takes over the handle of the `k`-th old entry of the sort, and what
is left is bound and released. So of each sort as many handles are passed on as there are entries
and parameters for them, which is the most that any assignment passes on, and parameters that
count as those of the entries, one by one, keep every handle in its place. -/
theorem reconcile_occurrences (hsame : Equivalence fun a b => same a b = true) (fresh : Nat → H)
    (n : Nat) (old : List (P × H)) (ps : List P) :
    KeepsOccurrences same old ps (reconcile same fresh n old ps) ∧
      (reconcile same fresh n old ps).kept =
        ∑ c ∈ (sorts hsame ps).toFinset,
          min ((sorts hsame (old.map Prod.fst)).count c) ((sorts hsame ps).count c) ∧
      IsGreatest {m | ∃ ds, Assignment same old ps ds ∧ ds.reduceOption.length = m}
        (reconcile same fresh n old ps).kept ∧
      (List.Forall₂ (fun entry p => same entry.1 p = true) old ps →
        (reconcile same fresh n old ps).entries = ps.zip (old.map Prod.snd) ∧
          (reconcile same fresh n old ps).calls =
            List.zipWith (fun entry p => .refresh entry.2 p) old ps) :=
  ⟨keepsOccurrences_reconcile hsame, kept_eq_sum hsame, isGreatest_kept hsame,
    reconcile_of_forall₂⟩

end Occurrences

/-- Two entries of one sort with another one between them, for three parameters of the sort; and
two entries of one sort that stay as they are. -/
theorem reconcile_occurrences_twins :
    (Equivalence fun p q : Parameter => p.sameIdentity q = true) ∧
      KeepsOccurrences Parameter.sameIdentity
        [(⟨"W", none, 1⟩, 0), (⟨"V", none, 1⟩, 1), (⟨"W", none, 2⟩, 2)]
        [⟨"W", none, 3⟩, ⟨"W", none, 4⟩, ⟨"W", none, 5⟩]
        (reconcile Parameter.sameIdentity id 3
          [(⟨"W", none, 1⟩, 0), (⟨"V", none, 1⟩, 1), (⟨"W", none, 2⟩, 2)]
          [⟨"W", none, 3⟩, ⟨"W", none, 4⟩, ⟨"W", none, 5⟩]) ∧
      List.Forall₂ (fun entry p => Parameter.sameIdentity entry.1 p = true)
        [(⟨"W", none, 1⟩, 0), (⟨"W", none, 2⟩, 1)] [⟨"W", none, 3⟩, ⟨"W", none, 4⟩] ∧
      (reconcile Parameter.sameIdentity id 2 [(⟨"W", none, 1⟩, 0), (⟨"W", none, 2⟩, 1)]
          [⟨"W", none, 3⟩, ⟨"W", none, 4⟩]).entries =
        [(⟨"W", none, 3⟩, 0), (⟨"W", none, 4⟩, 1)] := by
  have hsame := Parameter.sameIdentity_equivalence
  have hplaces : List.Forall₂ (fun (entry : Parameter × Nat) p =>
      Parameter.sameIdentity entry.1 p = true)
      [(⟨"W", none, 1⟩, 0), (⟨"W", none, 2⟩, 1)] [⟨"W", none, 3⟩, ⟨"W", none, 4⟩] :=
    .cons (by decide) (.cons (by decide) .nil)
  exact ⟨hsame, (reconcile_occurrences hsame id 3 _ _).1, hplaces,
    ((reconcile_occurrences hsame id 2 _ _).2.2.2 hplaces).1⟩

end HdlModule
