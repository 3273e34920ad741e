import HdlModule.Attribute.Reconcile

/-!
# What becomes of a handle

A reconciliation is described here from the side of a single handle. A handle of the old entries
is either passed on to a parameter that counts as the same, or it is released, and the binder hears
of it once. A fresh handle is bound once, to the parameter that holds it afterwards. The binder
hears nothing of any other handle, and no entry has one.

From the side of a parameter, the handles of old entries that count as the same parameter go over
in their order, as far as there are new parameters for them.

## Main definitions

* `BinderCall.handle`: the handle that a call is about
* `BinderCall.bound?`: the handle that a call binds

## Main results

* `reconcile_of_held`, `reconcile_of_fresh`, `reconcile_of_absent`: the entry of a handle, and the
  calls about it
* `filterMap_bound?_reconcile`: fresh handles are bound in their order
* `take_prefix_reconcile`: parameters that count as the same take over handles in their order
-/

namespace HdlModule

namespace BinderCall

variable {P H : Type}

/-- The handle that a call is about. -/
def handle : BinderCall P H → H
  | bind h _ => h
  | refresh h _ => h
  | release h => h

/-- The handle that a call binds, if it does. -/
def bound? : BinderCall P H → Option H
  | bind h _ => some h
  | _ => none

@[simp]
theorem handle_bind (h : H) (p : P) : (bind h p).handle = h := rfl

@[simp]
theorem handle_refresh (h : H) (p : P) : (refresh h p).handle = h := rfl

@[simp]
theorem handle_release (h : H) : (release h : BinderCall P H).handle = h := rfl

@[simp]
theorem bound?_bind (h : H) (p : P) : (bind h p).bound? = some h := rfl

@[simp]
theorem bound?_refresh (h : H) (p : P) : (refresh h p).bound? = none := rfl

@[simp]
theorem bound?_release (h : H) : (release h : BinderCall P H).bound? = none := rfl

end BinderCall

/-! ### The first entry of a kind -/

section FirstEntry

variable {α : Type} {f g : α → Bool} {xs : List α} {x y : α}

/-- The first element of a kind stands between others, and goes when it is erased. -/
theorem exists_append_of_find? (h : xs.find? f = some x) :
    ∃ before after, xs = before ++ x :: after ∧ before.filter f = [] ∧
      xs.eraseP f = before ++ after := by
  obtain ⟨hx, before, after, rfl, hbefore⟩ := List.find?_eq_some_iff_append.1 h
  have hnone : ∀ b ∈ before, ¬ f b = true := fun b hb => by simpa using hbefore b hb
  refine ⟨before, after, rfl, List.filter_eq_nil_iff.2 hnone, ?_⟩
  rw [List.eraseP_append_right _ hnone, List.eraseP_cons_of_pos hx]

/-- The elements of a kind are the first one and those that are left when it is erased. -/
theorem filter_eq_cons_of_find? (h : xs.find? f = some x) :
    xs.filter f = x :: (xs.eraseP f).filter f := by
  obtain ⟨before, after, hxs, hbefore, herase⟩ := exists_append_of_find? h
  rw [herase, List.filter_append, hbefore, hxs, List.filter_append, hbefore,
    List.filter_cons_of_pos (List.find?_some h)]
  rfl

/-- Elements of another sort are not concerned. -/
theorem filter_eraseP_of_neg (h : xs.find? f = some x) (hx : g x = false) :
    (xs.eraseP f).filter g = xs.filter g := by
  obtain ⟨before, after, hxs, -, herase⟩ := exists_append_of_find? h
  rw [herase, hxs, List.filter_append, List.filter_append,
    List.filter_cons_of_neg (by simpa using hx)]

/-- If there is one element of a sort, and it is erased, then there is none left. -/
theorem filter_eraseP_of_pos (h : xs.find? f = some x) (hx : g x = true)
    (hxs : xs.filter g = [y]) : x = y ∧ (xs.eraseP f).filter g = [] := by
  obtain ⟨before, after, rfl, -, herase⟩ := exists_append_of_find? h
  rw [List.filter_append, List.filter_cons_of_pos hx] at hxs
  rw [herase, List.filter_append]
  obtain ⟨hbefore, hrest⟩ | ⟨-, hrest⟩ := List.append_eq_singleton_iff.1 hxs
  · obtain ⟨hxy, hafter⟩ := List.cons.inj hrest
    exact ⟨hxy, by rw [hbefore, hafter]; rfl⟩
  · cases hrest

end FirstEntry

section Handles

variable {P H : Type} {same : P → P → Bool} {fresh : Nat → H} {n : Nat} {old : List (P × H)}
  {p : P} {ps : List P} {h : H}

/-! ### The number of fresh handles -/

@[simp]
theorem bound_reconcile_nil : (reconcile same fresh n old []).bound = 0 := by
  simp [Reconciled.bound, BinderCall.isBind]

theorem bound_reconcile_of_some {entry : P × H}
    (hfind : old.find? (fun entry => same entry.1 p) = some entry) :
    (reconcile same fresh n old (p :: ps)).bound =
      (reconcile same fresh n (old.eraseP fun entry => same entry.1 p) ps).bound := by
  simp [reconcile_cons_of_some hfind, Reconciled.bound, BinderCall.isBind]

theorem bound_reconcile_of_none (hfind : old.find? (fun entry => same entry.1 p) = none) :
    (reconcile same fresh n old (p :: ps)).bound =
      (reconcile same fresh (n + 1) old ps).bound + 1 := by
  rw [reconcile_cons_of_none hfind]
  exact List.countP_cons_of_pos rfl

/-- Fresh handles are bound in their order, none left out. -/
theorem filterMap_bound?_reconcile :
    (reconcile same fresh n old ps).calls.filterMap BinderCall.bound? =
      (List.range' n (reconcile same fresh n old ps).bound).map fresh := by
  induction ps generalizing n old with
  | nil =>
    rw [bound_reconcile_nil, List.range'_zero, List.map_nil, reconcile_nil, List.filterMap_map]
    exact List.filterMap_eq_nil_iff.2 fun _ _ => rfl
  | cons p ps ih =>
    cases hfind : old.find? fun entry => same entry.1 p with
    | some entry =>
      rw [bound_reconcile_of_some hfind, ← ih, reconcile_cons_of_some hfind]
      rfl
    | none =>
      rw [bound_reconcile_of_none hfind, List.range'_succ, List.map_cons, ← ih,
        reconcile_cons_of_none hfind]
      rfl

/-! ### The entry of a handle and the calls about it -/

variable [DecidableEq H]

/-- An entry that is found among others without a handle does not have it either. -/
theorem snd_ne_of_find? {f : P × H → Bool} {entry : P × H} (hold : old.filter (·.2 = h) = [])
    (hfind : old.find? f = some entry) : entry.2 ≠ h := by
  intro hentry
  have hnone := List.filter_eq_nil_iff.1 hold entry (List.mem_of_find?_eq_some hfind)
  simp [hentry] at hnone

/-- A handle that no old entry has and that is not bound does not come up. -/
theorem reconcile_of_absent (hold : old.filter (·.2 = h) = [])
    (hfresh : ∀ k, n ≤ k → k < n + (reconcile same fresh n old ps).bound → fresh k ≠ h) :
    (reconcile same fresh n old ps).entries.filter (·.2 = h) = [] ∧
      (reconcile same fresh n old ps).calls.filter (·.handle = h) = [] := by
  induction ps generalizing n old with
  | nil =>
    refine ⟨rfl, ?_⟩
    rw [reconcile_nil, List.filter_map, Function.comp_def]
    exact congrArg _ hold
  | cons p ps ih =>
    cases hfind : old.find? fun entry => same entry.1 p with
    | some entry =>
      have hentry : entry.2 ≠ h := snd_ne_of_find? hold hfind
      rw [bound_reconcile_of_some hfind] at hfresh
      obtain ⟨hentries, hcalls⟩ := ih ((filter_eraseP_of_neg hfind (by simpa using hentry)).trans
        hold) hfresh
      rw [reconcile_cons_of_some hfind]
      exact ⟨by simpa [hentry] using hentries, by simpa [hentry] using hcalls⟩
    | none =>
      rw [bound_reconcile_of_none hfind] at hfresh
      have hn : fresh n ≠ h := hfresh n (Nat.le_refl n) (by omega)
      obtain ⟨hentries, hcalls⟩ := ih (n := n + 1) hold fun k hk hlt =>
        hfresh k (by omega) (by omega)
      rw [reconcile_cons_of_none hfind]
      exact ⟨by simpa [hn] using hentries, by simpa [hn] using hcalls⟩

/-- A handle that is bound goes to one parameter, and the binder hears of it once. -/
theorem reconcile_of_fresh (hinj : Function.Injective fresh) {m : Nat} (hm : n ≤ m)
    (hlt : m < n + (reconcile same fresh n old ps).bound)
    (hold : old.filter (·.2 = fresh m) = []) :
    ∃ q, (reconcile same fresh n old ps).entries.filter (·.2 = fresh m) = [(q, fresh m)] ∧
      (reconcile same fresh n old ps).calls.filter (·.handle = fresh m) =
        [.bind (fresh m) q] := by
  induction ps generalizing n old with
  | nil =>
    rw [bound_reconcile_nil] at hlt
    omega
  | cons p ps ih =>
    cases hfind : old.find? fun entry => same entry.1 p with
    | some entry =>
      have hentry : entry.2 ≠ fresh m := snd_ne_of_find? hold hfind
      rw [bound_reconcile_of_some hfind] at hlt
      obtain ⟨q, hentries, hcalls⟩ := ih hm hlt
        ((filter_eraseP_of_neg hfind (by simpa using hentry)).trans hold)
      rw [reconcile_cons_of_some hfind]
      exact ⟨q, by simpa [hentry] using hentries, by simpa [hentry] using hcalls⟩
    | none =>
      rw [bound_reconcile_of_none hfind] at hlt
      rw [reconcile_cons_of_none hfind]
      by_cases hmn : m = n
      · subst hmn
        have hlater : ∀ k, m + 1 ≤ k → fresh k ≠ fresh m := by
          intro k hk heq
          have := hinj heq
          omega
        obtain ⟨hentries, hcalls⟩ := reconcile_of_absent hold
          fun k hk (_ : k < m + 1 + (reconcile same fresh (m + 1) old ps).bound) => hlater k hk
        exact ⟨p, by simpa using hentries, by simpa using hcalls⟩
      · have hn : fresh n ≠ fresh m := fun heq => hmn (hinj heq).symm
        obtain ⟨q, hentries, hcalls⟩ := ih (n := n + 1) (by omega) (by omega) hold
        exact ⟨q, by simpa [hn] using hentries, by simpa [hn] using hcalls⟩

/-- **A handle of an old entry is passed on or released.** It is passed on to one parameter, which
counts as the one before, or it is in no entry any more. Either way the binder hears of it
once. -/
theorem reconcile_of_held (hold : old.filter (·.2 = h) = [(p, h)])
    (hfresh : ∀ k, n ≤ k → fresh k ≠ h) :
    (∃ q, same p q = true ∧
        (reconcile same fresh n old ps).entries.filter (·.2 = h) = [(q, h)] ∧
        (reconcile same fresh n old ps).calls.filter (·.handle = h) = [.refresh h q]) ∨
      (reconcile same fresh n old ps).entries.filter (·.2 = h) = [] ∧
        (reconcile same fresh n old ps).calls.filter (·.handle = h) = [.release h] := by
  induction ps generalizing n old with
  | nil =>
    refine Or.inr ⟨rfl, ?_⟩
    rw [reconcile_nil, List.filter_map, Function.comp_def]
    exact congrArg (List.map fun entry : P × H => BinderCall.release entry.2) hold
  | cons q ps ih =>
    cases hfind : old.find? fun entry => same entry.1 q with
    | some entry =>
      rw [reconcile_cons_of_some hfind]
      by_cases hentry : entry.2 = h
      · obtain ⟨rfl, hrest⟩ := filter_eraseP_of_pos hfind (by simpa using hentry) hold
        have hsame : same p q = true := by simpa using List.find?_some hfind
        obtain ⟨hentries, hcalls⟩ := reconcile_of_absent hrest fun k hk (_ : k < n +
          (reconcile same fresh n (old.eraseP fun entry => same entry.1 q) ps).bound) => hfresh k hk
        exact Or.inl ⟨q, hsame, by simpa using hentries, by simpa using hcalls⟩
      · have hrest := (filter_eraseP_of_neg hfind (by simpa using hentry)).trans hold
        simpa [hentry] using ih hrest hfresh
    | none =>
      have hn : fresh n ≠ h := hfresh n (Nat.le_refl n)
      rw [reconcile_cons_of_none hfind]
      simpa [hn] using ih (n := n + 1) hold fun k hk => hfresh k (by omega)

end Handles

/-! ### Parameters that count as the same -/

section Identities

variable {P H : Type} {same : P → P → Bool} {fresh : Nat → H} {n : Nat} {old : List (P × H)}
  {ps : List P}

/-- What counts as the same as one of two parameters that do so counts as the same as the other. -/
theorem same_eq_same (hsame : Equivalence fun a b => same a b = true) {p q : P}
    (h : same p q = true) (a : P) : same a p = same a q :=
  Bool.eq_iff_iff.2 ⟨(hsame.trans · h), (hsame.trans · (hsame.symm h))⟩

theorem same_congr (hsame : Equivalence fun a b => same a b = true) {p q : P}
    (h : same p q = true) : (fun entry : P × H => same entry.1 p) = fun entry => same entry.1 q :=
  funext fun entry => same_eq_same hsame h entry.1

/-- **Parameters that count as the same take over handles in their order**, as far as there are
old entries and new parameters of their sort. -/
theorem take_prefix_reconcile (hsame : Equivalence fun a b => same a b = true) (q : P) :
    ((old.filter (same ·.1 q)).map Prod.snd).take (ps.countP (same · q)) <+:
      ((reconcile same fresh n old ps).entries.filter (same ·.1 q)).map Prod.snd := by
  induction ps generalizing n old with
  | nil => exact List.nil_prefix
  | cons p ps ih =>
    cases hp : same p q with
    | true =>
      cases hfind : old.find? fun entry => same entry.1 p with
      | some entry =>
        have hfilter : old.filter (same ·.1 q) =
            entry :: (old.eraseP fun entry => same entry.1 p).filter (same ·.1 q) := by
          rw [← same_congr hsame hp]
          exact filter_eq_cons_of_find? hfind
        rw [reconcile_cons_of_some hfind, hfilter]
        simpa [hp] using ih
      | none =>
        have hfilter : old.filter (same ·.1 q) = [] := by
          rw [← same_congr hsame hp]
          exact List.filter_eq_nil_iff.2 (List.find?_eq_none.1 hfind)
        rw [hfilter, List.map_nil, List.take_nil]
        exact List.nil_prefix
    | false =>
      cases hfind : old.find? fun entry => same entry.1 p with
      | some entry =>
        have hfound : same entry.1 p = true := by simpa using List.find?_some hfind
        have hentry : same entry.1 q = false := by
          refine Bool.eq_false_iff.2 fun hentry => ?_
          rw [hsame.trans (hsame.symm hfound) hentry] at hp
          cases hp
        rw [reconcile_cons_of_some hfind, ← filter_eraseP_of_neg hfind hentry]
        simpa [hp] using ih
      | none =>
        rw [reconcile_cons_of_none hfind]
        simpa [hp] using ih

end Identities

end HdlModule
