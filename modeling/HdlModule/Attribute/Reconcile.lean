/-!
# Reconciling parameters with their handles

Each parameter holds a handle. When the parameters are read anew, each new one takes over the
handle of the first old entry that counts as the same parameter and has not been taken yet. A new
parameter without such an entry is bound to a fresh handle, and the handles that nobody takes
over are released. The order of the result is that of the new parameters.

The calls to the binder are part of the result: one for each new parameter, in order, and then
the releases, in the order of the old entries.

## Main definitions

* `BinderCall`: a call to the binder
* `reconcile`: the new entries and the calls
* `Reconciled.kept`, `Reconciled.bound`, `Reconciled.released`: the numbers of calls of each sort

## Main results

* `map_fst_entries_reconcile`: the new parameters are kept in their order
* `reconcile_self`: parameters that do not change keep their handles
-/

namespace HdlModule

/-- A call to the binder, which owns the attributes behind the handles. -/
inductive BinderCall (P H : Type) where
  /-- The parameter is new and is given the fresh handle. -/
  | bind (handle : H) (parameter : P)
  /-- The handle goes over to the parameter. -/
  | refresh (handle : H) (parameter : P)
  /-- The handle is given up. -/
  | release (handle : H)
deriving DecidableEq

namespace BinderCall

variable {P H : Type}

/-- Whether a call binds a fresh handle. -/
def isBind : BinderCall P H → Bool
  | bind _ _ => true
  | _ => false

/-- Whether a call passes a handle on. -/
def isRefresh : BinderCall P H → Bool
  | refresh _ _ => true
  | _ => false

/-- Whether a call gives a handle up. -/
def isRelease : BinderCall P H → Bool
  | release _ => true
  | _ => false

end BinderCall

/-- New entries, and the calls to the binder that lead to them. -/
structure Reconciled (P H : Type) where
  entries : List (P × H)
  calls : List (BinderCall P H)

namespace Reconciled

variable {P H : Type}

/-- The number of handles that were passed on. -/
def kept (r : Reconciled P H) : Nat := r.calls.countP BinderCall.isRefresh

/-- The number of fresh handles. -/
def bound (r : Reconciled P H) : Nat := r.calls.countP BinderCall.isBind

/-- The number of handles that were given up. -/
def released (r : Reconciled P H) : Nat := r.calls.countP BinderCall.isRelease

end Reconciled

variable {P H : Type}

/-- The entries for new parameters. `fresh n` is the handle that is bound after `n` others. -/
def reconcile (same : P → P → Bool) (fresh : Nat → H) (n : Nat) (old : List (P × H)) :
    List P → Reconciled P H
  | [] => ⟨[], old.map fun entry => .release entry.2⟩
  | p :: ps =>
    match old.find? fun entry => same entry.1 p with
    | some entry =>
      let rest := reconcile same fresh n (old.eraseP fun entry => same entry.1 p) ps
      ⟨(p, entry.2) :: rest.entries, .refresh entry.2 p :: rest.calls⟩
    | none =>
      let rest := reconcile same fresh (n + 1) old ps
      ⟨(p, fresh n) :: rest.entries, .bind (fresh n) p :: rest.calls⟩

@[simp]
theorem reconcile_nil (same : P → P → Bool) (fresh : Nat → H) (n : Nat) (old : List (P × H)) :
    reconcile same fresh n old [] = ⟨[], old.map fun entry => .release entry.2⟩ := rfl

theorem reconcile_cons_of_some {same : P → P → Bool} {fresh : Nat → H} {n : Nat}
    {old : List (P × H)} {p : P} {ps : List P} {entry : P × H}
    (h : old.find? (fun entry => same entry.1 p) = some entry) :
    reconcile same fresh n old (p :: ps) =
      ⟨(p, entry.2) ::
          (reconcile same fresh n (old.eraseP fun entry => same entry.1 p) ps).entries,
        .refresh entry.2 p ::
          (reconcile same fresh n (old.eraseP fun entry => same entry.1 p) ps).calls⟩ := by
  rw [reconcile, h]

theorem reconcile_cons_of_none {same : P → P → Bool} {fresh : Nat → H} {n : Nat}
    {old : List (P × H)} {p : P} {ps : List P}
    (h : old.find? (fun entry => same entry.1 p) = none) :
    reconcile same fresh n old (p :: ps) =
      ⟨(p, fresh n) :: (reconcile same fresh (n + 1) old ps).entries,
        .bind (fresh n) p :: (reconcile same fresh (n + 1) old ps).calls⟩ := by
  rw [reconcile, h]

/-- The new parameters are kept as they are, in their order. -/
theorem map_fst_entries_reconcile (same : P → P → Bool) (fresh : Nat → H) (n : Nat)
    (old : List (P × H)) (ps : List P) :
    (reconcile same fresh n old ps).entries.map Prod.fst = ps := by
  induction ps generalizing n old with
  | nil => rfl
  | cons p ps ih =>
    cases h : old.find? fun entry => same entry.1 p with
    | none => simp [reconcile_cons_of_none h, ih]
    | some entry => simp [reconcile_cons_of_some h, ih]

/-- Parameters that are those of the entries keep every handle in its place, also where several
of them count as the same. -/
theorem reconcile_self {same : P → P → Bool} (hsame : ∀ p, same p p = true) (fresh : Nat → H)
    (n : Nat) (old : List (P × H)) :
    reconcile same fresh n old (old.map Prod.fst) =
      ⟨old, old.map fun entry => .refresh entry.2 entry.1⟩ := by
  induction old with
  | nil => rfl
  | cons entry old ih =>
    have hfind : (entry :: old).find? (fun e => same e.1 entry.1) = some entry :=
      List.find?_cons_of_pos (hsame entry.1)
    have herase : (entry :: old).eraseP (fun e => same e.1 entry.1) = old :=
      List.eraseP_cons_of_pos (hsame entry.1)
    rw [List.map_cons, reconcile_cons_of_some hfind, herase, ih, List.map_cons]

end HdlModule
