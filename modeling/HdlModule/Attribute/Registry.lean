import HdlModule.Attribute.Basic
import HdlModule.Attribute.Reconcile

/-!
# Registry of attributes

The registry keeps an attribute for each live handle, in the order in which the handles were
bound. It follows the calls to the binder; a call for a handle that it does not know changes
nothing.

## Main definitions

* `Handle`: the identity of an attribute
* `Registry`: the live handles with their attributes
* `Registry.bind`, `Registry.refresh`, `Registry.release`: the changes
* `Registry.follow`: the change that a call to the binder asks for
-/

namespace HdlModule

/-- The identity of an attribute. -/
structure Handle where
  number : Nat
deriving DecidableEq

/-- The live handles with their attributes, in the order in which they were bound. -/
structure Registry where
  entries : List (Handle × Attribute)

namespace Registry

/-- No attributes. -/
def empty : Registry := ⟨[]⟩

/-- The live handles. -/
def handles (r : Registry) : List Handle := r.entries.map Prod.fst

/-- The number of live handles. -/
def size (r : Registry) : Nat := r.entries.length

/-- Whether a handle is live. -/
def contains (r : Registry) (h : Handle) : Bool := decide (h ∈ r.handles)

/-- The attribute of a handle. -/
def get? (r : Registry) (h : Handle) : Option Attribute :=
  (r.entries.find? (·.1 = h)).map Prod.snd

/-- Adds the attribute of a parameter under a new handle. -/
def bind (r : Registry) (h : Handle) (p : Parameter) : Registry :=
  ⟨r.entries ++ [(h, Attribute.ofParameter p)]⟩

/-- Changes the parameter of an attribute. -/
def refresh (r : Registry) (h : Handle) (p : Parameter) : Registry :=
  ⟨r.entries.map fun entry => if entry.1 = h then (h, entry.2.refresh p) else entry⟩

/-- Removes a handle with its attribute. -/
def release (r : Registry) (h : Handle) : Registry := ⟨r.entries.filter (·.1 ≠ h)⟩

/-- The change that a call to the binder asks for. -/
def follow (r : Registry) : BinderCall Parameter Handle → Registry
  | .bind h p => r.bind h p
  | .refresh h p => r.refresh h p
  | .release h => r.release h

/-! ### Operations and live handles -/

@[simp]
theorem handles_empty : empty.handles = [] := rfl

@[simp]
theorem handles_bind (r : Registry) (h : Handle) (p : Parameter) :
    (r.bind h p).handles = r.handles ++ [h] := by
  simp [bind, handles]

@[simp]
theorem handles_refresh (r : Registry) (h : Handle) (p : Parameter) :
    (r.refresh h p).handles = r.handles := by
  simp only [refresh, handles, List.map_map]
  refine List.map_congr_left fun entry _ => ?_
  by_cases he : entry.1 = h
  · simp [he]
  · simp [he]

@[simp]
theorem handles_release (r : Registry) (h : Handle) :
    (r.release h).handles = r.handles.filter (· ≠ h) := by
  simp [release, handles, List.filter_map, Function.comp_def]

end Registry

end HdlModule
