/-!
# Binary search

The place of a value among ascending values. The values can be of any type with an order that is
decided; the search compares values, and looks at equality only at the place where it ends.

## Main definitions

* `narrow`: halving the places that are left until there is one
* `binarySearch`: the place of a value, or the place at which it can be inserted
-/

namespace HdlModule

variable {α : Type} [LT α] [DecidableLT α]

/-- The place at which the search for a value ends, among `size` places from `base` on. The places
are halved until one is left: the upper half goes on if its first value is not too large. -/
def narrow (values : Array α) (value : α) (base size : Nat) (hsize : 0 < size)
    (hbound : base + size ≤ values.size) : Fin values.size :=
  if hhalve : 1 < size then
    if value < values[base + size / 2] then
      narrow values value base (size - size / 2) (by omega) (by omega)
    else narrow values value (base + size / 2) (size - size / 2) (by omega) (by omega)
  else ⟨base, by omega⟩
termination_by size
decreasing_by all_goals omega

/-- The place of a value among ascending values. If it is missing, the error is the place at which
it can be inserted. -/
def binarySearch [DecidableEq α] (values : Array α) (value : α) : Except Nat Nat :=
  if hsize : 0 < values.size then
    let place := narrow values value 0 values.size hsize (by omega)
    if values[place] = value then .ok place
    else if values[place] < value then .error (place + 1)
    else .error place
  else .error 0

end HdlModule
