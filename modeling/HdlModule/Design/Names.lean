/-!
# Names of modules in a design

The names that the modules of a design have, each once. Names are compared exactly.

## Main definitions

* `ModuleNames`: a set of names
* `ModuleNames.insert`, `ModuleNames.remove`, `ModuleNames.rename`: changes of the set, with a
  word on whether they took effect
-/

namespace HdlModule

/-- A set of names. -/
structure ModuleNames where
  toList : List String
  nodup : toList.Nodup

namespace ModuleNames

/-- No names. -/
def empty : ModuleNames := ⟨[], List.nodup_nil⟩

/-- Whether a name is in the set. -/
def contains (names : ModuleNames) (name : String) : Bool := decide (name ∈ names.toList)

/-- The number of names. -/
def size (names : ModuleNames) : Nat := names.toList.length

/-- Adds a name, and says whether it was new. -/
def insert (names : ModuleNames) (name : String) : Bool × ModuleNames :=
  if h : name ∈ names.toList then (false, names)
  else (true, ⟨name :: names.toList, List.nodup_cons.2 ⟨h, names.nodup⟩⟩)

/-- Removes a name, and says whether it was there. -/
def remove (names : ModuleNames) (name : String) : Bool × ModuleNames :=
  (names.contains name, ⟨names.toList.erase name, names.nodup.erase name⟩)

/-- Puts a name in place of another one, and says whether that was there. If it was not, nothing
changes. -/
def rename (names : ModuleNames) (old new : String) : Bool × ModuleNames :=
  if names.contains old then (true, ((names.remove old).2.insert new).2) else (false, names)

/-- The names of a list. -/
def ofList (names : List String) : ModuleNames :=
  names.foldl (fun set name => (set.insert name).2) empty

/-! ### Operations and membership -/

@[simp]
theorem contains_iff {names : ModuleNames} {name : String} :
    names.contains name = true ↔ name ∈ names.toList := by
  simp [contains]

/-- A name is in the set after an insertion if it was inserted or was there. -/
theorem mem_insert {names : ModuleNames} {name other : String} :
    other ∈ (names.insert name).2.toList ↔ other = name ∨ other ∈ names.toList := by
  unfold insert
  split
  · next h => exact ⟨Or.inr, fun h' => h'.elim (fun e => e ▸ h) id⟩
  · exact List.mem_cons

/-- A name is in the set after a removal if it was there and was not removed. -/
theorem mem_remove {names : ModuleNames} {name other : String} :
    other ∈ (names.remove name).2.toList ↔ other ≠ name ∧ other ∈ names.toList :=
  names.nodup.mem_erase_iff

end ModuleNames

end HdlModule
