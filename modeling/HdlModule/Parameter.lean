/-!
# Parameters of a module

A parameter has a name, the type it was declared with, if any, and a default value of 64 bits.
Two parameters have the same identity if they agree in name and declared type; the default value
is no part of it.

## Main definitions

* `Parameter`: a parameter of a module interface
* `Parameter.sameIdentity`: agreement in name and declared type
-/

namespace HdlModule

/-- A parameter of a module interface. -/
structure Parameter where
  name : String
  /-- The declared type, or `none` for a parameter that was declared without one. -/
  type? : Option String
  default : Int64
deriving DecidableEq

/-- Whether two parameters have the same name and the same declared type. -/
def Parameter.sameIdentity (p q : Parameter) : Bool :=
  p.name == q.name && p.type? == q.type?

namespace Parameter

variable {p q r : Parameter}

theorem sameIdentity_iff : p.sameIdentity q = true ↔ p.name = q.name ∧ p.type? = q.type? := by
  simp [sameIdentity]

@[simp]
theorem sameIdentity_self : p.sameIdentity p = true := sameIdentity_iff.2 ⟨rfl, rfl⟩

theorem sameIdentity_symm (h : p.sameIdentity q = true) : q.sameIdentity p = true := by
  obtain ⟨hname, htype⟩ := sameIdentity_iff.1 h
  exact sameIdentity_iff.2 ⟨hname.symm, htype.symm⟩

theorem sameIdentity_trans (hpq : p.sameIdentity q = true) (hqr : q.sameIdentity r = true) :
    p.sameIdentity r = true := by
  obtain ⟨hname, htype⟩ := sameIdentity_iff.1 hpq
  obtain ⟨hname', htype'⟩ := sameIdentity_iff.1 hqr
  exact sameIdentity_iff.2 ⟨hname.trans hname', htype.trans htype'⟩

theorem sameIdentity_equivalence :
    Equivalence fun p q : Parameter => p.sameIdentity q = true :=
  ⟨fun _ => sameIdentity_self, sameIdentity_symm, sameIdentity_trans⟩

end Parameter

end HdlModule
