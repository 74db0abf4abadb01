import Multicore.Address

/-!
# Selectors

A selector names the cached halfwords that a release is about. `Selector.covers` says whether
it covers the halfword at an address.
-/

namespace Multicore

/-- A set of cached halfwords. -/
inductive Selector where
  /-- The halfword that holds an address. -/
  | address (a : Address)
  /-- The halfwords of a page. -/
  | page (page : UInt32)
  /-- The halfwords that start within a range of `length` bytes. The range does not wrap. -/
  | range (start : Address) (length : UInt32)
  /-- Every halfword. -/
  | all
  deriving DecidableEq, Inhabited

/-- Whether the selector covers the halfword cached under an address. -/
def Selector.covers (s : Selector) (key : Address) : Bool :=
  match s with
  | .address a => a.halfword = key
  | .page p => key.page = p
  | .range start length =>
    start.toNat ≤ key.toNat ∧ key.toNat < start.toNat + length.toNat
  | .all => true

end Multicore
