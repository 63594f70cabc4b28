/-!
# Worklists

A worklist is a set of instruction indices from which the lowest is taken first.  It is kept as
an increasing list.
-/

namespace Dalvik

/-- A set of indices, in increasing order. -/
structure Worklist where
  /-- The indices. -/
  items : List Nat
  deriving DecidableEq, Repr

namespace Worklist

/-- Nothing to do. -/
def empty : Worklist := ⟨[]⟩

/-- Puts an index at its place in an increasing list, unless it is there. -/
def insertItem (n : Nat) : List Nat → List Nat
  | [] => [n]
  | m :: rest =>
    if n < m then n :: m :: rest else if n = m then m :: rest else m :: insertItem n rest

/-- Adds an index. -/
def insert (w : Worklist) (n : Nat) : Worklist := ⟨insertItem n w.items⟩

/-- Adds some indices. -/
def insertAll (w : Worklist) (ns : List Nat) : Worklist := ns.foldl insert w

/-- Removes an index. -/
def erase (w : Worklist) (n : Nat) : Worklist := ⟨w.items.filter (· != n)⟩

/-- Whether an index is in the set. -/
def contains (w : Worklist) (n : Nat) : Bool := w.items.contains n

/-- The lowest index, and what is left without it. -/
def pop? (w : Worklist) : Option (Nat × Worklist) :=
  match w.items with
  | [] => none
  | n :: rest => some (n, ⟨rest⟩)

end Worklist

end Dalvik
