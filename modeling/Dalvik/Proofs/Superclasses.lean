import Dalvik.Proofs.Descriptors

/-!
# Superclasses as declared

What is right above a node is said here by the definitions of a class path (`RightAbove`): the
declared superclass of a class, the unknown class above a class that is not defined, and the root
class above an array.  Nothing is above a node without superclass (`Top`), nor above a class whose
declared superclass is no type.  There are no other nodes, and a step up finds out which it is
(`oneUp_parent?`).
-/

namespace Dalvik.ClassPath

variable {cp : ClassPath} {n k : TypeNode} {d : String} {c : ClassDef} {s : Ty}

/-- A node is right above another. -/
inductive RightAbove (cp : ClassPath) : TypeNode → TypeNode → Prop where
  | declared {d : String} {c : ClassDef} {s : Ty} {k : TypeNode} (hd : cp.def? d = some c)
    (hs : c.superclass? = some s) (hk : TypeNode.ofTy s = .ok k) : RightAbove cp (.cls d) k
  | missing {d : String} (hd : cp.def? d = none) : RightAbove cp (.cls d) .unknown
  | array {dims : Nat} {elem : String} : RightAbove cp (.array dims elem) (.cls objectClass)

/-- A node has no superclass. -/
inductive Top (cp : ClassPath) : TypeNode → Prop where
  | root {d : String} {c : ClassDef} (hd : cp.def? d = some c) (hs : c.superclass? = none) :
    Top cp (.cls d)
  | unknown : Top cp .unknown
  | primitive {d : String} : Top cp (.primitive d)

/-- What is found right above a node. -/
inductive OneUp (cp : ClassPath) : TypeNode → Except HierarchyError (Option TypeNode) → Prop where
  | next {n k : TypeNode} (h : cp.RightAbove n k) : OneUp cp n (.ok (some k))
  | top {n : TypeNode} (h : cp.Top n) : OneUp cp n (.ok none)
  | noType {d : String} {c : ClassDef} {s : Ty} (hd : cp.def? d = some c)
    (hs : c.superclass? = some s) (hnone : ∀ k, TypeNode.ofTy s ≠ .ok k) :
    OneUp cp (.cls d) (.error (.invalidType s.descriptor))

/-- The step up finds what is right above a node, by cases on the node. -/
theorem oneUp_parent? (cp : ClassPath) (n : TypeNode) : cp.OneUp n (cp.parent? n) := by
  cases n with
  | primitive d => exact .top .primitive
  | unknown => exact .top .unknown
  | array dims elem => exact .next .array
  | cls d =>
    cases hd : cp.def? d with
    | none =>
      simp only [parent?, hd]
      exact .next (.missing hd)
    | some c =>
      cases hs : c.superclass? with
      | none =>
        simp only [parent?, hd, hs]
        exact .top (.root hd hs)
      | some s =>
        simp only [parent?, hd, hs]
        cases hk : TypeNode.ofTy s with
        | ok k => exact .next (.declared hd hs hk)
        | error e =>
          rw [TypeNode.error_of_ofDescriptor hk]
          refine .noType hd hs fun k hk' => ?_
          cases hk.symm.trans hk'

theorem parent?_of_superclass (hd : cp.def? d = some c) (hs : c.superclass? = some s)
    (hk : TypeNode.ofTy s = .ok k) : cp.parent? (.cls d) = .ok (some k) := by
  simp only [parent?, hd, hs, hk]
  rfl

theorem parent?_of_none (hd : cp.def? d = some c) (hs : c.superclass? = none) :
    cp.parent? (.cls d) = .ok none := by
  simp only [parent?, hd, hs]

/-- A class that is not defined is below the unknown class. -/
theorem parent?_of_missing (hd : cp.def? d = none) :
    cp.parent? (.cls d) = .ok (some .unknown) := by
  simp only [parent?, hd]

/-- A step up leads to a node if it is right above. -/
theorem parent?_eq_some_iff : cp.parent? n = .ok (some k) ↔ cp.RightAbove n k := by
  constructor
  · intro h
    have hup := cp.oneUp_parent? n
    rw [h] at hup
    cases hup with
    | next h => exact h
  · intro h
    cases h with
    | declared hd hs hk => exact parent?_of_superclass hd hs hk
    | missing hd => exact parent?_of_missing hd
    | array => rfl

/-- There is no step up from where there is no superclass. -/
theorem parent?_eq_none_iff : cp.parent? n = .ok none ↔ cp.Top n := by
  constructor
  · intro h
    have hup := cp.oneUp_parent? n
    rw [h] at hup
    cases hup with
    | top h => exact h
  · intro h
    cases h with
    | root hd hs => exact parent?_of_none hd hs
    | unknown => rfl
    | primitive => rfl

/-- A step up only fails at a declared superclass that is no type. -/
theorem noType_of_parent? {e : HierarchyError} (h : cp.parent? n = .error e) :
    ∃ d c s, n = .cls d ∧ e = .invalidType s.descriptor ∧ cp.def? d = some c ∧
      c.superclass? = some s ∧ ∀ k, TypeNode.ofTy s ≠ .ok k := by
  have hup := cp.oneUp_parent? n
  rw [h] at hup
  cases hup with
  | noType hd hs hnone => exact ⟨_, _, _, rfl, rfl, hd, hs, hnone⟩

end Dalvik.ClassPath
