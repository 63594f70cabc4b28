import Dalvik.Proofs.Subtypes

/-!
# When joins are associative

Null is below all references, and references are ordered as their nodes are
(`ClassPath.references`).  Joins in this order need not be associative: two classes may implement
an interface that their common superclass does not implement.  Joined with each other first they
lose the interface, and joined with it one after the other they keep it.

This is all that can go wrong (`Subtyping.assoc_iff`): the two ways to join three types agree if and
only if an outer operand that is above both other operands is also above their join.  An outer
operand that is no interface always is.

Outside of rooted hierarchies there are other failures.  The unknown class, which stands for what is
not known, is above classes and below the root class.  It is not above arrays.
-/

namespace Dalvik

/-! ## Three elements -/

namespace Subtyping

variable {α : Type} {S : Subtyping α} {x y z xy yz l r : α}

/-- One way to join three elements is below the other if the join of the first two is below the
third whenever both of them are. -/
theorem IsJoin.le_of_bound (hx : S.known x) (hy : S.known y) (hz : S.known z)
    (hxy : S.IsJoin x y xy) (hyz : S.IsJoin y z yz) (hl : S.IsJoin xy z l) (hr : S.IsJoin x yz r)
    (hbound : S.le x z → S.le y z → S.le xy z) : S.le l r := by
  by_cases hsolid : S.solid r
  · have hyr : S.le y r := S.trans hy hyz.known hr.known hyz.le_left hr.le_right
    have hzr : S.le z r := S.trans hz hyz.known hr.known hyz.le_right hr.le_right
    exact hl.least hr.known hsolid (hxy.least hr.known hsolid hr.le_left hyr) hzr
  -- a join that is not solid is one of the operands, here and once more for its own operands
  by_cases hx' : S.le x yz
  · cases hr.left hx'
    by_cases hyz' : S.le y z
    · cases hyz.left hyz'
      cases hl.left (hbound hx' hyz')
      exact S.refl hz
    by_cases hzy : S.le z y
    · cases hyz.right hzy
      cases hxy.left hx'
      cases hl.right hzy
      exact S.refl hy
    · exact absurd (hyz.solid hyz' hzy) hsolid
  by_cases hx'' : S.le yz x
  · cases hr.right hx''
    cases hxy.right (S.trans hy hyz.known hx hyz.le_left hx'')
    cases hl.right (S.trans hz hyz.known hx hyz.le_right hx'')
    exact S.refl hx
  · exact absurd (hr.solid hx' hx'') hsolid

/-- The two ways to join three elements agree if and only if the outer ones that are above the
other two are above their join. -/
theorem assoc_iff (hx : S.known x) (hy : S.known y) (hz : S.known z) (hxy : S.IsJoin x y xy)
    (hyz : S.IsJoin y z yz) (hl : S.IsJoin xy z l) (hr : S.IsJoin x yz r) :
    l = r ↔ (S.le x z → S.le y z → S.le xy z) ∧ (S.le y x → S.le z x → S.le yz x) := by
  constructor
  · rintro rfl
    refine ⟨fun hxz hyz' => ?_, fun hyx hzx => ?_⟩
    · cases hyz.left hyz'
      cases hr.left hxz
      exact hl.le_left
    · cases hxy.right hyx
      cases hl.right hzx
      exact hr.le_right
  · rintro ⟨hbound, hbound'⟩
    refine S.antisymm hl.known hr.known (hxy.le_of_bound hx hy hz hyz hl hr hbound) ?_
    exact hyz.symm.le_of_bound hz hy hx hxy.symm hr.symm hl.symm fun hzx hyx => hbound' hyx hzx

/-- Joins with outer operands that are solid are associative. -/
theorem assoc_of_solid (hx : S.known x) (hy : S.known y) (hz : S.known z) (hxy : S.IsJoin x y xy)
    (hyz : S.IsJoin y z yz) (hl : S.IsJoin xy z l) (hr : S.IsJoin x yz r) (hsolid : S.solid x)
    (hsolid' : S.solid z) : l = r :=
  (assoc_iff hx hy hz hxy hyz hl hr).2 ⟨hxy.least hz hsolid', hyz.least hx hsolid⟩

end Subtyping

/-! ## References -/

namespace RegType

/-- Null, or a reference to a rooted node. -/
def Rooted (cp : ClassPath) : RegType → Prop
  | .narrow n => n = .null
  | .reference p => cp.RootedNode p
  | _ => False

/-- A reference is below another, and null below all. -/
def Sub (cp : ClassPath) : RegType → RegType → Prop
  | .reference p, .reference q => cp.SubNode p q
  | .reference _, _ => False
  | _, _ => True

/-- A reference type is no interface and no array over one. -/
def Solid (cp : ClassPath) : RegType → Prop
  | .reference p => cp.SolidNode p
  | _ => True

variable {cp : ClassPath} {x y z : RegType}

theorem Rooted.cases (h : x.Rooted cp) : x = .narrow .null ∨ ∃ p, x = .reference p ∧
    cp.RootedNode p := by
  cases x with
  | narrow n => exact .inl (congrArg RegType.narrow h)
  | reference p => exact .inr ⟨p, rfl, h⟩
  | _ => exact h.elim

end RegType

namespace ClassPath

variable {cp : ClassPath} {p q k : TypeNode}

/-- Null and the references to rooted nodes. -/
def references (cp : ClassPath) : Subtyping RegType where
  known := RegType.Rooted cp
  le := RegType.Sub cp
  solid := RegType.Solid cp
  refl {x} hx := by
    rcases hx.cases with rfl | ⟨p, rfl, hp⟩
    · exact trivial
    · exact SubNode.refl hp
  trans {x y z} hx hy hz h h' := by
    rcases hx.cases with rfl | ⟨p, rfl, hp⟩
    · exact trivial
    rcases hy.cases with rfl | ⟨q, rfl, hq⟩
    · exact h.elim
    rcases hz.cases with rfl | ⟨r, rfl, hr⟩
    · exact h'.elim
    exact SubNode.trans hp hq hr h h'
  antisymm {x y} hx hy h h' := by
    rcases hx.cases with rfl | ⟨p, rfl, hp⟩
    · rcases hy.cases with rfl | ⟨q, rfl, hq⟩
      · rfl
      · exact h'.elim
    rcases hy.cases with rfl | ⟨q, rfl, hq⟩
    · exact h.elim
    · exact congrArg RegType.reference (SubNode.antisymm hp hq h h')

theorem isJoin_reference (h : cp.nodes.IsJoin p q k) :
    cp.references.IsJoin (.reference p) (.reference q) (.reference k) where
  known := h.known
  left hpq := congrArg RegType.reference (h.left hpq)
  right hqp := congrArg RegType.reference (h.right hqp)
  le_left := h.le_left
  le_right := h.le_right
  solid hpq hqp := h.solid hpq hqp
  least {u} hu hsolid hpu hqu := by
    rcases RegType.Rooted.cases hu with rfl | ⟨u, rfl, hu⟩
    · exact hpu.elim
    · exact h.least hu hsolid hpu hqu

end ClassPath

namespace RegType

variable {cp : ClassPath} {x y z : RegType}

/-- The join of two rooted references is found, and is their join in the order of references. -/
theorem Rooted.join (hobject : cp.Rooted objectClass) (hx : x.Rooted cp) (hy : y.Rooted cp) :
    ∃ t, Yields cp.Exact (x.join cp y) (· = .ok t) ∧ cp.references.IsJoin x y t := by
  by_cases hxy : x = y
  · cases hxy
    rw [RegType.join, if_pos rfl]
    exact ⟨x, .pure rfl, .of_le hx hx (cp.references.refl hx)⟩
  rw [RegType.join, if_neg hxy]
  rcases hx.cases with rfl | ⟨p, rfl, hp⟩
  · rcases hy.cases with rfl | ⟨q, rfl, hq⟩
    · exact absurd rfl hxy
    · exact ⟨.reference q, .pure rfl, .of_le hx hy trivial⟩
  rcases hy.cases with rfl | ⟨q, rfl, hq⟩
  · exact ⟨.reference p, .pure rfl, .of_ge hx hy trivial⟩
  obtain ⟨k, hjoin, hisJoin⟩ := ClassPath.RootedNode.commonSuperclass hobject hp hq
  exact ⟨.reference k, hjoin.bind_ok (.pure rfl), ClassPath.isJoin_reference hisJoin⟩

/-- The join of three register types, the first two first. -/
def joinLeft (cp : ClassPath) (x y z : RegType) : Query RegType := do
  (← x.join cp y).join cp z

/-- The join of three register types, the last two first. -/
def joinRight (cp : ClassPath) (x y z : RegType) : Query RegType := do
  x.join cp (← y.join cp z)

/-- Joins of null and of rooted references are found whatever was asked before, and are associative
if and only if no interface gets lost.  They are associative if both outer operands are no
interfaces. -/
theorem joins_associate_iff (cp : ClassPath) (hobject : cp.Rooted objectClass) (x y z : RegType)
    (hx : x.Rooted cp) (hy : y.Rooted cp) (hz : z.Rooted cp) :
    ∃ xy yz l r, (∀ history : List ClassPath.Question,
        (x.join cp y).answer (cp.remembered history) = .ok xy ∧
        (y.join cp z).answer (cp.remembered history) = .ok yz ∧
        (joinLeft cp x y z).answer (cp.remembered history) = .ok l ∧
        (joinRight cp x y z).answer (cp.remembered history) = .ok r) ∧
      (l = r ↔ (x.Sub cp z → y.Sub cp z → xy.Sub cp z) ∧ (y.Sub cp x → z.Sub cp x → yz.Sub cp x)) ∧
      (x.Solid cp → z.Solid cp → l = r) := by
  obtain ⟨xy, hxy, hjxy⟩ := hx.join hobject hy
  obtain ⟨yz, hyz, hjyz⟩ := hy.join hobject hz
  obtain ⟨l, hl, hjl⟩ := Rooted.join hobject hjxy.known hz
  obtain ⟨r, hr, hjr⟩ := Rooted.join hobject hx hjyz.known
  have hleft : Yields cp.Exact (joinLeft cp x y z) (· = .ok l) := hxy.bind_ok hl
  have hright : Yields cp.Exact (joinRight cp x y z) (· = .ok r) := hyz.bind_ok hr
  refine ⟨xy, yz, l, r, fun history => ?_, ?_, ?_⟩
  · have hexact : cp.Exact (cp.remembered history) :=
      ClassPath.settles_of_asked (cp.asked_remembered history)
    exact ⟨hxy.answer hexact, hyz.answer hexact, hleft.answer hexact, hright.answer hexact⟩
  · exact Subtyping.assoc_iff hx hy hz hjxy hjyz hjl hjr
  · exact Subtyping.assoc_of_solid hx hy hz hjxy hjyz hjl hjr

/-- Two classes below the root class that implement one interface. -/
def shared : ClassPath := .ofClasses
  [{ ty := .cls "I", flags := .ofList [.interface], superclass? := some CoreClasses.objectTy },
    { ty := .cls "A", superclass? := some CoreClasses.objectTy, interfaces := [.cls "I"] },
    { ty := .cls "B", superclass? := some CoreClasses.objectTy, interfaces := [.cls "I"] }]
  defaultLevel

/-- Everything above the classes and their interface is known. -/
theorem rooted_shared : shared.Rooted objectClass ∧ shared.Rooted "LA;" ∧ shared.Rooted "LB;" ∧
    shared.Rooted "LI;" := by
  have hobject : shared.Rooted objectClass := ClassPath.rooted_object rfl rfl rfl rfl
  have hi : shared.Rooted "LI;" := by
    refine ClassPath.rooted_of_superclass rfl rfl rfl rfl hobject hobject.not_isInterface_object ?_
      fun _ => ⟨rfl, rfl⟩
    rintro t ⟨⟩
  have below (t : Ty) (ht : t ∈ [Ty.cls "I"]) : shared.CompleteTy t := by
    cases List.mem_singleton.1 ht
    exact ⟨"LI;", rfl, hi.complete⟩
  exact ⟨hobject,
    ClassPath.rooted_of_superclass rfl rfl rfl rfl hobject hobject.not_isInterface_object below
      (by decide),
    ClassPath.rooted_of_superclass rfl rfl rfl rfl hobject hobject.not_isInterface_object below
      (by decide), hi⟩

/-- Arrays of the two classes and of their interface. -/
theorem joins_associate_iff_shared :
    let x : RegType := .reference (.array 2 "LA;")
    let y : RegType := .reference (.array 2 "LB;")
    let z : RegType := .reference (.array 2 "LI;")
    shared.Rooted objectClass ∧ x.Rooted shared ∧ y.Rooted shared ∧ z.Rooted shared ∧
      ∃ xy yz l r, (∀ history : List ClassPath.Question,
          (x.join shared y).answer (shared.remembered history) = .ok xy ∧
          (y.join shared z).answer (shared.remembered history) = .ok yz ∧
          (joinLeft shared x y z).answer (shared.remembered history) = .ok l ∧
          (joinRight shared x y z).answer (shared.remembered history) = .ok r) ∧
        (l = r ↔ (x.Sub shared z → y.Sub shared z → xy.Sub shared z) ∧
          (y.Sub shared x → z.Sub shared x → yz.Sub shared x)) ∧
        (x.Solid shared → z.Solid shared → l = r) := by
  intro x y z
  obtain ⟨hobject, ha, hb, hi⟩ := rooted_shared
  exact ⟨hobject, .inr ha, .inr hb, .inr hi,
    joins_associate_iff shared hobject x y z (.inr ha) (.inr hb) (.inr hi)⟩

/-- Joins are not associative in a hierarchy without cycles: two classes lose the interface that
both implement, a missing class is lost above the root class, and the interfaces of arrays, which
need not have a superclass, meet below what an array meets them in. -/
theorem joins_not_associative :
    let a : RegType := .reference (.cls "LA;")
    let b : RegType := .reference (.cls "LB;")
    let i : RegType := .reference (.cls "LI;")
    let missing : RegType := .reference (.cls "LX;")
    let numbers : RegType := .reference (.array 1 "I")
    let cloneable : RegType := .reference (.cls cloneableClass)
    let serializable : RegType := .reference (.cls serializableClass)
    let object : RegType := .reference (.cls objectClass)
    shared.ClassesOnly ∧ (∀ d, ¬ shared.OnCycle d) ∧
      (joinLeft shared a b i).answer .empty = .ok object ∧
      (joinRight shared a b i).answer .empty = .ok i ∧
      (joinLeft shared a b missing).answer .empty = .ok object ∧
      (joinRight shared a b missing).answer .empty = .ok (.reference .unknown) ∧
      (joinLeft shared numbers cloneable serializable).answer .empty = .ok (.reference .unknown) ∧
      (joinRight shared numbers cloneable serializable).answer .empty = .ok object := by
  intro a b i missing numbers cloneable serializable object
  exact ⟨ClassPath.classesOnly_of_defs (by decide +kernel),
    ClassPath.not_onCycle_of_rank (ClassPath.layerRank belowInterface) (by decide +kernel),
    ok_of_toOption (by decide +kernel), ok_of_toOption (by decide +kernel),
    ok_of_toOption (by decide +kernel), ok_of_toOption (by decide +kernel),
    ok_of_toOption (by decide +kernel), ok_of_toOption (by decide +kernel)⟩

end RegType

end Dalvik
