import Dalvik.Proofs.Histories
import Dalvik.Proofs.Carrying
import Dalvik.Proofs.Placement

/-!
# Primitive types and classes

A reference has a class, and a primitive type is none.  The two have no common superclass, so a
join fails if a primitive type has got where a class belongs.

Joins lead from classes to classes (`ClassPath.unmixed_commonSuperclass`) unless a class is declared
right below a primitive type (`ClassPath.PrimitivesApart`).  The rules of most instructions do so
too (`clean_of_effect`).  The exceptions are told apart by `Point.findsPrimitive`: an object is
fetched from an array of primitives, or a type is named that is written as an array without
dimensions (`Ty.hollow`).  Such a rule always writes what it finds (`effect_of_findsPrimitive`).
-/

namespace Dalvik

/-! ## Nodes that are no classes -/

/-- Whether a node is a primitive type. -/
def TypeNode.isPrimitive : TypeNode → Bool
  | .primitive _ => true
  | .unknown | .array _ _ | .cls _ => false

/-- Whether a type is written as a reference and named like a primitive type: an array without
dimensions.  No descriptor is read as such a type. -/
def Ty.hollow (ty : Ty) : Bool := ty.isReference && primitiveDescriptors.contains ty.descriptor

/-- Whether a type is a class. -/
def Ty.isClass : Ty → Bool
  | .cls _ => true
  | _ => false

/-- An array is named like a primitive type only if it has no dimensions. -/
theorem contains_arrayDescriptor (dims : Nat) (element : String) :
    primitiveDescriptors.contains (TypeNode.arrayDescriptor dims element) =
      (decide (dims = 0) && primitiveDescriptors.contains element) := by
  cases dims with
  | zero => simp [TypeNode.arrayDescriptor]
  | succ dims =>
    have hbracket : ∀ d ∈ primitiveDescriptors, d.toList.head? ≠ some '[' := by decide
    have hhead : (TypeNode.arrayDescriptor (dims + 1) element).toList.head? = some '[' := by
      simp [TypeNode.arrayDescriptor, List.replicate_succ]
    have habsent : TypeNode.arrayDescriptor (dims + 1) element ∉ primitiveDescriptors :=
      fun hmem => hbracket _ hmem hhead
    simp [List.contains_eq_mem, habsent]

/-- Classes are not hollow. -/
theorem hollow_cls (name : String) : (Ty.cls name).hollow = false := by
  have hshort : ∀ d ∈ primitiveDescriptors, d.toList.length = 1 := by decide
  have habsent : (Ty.cls name).descriptor ∉ primitiveDescriptors := by
    intro hmem
    have := hshort _ hmem
    simp [Ty.descriptor, Ty.chars] at this
  simp [Ty.hollow, List.contains_eq_mem, habsent]

namespace TypeNode

variable {d : String} {n : TypeNode} {ty : Ty}

/-- A descriptor names a primitive type if it is one of a few. -/
theorem isPrimitive_of_ofDescriptor (h : ofDescriptor d = .ok n) :
    n.isPrimitive = primitiveDescriptors.contains d := by
  simp only [ofDescriptor] at h
  split at h
  · next hunknown =>
    cases h
    rw [hunknown]
    decide
  split at h
  · next hmem =>
    cases h
    exact hmem.symm
  · next hmem =>
    rw [Bool.not_eq_true] at hmem
    rw [hmem]
    split at h
    · split at h
      · cases h
        rfl
      · cases h
    · cases h
    · cases h
      rfl

/-- The node of a class is no primitive type. -/
theorem isPrimitive_of_ofTy (h : TypeNode.ofTy ty = .ok n) (hty : ty.isClass = true) :
    n.isPrimitive = false := by
  cases ty with
  | cls name => exact (isPrimitive_of_ofDescriptor h).trans (hollow_cls name)
  | _ => cases hty

end TypeNode

/-! ## Joins without primitive types -/

/-- A failure is not that a primitive type was compared with a class. -/
def Matched {α : Type} (r : Except HierarchyError α) : Prop :=
  ∀ d, r ≠ .error (.noCommonSuperclass d)

/-- The answer is no primitive type, and the failure is not that one was compared with a class. -/
def Unmixed (r : Except HierarchyError TypeNode) : Prop :=
  Matched r ∧ ∀ n, r = .ok n → n.isPrimitive = false

section Matched

variable {α β : Type} {e : HierarchyError} {n : TypeNode}

theorem matched_ok (a : α) : Matched (.ok a : Except HierarchyError α) := fun _ h => by cases h

/-- The same failure of another question. -/
theorem Matched.error {r : Except HierarchyError α} (h : Matched r) (he : r = .error e) :
    Matched (.error e : Except HierarchyError β) := by
  intro d hd
  cases hd
  exact h d he

/-- Reading a descriptor compares nothing. -/
theorem matched_ofDescriptor (d : String) : Matched (TypeNode.ofDescriptor d) := by
  intro x h
  simp only [TypeNode.ofDescriptor] at h
  split at h
  · cases h
  split at h
  · cases h
  split at h
  · split at h <;> cases h
  · cases h
  · cases h

theorem matched_ofTy (ty : Ty) : Matched (TypeNode.ofTy ty) := matched_ofDescriptor _

theorem unmixed_ok (h : n.isPrimitive = false) : Unmixed (.ok n) :=
  ⟨matched_ok n, fun _ hn => by cases hn; exact h⟩

/-- A failure stays one where the answer would be a node. -/
theorem Matched.unmixed {r : Except HierarchyError α} (h : Matched r) (he : r = .error e) :
    Unmixed (.error e) :=
  ⟨h.error he, fun _ hn => by cases hn⟩

end Matched

namespace ClassPath

/-- Primitive types stand apart from classes: no class is declared right below one. -/
def PrimitivesApart (cp : ClassPath) : Prop :=
  ∀ d c ty, cp.def? d = some c → c.superclass? = some ty →
    primitiveDescriptors.contains ty.descriptor = false

variable {cp : ClassPath} {a b : TypeNode}

/-- It is enough that no definition has a superclass that is named like a primitive type. -/
theorem primitivesApart_of_defs (h : ∀ e ∈ cp.defs, ∀ ty ∈ e.2.superclass?.toList,
    primitiveDescriptors.contains ty.descriptor = false) : cp.PrimitivesApart := by
  intro d c ty hd hs
  obtain ⟨before, rest, hdefs, _⟩ := List.lookup_eq_some_iff.1 hd
  exact h (d, c) (by simp [hdefs]) ty (Option.mem_toList.2 hs)

/-- Declared interfaces are collected without comparing primitive types with classes. -/
theorem matched_addDeclared {inherited : String → Query Interfaces}
    (hin : ∀ name, Yields (fun _ => True) (inherited name) Matched) (ts : List Ty)
    (acc : Interfaces) : Yields (fun _ => True) (cp.addDeclared inherited ts acc) Matched := by
  induction ts generalizing acc with
  | nil => exact .pure (matched_ok acc)
  | cons t rest ih =>
    rw [addDeclared]
    split
    · exact ih acc
    refine .bind_lift (fun n _ => ?_) fun e he => (matched_ofTy _).error he
    cases n with
    | cls name =>
      refine (hin name).bind_attempt fun r hr => ?_
      cases r with
      | ok more => exact ih _
      | error e =>
        simp only
        split
        · exact .pure (matched_ok _)
        · exact .throw (hr.error rfl)
    | _ => exact .pure (matched_ok _)

theorem matched_addInherited {inherited : String → Query Interfaces}
    (hin : ∀ name, Yields (fun _ => True) (inherited name) Matched) (superclass? : Option Ty)
    (acc : Interfaces) :
    Yields (fun _ => True) (addInherited inherited superclass? acc) Matched := by
  cases superclass? with
  | none => exact .pure (matched_ok acc)
  | some ty =>
    refine .bind_lift (fun n _ => ?_) fun e he => (matched_ofTy _).error he
    cases n with
    | cls name =>
      refine (hin name).bind_attempt fun r hr => ?_
      cases r with
      | ok more => exact .pure (matched_ok _)
      | error e =>
        simp only
        split
        · exact .pure (matched_ok _)
        · exact .throw (hr.error rfl)
    | _ => exact .pure (matched_ok acc)

/-- The search for the interfaces of a class compares no primitive types with classes. -/
theorem matched_interfacesFrom (open_ : List String) (d : String) :
    Yields (fun _ => True) (cp.interfacesFrom open_ d) Matched := by
  rw [interfacesFrom_eq]
  refine .recalled (fun _ _ => matched_ok _) ?_ fun _ _ => trivial
  split
  · exact .throw fun x h => by cases h
  split
  · exact .throw fun x h => by cases h
  · next c hdef =>
    have hin : ∀ name, Yields (fun _ => True) (cp.interfacesFrom (d :: open_) name) Matched :=
      fun name => matched_interfacesFrom (d :: open_) name
    refine (matched_addDeclared hin _ _).bind (fun declared _ => ?_) fun e he => he.error rfl
    exact matched_addInherited hin _ _
termination_by cp.unmet open_
decreasing_by exact unmet_cons_lt ‹_› ‹_›

/-- Neither does the test for an interface. -/
theorem matched_classImplements (d iface : String) :
    Yields (fun _ => True) (cp.classImplements d iface) Matched := by
  refine (matched_interfacesFrom [] d).bind (fun i _ => ?_) fun e he => he.error rfl
  split
  · exact .pure (matched_ok _)
  split
  · exact .pure (matched_ok _)
  · exact .throw fun x h => by cases h

theorem matched_isInterfaceOf (iface d : String) :
    Yields (fun _ => True) (cp.isInterfaceOf iface d) Matched := by
  rw [isInterfaceOf]
  split
  · split
    · exact matched_classImplements d iface
    · exact .pure (matched_ok _)
  · refine (matched_classImplements d iface).bind_attempt fun r hr => ?_
    cases r with
    | ok answer => exact .pure (matched_ok _)
    | error e =>
      simp only
      split
      · exact .pure (matched_ok _)
      · exact .throw hr

/-- Above a node is no primitive type. -/
theorem isPrimitive_of_parent? (hcp : cp.PrimitivesApart) {n k : TypeNode}
    (h : cp.parent? n = .ok (some k)) : k.isPrimitive = false := by
  cases parent?_eq_some_iff.1 h with
  | declared hd hs hk =>
    exact (TypeNode.isPrimitive_of_ofDescriptor hk).trans (hcp _ _ _ hd hs)
  | missing hd => rfl
  | array => rfl

/-- The step up compares nothing. -/
theorem matched_parent? (n : TypeNode) : Matched (cp.parent? n) := by
  cases h : cp.parent? n with
  | ok above => exact matched_ok _
  | error e =>
    obtain ⟨_, _, _, _, rfl, _⟩ := noType_of_parent? h
    intro d he
    cases he

theorem matched_walkUp (origin : String) (met : List String) (n : TypeNode) :
    Matched (cp.walkUp origin met n) := by
  fun_induction walkUp cp origin met n with
  | case1 =>
    intro d h
    cases h
  | case2 met n hmet e he => exact (matched_parent? n).error he
  | case3 => exact matched_ok _
  | case4 met n hmet parent hsome e he ih => exact ih.error he
  | case5 => exact matched_ok _

/-- A walk up only meets nodes that are no primitive types. -/
theorem isPrimitive_of_walkUp (hcp : cp.PrimitivesApart) {origin : String} {met : List String}
    {n k : TypeNode} {chain : List TypeNode} (h : cp.walkUp origin met n = .ok chain)
    (hn : n.isPrimitive = false) (hk : k ∈ chain) : k.isPrimitive = false := by
  fun_induction walkUp cp origin met n generalizing chain with
  | case1 => cases h
  | case2 => cases h
  | case3 met n hmet hnone =>
    cases h
    rwa [List.mem_singleton.1 hk]
  | case4 => cases h
  | case5 met n hmet parent hsome above habove ih =>
    cases h
    rcases List.mem_cons.1 hk with rfl | hk
    · exact hn
    · exact ih habove (isPrimitive_of_parent? hcp hsome) hk

theorem matched_chainDown (n : TypeNode) : Matched (cp.chainDown n) := by
  intro d h
  simp only [chainDown] at h
  split at h
  · cases h
  · cases h
  · next e _ he =>
    cases h
    cases hwalk : cp.walkUp n.descriptor [] n with
    | ok chain =>
      rw [superclassChain, hwalk] at he
      cases he
    | error e =>
      rw [superclassChain, hwalk] at he
      cases he
      exact matched_walkUp _ _ n d hwalk

/-- Superclass chains stay among classes. -/
theorem isPrimitive_of_chainDown (hcp : cp.PrimitivesApart) {n k : TypeNode}
    {down : List TypeNode} (h : cp.chainDown n = .ok (some down)) (hn : n.isPrimitive = false)
    (hk : k ∈ down) : k.isPrimitive = false := by
  simp only [chainDown] at h
  split at h
  · next above habove =>
    cases h
    obtain ⟨chain, hchain, htail⟩ := except_map_ok.1 habove
    rcases List.mem_cons.1 (List.mem_reverse.1 hk) with rfl | hk
    · exact hn
    · exact isPrimitive_of_walkUp hcp hchain hn (List.mem_of_mem_tail (htail ▸ hk))
  · cases h
  · cases h

/-- Two classes join in a class along their chains. -/
theorem unmixed_chainJoin (hcp : cp.PrimitivesApart) (a b : String) :
    Unmixed (cp.chainJoin a b) := by
  refine ⟨fun d h => ?_, fun n h => ?_⟩
  · rcases except_bind_error.1 h with h | ⟨down, _, h⟩
    · exact matched_chainDown _ d h
    rcases except_bind_error.1 h with h | ⟨down', _, h⟩
    · exact matched_chainDown _ d h
    · cases down <;> cases down' <;> cases h
  · obtain ⟨down, hdown, h⟩ := except_bind_ok.1 h
    obtain ⟨down', _, h⟩ := except_bind_ok.1 h
    cases down with
    | none =>
      cases h
      rfl
    | some as =>
      cases down' with
      | none =>
        cases h
        rfl
      | some bs =>
        cases h
        cases hlast : lastCommon? as bs with
        | none => rfl
        | some k => exact isPrimitive_of_chainDown hcp hdown rfl (mem_of_lastCommon? hlast).1

theorem unmixed_joinAfter (a b : String) {rest : Query TypeNode}
    (hrest : Yields (fun _ => True) rest Unmixed) :
    Yields (fun _ => True) (cp.joinAfter a b rest) Unmixed := by
  refine (matched_isInterfaceOf b a).bind_attempt fun second hsecond => ?_
  rcases second with e | _ | _
  · simp only
    split
    · exact .pure (unmixed_ok rfl)
    · exact .throw (hsecond.unmixed rfl)
  · exact hrest
  · exact .pure (unmixed_ok rfl)

/-- Two classes join in a class. -/
theorem unmixed_classJoin (hcp : cp.PrimitivesApart) (a b : String) :
    Yields (fun _ => True) (cp.classJoin a b) Unmixed := by
  rw [classJoin_eq]
  split
  · exact .pure (unmixed_ok rfl)
  split
  · exact .pure (unmixed_ok rfl)
  refine (matched_isInterfaceOf a b).bind_attempt fun first hfirst => ?_
  rcases first with e | _ | _
  · simp only [joinFirst]
    split
    · exact unmixed_joinAfter a b (.pure (unmixed_ok rfl))
    · exact .throw (hfirst.unmixed rfl)
  · exact unmixed_joinAfter a b (.lift (unmixed_chainJoin hcp a b))
  · exact .pure (unmixed_ok rfl)

/-- So do two nodes that are no arrays and no primitive types. -/
theorem unmixed_plainJoin (hcp : cp.PrimitivesApart) (ha : a.isPrimitive = false)
    (hb : b.isPrimitive = false) : Yields (fun _ => True) (cp.plainJoin a b) Unmixed := by
  cases a with
  | primitive d => cases ha
  | unknown =>
    refine .pure (unmixed_ok ?_)
    split
    · exact hb
    · rfl
  | array dims element => exact .pure (unmixed_ok rfl)
  | cls a =>
    cases b with
    | primitive d => cases hb
    | unknown =>
      refine .pure (unmixed_ok ?_)
      split <;> rfl
    | array dims element => exact .pure (unmixed_ok rfl)
    | cls b => exact unmixed_classJoin hcp a b

/-- Elements of arrays are only joined where they are longer than the name of a primitive type. -/
theorem isPrimitive_of_element {element : String} {n : TypeNode}
    (h : TypeNode.ofDescriptor element = .ok n) (helement : isPrimitiveElement element = false) :
    n.isPrimitive = false := by
  have hshort : ∀ d ∈ primitiveDescriptors, isPrimitiveElement d = true := by decide
  rw [TypeNode.isPrimitive_of_ofDescriptor h, List.contains_eq_mem, decide_eq_false_iff_not]
  intro hmem
  rw [hshort element hmem] at helement
  cases helement

/-- Two arrays join in an array or in a class. -/
theorem unmixed_arrayJoin (hcp : cp.PrimitivesApart) (dims dims' : Nat) (elem elem' : String) :
    Yields (fun _ => True) (cp.arrayJoin dims elem dims' elem') Unmixed := by
  rw [arrayJoin]
  split
  · refine .pure (unmixed_ok ?_)
    split <;> rfl
  next hlong =>
  simp only [Bool.or_eq_true, not_or, Bool.not_eq_true] at hlong
  split
  · refine .bind_lift (fun a ha => ?_) fun e he => (matched_ofDescriptor elem).unmixed he
    refine .bind_lift (fun b hb => ?_) fun e he => (matched_ofDescriptor elem').unmixed he
    refine (unmixed_plainJoin hcp (isPrimitive_of_element ha hlong.1)
      (isPrimitive_of_element hb hlong.2)).bind (fun n _ => .pure (unmixed_ok ?_))
      fun e he => he.1.unmixed rfl
    cases n <;> rfl
  · exact .pure (unmixed_ok rfl)

theorem isPrimitive_arrayClassJoin (d : String) : (cp.arrayClassJoin d).isPrimitive = false := by
  simp only [arrayClassJoin]
  split
  · split <;> rfl
  · rfl

/-- The join of nodes that are no primitive types is none either, and it does not fail because one
is compared with a class. -/
theorem unmixed_commonSuperclass (hcp : cp.PrimitivesApart) (ha : a.isPrimitive = false)
    (hb : b.isPrimitive = false) : Yields (fun _ => True) (cp.commonSuperclass a b) Unmixed := by
  cases a with
  | primitive d => cases ha
  | unknown =>
    cases b with
    | array dims element => exact .pure (unmixed_ok rfl)
    | _ => exact unmixed_plainJoin hcp ha hb
  | array dims element =>
    cases b with
    | primitive d => cases hb
    | unknown => exact .pure (unmixed_ok rfl)
    | array dims' element' => exact unmixed_arrayJoin hcp dims dims' element element'
    | cls b => exact .pure (unmixed_ok (isPrimitive_arrayClassJoin b))
  | cls a =>
    cases b with
    | array dims element => exact .pure (unmixed_ok (isPrimitive_arrayClassJoin a))
    | _ => exact unmixed_plainJoin hcp ha hb

-- Two classes that are declared right below a primitive type join to it.
example : ∃ n m', (ofClasses [{ ty := .cls "A", superclass? := some .int },
    { ty := .cls "B", superclass? := some .int }] 15).commonSuperclass (.cls "LA;") (.cls "LB;")
      .empty = .ok n m' ∧ n = .primitive "I" := by
  decide +kernel

end ClassPath

/-! ## Register types -/

namespace RegType

variable {cp : ClassPath} {t u v : RegType} {n : TypeNode} {ty : Ty}

/-- The class of a reference is no primitive type. -/
def Clean (t : RegType) : Prop := ∀ n, t.node? = some n → n.isPrimitive = false

theorem clean_of_node? (h : t.node? = none) : t.Clean := fun n hn => by cases h.symm.trans hn

theorem clean_reference : (reference n).Clean ↔ n.isPrimitive = false :=
  ⟨fun h => h n rfl, fun h _ hn => by cases hn; exact h⟩

theorem clean_of_high? (h : t.high? = some u) : u.Clean := by
  cases t with
  | half x =>
    obtain ⟨y, _, rfl⟩ := Option.map_eq_some_iff.1 h
    exact clean_of_node? rfl
  | _ => cases h

/-- The join of two types without a primitive type has none. -/
theorem clean_of_join {m m' : Memo} (hcp : cp.PrimitivesApart) (h : t.join cp u m = .ok v m')
    (ht : t.Clean) (hu : u.Clean) : v.Clean := by
  cases joined_of_join h with
  | same => exact ht
  | unknown_left => exact hu
  | unknown_right => exact ht
  | narrow x y => exact clean_of_node? rfl
  | half hz => exact clean_of_node? rfl
  | null_left => exact hu
  | null_right => exact ht
  | references hn =>
    have hjoin := ClassPath.unmixed_commonSuperclass hcp (ht _ rfl) (hu _ rfl)
    exact clean_reference.2 ((Triple.ok hjoin trivial hn).2.2 _ rfl)
  | receivers p q => exact ht
  | conflict => exact clean_of_node? rfl

/-- The join of two types without a primitive type does not fail because one is compared with a
class. -/
theorem matched_join (hcp : cp.PrimitivesApart) (ht : t.Clean) (hu : u.Clean) :
    Yields (fun _ => True) (t.join cp u) Matched := by
  rw [join]
  split
  · exact .pure (matched_ok _)
  cases t.category.join u.category with
  | reference =>
    cases htn : t.node? with
    | none => cases u.node? <;> exact .pure (matched_ok _)
    | some p =>
      cases hun : u.node? with
      | none => exact .pure (matched_ok _)
      | some q =>
        exact (ClassPath.unmixed_commonSuperclass hcp (ht p htn) (hu q hun)).bind
          (fun _ _ => .pure (matched_ok _)) fun e he => he.1.error rfl
  | _ => exact .pure (matched_ok _)

/-- A register for a type that is not hollow is clean. -/
theorem clean_of_ofTy (h : ofTy ty = .ok t) (hty : ty.hollow = false) : t.Clean := by
  obtain ⟨n, hn, href, rfl⟩ | hnumber := of_ofTy h
  · rw [Ty.hollow, href, Bool.true_and] at hty
    exact clean_reference.2 ((TypeNode.isPrimitive_of_ofDescriptor hn).trans hty)
  · exact clean_of_node? hnumber.node?

/-- A type that is named like a primitive type is taken for one. -/
theorem ofTy_of_hollow (h : ty.hollow = true) :
    ofTy ty = .ok (.reference (.primitive ty.descriptor)) := by
  rw [Ty.hollow, Bool.and_eq_true] at h
  have hunknown : ty.descriptor ≠ unknownClass := by
    intro heq
    rw [heq] at h
    exact absurd h.2 (by decide)
  have hnode : TypeNode.ofTy ty = .ok (.primitive ty.descriptor) := by
    rw [TypeNode.ofTy, TypeNode.ofDescriptor, if_neg hunknown, if_pos h.2]
  cases ty with
  | cls name => rw [ofTy, hnode]; rfl
  | array dims elem => rw [ofTy, hnode]; rfl
  | _ => cases h.1

/-- Whether the elements of an array are of a primitive type. -/
def holdsPrimitives : RegType → Bool
  | .reference (.array dims element) => decide (dims ≤ 1) && primitiveDescriptors.contains element
  | _ => false

end RegType

/-- Whether an instruction that makes an object makes one of a class. -/
def Instr.makesClass : Instr → Bool
  | .newInstance _ ty => ty.isClass
  | _ => true

/-- Whether a handler catches objects of a class, or everything. -/
def Handler.catchesClass (h : Handler) : Bool := h.exception?.all Ty.isClass

namespace Analysis

/-! ## Rules that take a primitive type for a class -/

namespace Point

/-- Whether the rule of a point finds a primitive type where it looks for a class: an object is
fetched from an array of primitives, or the type that is named is an array without dimensions. -/
def findsPrimitive (p : Point) (previous? : Option Instr) : Bool :=
  match p.instr with
  | .arrayAccess .get .object _ array _ => (p.before[array.index]?).any RegType.holdsPrimitives
  | instr => (namedTy? previous? instr).any Ty.hollow

/-- Whether the rule of a point writes a primitive type as the class of a reference. -/
def takesPrimitive (p : Point) (previous? : Option Instr) : Bool :=
  p.findsPrimitive previous? && p.instr.destination?.any fun dst => dst.index < p.after.size

/-- The types of the registers before the point have no primitive types for classes. -/
def CleanBefore (p : Point) : Prop := ∀ r t, p.typeBefore r = .ok t → t.Clean

end Point

section Rules

variable {p : Point} {a b : Reg} {t : RegType}

/-- The elements of an array are primitive if the array holds primitives. -/
theorem contains_element (dims : Nat) (element : String) :
    primitiveDescriptors.contains (TypeNode.arrayDescriptor (dims - 1) element) =
      (RegType.reference (.array dims element)).holdsPrimitives := by
  rw [contains_arrayDescriptor, RegType.holdsPrimitives]
  congr 2
  exact propext (by omega)

/-- An object that is fetched from an array of primitives has a primitive type for its class. -/
theorem objectElement_of_holdsPrimitives {array : RegType} (mnemonic : String)
    (h : array.holdsPrimitives = true) :
    ∃ d, objectElement mnemonic array = .ok (.reference (.primitive d)) := by
  cases array with
  | reference n =>
    cases n with
    | array dims element =>
      rw [← contains_element] at h
      have hunknown : TypeNode.arrayDescriptor (dims - 1) element ≠ unknownClass := by
        intro heq
        rw [heq] at h
        exact absurd h (by decide)
      refine ⟨TypeNode.arrayDescriptor (dims - 1) element, ?_⟩
      simp only [objectElement, TypeNode.ofDescriptor]
      rw [if_neg hunknown, if_pos h]
    | _ => cases h
  | _ => cases h

end Rules

namespace Subject

variable {s : Subject} {p : Point} {i : Nat} {previous? : Option Instr} {e : Effect} {m m' : Memo}

/-- The types that go with a method are classes where classes are needed: those declared above
classes, the class of the method, what its body makes and what it catches. -/
structure Classed (s : Subject) : Prop where
  apart : s.classPath.PrimitivesApart
  cls : s.cls.ty.isClass = true
  params : ∀ ty ∈ s.method.params, ty.hollow = false
  makes : ∀ l ∈ s.body.lines, l.instr.makesClass = true
  catches : ∀ h ∈ s.body.tries.flatMap TryRange.handlers, h.catchesClass = true

/-- What is caught has no primitive type for its class, since handlers name classes. -/
theorem clean_of_exceptionType (hs : s.Classed) {addr : Addr} {t : RegType}
    (h : s.exceptionType addr m = .ok t m') : t.Clean := by
  refine of_exceptionType (RegType.clean_of_node? rfl) (fun n hn => ?_)
    (fun x hx ty n hty hn found u m₁ m₂ _ hfound hjoin => ?_) h
  · exact RegType.clean_reference.2 ((TypeNode.isPrimitive_of_ofDescriptor hn).trans (by decide))
  · have hclass := hs.catches x hx
    rw [Handler.catchesClass, hty, Option.all_some] at hclass
    exact RegType.clean_of_join hs.apart hjoin
      (RegType.clean_reference.2 (TypeNode.isPrimitive_of_ofTy hn hclass)) hfound

/-- A rule with a named type finds a primitive type if the type is hollow. -/
theorem findsPrimitive_of_namedTy? {ty : Ty} (h : namedTy? previous? p.instr = some ty) :
    p.findsPrimitive previous? = ty.hollow := by
  rw [Point.findsPrimitive]
  split
  · next hinstr =>
    rw [hinstr] at h
    cases h
  · rw [h]
    rfl

/-- What a rule refers to is not primitive unless the rule finds that it is. -/
theorem contains_of_refers {d : String} (h : Refers p previous? d)
    (hfinds : p.findsPrimitive previous? = false) : primitiveDescriptors.contains d = false := by
  cases h with
  | named hty href =>
    rw [findsPrimitive_of_namedTy? hty, Ty.hollow, href, Bool.true_and] at hfinds
    exact hfinds
  | string => decide
  | cls => decide
  | element hinstr harray =>
    rw [Point.findsPrimitive, hinstr] at hfinds
    simp only [Point.typeBefore_ok.1 harray, Option.any_some] at hfinds
    rw [contains_element]
    exact hfinds

/-- A rule that reads classes writes classes, unless it finds a primitive type. -/
theorem clean_of_effect (hs : s.Classed) (hp : p.CleanBefore) (hmakes : p.instr.makesClass = true)
    (hfinds : p.findsPrimitive previous? = false) (h : s.effect i p previous? m = .ok e m') :
    e.Writes RegType.Clean := by
  cases said_of_effect h with
  | nothing => trivial
  | waiting => trivial
  | initialise _ _ _ ht hn =>
    have hclean := hp _ _ ht
    obtain ⟨site, rfl⟩ | rfl := hn <;> exact RegType.clean_reference.2 (hclean _ rfl)
  | made hinstr hn =>
    rw [hinstr] at hmakes
    rintro _ ⟨⟩
    exact TypeNode.isPrimitive_of_ofTy hn hmakes
  | moved _ ht => exact hp _ _ ht
  | caught _ ht => exact clean_of_exceptionType hs ht
  | number ht => exact RegType.clean_of_node? ht.node?
  | reference hd hn =>
    exact RegType.clean_reference.2
      ((TypeNode.isPrimitive_of_ofDescriptor hn).trans (contains_of_refers hd hfinds))

/-- A rule that names a hollow type writes it. -/
theorem effect_of_namedTy? {ty : Ty} (hty : namedTy? previous? p.instr = some ty)
    (hhollow : ty.hollow = true) :
    ∃ dst, p.instr.destination? = some dst ∧
      s.effect i p previous? = do return .write (← Rule.known (RegType.ofTy ty)) := by
  unfold Subject.effect
  cases hi : p.instr with
  | moveResult w dst =>
    rw [hi] at hty
    obtain ⟨previous, rfl, hresult⟩ := Option.bind_eq_some_iff.1 hty
    have hsets : previous.setsResult = true := by
      cases previous <;> first | rfl | cases hresult
    refine ⟨dst, rfl, ?_⟩
    simp only [fetchResult, hsets, hresult, if_true]
  | checkCast dst =>
    rw [hi] at hty
    cases hty
    exact ⟨dst, rfl, rfl⟩
  | newArray dst =>
    rw [hi] at hty
    cases hty
    cases ty with
    | array => exact ⟨dst, rfl, rfl⟩
    | cls name => cases (hollow_cls name).symm.trans hhollow
    | _ => cases hhollow
  | instanceAccess dir kind dst | staticAccess dir kind dst =>
    rw [hi] at hty
    cases dir with
    | put => cases hty
    | get =>
      cases kind with
      | wide | object =>
        cases hty
        exact ⟨dst, rfl, rfl⟩
      | _ => cases hty
  | arrayAccess dir =>
    rw [hi] at hty
    cases dir <;> cases hty
  | _ =>
    rw [hi] at hty
    cases hty

/-- A rule that finds a primitive type writes it as the class of a reference. -/
theorem effect_of_findsPrimitive (hfinds : p.findsPrimitive previous? = true) :
    ∃ dst d, p.instr.destination? = some dst ∧
      ∀ m, s.effect i p previous? m = .ok (.write (.reference (.primitive d))) m := by
  rw [Point.findsPrimitive] at hfinds
  split at hfinds
  · next dst array index hinstr =>
    obtain ⟨t, ht, hholds⟩ := (Option.any_eq_true _ _).1 hfinds
    obtain ⟨d, hd⟩ := objectElement_of_holdsPrimitives p.instr.mnemonic hholds
    refine ⟨dst, d, by rw [hinstr]; rfl, fun m => ?_⟩
    have hrule : (p.typeBefore array >>= fun t => objectElement p.instr.mnemonic t) =
        .ok (.reference (.primitive d)) := by
      rw [Point.typeBefore_ok.2 ht]
      exact hd
    simp only [hinstr] at hrule
    simp only [Subject.effect, hinstr, hrule]
    rfl
  · obtain ⟨ty, hty, hhollow⟩ := (Option.any_eq_true _ _).1 hfinds
    obtain ⟨dst, hdst, hrule⟩ := s.effect_of_namedTy? (i := i) hty hhollow
    refine ⟨dst, ty.descriptor, hdst, fun m => ?_⟩
    rw [hrule, RegType.ofTy_of_hollow hhollow]
    rfl

end Subject

end Analysis

end Dalvik
