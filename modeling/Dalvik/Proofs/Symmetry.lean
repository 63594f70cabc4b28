import Dalvik.Proofs.Chains
import Dalvik.Proofs.Climbing
import Dalvik.Proofs.Independence

/-!
# Joins do not depend on the order of their operands

The join of two classes asks first whether the first class is an interface of the second, and then
the other way round.  If nothing is declared in a circle, the answers to both do not depend on the
history, and the join is a function of the two (`joinBy`).  This function is symmetric unless both
answers are yes, and then the two classes would be above each other.

Superclass chains meet at the same node from both sides.  Arrays and the unknown class have joins
that are symmetric by their rules.
-/

namespace Dalvik

open Relation (ReflTransGen TransGen)

/-- Two questions have one answer, whatever was asked before. -/
def Agrees {α : Type} (I : Memo → Prop) (q q' : Query α) : Prop :=
  ∃ a, Yields I q (· = .ok a) ∧ Yields I q' (· = .ok a)

namespace Agrees

variable {α β : Type} {I : Memo → Prop} {q q' : Query α}

theorem pure (a : α) : Agrees I (Pure.pure a) (Pure.pure a) := ⟨a, .pure rfl, .pure rfl⟩

theorem symm (h : Agrees I q q') : Agrees I q' q := by
  obtain ⟨a, hq, hq'⟩ := h
  exact ⟨a, hq', hq⟩

/-- Questions that agree do so in what is made of their answers. -/
theorem map (h : Agrees I q q') (f : α → β) :
    Agrees I (q >>= fun a => Pure.pure (f a)) (q' >>= fun a => Pure.pure (f a)) := by
  obtain ⟨a, hq, hq'⟩ := h
  exact ⟨f a, hq.bind_ok (.pure rfl), hq'.bind_ok (.pure rfl)⟩

end Agrees

/-! ## Operands -/

namespace TypeNode

/-- A class, or the unknown class. -/
def IsClass : TypeNode → Prop
  | .cls _ | .unknown => True
  | .primitive _ | .array _ _ => False

/-- What an array can be over: a class, the unknown class or a primitive type. -/
def NamesElement (elem : String) : Prop :=
  ∃ n, ofDescriptor elem = .ok n ∧ (n.IsClass ∨ ∃ d, n = .primitive d)

/-- A class, the unknown class, or an array over one of these or over a primitive type. -/
def Joinable : TypeNode → Prop
  | .array _ elem => NamesElement elem
  | n => n.IsClass

/-- An element that is read as a primitive type is one. -/
theorem isPrimitiveElement_of_ofDescriptor {d elem : String}
    (h : ofDescriptor elem = .ok (.primitive d)) : ClassPath.isPrimitiveElement elem = true := by
  have hall : ∀ d ∈ primitiveDescriptors, ClassPath.isPrimitiveElement d = true := by decide
  unfold ofDescriptor at h
  split at h
  · cases h
  split at h
  · next hprimitive => exact hall elem (List.contains_iff_mem.1 hprimitive)
  split at h
  · split at h <;> cases h
  · cases h
  · cases h

/-- An element that is not primitive is a class or the unknown class. -/
theorem NamesElement.isClass {elem : String} (h : NamesElement elem)
    (hprimitive : ClassPath.isPrimitiveElement elem = false) :
    ∃ n, ofDescriptor elem = .ok n ∧ n.IsClass := by
  obtain ⟨n, hn, hclass | ⟨d, rfl⟩⟩ := h
  · exact ⟨n, hn, hclass⟩
  · cases hprimitive.symm.trans (isPrimitiveElement_of_ofDescriptor hn)

end TypeNode

namespace ClassPath

variable {cp : ClassPath} {a b d iface : String}

/-! ## Tests for interfaces -/

/-- An interface that a class implements is above it. -/
theorem Impl.reaches_of_classesOnly (h : cp.Impl d iface) (hcp : cp.ClassesOnly) :
    ReflTransGen cp.Declares d iface := by
  induction h with
  | declared hd ht =>
    obtain ⟨name, hname⟩ := hcp _ _ _ hd (.inr ht)
    cases eq_descriptor_of_ofTy hname
    exact .single ⟨_, _, hd, .inr ht, hname⟩
  | above h _ ih => exact .head h ih
  | self => exact .refl

/-- Classes are not above each other. -/
theorem not_impl_both (hcp : cp.ClassesOnly) (hacyclic : ∀ d, ¬ cp.OnCycle d) (hab : a ≠ b)
    (h : cp.Impl a b) (h' : cp.Impl b a) : False := by
  have hup := h.reaches_of_classesOnly hcp
  have hdown := h'.reaches_of_classesOnly hcp
  rcases ReflTransGen.cases_head hup with rfl | ⟨c, hstep, hrest⟩
  · exact hab rfl
  · exact hacyclic a (.head' hstep (hrest.trans hdown))

theorem Declares.rises {name : String} (h : cp.Declares d name) : cp.Rises d name := by
  obtain ⟨c, t, hd, hs | ht, hname⟩ := h
  · exact eq_descriptor_of_ofTy hname ▸ .superclass hd hs
  · exact eq_descriptor_of_ofTy hname ▸ .interface hd ht

/-- No class is declared above itself if what is above a class has a lower rank. -/
theorem not_onCycle_of_rank (rank : String → Nat)
    (hrank : ∀ x ∈ cp.defs, ∀ e ∈ risesOf x.2, rank e < rank x.1) (d : String) :
    ¬ cp.OnCycle d := by
  intro h
  exact acyclic_of_rank rank hrank d (TransGen.mono (fun _ _ hstep => Declares.rises hstep) _ _ h)

/-- Where there are no cycles all classes are quiet. -/
theorem quiet_of_acyclic (hacyclic : ∀ d, ¬ cp.OnCycle d) (d : String) : Quiet cp.Declares d :=
  fun e _ => hacyclic e

/-- What the test whether a class is an interface of another says: a yes is right, and a failure
means that the answer is not known. -/
structure Tested (cp : ClassPath) (iface d : String) (r : Except HierarchyError Bool) : Prop where
  yes : r = .ok true → cp.Impl d iface
  unresolved : ∀ e, r = .error e → e.isUnresolved = true

/-- The test for an interface is right when it says yes. -/
theorem tested_classImplements (hcp : cp.ClassesOnly) (d iface : String) :
    Yields cp.ToldAll (cp.classImplements d iface) (cp.Tested iface d) := by
  refine (cp.told_interfacesOf d).bind (fun i hi => ?_) fun e he => ⟨?_, ?_⟩
  · split
    · next hcontains =>
      refine .pure ⟨fun _ => hi.settles.sound iface (List.contains_iff_mem.1 hcontains), ?_⟩
      rintro e ⟨⟩
    · split
      · refine .pure ⟨?_, ?_⟩
        · rintro ⟨⟩
        · rintro e ⟨⟩
      · refine .throw ⟨?_, ?_⟩
        · rintro ⟨⟩
        · rintro e ⟨⟩
          rfl
  · rintro ⟨⟩
  · rintro e ⟨⟩
    exact he.unresolved hcp e rfl

/-- So is the test whether one class is an interface of another. -/
theorem tested_isInterfaceOf (hcp : cp.ClassesOnly) (iface d : String) :
    Yields cp.ToldAll (cp.isInterfaceOf iface d) (cp.Tested iface d) := by
  have no : cp.Tested iface d (.ok false) := by
    refine ⟨?_, ?_⟩
    · rintro ⟨⟩
    · rintro e ⟨⟩
  unfold isInterfaceOf
  split
  · split
    · exact tested_classImplements hcp d iface
    · exact .pure no
  · refine (tested_classImplements hcp d iface).bind_attempt fun r hr => ?_
    cases r with
    | ok answer => exact .pure hr
    | error e =>
      simp only [hr.unresolved e rfl]
      exact .pure no

/-! ## Joins of classes -/

/-- The join of two classes once the first is known not to be an interface of the second, from the
test the other way round.  Without an interface it is a given node. -/
def joinAfterBy (b : String) (n : TypeNode) : Except HierarchyError Bool → TypeNode
  | .ok true => .cls b
  | .ok false => n
  | .error _ => .unknown

/-- The join of two classes, from both tests and from the node where their superclass chains
meet. -/
def joinBy (a b : String) (meet : TypeNode) (first second : Except HierarchyError Bool) :
    TypeNode :=
  match first with
  | .ok true => .cls a
  | .ok false => joinAfterBy b meet second
  | .error _ => joinAfterBy b .unknown second

/-- The order of the tests does not count unless both say yes. -/
theorem joinBy_comm {meet : TypeNode} {first second : Except HierarchyError Bool}
    (h : first = .ok true → second ≠ .ok true) :
    joinBy a b meet first second = joinBy b a meet second first := by
  rcases first with e | _ | _
  · rcases second with e' | _ | _ <;> rfl
  · rcases second with e' | _ | _ <;> rfl
  · rcases second with e' | _ | _
    · rfl
    · rfl
    · exact absurd rfl (h rfl)

theorem classJoin_self (cp : ClassPath) (a : String) : cp.classJoin a a = pure (.cls a) := by
  rw [classJoin_eq, if_pos (.inl rfl)]

/-- The root class joins with everything to itself. -/
theorem classJoin_object_left (cp : ClassPath) (b : String) :
    cp.classJoin objectClass b = pure (.cls objectClass) := by
  rw [classJoin_eq, if_pos (.inr rfl)]

theorem classJoin_object_right (cp : ClassPath) (a : String) :
    cp.classJoin a objectClass = pure (.cls objectClass) := by
  by_cases ha : a = objectClass
  · rw [ha, classJoin_self]
  · rw [classJoin_eq, if_neg (not_or.2 ⟨ha, ha⟩), if_pos rfl]

section ClassJoin

variable {I : Memo → Prop} {first second : Except HierarchyError Bool} {meet : TypeNode}

/-- The join goes on with the second test, and then along the chains. -/
theorem yields_joinAfter {rest : Query TypeNode} {n : TypeNode}
    (hsecond : Yields I (cp.isInterfaceOf b a) (· = second)) (htested : cp.Tested b a second)
    (hrest : Yields I rest (· = .ok n)) :
    Yields I (cp.joinAfter a b rest) (· = .ok (joinAfterBy b n second)) := by
  refine hsecond.bind_attempt ?_
  rintro r rfl
  rcases r with e | _ | _
  · simp only [htested.unresolved e rfl]
    exact .pure rfl
  · exact hrest
  · exact .pure rfl

/-- The join of two classes follows the two tests. -/
theorem yields_classJoin (hab : a ≠ b) (ha : a ≠ objectClass) (hb : b ≠ objectClass)
    (hfirst : Yields I (cp.isInterfaceOf a b) (· = first)) (htested : cp.Tested a b first)
    (hsecond : Yields I (cp.isInterfaceOf b a) (· = second)) (htested' : cp.Tested b a second)
    (hmeet : cp.chainJoin a b = .ok meet) :
    Yields I (cp.classJoin a b) (· = .ok (joinBy a b meet first second)) := by
  rw [classJoin_eq, if_neg (not_or.2 ⟨hab, ha⟩), if_neg hb]
  refine hfirst.bind_attempt ?_
  rintro r rfl
  rcases r with e | _ | _
  · simp only [joinFirst, htested.unresolved e rfl]
    exact yields_joinAfter hsecond htested' (.pure rfl)
  · exact yields_joinAfter hsecond htested' (.lift hmeet)
  · exact .pure rfl

end ClassJoin

/-- If only classes are declared, a chain is found or goes in a circle. -/
theorem chainDown_ok (hcp : cp.ClassesOnly) (n : TypeNode) :
    ∃ down, cp.chainDown n = .ok down := by
  have hparent : ∀ n e, cp.parent? n ≠ .error e := by
    intro n e he
    obtain ⟨d, c, s, _, _, hd, hs, hnone⟩ := noType_of_parent? he
    obtain ⟨name, hname⟩ := hcp d c s hd (.inl hs)
    exact hnone _ hname
  have hwalk : ∀ origin met n e, cp.walkUp origin met n = .error e → ∃ x, e = .cycle x := by
    intro origin met n e he
    fun_induction walkUp cp origin met n with
    | case1 met n hmet =>
      cases he
      exact ⟨_, rfl⟩
    | case2 met n hmet e' h => exact absurd h (hparent n e')
    | case3 => cases he
    | case4 met n hmet m hm e' h ih =>
      cases he
      exact ih h
    | case5 => cases he
  unfold chainDown superclassChain
  cases hchain : cp.walkUp n.descriptor [] n with
  | ok chain => exact ⟨_, rfl⟩
  | error e =>
    obtain ⟨x, rfl⟩ := hwalk _ _ _ _ hchain
    exact ⟨_, rfl⟩

/-- Chains meet at the same node from both sides. -/
theorem chainJoin_comm (hcp : cp.ClassesOnly) (a b : String) :
    ∃ meet, cp.chainJoin a b = .ok meet ∧ cp.chainJoin b a = .ok meet := by
  obtain ⟨down, hdown⟩ := chainDown_ok hcp (.cls a)
  obtain ⟨down', hdown'⟩ := chainDown_ok hcp (.cls b)
  simp only [chainJoin, hdown, hdown']
  cases down with
  | none => cases down' <;> exact ⟨_, rfl, rfl⟩
  | some as =>
    cases down' with
    | none => exact ⟨_, rfl, rfl⟩
    | some bs =>
      refine ⟨(lastCommon? as bs).getD .unknown, rfl, ?_⟩
      rw [lastCommon?_comm as bs]
      rfl

section Joins

variable (hcp : cp.ClassesOnly) (hacyclic : ∀ d, ¬ cp.OnCycle d)
include hcp hacyclic

/-- The join of two classes does not depend on their order: both tests are made in either. -/
theorem agrees_classJoin (a b : String) :
    Agrees cp.ToldAll (cp.classJoin a b) (cp.classJoin b a) := by
  by_cases hab : a = b
  · cases hab
    rw [classJoin_self]
    exact .pure _
  by_cases ha : a = objectClass
  · rw [ha, classJoin_object_left, classJoin_object_right]
    exact .pure _
  by_cases hb : b = objectClass
  · rw [hb, classJoin_object_left, classJoin_object_right]
    exact .pure _
  have htest (a b : String) := ((steady_isInterfaceOf (quiet_of_acyclic hacyclic b) a).tells
    cp.toldAll_empty : Yields cp.ToldAll (cp.isInterfaceOf a b) _)
  have htested (a b : String) := (tested_isInterfaceOf hcp a b).answer cp.toldAll_empty
  obtain ⟨meet, hmeet, hmeet'⟩ := chainJoin_comm hcp a b
  refine ⟨_, yields_classJoin hab ha hb (htest a b) (htested a b) (htest b a) (htested b a) hmeet,
    ?_⟩
  rw [joinBy_comm fun hfirst hsecond => ?_]
  · exact yields_classJoin (Ne.symm hab) hb ha (htest b a) (htested b a) (htest a b) (htested a b)
      hmeet'
  · exact not_impl_both hcp hacyclic hab ((htested b a).yes hsecond) ((htested a b).yes hfirst)

/-- Neither does the join of nodes that are no arrays. -/
theorem agrees_plainJoin {p q : TypeNode} (hp : p.IsClass) (hq : q.IsClass) :
    Agrees cp.ToldAll (cp.plainJoin p q) (cp.plainJoin q p) := by
  have unknown (a : String) : Agrees cp.ToldAll (cp.plainJoin (.cls a) .unknown)
      (cp.plainJoin .unknown (.cls a)) := by
    by_cases ha : a = objectClass
    · simp only [plainJoin, ha, if_true]
      exact .pure _
    · simp only [plainJoin, TypeNode.cls.injEq, if_neg ha]
      exact .pure _
  cases p with
  | primitive d => exact hp.elim
  | array dims elem => exact hp.elim
  | unknown =>
    cases q with
    | primitive d => exact hq.elim
    | array dims elem => exact hq.elim
    | unknown => exact .pure _
    | cls b => exact (unknown b).symm
  | cls a =>
    cases q with
    | primitive d => exact hq.elim
    | array dims elem => exact hq.elim
    | unknown => exact unknown a
    | cls b => exact agrees_classJoin hcp hacyclic a b

/-- Nor that of arrays. -/
theorem agrees_arrayJoin {dims dims' : Nat} {elem elem' : String} (he : TypeNode.NamesElement elem)
    (he' : TypeNode.NamesElement elem') :
    Agrees cp.ToldAll (cp.arrayJoin dims elem dims' elem')
      (cp.arrayJoin dims' elem' dims elem) := by
  unfold arrayJoin
  rw [Bool.or_comm (isPrimitiveElement elem')]
  split
  · by_cases heq : dims = dims' ∧ elem = elem'
    · obtain ⟨rfl, rfl⟩ := heq
      exact .pure _
    · rw [if_neg heq, if_neg fun h => heq ⟨h.1.symm, h.2.symm⟩]
      exact .pure _
  next hprimitive =>
  obtain ⟨hprimitive, hprimitive'⟩ := Bool.or_eq_false_iff.1 (Bool.not_eq_true _ ▸ hprimitive)
  by_cases hdims : dims = dims'
  · cases hdims
    rw [if_pos rfl, if_pos rfl]
    obtain ⟨p, hp, hclass⟩ := he.isClass hprimitive
    obtain ⟨q, hq, hclass'⟩ := he'.isClass hprimitive'
    simp only [hp, hq]
    exact (agrees_plainJoin hcp hacyclic hclass hclass').map (TypeNode.arrayOf dims)
  · rw [if_neg hdims, if_neg (Ne.symm hdims), Nat.min_comm]
    exact .pure _

/-- The join of two nodes is the same from both sides. -/
theorem agrees_commonSuperclass {p q : TypeNode} (hp : p.Joinable) (hq : q.Joinable) :
    Agrees cp.ToldAll (cp.commonSuperclass p q) (cp.commonSuperclass q p) := by
  cases p with
  | primitive d => exact hp.elim
  | array dims elem =>
    cases q with
    | primitive d => exact hq.elim
    | array dims' elem' => exact agrees_arrayJoin hcp hacyclic hp hq
    | unknown => exact .pure _
    | cls b => exact .pure _
  | unknown =>
    cases q with
    | primitive d => exact hq.elim
    | array dims elem => exact .pure _
    | unknown => exact .pure _
    | cls b => exact agrees_plainJoin (p := .unknown) (q := .cls b) hcp hacyclic hp hq
  | cls a =>
    cases q with
    | primitive d => exact hq.elim
    | array dims elem => exact .pure _
    | unknown => exact agrees_plainJoin (p := .cls a) (q := .unknown) hcp hacyclic hp hq
    | cls b => exact agrees_plainJoin (p := .cls a) (q := .cls b) hcp hacyclic hp hq

end Joins

end ClassPath

/-! ## Joins of register types -/

theorem Narrow.join_comm (x y : Narrow) : x.join y = y.join x := by
  cases x <;> cases y <;> rfl

theorem WideHalf.join?_comm (x y : WideHalf) : x.join? y = y.join? x := by
  cases x <;> cases y <;> rfl

theorem Category.join_comm (x y : Category) : x.join y = y.join x := by
  cases x with
  | narrow n =>
    cases y with
    | narrow k => simp only [join, Narrow.join_comm n k]
    | reference => cases n <;> rfl
    | _ => rfl
  | half h =>
    cases y with
    | half k => simp only [join, WideHalf.join?_comm h k]
    | _ => rfl
  | reference =>
    cases y with
    | narrow n => cases n <;> rfl
    | _ => rfl
  | _ => cases y <;> rfl

/-- Objects before their constructor calls only join with code that was not reached, or with a
receiver. -/
theorem Category.of_join_uninit {x y : Category}
    (h : x.join y = .uninitRef ∨ x.join y = .uninitThis) :
    x = .unknown ∨ y = .unknown ∨ x = .uninitThis ∧ y = .uninitThis := by
  fun_cases Category.join x y with
  | case1 => exact .inl rfl
  | case2 => exact .inr (.inl rfl)
  | _ => simp_all [join]

namespace RegType

variable {cp : ClassPath} {a b : RegType}

theorem eq_unknown_of_category (h : a.category = .unknown) : a = .unknown := by
  cases a with
  | unknown => rfl
  | _ => cases h

theorem eq_uninitThis_of_category (h : a.category = .uninitThis) : ∃ p, a = .uninitThis p := by
  cases a with
  | uninitThis p => exact ⟨p, rfl⟩
  | _ => cases h

/-- The join of register types does not depend on their order, as long as objects to construct have
one class. -/
theorem agrees_join (hcp : cp.ClassesOnly) (hacyclic : ∀ d, ¬ cp.OnCycle d)
    (ha : ∀ n, a.node? = some n → n.Joinable) (hb : ∀ n, b.node? = some n → n.Joinable)
    (hthis : ∀ p q, a = .uninitThis p → b = .uninitThis q → p = q) :
    Agrees cp.ToldAll (a.join cp b) (b.join cp a) := by
  by_cases hab : a = b
  · cases hab
    rw [join, if_pos rfl]
    exact .pure a
  have uninit (h : a.category.join b.category = .uninitRef ∨
      a.category.join b.category = .uninitThis) :
      Agrees cp.ToldAll (pure (if a = .unknown then b else a))
        (pure (if b = .unknown then a else b)) := by
    rcases Category.of_join_uninit h with ha | hb | ⟨ha, hb⟩
    · cases eq_unknown_of_category ha
      rw [if_pos rfl, if_neg (Ne.symm hab)]
      exact .pure b
    · cases eq_unknown_of_category hb
      rw [if_pos rfl, if_neg hab]
      exact .pure a
    · obtain ⟨p, rfl⟩ := eq_uninitThis_of_category ha
      obtain ⟨q, rfl⟩ := eq_uninitThis_of_category hb
      cases hthis p q rfl rfl
      exact absurd rfl hab
  unfold join
  rw [if_neg hab, if_neg (Ne.symm hab), Category.join_comm b.category]
  cases hc : a.category.join b.category with
  | reference =>
    cases hp : a.node? with
    | none => cases b.node? <;> exact .pure _
    | some p =>
      cases hq : b.node? with
      | none => exact .pure _
      | some q =>
        have hagrees := ClassPath.agrees_commonSuperclass hcp hacyclic (ha p hp) (hb q hq)
        exact hagrees.map RegType.reference
  | uninitRef => exact uninit (.inl hc)
  | uninitThis => exact uninit (.inr hc)
  | _ => exact .pure _

/-- The join of two register types does not depend on their order, nor on what was asked before. -/
theorem joins_commute (cp : ClassPath) (hcp : cp.ClassesOnly) (hacyclic : ∀ d, ¬ cp.OnCycle d)
    (a b : RegType) (ha : ∀ n, a.node? = some n → n.Joinable)
    (hb : ∀ n, b.node? = some n → n.Joinable)
    (hthis : ∀ p q, a = .uninitThis p → b = .uninitThis q → p = q)
    (history history' : List ClassPath.Question) :
    ∃ t, (a.join cp b).answer (cp.remembered history) = .ok t ∧
      (b.join cp a).answer (cp.remembered history') = .ok t := by
  obtain ⟨t, hab, hba⟩ := agrees_join hcp hacyclic ha hb hthis
  have told (history : List ClassPath.Question) : cp.ToldAll (cp.remembered history) :=
    ClassPath.told_of_asked (cp.asked_remembered history)
  exact ⟨t, hab.answer (told history), hba.answer (told history')⟩

/-- A class with an interface, and a class below a missing one that declares it too. -/
def crossed : ClassPath := .ofClasses
  [{ ty := .cls "A", superclass? := some CoreClasses.objectTy, interfaces := [.cls "I"] },
    { ty := .cls "B", superclass? := some (.cls "Missing"), interfaces := [.cls "I"] },
    { ty := .cls "I", flags := .ofList [.interface], superclass? := some CoreClasses.objectTy }]
  defaultLevel

/-- The classes that are below others, two of them below an interface. -/
def belowInterface : List (List String) :=
  [["LA;", "LB;"], ["LI;", classClass, stringClass, throwableClass]]

theorem joins_commute_crossed :
    let a : RegType := .reference (.array 2 "LB;")
    let b : RegType := .reference (.array 2 "LI;")
    crossed.ClassesOnly ∧ (∀ d, ¬ crossed.OnCycle d) ∧
      (∀ n, a.node? = some n → n.Joinable) ∧ (∀ n, b.node? = some n → n.Joinable) ∧
      (∀ p q, a = .uninitThis p → b = .uninitThis q → p = q) ∧
      ∃ t, (a.join crossed b).answer (crossed.remembered [.vtable "LB;"]) = .ok t ∧
        (b.join crossed a).answer (crossed.remembered [.interfaces "LA;"]) = .ok t := by
  intro a b
  have hcp : crossed.ClassesOnly := ClassPath.classesOnly_of_defs (by decide +kernel)
  have hacyclic : ∀ d, ¬ crossed.OnCycle d :=
    ClassPath.not_onCycle_of_rank (ClassPath.layerRank belowInterface) (by decide +kernel)
  have ha : ∀ n, a.node? = some n → n.Joinable := by
    rintro n ⟨⟩
    exact ⟨_, rfl, .inl trivial⟩
  have hb : ∀ n, b.node? = some n → n.Joinable := by
    rintro n ⟨⟩
    exact ⟨_, rfl, .inl trivial⟩
  have hthis : ∀ p q, a = .uninitThis p → b = .uninitThis q → p = q := by
    intro p q hp _
    exact RegType.noConfusion hp
  exact ⟨hcp, hacyclic, ha, hb, hthis, joins_commute crossed hcp hacyclic a b ha hb hthis _ _⟩

end RegType

end Dalvik
