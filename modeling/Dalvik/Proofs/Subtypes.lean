import Dalvik.Proofs.Symmetry

/-!
# Subtypes

In a hierarchy where everything above a class is known, types are ordered by what is declared: a
class is below its superclasses and below the interfaces it implements.  A class is *rooted* if its
superclasses are classes that end with the root class, and if it extends the root class itself in
case it is an interface.  Rooted classes, and the arrays over them, are partially ordered
(`ClassPath.classes`, `ClassPath.nodes`).

Their join is an upper bound, and the greater one of two types that are comparable.  It need not be
least: two classes may implement an interface that their common superclass does not implement.  But
it is below every common bound that is not an interface, and it is no interface itself if the two
types are not comparable.  `Subtyping.IsJoin` says this, for classes, nodes and register types
alike.
-/

namespace Dalvik

open Relation (ReflTransGen TransGen)

/-! ## Orders with joins -/

/-- A partial order of some elements.  Some of them are solid: a join is below them if they are
above both operands. -/
structure Subtyping (α : Type) where
  /-- The elements that are ordered. -/
  known : α → Prop
  /-- Whether one is below another. -/
  le : α → α → Prop
  /-- Whether an element bounds the joins of those it bounds. -/
  solid : α → Prop
  refl : ∀ {x}, known x → le x x
  trans : ∀ {x y z}, known x → known y → known z → le x y → le y z → le x z
  antisymm : ∀ {x y}, known x → known y → le x y → le y x → x = y

namespace Subtyping

variable {α : Type} {S : Subtyping α} {x y z n : α}

/-- What is known of the join of two elements. -/
structure IsJoin (S : Subtyping α) (x y n : α) : Prop where
  known : S.known n
  left : S.le x y → n = y
  right : S.le y x → n = x
  le_left : S.le x n
  le_right : S.le y n
  solid : ¬ S.le x y → ¬ S.le y x → S.solid n
  least : ∀ {u}, S.known u → S.solid u → S.le x u → S.le y u → S.le n u

namespace IsJoin

/-- A join does not depend on the order. -/
theorem symm (h : S.IsJoin x y n) : S.IsJoin y x n where
  known := h.known
  left := h.right
  right := h.left
  le_left := h.le_right
  le_right := h.le_left
  solid hyx hxy := h.solid hxy hyx
  least hu hsolid hy hx := h.least hu hsolid hx hy

/-- The greater one of two comparable elements is their join. -/
theorem of_le (hx : S.known x) (hy : S.known y) (h : S.le x y) : S.IsJoin x y y where
  known := hy
  left _ := rfl
  right hyx := S.antisymm hy hx hyx h
  le_left := h
  le_right := S.refl hy
  solid hxy _ := absurd h hxy
  least _ _ _ hyu := hyu

/-- A known element is its join with what is below it. -/
theorem of_ge (hx : S.known x) (hy : S.known y) (h : S.le y x) : S.IsJoin x y x :=
  (of_le hy hx h).symm

/-- Incomparable elements join in the least solid one above both. -/
theorem of_incomparable (hn : S.known n) (hsolid : S.solid n) (hxy : ¬ S.le x y)
    (hyx : ¬ S.le y x) (hxn : S.le x n) (hyn : S.le y n)
    (hleast : ∀ {u}, S.known u → S.solid u → S.le x u → S.le y u → S.le n u) :
    S.IsJoin x y n where
  known := hn
  left h := absurd h hxy
  right h := absurd h hyx
  le_left := hxn
  le_right := hyn
  solid _ _ := hsolid
  least := hleast

end IsJoin

end Subtyping

/-- The descriptor of a class is longer than one byte. -/
theorem TypeNode.isPrimitiveElement_of_named {d : String} (h : TypeNode.Named (.cls d)) :
    ClassPath.isPrimitiveElement d = false := by
  have h : ofDescriptor d = .ok (.cls d) := h
  unfold ofDescriptor at h
  split at h
  · cases h
  split at h
  · cases h
  have hsplit := Ty.append_splitBrackets d.toList
  split at h
  · next elem heq =>
    split at h
    · next hname =>
      obtain ⟨name, hname⟩ := Option.isSome_iff_exists.1 hname
      rw [heq, List.replicate_zero, List.nil_append, ← Ty.chars_of_className? hname] at hsplit
      have hd : d = String.ofList ['L'] ++ String.ofList (name.toList ++ [';']) := by
        rw [← String.ofList_append, ← String.ofList_toList (s := d), ← hsplit]
        rfl
      have hrest : (String.ofList (name.toList ++ [';'])).utf8ByteSize ≠ 0 := by simp
      have hfirst : (String.ofList ['L']).utf8ByteSize = 1 := rfl
      rw [ClassPath.isPrimitiveElement, hd, String.utf8ByteSize_append, hfirst, beq_eq_false_iff_ne]
      omega
    · cases h
  · cases h
  · cases h

namespace ClassPath

variable {cp : ClassPath} {a b d e f : String}

/-! ## Rooted classes -/

/-- A class is a defined interface. -/
def IsInterface (cp : ClassPath) (d : String) : Prop :=
  ∃ c, cp.def? d = some c ∧ c.isInterface = true

/-- A class above which everything is known, up to the root class. -/
structure Rooted (cp : ClassPath) (d : String) : Prop where
  named : TypeNode.Named (.cls d)
  complete : cp.Complete d
  root : ReflTransGen cp.Extends d objectClass
  top : cp.parent? (.cls objectClass) = .ok none
  classes : ∀ {e}, TransGen cp.Extends d e → ¬ cp.IsInterface e
  interface : cp.IsInterface d → cp.Extends d objectClass
  /-- The interfaces of arrays extend no others. -/
  arrays : cp.IsInterface d → arrayImplements d = true → ∀ {e}, cp.Impl d e → e = d

/-- A class is below another: it extends or implements it. -/
def Sub (cp : ClassPath) (d e : String) : Prop :=
  ReflTransGen cp.Extends d e ∨ cp.IsInterface e ∧ cp.Impl d e

/-- The superclass is declared. -/
theorem Extends.declares (h : cp.Extends d e) : cp.Declares d e := by
  obtain ⟨c, s, hd, hs, hn⟩ := h.superclass
  exact ⟨c, s, hd, .inl hs, hn⟩

/-- A class extends one class at most. -/
theorem Extends.unique (h : cp.Extends d e) (h' : cp.Extends d f) : e = f := by
  cases h.symm.trans h'
  rfl

theorem declares_of_extends (h : ReflTransGen cp.Extends d e) : ReflTransGen cp.Declares d e :=
  ReflTransGen.mono (fun _ _ hstep => Extends.declares hstep) _ _ h

namespace Rooted

/-- The root class extends nothing. -/
theorem not_extends (h : cp.Rooted d) : ¬ cp.Extends objectClass e := by
  intro hstep
  cases h.top.symm.trans hstep

/-- The superclass of a rooted class is rooted. -/
theorem of_extends (h : cp.Rooted d) (hstep : cp.Extends d e) : cp.Rooted e := by
  have hclass := h.classes (.single hstep)
  refine ⟨named_of_parent? hstep, h.complete.of_reaches (.single hstep.declares), ?_, h.top,
    fun hup => h.classes (.head hstep hup), fun hi => absurd hi hclass, fun hi => absurd hi hclass⟩
  rcases ReflTransGen.cases_head h.root with rfl | ⟨e', hstep', hrest⟩
  · exact absurd hstep h.not_extends
  · cases hstep.unique hstep'
    exact hrest

theorem of_reaches (h : cp.Rooted d) (hup : ReflTransGen cp.Extends d e) : cp.Rooted e := by
  induction hup with
  | refl => exact h
  | tail _ hstep ih => exact ih.of_extends hstep

theorem object (h : cp.Rooted d) : cp.Rooted objectClass := h.of_reaches h.root

/-- Nothing is above the root class. -/
theorem eq_object_of_extends (h : cp.Rooted d) (hup : ReflTransGen cp.Extends objectClass e) :
    e = objectClass := by
  rcases ReflTransGen.cases_head hup with rfl | ⟨e', hstep, _⟩
  · rfl
  · exact absurd hstep h.not_extends

/-- The root class is no interface. -/
theorem not_isInterface_object (h : cp.Rooted d) : ¬ cp.IsInterface objectClass :=
  fun hi => h.not_extends (h.object.interface hi)

/-- Above an interface there is only the root class. -/
theorem of_interface (h : cp.Rooted d) (hi : cp.IsInterface d)
    (hup : ReflTransGen cp.Extends d e) : e = d ∨ e = objectClass := by
  rcases ReflTransGen.cases_head hup with rfl | ⟨e', hstep, hrest⟩
  · exact .inl rfl
  · cases hstep.unique (h.interface hi)
    exact .inr (h.eq_object_of_extends hrest)

end Rooted

theorem isInterface_iff {c : ClassDef} (hd : cp.def? d = some c) :
    cp.IsInterface d ↔ c.isInterface = true := by
  refine ⟨?_, fun hi => ⟨c, hd, hi⟩⟩
  rintro ⟨c', hd', hi⟩
  cases hd.symm.trans hd'
  exact hi

/-- A root class that declares nothing is rooted. -/
theorem rooted_object {c : ClassDef} (hd : cp.def? objectClass = some c)
    (hs : c.superclass? = none) (hinterfaces : c.interfaces = []) (hc : c.isInterface = false) :
    cp.Rooted objectClass := by
  have htop : cp.parent? (.cls objectClass) = .ok none := parent?_of_none hd hs
  have hclass : ¬ cp.IsInterface objectClass := by simp [isInterface_iff hd, hc]
  refine ⟨TypeNode.named_object, complete_of_declared hd ?_ ?_, .refl, htop, fun hup => ?_,
    fun hi => absurd hi hclass, fun hi => absurd hi hclass⟩
  · simp [hinterfaces]
  · simp [hs]
  · obtain ⟨e, hstep, _⟩ := TransGen.head'_iff.1 hup
    cases htop.symm.trans hstep

/-- A class is rooted if its superclass is a rooted class and everything above its interfaces is
known. -/
theorem rooted_of_superclass {c : ClassDef} {s : Ty} (hnamed : TypeNode.Named (.cls d))
    (hd : cp.def? d = some c) (hs : c.superclass? = some s) (hn : TypeNode.ofTy s = .ok (.cls e))
    (he : cp.Rooted e) (hclass : ¬ cp.IsInterface e) (hi : ∀ t ∈ c.interfaces, cp.CompleteTy t)
    (hinterface : c.isInterface = true → e = objectClass ∧ arrayImplements d = false) :
    cp.Rooted d := by
  have hstep : cp.Extends d e := parent?_of_superclass hd hs hn
  refine ⟨hnamed, complete_of_declared hd hi ?_, .head hstep he.root, he.top, fun hup => ?_,
    fun h => ?_, fun h harray => ?_⟩
  · intro s' hs'
    cases hs.symm.trans hs'
    refine ⟨_, hn, ?_⟩
    rintro name ⟨⟩
    exact he.complete
  · obtain ⟨e', hstep', hrest⟩ := TransGen.head'_iff.1 hup
    cases hstep.unique hstep'
    rcases ReflTransGen.cases_head hrest with rfl | ⟨e', hstep', hrest⟩
    · exact hclass
    · exact he.classes (.head' hstep' hrest)
  · exact (hinterface ((isInterface_iff hd).1 h)).1 ▸ hstep
  · cases (hinterface ((isInterface_iff hd).1 h)).2.symm.trans harray

/-! ### The order of classes -/

/-- What is above a rooted class is reached from it along declared types. -/
theorem Sub.reaches (h : cp.Sub d e) (hd : cp.Rooted d) : ReflTransGen cp.Declares d e := by
  rcases h with h | ⟨_, h⟩
  · exact declares_of_extends h
  · exact h.reaches hd.complete

/-- A class that is no interface is above another by superclasses only. -/
theorem Sub.extends (h : cp.Sub d e) (he : ¬ cp.IsInterface e) : ReflTransGen cp.Extends d e := by
  rcases h with h | ⟨hi, _⟩
  · exact h
  · exact absurd hi he

/-- Two rooted classes that are below each other are the same. -/
theorem Sub.antisymm (hd : cp.Rooted d) (he : cp.Rooted e) (h : cp.Sub d e) (h' : cp.Sub e d) :
    d = e := by
  rcases ReflTransGen.cases_head (h.reaches hd) with rfl | ⟨f, hstep, hrest⟩
  · rfl
  · obtain ⟨c, hc⟩ := hd.complete d .refl
    exact absurd (.head' hstep (hrest.trans (h'.reaches he))) hc.acyclic

/-- The order of rooted classes is transitive. -/
theorem Sub.trans (hd : cp.Rooted d) (he : cp.Rooted e) (h : cp.Sub d e) (h' : cp.Sub e f) :
    cp.Sub d f := by
  rcases h' with h' | ⟨hf, h'⟩
  · rcases h with h | ⟨hi, h⟩
    · exact .inl (h.trans h')
    · rcases he.of_interface hi h' with rfl | rfl
      · exact .inr ⟨hi, h⟩
      · exact .inl hd.root
  · exact .inr ⟨hf, h'.of_reaches (h.reaches hd)⟩

/-- Rooted classes, ordered by what they extend and implement.  Classes that are not interfaces are
solid. -/
def classes (cp : ClassPath) : Subtyping String where
  known := cp.Rooted
  le := cp.Sub
  solid d := ¬ cp.IsInterface d
  refl _ := .inl .refl
  trans hd he _ := Sub.trans hd he
  antisymm := Sub.antisymm

/-- Nothing is above the root class. -/
theorem Sub.eq_object (h : cp.Sub objectClass e) (he : cp.Rooted e) : e = objectClass :=
  Sub.antisymm he he.object (.inl he.root) h

/-! ### The join of classes -/

/-- A rooted class has a chain, which holds its superclasses. -/
theorem Rooted.exists_chain (h : cp.Rooted d) :
    ∃ l, cp.Chain (.cls d) l ∧ ∀ k, k ∈ l ↔ ∃ e, k = .cls e ∧ ReflTransGen cp.Extends d e := by
  have hroot := h.root
  have htop := h.top
  clear h
  induction hroot using ReflTransGen.head_induction_on with
  | refl =>
    refine ⟨_, .last htop, fun k => ?_⟩
    rw [List.mem_singleton]
    constructor
    · rintro rfl
      exact ⟨objectClass, rfl, .refl⟩
    · rintro ⟨e, rfl, hup⟩
      rcases ReflTransGen.cases_head hup with rfl | ⟨f, hstep, _⟩
      · rfl
      · cases htop.symm.trans hstep
  | @head d e hstep _ ih =>
    obtain ⟨l, hl, hmem⟩ := ih
    refine ⟨_, .step hstep hl, fun k => ?_⟩
    rw [List.mem_cons, hmem]
    constructor
    · rintro (rfl | ⟨f, rfl, hup⟩)
      · exact ⟨d, rfl, .refl⟩
      · exact ⟨f, rfl, .head hstep hup⟩
    · rintro ⟨f, rfl, hup⟩
      rcases ReflTransGen.cases_head hup with rfl | ⟨e', hstep', hrest⟩
      · exact .inl rfl
      · cases hstep.unique hstep'
        exact .inr ⟨f, rfl, hrest⟩

/-- The chains of two rooted classes meet in the nearest class above both. -/
theorem Rooted.chainJoin (ha : cp.Rooted a) (hb : cp.Rooted b) :
    ∃ n, cp.chainJoin a b = .ok (.cls n) ∧ ReflTransGen cp.Extends a n ∧
      ReflTransGen cp.Extends b n ∧
      ∀ {u}, ReflTransGen cp.Extends a u → ReflTransGen cp.Extends b u →
        ReflTransGen cp.Extends n u := by
  obtain ⟨as, has, hmem⟩ := ha.exists_chain
  obtain ⟨bs, hbs, hmem'⟩ := hb.exists_chain
  have hjoin : cp.chainJoin a b =
      .ok ((as.find? fun k => decide (k ∈ bs)).getD .unknown) := by
    rw [ClassPath.chainJoin, chainDown_of_chain has ha.named, chainDown_of_chain hbs hb.named,
      ← has.lastCommon? hbs]
    rfl
  -- the root class is on both chains
  cases hfind : as.find? fun k => decide (k ∈ bs) with
  | none =>
    have hroot := List.find?_eq_none.1 hfind (.cls objectClass) ((hmem _).2 ⟨_, rfl, ha.root⟩)
    exact absurd (decide_eq_true ((hmem' _).2 ⟨_, rfl, hb.root⟩)) hroot
  | some k =>
    obtain ⟨n, rfl, han⟩ := (hmem k).1 (List.mem_of_find?_eq_some hfind)
    have hcommon := List.find?_some hfind
    obtain ⟨_, heq, hbn⟩ := (hmem' _).1 (of_decide_eq_true hcommon)
    cases heq
    refine ⟨n, by rw [hjoin, hfind]; rfl, han, hbn, fun hau hbu => ?_⟩
    obtain ⟨l, hl, habove⟩ := has.nearest hfind
    obtain ⟨l', hl', hmem''⟩ := (ha.of_reaches han).exists_chain
    cases hl.unique hl'
    have hu := habove _ ((hmem _).2 ⟨_, rfl, hau⟩) (decide_eq_true ((hmem' _).2 ⟨_, rfl, hbu⟩))
    obtain ⟨_, heq, hnu⟩ := (hmem'' _).1 hu
    cases heq
    exact hnu

/-- The memory only holds interfaces that are right. -/
abbrev Exact (cp : ClassPath) (m : Memo) : Prop := Remembers m.interfaces cp.Settles

/-- Whether a rooted class is an interface of another is always found out. -/
theorem Rooted.isInterfaceOf (ha : cp.Rooted a) (hb : cp.Rooted b) :
    ∃ yes, Yields cp.Exact (cp.isInterfaceOf a b) (· = .ok yes) ∧
      (yes = true ↔ cp.IsInterface a ∧ cp.Impl b a) := by
  obtain ⟨c, hc⟩ := ha.complete a .refl
  unfold ClassPath.isInterfaceOf
  simp only [hc.defined]
  split
  · next hi =>
    have hinterface : cp.IsInterface a := ⟨c, hc.defined, hi⟩
    by_cases h : cp.Impl b a
    · refine ⟨true, (cp.yields_classImplements b a).mono fun r hr => ?_, by simp [hinterface, h]⟩
      rcases r with e | _ | _
      · exact absurd hb.complete hr
      · exact absurd h hr.1
      · rfl
    · refine ⟨false, (cp.yields_classImplements b a).mono fun r hr => ?_, by simp [h]⟩
      rcases r with e | _ | _
      · exact absurd hb.complete hr
      · rfl
      · exact absurd hr h
  · next hi =>
    exact ⟨false, .pure rfl, by simp [isInterface_iff hc.defined, hi]⟩

theorem tested_ok {yes : Bool} (h : yes = true → cp.Impl b a) : cp.Tested a b (.ok yes) where
  yes heq := h (Except.ok.inj heq)
  unresolved e heq := by cases heq

/-- Where two rooted classes have no interface in common, their chains meet in their join. -/
theorem isJoin_of_nearest {n : String} (ha : cp.Rooted a) (hb : cp.Rooted b)
    (hab : ¬ (cp.IsInterface b ∧ cp.Impl a b)) (hba : ¬ (cp.IsInterface a ∧ cp.Impl b a))
    (han : ReflTransGen cp.Extends a n) (hbn : ReflTransGen cp.Extends b n)
    (hnear : ∀ {u}, ReflTransGen cp.Extends a u → ReflTransGen cp.Extends b u →
      ReflTransGen cp.Extends n u) : cp.classes.IsJoin a b n := by
  have hn := ha.of_reaches han
  by_cases h : cp.Sub a b
  · have hup := h.resolve_right hab
    cases Sub.antisymm hn hb (.inl (hnear hup .refl)) (.inl hbn)
    exact .of_le ha hb h
  by_cases h' : cp.Sub b a
  · have hup := h'.resolve_right hba
    cases Sub.antisymm hn ha (.inl (hnear .refl hup)) (.inl han)
    exact .of_ge ha hb h'
  -- the classes are not comparable, so they meet strictly above each of them
  have hclass : ¬ cp.IsInterface n := by
    rcases ReflTransGen.cases_head han with rfl | ⟨e, hstep, hrest⟩
    · exact absurd (.inl hbn) h'
    · exact ha.classes (.head' hstep hrest)
  exact .of_incomparable hn hclass h h' (.inl han) (.inl hbn) fun _ hu hau hbu =>
    .inl (hnear (hau.extends hu) (hbu.extends hu))

/-- The join of two rooted classes is found, and is their join in the order of classes. -/
theorem Rooted.classJoin (ha : cp.Rooted a) (hb : cp.Rooted b) :
    ∃ n, Yields cp.Exact (cp.classJoin a b) (· = .ok (.cls n)) ∧ cp.classes.IsJoin a b n := by
  by_cases hab : a = b
  · cases hab
    rw [classJoin_self]
    exact ⟨a, .pure rfl, .of_le ha ha (.inl .refl)⟩
  by_cases hao : a = objectClass
  · rw [hao, classJoin_object_left]
    exact ⟨objectClass, .pure rfl, .of_ge hb.object hb (.inl hb.root)⟩
  by_cases hbo : b = objectClass
  · rw [hbo, classJoin_object_right]
    exact ⟨objectClass, .pure rfl, .of_le ha ha.object (.inl ha.root)⟩
  obtain ⟨first, hfirst, hyes⟩ := ha.isInterfaceOf hb
  obtain ⟨second, hsecond, hyes'⟩ := hb.isInterfaceOf ha
  obtain ⟨n, hmeet, han, hbn, hnear⟩ := ha.chainJoin hb
  have hjoin := yields_classJoin hab hao hbo hfirst (tested_ok fun h => (hyes.1 h).2) hsecond
    (tested_ok fun h => (hyes'.1 h).2) hmeet
  cases first with
  | true => exact ⟨a, hjoin, .of_ge ha hb (.inr (hyes.1 rfl))⟩
  | false =>
    cases second with
    | true => exact ⟨b, hjoin, .of_le ha hb (.inr (hyes'.1 rfl))⟩
    | false =>
      refine ⟨n, hjoin, isJoin_of_nearest ha hb (fun h => ?_) (fun h => ?_) han hbn hnear⟩
      · cases hyes'.2 h
      · cases hyes.2 h

/-! ## Rooted nodes -/

/-- A rooted class, or an array over a rooted class or a primitive type. -/
def RootedNode (cp : ClassPath) : TypeNode → Prop
  | .cls d => cp.Rooted d
  | .array _ s => isPrimitiveElement s = true ∨ cp.Rooted s
  | .primitive _ | .unknown => False

/-- An array is below another. -/
inductive SubArray (cp : ClassPath) : Nat → String → Nat → String → Prop where
  /-- It is the same array. -/
  | refl {dims : Nat} {s : String} : SubArray cp dims s dims s
  /-- Its elements are objects of a class below that of the other's elements. -/
  | elements {dims : Nat} {s t : String} (hs : isPrimitiveElement s = false)
    (ht : isPrimitiveElement t = false) (h : cp.Sub s t) : SubArray cp dims s dims t
  /-- The other has fewer dimensions, and any object for an element. -/
  | deeper {dims dims' : Nat} {s : String} (hs : isPrimitiveElement s = false)
    (h : dims' < dims) : SubArray cp dims s dims' objectClass

/-- A node is below another.  All arrays are below the root class and below their interfaces. -/
def SubNode (cp : ClassPath) : TypeNode → TypeNode → Prop
  | .cls d, .cls e => cp.Sub d e
  | .array _ _, .cls e => e = objectClass ∨ cp.IsInterface e ∧ arrayImplements e = true
  | .array dims s, .array dims' t => cp.SubArray dims s dims' t
  | _, _ => False

/-- A node bounds the joins of what it bounds: it is no interface, and no array over one. -/
def SolidNode (cp : ClassPath) : TypeNode → Prop
  | .cls d => ¬ cp.IsInterface d
  | .array _ s => isPrimitiveElement s = true ∨ ¬ cp.IsInterface s
  | .primitive _ | .unknown => True

section Arrays

variable {dims dims' dims'' : Nat} {s t u : String}

theorem Rooted.element (h : isPrimitiveElement s = true ∨ cp.Rooted s)
    (hs : isPrimitiveElement s = false) : cp.Rooted s := by
  rcases h with h | h
  · cases hs.symm.trans h
  · exact h

theorem Rooted.not_primitive (h : cp.Rooted d) : isPrimitiveElement d = false :=
  TypeNode.isPrimitiveElement_of_named h.named

/-- An array is below one with no more dimensions. -/
theorem SubArray.dims_le (h : cp.SubArray dims s dims' t) : dims' ≤ dims := by
  cases h with
  | refl => exact Nat.le_refl _
  | elements => exact Nat.le_refl _
  | deeper _ hlt => exact Nat.le_of_lt hlt

/-- An array over a primitive type is only below itself. -/
theorem SubArray.eq_of_primitive (h : cp.SubArray dims s dims' t)
    (hprimitive : isPrimitiveElement s = true ∨ isPrimitiveElement t = true) :
    dims = dims' ∧ s = t := by
  cases h with
  | refl => exact ⟨rfl, rfl⟩
  | elements hs ht => simp [hs, ht] at hprimitive
  | deeper hs =>
    rcases hprimitive with h | h
    · cases hs.symm.trans h
    · exact absurd h (by decide)

theorem SubArray.not_primitive (h : cp.SubArray dims s dims' t)
    (hs : isPrimitiveElement s = false) : isPrimitiveElement t = false := by
  cases h with
  | refl => exact hs
  | elements _ ht => exact ht
  | deeper => decide

/-- Arrays over objects of one number of dimensions are ordered as their elements are. -/
theorem SubArray.sub (h : cp.SubArray dims s dims t) : cp.Sub s t := by
  cases h with
  | refl => exact .inl .refl
  | elements _ _ h => exact h
  | deeper _ hlt => exact absurd hlt (Nat.lt_irrefl _)

/-- An array below one with fewer dimensions is below one of objects. -/
theorem SubArray.eq_object (h : cp.SubArray dims s dims' t) (hlt : dims' < dims) :
    t = objectClass := by
  cases h with
  | refl => exact absurd hlt (Nat.lt_irrefl _)
  | elements => exact absurd hlt (Nat.lt_irrefl _)
  | deeper => rfl

/-- The order of arrays is transitive. -/
theorem SubArray.trans (hs : cp.RootedNode (.array dims s)) (ht : cp.RootedNode (.array dims' t))
    (hu : cp.RootedNode (.array dims'' u)) (h : cp.SubArray dims s dims' t)
    (h' : cp.SubArray dims' t dims'' u) : cp.SubArray dims s dims'' u := by
  cases h with
  | refl => exact h'
  | elements hs' ht' h =>
    cases h' with
    | refl => exact .elements hs' ht' h
    | elements _ hu' h' =>
      exact .elements hs' hu' (Sub.trans (Rooted.element hs hs') (Rooted.element ht ht') h h')
    | deeper _ hlt => exact .deeper hs' hlt
  | deeper hs' hlt =>
    cases h' with
    | refl => exact .deeper hs' hlt
    | elements _ hu' h' =>
      rw [h'.eq_object (Rooted.element hu hu')]
      exact .deeper hs' hlt
    | deeper _ hlt' => exact .deeper hs' (hlt'.trans hlt)

/-- Two arrays that are below each other are the same. -/
theorem SubArray.antisymm (hs : cp.RootedNode (.array dims s))
    (ht : cp.RootedNode (.array dims' t)) (h : cp.SubArray dims s dims' t)
    (h' : cp.SubArray dims' t dims s) : TypeNode.array dims s = .array dims' t := by
  cases Nat.le_antisymm h.dims_le h'.dims_le
  cases h with
  | refl => rfl
  | elements hs' ht' h =>
    rw [Sub.antisymm (Rooted.element hs hs') (Rooted.element ht ht') h h'.sub]
  | deeper _ hlt => exact absurd hlt (Nat.lt_irrefl _)

end Arrays

section Nodes

variable {p q r : TypeNode}

theorem SubNode.refl (hp : cp.RootedNode p) : cp.SubNode p p := by
  cases p with
  | primitive d => exact hp.elim
  | unknown => exact hp.elim
  | cls d => exact .inl .refl
  | array dims s => exact .refl

/-- Arrays are below all that is above one of their interfaces. -/
theorem subNode_array_of_sub (hd : cp.Rooted d) (he : cp.Rooted e)
    (h : d = objectClass ∨ cp.IsInterface d ∧ arrayImplements d = true) (h' : cp.Sub d e) :
    e = objectClass ∨ cp.IsInterface e ∧ arrayImplements e = true := by
  rcases h with rfl | ⟨hi, harray⟩
  · exact .inl (h'.eq_object he)
  rcases h' with hup | ⟨hi', himpl⟩
  · rcases hd.of_interface hi hup with rfl | rfl
    · exact .inr ⟨hi, harray⟩
    · exact .inl rfl
  · cases hd.arrays hi harray himpl
    exact .inr ⟨hi, harray⟩

/-- The order of nodes is transitive, by cases on what they are. -/
theorem SubNode.trans (hp : cp.RootedNode p) (hq : cp.RootedNode q) (hr : cp.RootedNode r)
    (h : cp.SubNode p q) (h' : cp.SubNode q r) : cp.SubNode p r := by
  cases p with
  | primitive d => exact hp.elim
  | unknown => exact hp.elim
  | cls d =>
    cases q with
    | cls e =>
      cases r with
      | cls f => exact Sub.trans hp hq h h'
      | _ => exact h'.elim
    | _ => exact h.elim
  | array dims s =>
    cases q with
    | primitive d => exact hq.elim
    | unknown => exact hq.elim
    | cls e =>
      cases r with
      | cls f => exact subNode_array_of_sub hq hr h h'
      | _ => exact h'.elim
    | array dims' t =>
      cases r with
      | primitive d => exact hr.elim
      | unknown => exact hr.elim
      | cls f => exact h'
      | array dims'' u => exact SubArray.trans hp hq hr h h'

/-- Two nodes that are below each other are the same. -/
theorem SubNode.antisymm (hp : cp.RootedNode p) (hq : cp.RootedNode q) (h : cp.SubNode p q)
    (h' : cp.SubNode q p) : p = q := by
  cases p with
  | primitive d => exact hp.elim
  | unknown => exact hp.elim
  | cls d =>
    cases q with
    | cls e => rw [Sub.antisymm hp hq h h']
    | _ => exact h.elim
  | array dims s =>
    cases q with
    | array dims' t => exact SubArray.antisymm hp hq h h'
    | _ => exact h'.elim

end Nodes

/-- Rooted nodes, ordered as their classes and elements are. -/
def nodes (cp : ClassPath) : Subtyping TypeNode where
  known := cp.RootedNode
  le := cp.SubNode
  solid := cp.SolidNode
  refl := SubNode.refl
  trans := SubNode.trans
  antisymm := SubNode.antisymm

/-! ### The join of nodes -/

section Joins

variable {n s t : String} {dims dims' : Nat}

/-- The join of two classes is their join among all nodes. -/
theorem isJoin_cls (h : cp.classes.IsJoin a b n) : cp.nodes.IsJoin (.cls a) (.cls b) (.cls n) where
  known := h.known
  left hab := congrArg TypeNode.cls (h.left hab)
  right hba := congrArg TypeNode.cls (h.right hba)
  le_left := h.le_left
  le_right := h.le_right
  solid hab hba := h.solid hab hba
  least {u} hu hsolid hau hbu := by
    cases u with
    | primitive d => exact hu.elim
    | unknown => exact hu.elim
    | cls u => exact h.least hu hsolid hau hbu
    | array dims u => exact hau.elim

/-- A class that bounds an array and is no interface is the root class. -/
theorem eq_object_of_subNode (h : d = objectClass ∨ cp.IsInterface d ∧ arrayImplements d = true)
    (hd : ¬ cp.IsInterface d) : d = objectClass := by
  rcases h with h | ⟨hi, _⟩
  · exact h
  · exact absurd hi hd

/-- Arrays of one number of dimensions join element by element. -/
theorem isJoin_elements (hs : cp.Rooted s) (ht : cp.Rooted t) (h : cp.classes.IsJoin s t n) :
    cp.nodes.IsJoin (.array dims s) (.array dims t) (.array dims n) := by
  have hn : cp.Rooted n := h.known
  have below {s t : String} (hs : cp.Rooted s) (ht : cp.Rooted t) (h : cp.Sub s t) :
      cp.SubArray dims s dims t := .elements hs.not_primitive ht.not_primitive h
  refine ⟨.inr hn, fun hst => ?_, fun hts => ?_, below hs hn h.le_left, below ht hn h.le_right,
    fun hst hts => ?_, fun {u} hu hsolid hsu htu => ?_⟩
  · rw [h.left (SubArray.sub hst)]
  · rw [h.right (SubArray.sub hts)]
  · exact .inr (h.solid (fun h' => hst (below hs ht h')) fun h' => hts (below ht hs h'))
  cases u with
  | primitive d => exact hu.elim
  | unknown => exact hu.elim
  | cls u => exact hsu
  | array dims' u =>
    have hsu : cp.SubArray dims s dims' u := hsu
    have htu : cp.SubArray dims t dims' u := htu
    have hnot := hsu.not_primitive hs.not_primitive
    rcases Nat.lt_or_eq_of_le hsu.dims_le with hlt | rfl
    · cases hsu.eq_object hlt
      exact .deeper hn.not_primitive hlt
    · have hclass : ¬ cp.IsInterface u := hsolid.resolve_left (by simp [hnot])
      have hroot : cp.Rooted u := Rooted.element hu hnot
      exact below hn hroot (h.least hroot hclass hsu.sub htu.sub)

/-- Arrays over objects of different numbers of dimensions meet in arrays of the root class. -/
theorem isJoin_dims (hs : cp.Rooted s) (ht : cp.Rooted t) (hlt : dims < dims') :
    cp.nodes.IsJoin (.array dims s) (.array dims' t) (.array dims objectClass) := by
  have hks : cp.nodes.known (.array dims s) := .inr hs
  have hkt : cp.nodes.known (.array dims' t) := .inr ht
  have hsn : cp.SubArray dims s dims objectClass :=
    .elements hs.not_primitive (by decide) (.inl hs.root)
  have htn : cp.SubArray dims' t dims objectClass := .deeper ht.not_primitive hlt
  by_cases hso : s = objectClass
  · cases hso
    exact .of_ge hks hkt htn
  refine .of_incomparable (.inr hs.object) (.inr hs.not_isInterface_object) (fun h => ?_)
    (fun h => ?_) hsn htn fun {u} hu hsolid hsu htu => ?_
  · exact absurd (SubArray.dims_le h) (Nat.not_le_of_lt hlt)
  · exact hso (SubArray.eq_object h hlt)
  cases u with
  | primitive d => exact hu.elim
  | unknown => exact hu.elim
  | cls u => exact hsu
  | array dims'' u =>
    have hle := SubArray.dims_le hsu
    cases SubArray.eq_object htu (Nat.lt_of_le_of_lt hle hlt)
    rcases Nat.lt_or_eq_of_le hle with hlt' | rfl
    · exact .deeper (by decide) hlt'
    · exact SubArray.refl

/-- An array over a primitive type meets other arrays in the root class. -/
theorem isJoin_primitive (hobject : cp.Rooted objectClass)
    (hprimitive : isPrimitiveElement s = true ∨ isPrimitiveElement t = true)
    (hne : ¬ (dims = dims' ∧ s = t)) :
    cp.nodes.IsJoin (.array dims s) (.array dims' t) (.cls objectClass) := by
  refine .of_incomparable hobject hobject.not_isInterface_object (fun h => ?_) (fun h => ?_)
    (.inl rfl) (.inl rfl) fun {u} hu hsolid hsu htu => ?_
  · exact hne (SubArray.eq_of_primitive h hprimitive)
  · obtain ⟨rfl, rfl⟩ := SubArray.eq_of_primitive h hprimitive.symm
    exact hne ⟨rfl, rfl⟩
  cases u with
  | primitive d => exact hu.elim
  | unknown => exact hu.elim
  | cls u =>
    cases eq_object_of_subNode hsu hsolid
    exact .inl .refl
  | array dims'' u =>
    -- the bound is the array over the primitive type, and the other one is below it
    have hsu : cp.SubArray dims s dims'' u := hsu
    have htu : cp.SubArray dims' t dims'' u := htu
    have hbound : isPrimitiveElement u = true := by
      rcases hprimitive with h | h
      · exact (hsu.eq_of_primitive (.inl h)).2 ▸ h
      · exact (htu.eq_of_primitive (.inl h)).2 ▸ h
    obtain ⟨rfl, rfl⟩ := hsu.eq_of_primitive (.inr hbound)
    obtain ⟨rfl, rfl⟩ := htu.eq_of_primitive (.inr hbound)
    exact absurd ⟨rfl, rfl⟩ hne

/-- An array and a class join in an interface of arrays or in the root class. -/
theorem isJoin_arrayClass (hs : cp.RootedNode (.array dims s)) (hd : cp.Rooted d) :
    cp.nodes.IsJoin (.array dims s) (.cls d) (cp.arrayClassJoin d) := by
  obtain ⟨c, hc⟩ := hd.complete d .refl
  have hsub : cp.SubNode (.array dims s) (.cls d) ↔
      d = objectClass ∨ (c.isInterface && arrayImplements d) = true := by
    rw [Bool.and_eq_true]
    exact or_congr_right (and_congr_left fun _ => isInterface_iff hc.defined)
  simp only [arrayClassJoin, hc.defined]
  split
  · next h => exact .of_le hs hd (hsub.2 (.inr h))
  next h =>
  by_cases ho : d = objectClass
  · cases ho
    exact .of_le hs hd (.inl rfl)
  refine .of_incomparable hd.object hd.not_isInterface_object (fun h' => ?_) (fun h' => h'.elim)
    (.inl rfl) (.inl hd.root) fun {u} hu hsolid hsu hdu => ?_
  · exact (hsub.1 h').elim ho h
  cases u with
  | cls u =>
    cases eq_object_of_subNode hsu hsolid
    exact .inl .refl
  | _ => exact hdu.elim

/-- The join of two arrays is found. -/
theorem RootedNode.arrayJoin (hobject : cp.Rooted objectClass)
    (hs : cp.RootedNode (.array dims s)) (ht : cp.RootedNode (.array dims' t)) :
    ∃ k, Yields cp.Exact (cp.arrayJoin dims s dims' t) (· = .ok k) ∧
      cp.nodes.IsJoin (.array dims s) (.array dims' t) k := by
  unfold ClassPath.arrayJoin
  split
  · next hprimitive =>
    by_cases heq : dims = dims' ∧ s = t
    · obtain ⟨rfl, rfl⟩ := heq
      rw [if_pos ⟨rfl, rfl⟩]
      exact ⟨_, .pure rfl, .of_le hs hs SubArray.refl⟩
    · rw [if_neg heq]
      exact ⟨_, .pure rfl, isJoin_primitive hobject (Bool.or_eq_true_iff.1 hprimitive) heq⟩
  next hprimitive =>
  obtain ⟨hs', ht'⟩ := Bool.or_eq_false_iff.1 (Bool.not_eq_true _ ▸ hprimitive)
  have hrs : cp.Rooted s := Rooted.element hs hs'
  have hrt : cp.Rooted t := Rooted.element ht ht'
  by_cases hdims : dims = dims'
  · cases hdims
    rw [if_pos rfl]
    obtain ⟨n, hjoin, hisJoin⟩ := hrs.classJoin hrt
    have hns : TypeNode.ofDescriptor s = .ok (.cls s) := hrs.named
    have hnt : TypeNode.ofDescriptor t = .ok (.cls t) := hrt.named
    simp only [hns, hnt]
    exact ⟨_, hjoin.bind_ok (.pure rfl), isJoin_elements hrs hrt hisJoin⟩
  · rw [if_neg hdims]
    refine ⟨_, .pure rfl, ?_⟩
    rcases Nat.lt_or_gt_of_ne hdims with hlt | hlt
    · rw [Nat.min_eq_left (Nat.le_of_lt hlt)]
      exact isJoin_dims hrs hrt hlt
    · rw [Nat.min_eq_right (Nat.le_of_lt hlt)]
      exact (isJoin_dims hrt hrs hlt).symm

/-- The join of two rooted nodes is found, and is their join in the order of nodes. -/
theorem RootedNode.commonSuperclass {p q : TypeNode} (hobject : cp.Rooted objectClass)
    (hp : cp.RootedNode p) (hq : cp.RootedNode q) :
    ∃ k, Yields cp.Exact (cp.commonSuperclass p q) (· = .ok k) ∧ cp.nodes.IsJoin p q k := by
  cases p with
  | primitive d => exact hp.elim
  | unknown => exact hp.elim
  | cls a =>
    cases q with
    | primitive d => exact hq.elim
    | unknown => exact hq.elim
    | cls b =>
      obtain ⟨n, hjoin, hisJoin⟩ := Rooted.classJoin hp hq
      exact ⟨_, hjoin, isJoin_cls hisJoin⟩
    | array dims s => exact ⟨_, .pure rfl, (isJoin_arrayClass hq hp).symm⟩
  | array dims s =>
    cases q with
    | primitive d => exact hq.elim
    | unknown => exact hq.elim
    | cls b => exact ⟨_, .pure rfl, isJoin_arrayClass hp hq⟩
    | array dims' t => exact RootedNode.arrayJoin hobject hp hq

end Joins

end ClassPath

end Dalvik
