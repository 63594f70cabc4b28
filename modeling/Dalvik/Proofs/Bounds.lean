import Dalvik.Proofs.Edges
import Dalvik.Proofs.Subtypes

/-!
# Common superclasses are upper bounds

The common superclass of two types is above both in the deep order.  In the order that compares
arrays of the same dimensions only, it is so too, unless two arrays are over classes that are both
declared below an array or a primitive type (`ClassPath.JoinsDeeper`).  If all superclasses and
interfaces are classes, this does not happen, whatever is missing or declared in a circle.
-/

namespace Dalvik

/-- A named array is over a class or the unknown class, unless its element is primitive. -/
theorem TypeNode.isClass_of_element {dims : Nat} {elem : String} {n : TypeNode}
    (harray : TypeNode.Named (.array dims elem))
    (helem : ClassPath.isPrimitiveElement elem = false) (hn : ofDescriptor elem = .ok n) :
    n.IsClass := by
  cases n with
  | cls d => trivial
  | unknown => trivial
  | primitive d => cases helem.symm.trans (isPrimitiveElement_of_ofDescriptor hn)
  | array dims' elem' =>
    -- the element of an array does not start with a bracket
    obtain ⟨hpos, _⟩ := named_array_iff.1 (named_of_ofDescriptor hn)
    obtain ⟨k, rfl⟩ := Nat.exists_eq_add_one.2 hpos
    have hhead : elem.toList.head? = some '[' := by
      rw [← descriptor_of_ofDescriptor hn, descriptor, arrayDescriptor, String.toList_ofList,
        List.replicate_succ]
      rfl
    exact absurd hhead (named_array_iff.1 harray).2.2

theorem TypeNode.IsClass.isElement {n : TypeNode} (h : n.IsClass) (hn : n.Named) :
    n.IsElement := by
  cases n with
  | cls d => exact ⟨rfl, isPrimitiveElement_of_named hn⟩
  | unknown => exact ⟨rfl, by decide⟩
  | primitive d => exact h.elim
  | array dims elem => exact h.elim

namespace ClassPath

variable {cp : ClassPath} {p q r x y : TypeNode} {m m' : Memo}

/-- If all superclasses and interfaces are classes, only classes are above a class. -/
theorem Below.isClass (hcp : cp.ClassesOnly) {deep : Bool} (h : cp.Below deep x y)
    (hx : x.IsClass ∧ x.Named) : y.IsClass ∧ y.Named := by
  induction h with
  | refl => exact hx
  | trans _ _ ihab ihbc => exact ihbc (ihab hx)
  | superclass hd hs hn =>
    obtain ⟨name, hname⟩ := hcp _ _ _ hd (.inl hs)
    cases hname.symm.trans hn
    exact ⟨trivial, TypeNode.named_of_ofDescriptor hn⟩
  | interface hd ht hn =>
    obtain ⟨name, hname⟩ := hcp _ _ _ hd (.inr ht)
    cases hname.symm.trans hn
    exact ⟨trivial, TypeNode.named_of_ofDescriptor hn⟩
  | object => exact ⟨trivial, TypeNode.named_object⟩
  | unknown => exact ⟨trivial, rfl⟩
  | element | objects | cloneable | serializable => exact hx.1.elim

/-- Two arrays over classes that are both below something which is no element of an array of the
same dimensions, and the array over that. -/
inductive JoinsDeeper (cp : ClassPath) : TypeNode → TypeNode → TypeNode → Prop where
  | intro {dims : Nat} {elem elem' : String} {x y k : TypeNode}
    (helem : isPrimitiveElement elem = false) (helem' : isPrimitiveElement elem' = false)
    (hx : TypeNode.ofDescriptor elem = .ok x) (hy : TypeNode.ofDescriptor elem' = .ok y)
    (hxk : cp.Below false x k) (hyk : cp.Below false y k) (hk : ¬ k.IsElement) :
    JoinsDeeper cp (.array dims elem) (.array dims elem') (.arrayOf dims k)

theorem not_joinsDeeper (hcp : cp.ClassesOnly) (hp : p.Named) : ¬ cp.JoinsDeeper p q r := by
  rintro ⟨helem, _, hx, _, hxk, _, hk⟩
  have hclass := TypeNode.isClass_of_element hp helem hx
  obtain ⟨hkclass, hknamed⟩ := hxk.isClass hcp ⟨hclass, TypeNode.named_of_ofDescriptor hx⟩
  exact hk (hkclass.isElement hknamed)

theorem Elementwise.below_or_deeper (h : cp.Elementwise p q r) :
    cp.Below false p r ∧ cp.Below false q r ∨ cp.JoinsDeeper p q r := by
  cases h with
  | @intro dims elem elem' x y k helem helem' hx hy hbounds =>
    obtain ⟨hxk, hyk, _⟩ := hbounds false
    by_cases hk : k.IsElement
    · exact .inl ⟨.element helem hx (.inr hk) hxk, .element helem' hy (.inr hk) hyk⟩
    · exact .inr (.intro helem helem' hx hy hxk hyk hk)

/-- The common superclass of two types is above both. -/
theorem commonSuperclass_above (hm : cp.Asked .empty m) (hp : p.Named) (hq : q.Named)
    (h : cp.commonSuperclass p q m = .ok r m') :
    (cp.Below true p r ∧ cp.Below true q r) ∧
      (cp.Below false p r ∧ cp.Below false q r ∨ cp.JoinsDeeper p q r) ∧
      (cp.ClassesOnly → cp.Below false p r ∧ cp.Below false q r) := by
  have hsound := soundInterfaces_of_asked hm
  have hdeep := bounds_commonSuperclass h hsound hp hq
  have hor : cp.Below false p r ∧ cp.Below false q r ∨ cp.JoinsDeeper p q r := by
    obtain hbounds | helementwise := commonSuperclass_ok h hsound hp hq
    · exact .inl ⟨(hbounds false).1, (hbounds false).2.1⟩
    · exact helementwise.below_or_deeper
  refine ⟨⟨hdeep.1, hdeep.2.1⟩, hor, fun hcp => ?_⟩
  exact hor.resolve_right (not_joinsDeeper hcp hp)

theorem tangled_join :
    ∃ r m', tangled.commonSuperclass (.array 1 "LJ;") (.array 1 "LI;")
      (tangled.remembered tangledHistory) = .ok r m' ∧ r = .array 1 "LJ;" := by
  decide +kernel

/-- Of two interfaces that extend each other, each is above the other, and so are their arrays. -/
theorem tangled_join_above :
    ∃ m', tangled.commonSuperclass (.array 1 "LJ;") (.array 1 "LI;")
        (tangled.remembered tangledHistory) = .ok (.array 1 "LJ;") m' ∧ tangled.ClassesOnly ∧
      tangled.Below false (.array 1 "LI;") (.array 1 "LJ;") := by
  obtain ⟨_, m', h, rfl⟩ := tangled_join
  have hJ : TypeNode.Named (.array 1 "LJ;") := rfl
  have hI : TypeNode.Named (.array 1 "LI;") := rfl
  have habove := commonSuperclass_above (tangled.asked_remembered tangledHistory) hJ hI h
  exact ⟨m', h, classesOnly_tangled, (habove.2.2 classesOnly_tangled).2⟩

theorem arrayChildren_join :
    ∃ r m', Analysis.arrayChildren.commonSuperclass (.array 1 "LA;") (.array 1 "LB;") .empty =
      .ok r m' ∧ r = .array 2 "LF;" := by
  decide +kernel

/-- The arrays over two classes below an array join to an array of arrays, which is not above them
in the order that compares arrays of the same dimensions. -/
theorem arrayChildren_join_not_above :
    ∃ r m', Analysis.arrayChildren.commonSuperclass (.array 1 "LA;") (.array 1 "LB;") .empty =
        .ok r m' ∧ r = .array 2 "LF;" ∧
      ¬ Analysis.arrayChildren.Below false (.array 1 "LA;") r ∧
      ¬ Analysis.arrayChildren.Below false (.array 1 "LB;") r := by
  obtain ⟨r, m', h, rfl⟩ := arrayChildren_join
  refine ⟨_, m', h, rfl, fun hbelow => ?_, fun hbelow => ?_⟩
  · exact absurd (Analysis.arrayChildren_dims_le hbelow (Nat.le_refl 1)) (by decide)
  · exact absurd (Analysis.arrayChildren_dims_le hbelow (Nat.le_refl 1)) (by decide)

end ClassPath

end Dalvik
