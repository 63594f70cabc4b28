import Dalvik.Proofs.Inheritance

/-!
# The names of members

An odexed access gives the offset of a field or the index of a method, and its standard form names
the member.  The name is right if the class in it may be named, and if what stands at the place is
called that, both in the class in the name and in the class of the receiver.

Methods are named right.  Fields are named right but for one case: a class that is declared below
an array, with a field where an array has its length.  If neither the class nor one above it may
be named, the array is taken, and the access becomes one to the length of the array.
-/

namespace Dalvik

/-! ## Definitions -/

/-- No type is written like the unknown class. -/
theorem Ty.head?_chars (t : Ty) : t.chars.head? ≠ some 'U' := by
  induction t with
  | array dims elem ih =>
    cases dims with
    | zero => exact ih
    | succ n => simp [chars, List.replicate_succ]
  | _ => simp [chars]

namespace ClassPath

variable {cp : ClassPath} {m m' : Memo} {n : TypeNode} {d : String} {place : Nat}

/-- All definitions are found under their own descriptors. -/
def Keyed (cp : ClassPath) : Prop := ∀ d c, cp.def? d = some c → c.descriptor = d

/-- Every class path that is built from definitions is keyed. -/
theorem keyed_ofClasses (classes : List ClassDef) (level : Nat) (check : Bool) :
    ((ofClasses classes level).withPackageCheck check).Keyed := by
  intro d c h
  obtain ⟨before, rest, hdefs, _⟩ := List.lookup_eq_some_iff.1 h
  have hmem : (d, c) ∈ (classes ++ CoreClasses.all).map fun c => (c.descriptor, c.flat) := by
    show (d, c) ∈ ((ofClasses classes level).withPackageCheck check).defs
    simp [hdefs]
  obtain ⟨c', _, hc⟩ := List.mem_map.1 hmem
  cases hc
  rfl

/-- The unknown class is never defined. -/
theorem Keyed.def?_unknown (hcp : cp.Keyed) : cp.def? unknownClass = none := by
  cases h : cp.def? unknownClass with
  | none => rfl
  | some c =>
    have hchars : c.ty.chars = unknownClass.toList := by
      rw [← hcp unknownClass c h, ClassDef.descriptor, Ty.descriptor, String.toList_ofList]
    exact absurd (congrArg List.head? hchars) (Ty.head?_chars c.ty)

/-! ## Looking members up -/

/-- The class whose layout the objects of a node have. -/
def fieldHolder? : TypeNode → Option String
  | .cls d => some d
  | .unknown => some objectClass
  | .array _ _ | .primitive _ => none

/-- The class whose vtable the objects of a node have. -/
def methodHolder? : TypeNode → Option String
  | .cls d => some d
  | .array _ _ | .unknown => some objectClass
  | .primitive _ => none

theorem fieldAt?_eq (h : fieldHolder? n = some d) (offset : Nat) :
    cp.fieldAt? n offset = (do return (← cp.layoutOf d).fieldAt? offset) := by
  cases n <;> cases h <;> rfl

theorem methodAt?_eq (h : methodHolder? n = some d) (index : Nat) :
    cp.methodAt? n index = (do return (← cp.vtableOf d).slots[index]?) := by
  cases n <;> cases h <;> rfl

/-- A field that is found at an offset is in the remembered layout. -/
theorem fieldAt?_ok {f? : Option FieldRef} (hn : fieldHolder? n = some d)
    (h : cp.fieldAt? n place m = .ok f? m') :
    ∃ l, m'.layouts.lookup d = some l ∧ l.fieldAt? place = f? := by
  rw [fieldAt?_eq hn] at h
  obtain ⟨l, m₁, hl, h⟩ := bind_ok.1 h
  cases h
  rw [layoutOf, layoutFrom_eq] at hl
  exact ⟨l, known_of_recalled (fun _ _ => List.lookup_cons_self) hl, rfl⟩

/-- A remembered layout tells the field at an offset. -/
theorem fieldAt?_of_lookup {l : Layout} (hn : fieldHolder? n = some d)
    (hl : m.layouts.lookup d = some l) : cp.fieldAt? n place m = .ok (l.fieldAt? place) m := by
  have hl' : cp.layoutOf d m = .ok l m := by
    rw [layoutOf, layoutFrom_eq]
    exact recalled_of_known hl
  rw [fieldAt?_eq hn, bind_apply, hl']
  rfl

/-- A method that is found at an index is in the remembered vtable. -/
theorem methodAt?_ok {slot? : Option Slot} (hn : methodHolder? n = some d)
    (h : cp.methodAt? n place m = .ok slot? m') :
    ∃ v, m'.vtables.lookup d = some v ∧ v.slots[place]? = slot? := by
  rw [methodAt?_eq hn] at h
  obtain ⟨v, m₁, hv, h⟩ := bind_ok.1 h
  cases h
  rw [vtableOf, vtableFrom_eq] at hv
  exact ⟨v, known_of_recalled (fun _ _ => List.lookup_cons_self) hv, rfl⟩

/-- A remembered vtable tells the method at an index. -/
theorem methodAt?_of_lookup {v : Vtable} (hn : methodHolder? n = some d)
    (hv : m.vtables.lookup d = some v) : cp.methodAt? n place m = .ok v.slots[place]? m := by
  have hv' : cp.vtableOf d m = .ok v m := by
    rw [vtableOf, vtableFrom_eq]
    exact recalled_of_known hv
  rw [methodAt?_eq hn, bind_apply, hv']
  rfl

/-- What was found at a place is found there again. -/
theorem fieldAt?_again {f? : Option FieldRef} (h : cp.fieldAt? n place m = .ok f? m') :
    cp.fieldAt? n place m' = .ok f? m' := by
  have byClass {d : String} (hn : fieldHolder? n = some d) :
      cp.fieldAt? n place m' = .ok f? m' := by
    obtain ⟨l, hl, rfl⟩ := fieldAt?_ok hn h
    exact fieldAt?_of_lookup hn hl
  cases n with
  | cls d => exact byClass rfl
  | unknown => exact byClass rfl
  | array dims elem =>
    cases h
    rfl
  | primitive d =>
    cases h
    rfl

/-- The method at an index is the same if it is asked for again. -/
theorem methodAt?_again {slot? : Option Slot} (h : cp.methodAt? n place m = .ok slot? m') :
    cp.methodAt? n place m' = .ok slot? m' := by
  have byClass {d : String} (hn : methodHolder? n = some d) :
      cp.methodAt? n place m' = .ok slot? m' := by
    obtain ⟨v, hv, rfl⟩ := methodAt?_ok hn h
    exact methodAt?_of_lookup hn hv
  cases n with
  | cls d => exact byClass rfl
  | unknown => exact byClass rfl
  | array dims elem => exact byClass rfl
  | primitive d =>
    cases h
    rfl

/-- The only field of an array is its length. -/
theorem fieldAt?_array_ok {dims : Nat} {elem : String} {f : FieldRef}
    (hn : TypeNode.Named (.array dims elem))
    (h : cp.fieldAt? (.array dims elem) place m = .ok (some f) m') :
    TypeNode.ofTy f.definer = .ok (.array dims elem) ∧ f.name = "length" ∧ f.ty = .int := by
  have hfield : arrayField? dims elem place = some f := (EStateM.Result.ok.inj h).1
  unfold arrayField? at hfield
  split at hfield
  · obtain ⟨t, ht, rfl⟩ := Option.map_eq_some_iff.1 hfield
    refine ⟨?_, rfl, rfl⟩
    rw [TypeNode.ofTy, Ty.descriptor, Ty.chars_of_ofChars? ht, String.ofList_toList]
    exact hn
  · cases hfield

/-- A member is found again in the class that its name has. -/
theorem owner_of_member? {α β : Type} {T : Table α β} {answers : List (String × α)} {a : α} {x : β}
    (hcp : cp.Keyed) (hm : T.Inherited cp answers) (hd : TypeNode.Named (.cls d))
    (ha : answers.lookup d = some a) (hx : T.member? a place = some x) :
    ∃ owner own, TypeNode.ofTy (T.definer x) = .ok (.cls owner) ∧
      answers.lookup owner = some own ∧ T.member? own place = some x := by
  obtain ⟨owner, c, own, howner, hc, hdefiner, hown, hx⟩ := (hm d a ha).owned hx
  have hnamed : TypeNode.Named (.cls owner) := howner.elim (fun h => h ▸ hd) id
  refine ⟨owner, own, ?_, hown, hx⟩
  have hdescriptor : (T.definer x).descriptor = owner := by
    rw [hdefiner]
    exact hcp owner c hc
  rw [TypeNode.ofTy, hdescriptor]
  exact hnamed

/-- The objects of a node are known to have a field of a name and a type at an offset. -/
def HasField (cp : ClassPath) (m : Memo) (n : TypeNode) (offset : Nat) (name : String) (ty : Ty) :
    Prop :=
  ∃ f, cp.fieldAt? n offset m = .ok (some f) m ∧ f.name = name ∧ f.ty = ty

/-- The objects of a node are known to have a method of a signature at an index. -/
def HasMethod (cp : ClassPath) (m : Memo) (n : TypeNode) (index : Nat) (method : MethodRef) :
    Prop :=
  ∃ slot, cp.methodAt? n index m = .ok (some slot) m ∧ slot.method.sameSignature method = true

end ClassPath

/-! ## Classes that may be named -/

namespace Analysis.Subject

variable {s : Subject} {n k : TypeNode} {d : String} {m m' : Memo}

/-- What may be named in the analysed class: arrays, public classes and the classes of its
package. -/
def Accessible (s : Subject) : TypeNode → Prop
  | .array _ _ => True
  | n => ∃ c, s.classPath.def? n.descriptor = some c ∧
    (c.isPublic = true ∨ c.package = s.cls.package)

/-- Arrays are seen from everywhere. -/
theorem sees_array {dims : Nat} {elem : String} (h : TypeNode.Named (.array dims elem)) :
    s.sees (TypeNode.array dims elem).descriptor = .ok true := by
  obtain ⟨hdims, _⟩ := TypeNode.named_array_iff.1 h
  unfold sees
  rw [if_pos]
  obtain ⟨k, rfl⟩ := Nat.exists_eq_add_one.2 hdims
  simp [TypeNode.descriptor, TypeNode.arrayDescriptor, List.replicate_succ]

/-- What is seen may be named. -/
theorem accessible_of_sees (hn : n.Named) (h : s.sees n.descriptor = .ok true) :
    s.Accessible n := by
  obtain ⟨dims, elem, rfl, _⟩ | ⟨hne, htext⟩ := TypeNode.isElementText_of_ofDescriptor hn
  · trivial
  · unfold sees at h
    rw [if_neg htext.2] at h
    obtain ⟨c, hc, hseen⟩ := except_map_ok.1 h
    have hdef : s.classPath.def? n.descriptor = some c := by
      unfold ClassPath.classDef at hc
      split at hc
      · next hdef =>
        cases hc
        exact hdef
      · cases hc
    have haccess : c.isPublic = true ∨ c.package = s.cls.package := by
      simpa only [Bool.or_eq_true, beq_iff_eq] using hseen
    cases n with
    | array dims elem => trivial
    | primitive d => exact ⟨c, hdef, haccess⟩
    | unknown => exact ⟨c, hdef, haccess⟩
    | cls d => exact ⟨c, hdef, haccess⟩

theorem not_accessible_unknown (hcp : s.classPath.Keyed) : ¬ s.Accessible .unknown := by
  rintro ⟨c, hc, _⟩
  have hc' : s.classPath.def? unknownClass = some c := hc
  rw [hcp.def?_unknown] at hc'
  cases hc'

/-- The way to the first class that is seen only leads through classes. -/
theorem up_of_firstSeen {origin : String} {met : List String} {chain : List TypeNode}
    (hn : n.Named) (hchain : s.classPath.walkUp origin met n = .ok chain)
    (h : s.firstSeen chain = .ok (some k)) :
    s.classPath.Up n k ∧ k.Named ∧ s.Accessible k := by
  fun_induction ClassPath.walkUp s.classPath origin met n generalizing chain with
  | case1 => cases hchain
  | case2 => cases hchain
  | case3 met n hmet hparent =>
    cases hchain
    obtain ⟨seen, hseen, h⟩ := except_bind_ok.1 h
    cases seen with
    | true =>
      cases h
      exact ⟨.refl _, hn, accessible_of_sees hn hseen⟩
    | false => cases h
  | case4 => cases hchain
  | case5 met n hmet parent hparent chain' hchain' ih =>
    cases hchain
    obtain ⟨seen, hseen, h⟩ := except_bind_ok.1 h
    cases seen with
    | true =>
      cases h
      exact ⟨.refl _, hn, accessible_of_sees hn hseen⟩
    | false =>
      obtain ⟨hup, hnamed, hseen'⟩ := ih (ClassPath.named_of_parent? hparent) hchain' h
      refine ⟨?_, hnamed, hseen'⟩
      cases n with
      | cls d => exact .step hparent hup
      | array dims elem =>
        rw [sees_array hn] at hseen
        cases hseen
      | primitive d => cases hparent
      | unknown => cases hparent

theorem cons_tail_of_walkUp {cp : ClassPath} {origin : String} {met : List String}
    {chain : List TypeNode} (h : cp.walkUp origin met n = .ok chain) : n :: chain.tail = chain := by
  unfold ClassPath.walkUp at h
  split at h
  · cases h
  split at h
  · cases h
  · cases h
    rfl
  · split at h
    · cases h
    · cases h
      rfl

/-- The first visible class above a node is above it and may be named. -/
theorem up_of_visibleAbove (hn : n.Named) (h : s.visibleAbove n = .ok (some k)) :
    s.classPath.Up n k ∧ k.Named ∧ s.Accessible k := by
  unfold visibleAbove at h
  obtain ⟨above, habove, h⟩ := except_bind_ok.1 h
  obtain ⟨chain, hchain, rfl⟩ := except_map_ok.1 habove
  rw [cons_tail_of_walkUp hchain] at h
  exact up_of_firstSeen hn hchain h

/-! ## Inversions -/

theorem tyOfNode_ok {t : Ty} (hn : n.Named) (h : tyOfNode n m = .ok t m') :
    TypeNode.ofTy t = .ok n ∧ m' = m := by
  unfold tyOfNode at h
  cases hread : Ty.read n.descriptor with
  | ok t' =>
    simp only [hread] at h
    cases h
    rw [TypeNode.ofTy, Ty.descriptor_of_read hread]
    exact ⟨hn, rfl⟩
  | error e =>
    simp only [hread] at h
    cases h

/-- A field is named as it was found, or through the nearest class that may be named. -/
theorem fieldAt_ok {offset : Nat} {f : FieldRef} (hn : n.Named)
    (h : s.fieldAt n offset m = .ok f m') :
    ∃ found m₁, s.classPath.fieldAt? n offset m = .ok (some found) m₁ ∧
      (s.sees found.definer.descriptor = .ok true ∧ f = found ∧ m' = m₁ ∨
      s.sees found.definer.descriptor = .ok false ∧ ∃ definer g,
        s.classPath.Up n definer ∧ definer.Named ∧ s.Accessible definer ∧
        s.classPath.fieldAt? definer offset m₁ = .ok (some g) m' ∧
        TypeNode.ofTy f.definer = .ok definer ∧ f.name = g.name ∧ f.ty = g.ty) := by
  unfold Subject.fieldAt at h
  obtain ⟨found?, m₁, hfound, h⟩ := bind_ok.1 h
  replace hfound := Rule.ask_ok.1 hfound
  cases found? with
  | none => cases h
  | some found =>
    obtain ⟨seen, m₂, hknown, h⟩ := bind_ok.1 h
    obtain ⟨hseen, rfl⟩ := Rule.known_ok.1 hknown
    cases seen with
    | true =>
      cases h
      exact ⟨_, _, hfound, .inl ⟨hseen, rfl, rfl⟩⟩
    | false =>
      obtain ⟨definer?, m₃, habove, h⟩ := bind_ok.1 h
      obtain ⟨hdefiner, rfl⟩ := Rule.known_ok.1 habove
      cases definer? with
      | none => cases h
      | some definer =>
        obtain ⟨hup, hnamed, haccess⟩ := up_of_visibleAbove hn hdefiner
        obtain ⟨g?, m₄, hg, h⟩ := bind_ok.1 h
        replace hg := Rule.ask_ok.1 hg
        cases g? with
        | none => cases h
        | some g =>
          obtain ⟨t, m₅, hty, hpure⟩ := bind_ok.1 h
          obtain ⟨ht, rfl⟩ := tyOfNode_ok hnamed hty
          cases hpure
          exact ⟨_, _, hfound,
            .inr ⟨hseen, definer, g, hup, hnamed, haccess, hg, ht, rfl, rfl⟩⟩

theorem slotAt_ok {receiver : TypeNode} {index : Nat} {slot : Slot} :
    s.slotAt n receiver index m = .ok slot m' ↔
      s.classPath.methodAt? n index m = .ok (some slot) m' := by
  unfold slotAt
  constructor
  · intro h
    obtain ⟨slot?, m₁, hslot, h⟩ := bind_ok.1 h
    replace hslot := Rule.ask_ok.1 hslot
    cases slot? with
    | none => cases h
    | some slot =>
      cases h
      exact hslot
  · intro h
    exact bind_ok.2 ⟨some slot, m', Rule.ask_ok.2 h, rfl⟩

/-- Methods are named in the same way. -/
theorem methodAt_ok {index : Nat} {f : MethodRef} (hn : n.Named)
    (h : s.methodAt n index m = .ok f m') :
    ∃ found m₁, s.classPath.methodAt? n index m = .ok (some found) m₁ ∧
      (s.sees found.method.definer.descriptor = .ok true ∧ f = found.method ∧ m' = m₁ ∨
      s.sees found.method.definer.descriptor = .ok false ∧ ∃ definer slot,
        s.classPath.Up n definer ∧ definer.Named ∧ s.Accessible definer ∧
        s.classPath.methodAt? definer index m₁ = .ok (some slot) m' ∧
        TypeNode.ofTy f.definer = .ok definer ∧ slot.method.sameSignature f = true) := by
  unfold Subject.methodAt at h
  obtain ⟨found, m₁, hfound, h⟩ := bind_ok.1 h
  replace hfound := slotAt_ok.1 hfound
  obtain ⟨seen, m₂, hknown, h⟩ := bind_ok.1 h
  obtain ⟨hseen, rfl⟩ := Rule.known_ok.1 hknown
  cases seen with
  | true =>
    cases h
    exact ⟨_, _, hfound, .inl ⟨hseen, rfl, rfl⟩⟩
  | false =>
    obtain ⟨definer?, m₃, habove, h⟩ := bind_ok.1 h
    obtain ⟨hdefiner, rfl⟩ := Rule.known_ok.1 habove
    cases definer? with
    | none => cases h
    | some definer =>
      obtain ⟨hup, hnamed, haccess⟩ := up_of_visibleAbove hn hdefiner
      obtain ⟨slot?, m₄, hslot, h⟩ := bind_ok.1 h
      replace hslot := Rule.ask_ok.1 hslot
      cases slot? with
      | none => cases h
      | some slot =>
        obtain ⟨t, m₅, hty, hpure⟩ := bind_ok.1 h
        obtain ⟨ht, rfl⟩ := tyOfNode_ok hnamed hty
        cases hpure
        exact ⟨_, _, hfound, .inr ⟨hseen, definer, slot, hup, hnamed, haccess, hslot, ht,
          MethodRef.sameSignature_iff.2 ⟨rfl, rfl, rfl⟩⟩⟩

/-! ## Names -/

theorem accessible_of_ofTy {t : Ty} (hn : TypeNode.ofTy t = .ok n)
    (h : s.sees t.descriptor = .ok true) : s.Accessible n := by
  rw [← TypeNode.descriptor_of_ofDescriptor hn] at h
  exact accessible_of_sees (TypeNode.named_of_ofDescriptor hn) h

theorem asked_of_fieldAt? {place : Nat} {f? : Option FieldRef}
    (h : s.classPath.fieldAt? n place m = .ok f? m') : s.classPath.Asked m m' :=
  Triple.ok ((s.classPath.asked_keptBy m).fieldAt? n place) .refl h

theorem asked_of_methodAt? {place : Nat} {slot? : Option Slot}
    (h : s.classPath.methodAt? n place m = .ok slot? m') : s.classPath.Asked m m' :=
  Triple.ok ((s.classPath.asked_keptBy m).methodAt? n place) .refl h

open ClassPath Table

/-- A field whose class may be named is named through its class. -/
theorem field_of_seen {offset : Nat} {f : FieldRef} (hcp : s.classPath.Keyed)
    (hm : s.classPath.Asked .empty m') (hn : n.Named)
    (hf : s.classPath.fieldAt? n offset m = .ok (some f) m')
    (hseen : s.sees f.definer.descriptor = .ok true) :
    ∃ definer, TypeNode.ofTy f.definer = .ok definer ∧ s.Accessible definer ∧
      s.classPath.HasField m' definer offset f.name f.ty := by
  have byClass {d : String} (hholder : fieldHolder? n = some d) (hd : TypeNode.Named (.cls d)) :
      ∃ definer, TypeNode.ofTy f.definer = .ok definer ∧ s.Accessible definer ∧
        s.classPath.HasField m' definer offset f.name f.ty := by
    obtain ⟨l, hl, hf⟩ := fieldAt?_ok hholder hf
    obtain ⟨owner, own, hty, hown, hf⟩ := owner_of_member? hcp (inherited_fields hm) hd hl hf
    refine ⟨.cls owner, hty, accessible_of_ofTy hty hseen, f, ?_, rfl, rfl⟩
    rw [fieldAt?_of_lookup rfl hown]
    exact congrArg (EStateM.Result.ok · m') hf
  cases n with
  | cls d => exact byClass rfl hn
  | unknown => exact byClass rfl TypeNode.named_object
  | array dims elem =>
    obtain ⟨hty, _, _⟩ := fieldAt?_array_ok hn hf
    exact ⟨.array dims elem, hty, trivial, f, fieldAt?_again hf, rfl, rfl⟩
  | primitive d => cases hf

/-- A field is named right, unless it is named through an array that its class is below. -/
theorem field_of_fieldAt {offset : Nat} {f : FieldRef} (hcp : s.classPath.Keyed)
    (hm : s.classPath.Asked .empty m) (hn : n.Named) (h : s.fieldAt n offset m = .ok f m') :
    ∃ definer, TypeNode.ofTy f.definer = .ok definer ∧ s.Accessible definer ∧
      s.classPath.HasField m' definer offset f.name f.ty ∧
      (s.classPath.HasField m' n offset f.name f.ty ∨
        (∃ dims elem, definer = .array dims elem) ∧ ∀ dims elem, n ≠ .array dims elem) := by
  obtain ⟨found, m₁, hfound, ⟨hseen, rfl, rfl⟩ | ⟨hunseen, definer, g, hup, hnamed, haccess, hg,
    hty, hname, htype⟩⟩ := fieldAt_ok hn h
  · have hm' := hm.trans (asked_of_fieldAt? hfound)
    obtain ⟨definer, hty, haccess, hfield⟩ := field_of_seen hcp hm' hn hfound hseen
    exact ⟨definer, hty, haccess, hfield, .inl ⟨f, fieldAt?_again hfound, rfl, rfl⟩⟩
  have hm₁ := asked_of_fieldAt? hg
  have hm' := (hm.trans (asked_of_fieldAt? hfound)).trans hm₁
  refine ⟨definer, hty, haccess, ⟨g, fieldAt?_again hg, hname.symm, htype.symm⟩, ?_⟩
  cases n with
  | primitive d => cases hfound
  | array dims elem =>
    obtain ⟨hfoundTy, _, _⟩ := fieldAt?_array_ok hn hfound
    rw [← TypeNode.descriptor_of_ofDescriptor hfoundTy, sees_array hn] at hunseen
    cases hunseen
  | unknown =>
    cases hup
    exact absurd haccess (not_accessible_unknown hcp)
  | cls d =>
    obtain ⟨l, hl, _⟩ := fieldAt?_ok rfl hfound
    have hl' := (within_of_asked hm₁).layouts hl
    obtain ⟨e, b, hb, hmembers, rfl | ⟨_, hne⟩⟩ :=
      (inherited_fields hm').last_of_up hup hl' id
    · obtain ⟨b', hb', hg⟩ := fieldAt?_ok rfl hg
      cases hb.symm.trans hb'
      obtain ⟨x, hx, hsame⟩ := hmembers offset g hg
      refine .inl ⟨x, ?_, hsame.1.trans hname.symm, hsame.2.trans htype.symm⟩
      rw [fieldAt?_of_lookup rfl hl']
      exact congrArg (EStateM.Result.ok · m') hx
    · cases definer with
      | cls e => exact absurd rfl (hne e)
      | primitive d => cases hg
      | unknown => exact absurd haccess (not_accessible_unknown hcp)
      | array dims elem => exact .inr ⟨⟨dims, elem, rfl⟩, nofun⟩

/-- The name of a field is wrong only if it is named through an array, and is not called like the
length of one. -/
theorem field_iff {definer : TypeNode} {offset : Nat} {f : FieldRef}
    (hty : TypeNode.ofTy f.definer = .ok definer)
    (hdefiner : s.classPath.HasField m definer offset f.name f.ty)
    (hfield : s.classPath.HasField m n offset f.name f.ty ∨
      (∃ dims elem, definer = .array dims elem) ∧ ∀ dims elem, n ≠ .array dims elem) :
    s.classPath.HasField m n offset f.name f.ty ↔
      ((∃ dims elem, definer = .array dims elem) → (∃ dims elem, n = .array dims elem) ∨
        s.classPath.HasField m n offset "length" .int) := by
  have hlength (harray : ∃ dims elem, definer = .array dims elem) :
      f.name = "length" ∧ f.ty = .int := by
    obtain ⟨dims, elem, rfl⟩ := harray
    obtain ⟨g, hg, hname, htype⟩ := hdefiner
    obtain ⟨_, hname', htype'⟩ := fieldAt?_array_ok (TypeNode.named_of_ofDescriptor hty) hg
    exact ⟨hname.symm.trans hname', htype.symm.trans htype'⟩
  constructor
  · intro hn harray
    obtain ⟨hname, htype⟩ := hlength harray
    rw [hname, htype] at hn
    exact .inr hn
  · intro hcond
    obtain hn | ⟨harray, hne⟩ := hfield
    · exact hn
    · obtain ⟨hname, htype⟩ := hlength harray
      obtain ⟨dims, elem, hn⟩ | hn := hcond harray
      · exact absurd hn (hne dims elem)
      · rwa [hname, htype]

/-- A method whose class is seen is found in this class under the same index. -/
theorem method_of_seen {index : Nat} {slot : Slot} (hcp : s.classPath.Keyed)
    (hm : s.classPath.Asked .empty m') (hn : n.Named)
    (hslot : s.classPath.methodAt? n index m = .ok (some slot) m')
    (hseen : s.sees slot.method.definer.descriptor = .ok true) :
    ∃ definer, TypeNode.ofTy slot.method.definer = .ok definer ∧ s.Accessible definer ∧
      s.classPath.HasMethod m' definer index slot.method := by
  have byClass {d : String} (hholder : methodHolder? n = some d) (hd : TypeNode.Named (.cls d)) :
      ∃ definer, TypeNode.ofTy slot.method.definer = .ok definer ∧ s.Accessible definer ∧
        s.classPath.HasMethod m' definer index slot.method := by
    obtain ⟨v, hv, hslot⟩ := methodAt?_ok hholder hslot
    obtain ⟨owner, own, hty, hown, hslot⟩ :=
      owner_of_member? hcp (inherited_methods hm) hd hv hslot
    refine ⟨.cls owner, hty, accessible_of_ofTy hty hseen, slot, ?_,
      slot.method.sameSignature_refl⟩
    rw [methodAt?_of_lookup rfl hown]
    exact congrArg (EStateM.Result.ok · m') hslot
  cases n with
  | cls d => exact byClass rfl hn
  | unknown => exact byClass rfl TypeNode.named_object
  | array dims elem => exact byClass rfl TypeNode.named_object
  | primitive d => cases hslot

/-- A method is named right. -/
theorem method_of_methodAt {index : Nat} {f : MethodRef} (hcp : s.classPath.Keyed)
    (hm : s.classPath.Asked .empty m) (hn : n.Named) (h : s.methodAt n index m = .ok f m') :
    ∃ definer, TypeNode.ofTy f.definer = .ok definer ∧ s.Accessible definer ∧
      s.classPath.HasMethod m' definer index f ∧ s.classPath.HasMethod m' n index f := by
  obtain ⟨found, m₁, hfound, ⟨hseen, rfl, rfl⟩ | ⟨hunseen, definer, slot, hup, hnamed, haccess,
    hslot, hty, hsignature⟩⟩ := methodAt_ok hn h
  · have hm' := hm.trans (asked_of_methodAt? hfound)
    obtain ⟨definer, hty, haccess, hmethod⟩ := method_of_seen hcp hm' hn hfound hseen
    exact ⟨definer, hty, haccess, hmethod, found, methodAt?_again hfound,
      found.method.sameSignature_refl⟩
  have hm₁ := asked_of_methodAt? hslot
  have hm' := (hm.trans (asked_of_methodAt? hfound)).trans hm₁
  have hdefiner : s.classPath.HasMethod m' definer index f :=
    ⟨slot, methodAt?_again hslot, hsignature⟩
  refine ⟨definer, hty, haccess, hdefiner, ?_⟩
  cases n with
  | primitive d => cases hfound
  | array dims elem =>
    cases hup
    exact hdefiner
  | unknown =>
    cases hup
    exact absurd haccess (not_accessible_unknown hcp)
  | cls d =>
    obtain ⟨v, hv, hv'⟩ := methodAt?_ok rfl hfound
    have hv₁ := (within_of_asked hm₁).vtables hv
    have hblank : ¬ methods.blank v := by
      rintro rfl
      cases hv'
    obtain ⟨e, b, hb, hmembers, rfl | ⟨hparent, hne⟩⟩ :=
      (inherited_methods hm').last_of_up hup hv₁ hblank
    · obtain ⟨b', hb', hslot⟩ := methodAt?_ok rfl hslot
      cases hb.symm.trans hb'
      obtain ⟨x, hx, hsame⟩ := hmembers index slot hslot
      refine ⟨x, ?_, MethodRef.sameSignature_trans hsame hsignature⟩
      rw [methodAt?_of_lookup rfl hv₁]
      exact congrArg (EStateM.Result.ok · m') hx
    · cases definer with
      | cls e => exact absurd rfl (hne e)
      | primitive d => cases hslot
      | unknown => exact absurd haccess (not_accessible_unknown hcp)
      | array dims elem => exact ((inherited_methods hm' e b hb).array hparent).elim

/-- The node whose vtable a call to the superclass goes through. -/
def IsSuper (s : Subject) (n : TypeNode) : Prop :=
  ∃ this, TypeNode.ofTy s.cls.ty = .ok this ∧
    ((∃ d, s.classPath.superclass? this = .ok (some d) ∧ TypeNode.ofDescriptor d = .ok n) ∨
      (∀ d, s.classPath.superclass? this ≠ .ok (some d)) ∧ n = this)

/-- The receiver of a call to the superclass is the superclass. -/
theorem superNode_ok (h : s.superNode m = .ok n m') : s.IsSuper n ∧ m' = m := by
  unfold superNode at h
  obtain ⟨this, m₁, hknown, hrest⟩ := bind_ok.1 h
  obtain ⟨hthis, rfl⟩ := Rule.known_ok.1 hknown
  cases hsuper : s.classPath.superclass? this with
  | ok d? =>
    cases d? with
    | some d =>
      simp only [hsuper] at hrest
      obtain ⟨hn, rfl⟩ := Rule.known_ok.1 hrest
      exact ⟨⟨this, hthis, .inl ⟨d, hsuper, hn⟩⟩, rfl⟩
    | none =>
      simp only [hsuper] at hrest
      cases hrest
      exact ⟨⟨n, hthis, .inr ⟨by simp [hsuper], rfl⟩⟩, rfl⟩
  | error e =>
    simp only [hsuper] at hrest
    split at hrest
    · cases hrest
      exact ⟨⟨n, hthis, .inr ⟨by simp [hsuper], rfl⟩⟩, rfl⟩
    · cases hrest

/-- A call to the superclass is resolved to the method of the superclass at its index. -/
theorem method_of_super {receiver : TypeNode} {index : Nat} {f : MethodRef}
    (h : s.quickMethod .super receiver index m = .ok f m') :
    ∃ n slot, s.IsSuper n ∧ s.classPath.methodAt? n index m' = .ok (some slot) m' ∧
      slot.method = f := by
  obtain ⟨n, m₁, hn, h⟩ := bind_ok.1 h
  obtain ⟨slot, m₂, hslot, h⟩ := bind_ok.1 h
  cases h
  exact ⟨n, slot, (superNode_ok hn).1, methodAt?_again (slotAt_ok.1 hslot), rfl⟩

/-- The class of a receiver is the one of its type. -/
theorem receiverNode?_ok {p : Point} {object : Reg}
    (h : receiverNode? p object m = .ok (some n) m') :
    m' = m ∧ ∃ t, p.typeBefore object = .ok t ∧ t.node? = some n := by
  obtain ⟨t, m₁, hlift, hrest⟩ := bind_ok.1 h
  obtain ⟨ht, rfl⟩ := Rule.lift_ok.1 hlift
  split at hrest
  · cases hrest
  · cases hrest
  · cases hrest
    exact ⟨rfl, _, ht, rfl⟩
  · cases hrest
    exact ⟨rfl, _, ht, rfl⟩
  · cases hrest
    exact ⟨rfl, _, ht, rfl⟩
  · cases hrest

/-- A quick access becomes an access to the field by the type of the field. -/
theorem accessField_ok {dir : Direction} {w : Width} {value object : Reg} {offset : Nat}
    {f : FieldRef} {instr : Instr}
    (h : (Instr.instanceQuick dir w value object offset).accessField f = .ok instr) :
    instr = .instanceAccess dir (.ofTy f.ty) value object f := by
  simp only [Instr.accessField, Instr.odexedAccess?] at h
  split at h
  · cases h
    rfl
  · cases h

/-- A class in a register can be named. -/
theorem named_of_node? {t : RegType} (ht : t.Proper s.cls.ty) (h : t.node? = some n) :
    n.Named := by
  cases t with
  | uninitThis n' =>
    cases h
    exact TypeNode.named_of_ofDescriptor ht
  | uninitRef n' site =>
    cases h
    exact ht
  | reference n' =>
    cases h
    exact ht
  | _ => cases h

end Analysis.Subject

namespace Analysis

open Subject

/-- The class of the object in a register before a point. -/
def Point.Holds (p : Point) (object : Reg) (n : TypeNode) : Prop :=
  ∃ t, p.typeBefore object = .ok t ∧ t.node? = some n

/-- Odexed accesses become accesses to the members that they are to, but for fields of classes
below arrays: there the name is right if the field happens to be called like the length of an
array. -/
theorem standard_forms_name_members {classes : List ClassDef} {level : Nat} {check : Bool}
    {s : Subject} {p : Point} {m m' : Memo} {instr : Instr}
    (hcp : s.classPath = (ClassPath.ofClasses classes level).withPackageCheck check)
    (hm : s.classPath.Asked .empty m) (hp : ∀ r t, p.typeBefore r = .ok t → t.Proper s.cls.ty)
    (h : s.standardForm? p m = .ok (some instr) m') :
    (∀ dir w value object offset, p.instr = .instanceQuick dir w value object offset →
      ∃ receiver definer f, p.Holds object receiver ∧
        instr = .instanceAccess dir (.ofTy f.ty) value object f ∧
        TypeNode.ofTy f.definer = .ok definer ∧ s.Accessible definer ∧
        s.classPath.HasField m' definer offset f.name f.ty ∧
        (s.classPath.HasField m' receiver offset f.name f.ty ↔
          ((∃ dims elem, definer = .array dims elem) →
            (∃ dims elem, receiver = .array dims elem) ∨
            s.classPath.HasField m' receiver offset "length" .int))) ∧
    (∀ args index, p.instr = .invokeQuick .virtual args index →
      ∃ object receiver definer f, args.first? = some object ∧ p.Holds object receiver ∧
        instr = .invoke .virtual args f ∧
        TypeNode.ofTy f.definer = .ok definer ∧ s.Accessible definer ∧
        s.classPath.HasMethod m' definer index f ∧ s.classPath.HasMethod m' receiver index f) ∧
    ∀ args index, p.instr = .invokeQuick .super args index →
      ∃ n slot, s.IsSuper n ∧ s.classPath.methodAt? n index m' = .ok (some slot) m' ∧
        instr = .invoke .super args slot.method := by
  have hkeyed : s.classPath.Keyed := by
    rw [hcp]
    exact ClassPath.keyed_ofClasses classes level check
  refine ⟨?_, ?_, ?_⟩
  · intro dir w value object offset hinstr
    simp only [standardForm?, hinstr] at h
    obtain ⟨receiver, m₁, f, hreceiver, hf, haccess⟩ := quickField?_ok h
    obtain ⟨rfl, t, ht, hnode⟩ := receiverNode?_ok hreceiver
    obtain ⟨definer, hty, haccessible, hdefiner, hfield⟩ :=
      field_of_fieldAt hkeyed hm (named_of_node? (hp object t ht) hnode) hf
    rw [hinstr] at haccess
    exact ⟨receiver, definer, f, ⟨t, ht, hnode⟩, accessField_ok haccess, hty, haccessible,
      hdefiner, field_iff hty hdefiner hfield⟩
  · intro args index hinstr
    simp only [standardForm?, hinstr] at h
    obtain ⟨object, receiver, m₁, f, hfirst, hreceiver, hf, rfl⟩ := quickCall?_ok h
    obtain ⟨rfl, t, ht, hnode⟩ := receiverNode?_ok hreceiver
    obtain ⟨definer, hmethod⟩ :=
      method_of_methodAt hkeyed hm (named_of_node? (hp object t ht) hnode) hf
    exact ⟨object, receiver, definer, f, hfirst, ⟨t, ht, hnode⟩, rfl, hmethod⟩
  · intro args index hinstr
    simp only [standardForm?, hinstr] at h
    obtain ⟨_, _, _, f, _, _, hf, rfl⟩ := quickCall?_ok h
    obtain ⟨n, slot, hn, hslot, rfl⟩ := method_of_super hf
    exact ⟨n, slot, hn, hslot, rfl⟩

/-- A class that only its package sees, with a number at the first offset. -/
def hiddenClass (above : Ty) : ClassDef where
  ty := .cls "p/P"
  superclass? := some above
  fields := [⟨"x", .int, .none⟩]

/-- A public class below it. -/
def shownClass : ClassDef where
  ty := .cls "p/C"
  flags := .ofList [.pub]
  superclass? := some (.cls "p/P")

/-- The reading of the first field of an object. -/
def readFirst : Instr := .instanceQuick .get .narrow ⟨0⟩ ⟨1⟩ Layout.header

/-- A method of another package that reads the first field of an object. -/
def firstReader (classes : List ClassDef) : Subject where
  classPath := (ClassPath.ofClasses classes 15).withPackageCheck true
  inline? := none
  cls := { ty := .cls "q/Q" }
  method := ⟨.cls "q/Q", "m", [], .void⟩
  body := .assemble 2 [readFirst, .returnVoid] []
  graph := ⟨[0], [some [1], some []], [⟨true, .empty⟩, ⟨false, ⟨[0]⟩⟩]⟩

/-- The point at which it does, if the object is of a class. -/
def readPoint (d : String) : Point where
  addr := .entry
  given := readFirst
  instr := readFirst
  before := #[.uninit, .reference (.cls d)]
  after := #[.uninit, .reference (.cls d)]

theorem readPoint_proper {d : String} {cls : Ty} (hd : TypeNode.Named (.cls d)) (r : Reg)
    (t : RegType) (ht : (readPoint d).typeBefore r = .ok t) : t.Proper cls := by
  obtain ⟨index⟩ := r
  match index, ht with
  | 0, ht =>
    cases ht
    trivial
  | 1, ht =>
    cases ht
    exact hd

/-- A field of a class that is not seen is read through the class of the object. -/
theorem shown_field_is_named :
    ∃ m', (firstReader [shownClass, hiddenClass CoreClasses.objectTy]).standardForm?
        (readPoint "Lp/C;") .empty =
        .ok (some (.instanceAccess .get .word ⟨0⟩ ⟨1⟩ ⟨.cls "p/C", "x", .int⟩)) m' ∧
      (firstReader [shownClass, hiddenClass CoreClasses.objectTy]).classPath.HasField m'
        (.cls "Lp/C;") Layout.header "x" .int := by
  have hrun : ∃ form? m', (firstReader [shownClass, hiddenClass CoreClasses.objectTy]).standardForm?
      (readPoint "Lp/C;") .empty = .ok form? m' ∧
      form? = some (.instanceAccess .get .word ⟨0⟩ ⟨1⟩ ⟨.cls "p/C", "x", .int⟩) := by
    decide +kernel
  obtain ⟨_, m', h, rfl⟩ := hrun
  refine ⟨m', h, ?_⟩
  have hnamed : TypeNode.Named (.cls "Lp/C;") := rfl
  obtain ⟨receiver, definer, f, ⟨t, ht, hnode⟩, hinstr, hty, _, _, hiff⟩ :=
    (standard_forms_name_members rfl .refl (readPoint_proper hnamed) h).1 _ _ _ _ _ rfl
  obtain ⟨_, _, _, _, rfl⟩ := Instr.instanceAccess.inj hinstr
  cases ht
  cases hnode
  cases hty
  exact hiff.2 nofun

/-- The first field of an object is taken for the length of an array if the class is below one. -/
theorem hidden_field_is_misnamed :
    ∃ m', (firstReader [hiddenClass (.array 1 .int)]).standardForm? (readPoint "Lp/P;") .empty =
        .ok (some (.instanceAccess .get .word ⟨0⟩ ⟨1⟩ ⟨.array 1 .int, "length", .int⟩)) m' ∧
      (firstReader [hiddenClass (.array 1 .int)]).classPath.HasField m' (.cls "Lp/P;")
        Layout.header "x" .int ∧
      ¬ (firstReader [hiddenClass (.array 1 .int)]).classPath.HasField m' (.cls "Lp/P;")
        Layout.header "length" .int := by
  have hrun : ∃ form? m', (firstReader [hiddenClass (.array 1 .int)]).standardForm?
      (readPoint "Lp/P;") .empty = .ok form? m' ∧
      form? = some (.instanceAccess .get .word ⟨0⟩ ⟨1⟩ ⟨.array 1 .int, "length", .int⟩) ∧
      (m'.layouts.lookup "Lp/P;").bind (·.fieldAt? Layout.header) =
        some ⟨.cls "p/P", "x", .int⟩ := by
    decide +kernel
  obtain ⟨_, m', h, rfl, hlookup⟩ := hrun
  obtain ⟨l, hl, hx⟩ := Option.bind_eq_some_iff.1 hlookup
  have hfield : (firstReader [hiddenClass (.array 1 .int)]).classPath.fieldAt? (.cls "Lp/P;")
      Layout.header m' = .ok (some ⟨.cls "p/P", "x", .int⟩) m' := by
    rw [ClassPath.fieldAt?_of_lookup rfl hl, hx]
  refine ⟨m', h, ⟨_, hfield, rfl, rfl⟩, ?_⟩
  rintro ⟨g, hg, hname, _⟩
  cases hfield.symm.trans hg
  exact absurd hname (by decide)

end Analysis

end Dalvik
