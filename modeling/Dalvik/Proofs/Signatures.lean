import Dalvik.Proofs.Superinterfaces

/-!
# Every method has a slot

A vtable is filled one method after another.  Each of them finds a slot of its signature or adds
one, and none that was there gets lost, so the signatures of a vtable are those of the superclass,
of the class and of its direct interfaces, and no others (`hasSignature_ownSlots_iff`).  A method of
the class keeps the slot that it took, since only the class itself could replace it.  Without a
check of packages, two slots never have the same signature.

`vtable_complete` puts this together for a resolved vtable.  Of the interfaces only the direct ones
get slots.  A superinterface that is hidden behind the superclass of another one may get none, and
`vtable_incomplete_shadowed` shows a class that declares an interface and has no slot for its
method.
-/

namespace Dalvik

open Relation (TransGen)

/-- Two methods of a class with the same signature are the same. -/
theorem MethodRef.eq_of_sameSignature {a b : MethodRef} (hdefiner : a.definer = b.definer)
    (h : a.sameSignature b = true) : a = b := by
  obtain ⟨hname, hresult, hparams⟩ := sameSignature_iff.1 h
  cases a
  cases b
  simp_all

namespace ClassPath

variable {cp : ClassPath} {d name : String} {c : ClassDef} {ty : Ty} {v above : Vtable}
  {o : Overriding} {replace : Bool} {entry x : Slot} {entries slots : List Slot}
  {is : List ClassDef} {m : MethodRef}

/-! ## Placing methods -/

/-- Some slot has the signature of a method. -/
def HasSignature (slots : List Slot) (m : MethodRef) : Prop :=
  ∃ x ∈ slots, x.method.sameSignature m = true

/-- A method is in some slot. -/
def Occupies (slots : List Slot) (m : MethodRef) : Prop := ∃ x ∈ slots, x.method = m

/-- No two slots have the same signature. -/
def Distinct (slots : List Slot) : Prop :=
  slots.Pairwise fun x y => x.method.sameSignature y.method = false

/-- A class has a virtual method of a signature. -/
def DeclaresMethod (c : ClassDef) (m : MethodRef) : Prop :=
  ∃ k ∈ c.virtualMethods, (k.ref c.ty).sameSignature m = true

instance decidableHasSignature (slots : List Slot) (m : MethodRef) :
    Decidable (HasSignature slots m) :=
  inferInstanceAs (Decidable (∃ x ∈ slots, x.method.sameSignature m = true))

theorem hasSignature_cons :
    HasSignature (x :: slots) m ↔ x.method.sameSignature m = true ∨ HasSignature slots m := by
  simp [HasSignature]

/-- A class has one slot for each virtual method. -/
theorem mem_slotsOf_iff : x ∈ slotsOf c ty ↔ ∃ k ∈ c.virtualMethods, ⟨k.ref ty, k.flags⟩ = x := by
  rw [slotsOf, (List.mergeSort_perm _ _).mem_iff, List.mem_map]

/-- The definer does not count for the signature. -/
theorem hasSignature_slotsOf : HasSignature (slotsOf c ty) m ↔ DeclaresMethod c m := by
  constructor
  · rintro ⟨x, hx, hsame⟩
    obtain ⟨k, hk, rfl⟩ := mem_slotsOf_iff.1 hx
    exact ⟨k, hk, hsame⟩
  · rintro ⟨k, hk, hsame⟩
    exact ⟨_, mem_slotsOf_iff.2 ⟨k, hk, rfl⟩, hsame⟩

/-- A method that takes a slot has its signature. -/
theorem sameSignature_of_allows (h : o.allows x entry = true) :
    x.method.sameSignature m = true ↔ entry.method.sameSignature m = true := by
  have hsame := (Bool.and_eq_true_iff.1 h).1
  exact ⟨MethodRef.sameSignature_trans (MethodRef.sameSignature_symm hsame),
    MethodRef.sameSignature_trans hsame⟩

/-- A signature is added by its method, whether or not a slot is replaced. -/
theorem hasSignature_place : HasSignature (place o replace entry slots) m ↔
    HasSignature slots m ∨ entry.method.sameSignature m = true := by
  induction slots with
  | nil => simp [place, HasSignature]
  | cons slot rest ih =>
    unfold place
    split
    · next hallows =>
      have hsame := sameSignature_of_allows (m := m) hallows
      split <;> (simp only [hasSignature_cons, hsame]; rw [or_right_comm, or_self])
    · simp only [hasSignature_cons, ih, or_assoc]

/-- So it is for all methods of a class. -/
theorem hasSignature_placeAll : HasSignature (placeAll o replace entries slots) m ↔
    HasSignature slots m ∨ HasSignature entries m := by
  induction entries generalizing slots with
  | nil => simp [placeAll, HasSignature]
  | cons entry entries ih =>
    rw [placeAll, List.foldl_cons, ← placeAll, ih, hasSignature_place, hasSignature_cons, or_assoc]

/-- A slot is one that was there or the new one. -/
theorem mem_place (h : x ∈ place o replace entry slots) : x ∈ slots ∨ x = entry := by
  induction slots with
  | nil => exact .inr (List.mem_singleton.1 h)
  | cons slot rest ih =>
    unfold place at h
    split at h
    · split at h
      · rcases List.mem_cons.1 h with rfl | h
        · exact .inr rfl
        · exact .inl (List.mem_cons_of_mem _ h)
      · exact .inl h
    · rcases List.mem_cons.1 h with rfl | h
      · exact .inl List.mem_cons_self
      · exact (ih h).imp_left (List.mem_cons_of_mem _)

/-- A method that may replace others has a slot in the end. -/
theorem occupies_place_self : Occupies (place o true entry slots) entry.method := by
  induction slots with
  | nil => exact ⟨entry, List.mem_singleton_self _, rfl⟩
  | cons slot rest ih =>
    unfold place
    split
    · exact ⟨entry, List.mem_cons_self, rfl⟩
    · obtain ⟨x, hx, heq⟩ := ih
      exact ⟨x, List.mem_cons_of_mem _ hx, heq⟩

/-- A method in a slot stays there while methods of the same class are placed.  One that takes its
slot has its signature, so it is the same method. -/
theorem Occupies.place (h : Occupies slots m) (hentry : entry.method.definer = m.definer) :
    Occupies (ClassPath.place o replace entry slots) m := by
  obtain ⟨x, hx, rfl⟩ := h
  induction slots with
  | nil => cases hx
  | cons slot rest ih =>
    unfold ClassPath.place
    split
    · next hallows =>
      rcases List.mem_cons.1 hx with rfl | hx
      · have heq : entry.method = x.method :=
          (MethodRef.eq_of_sameSignature hentry.symm (Bool.and_eq_true_iff.1 hallows).1).symm
        refine ⟨_, List.mem_cons_self, ?_⟩
        split
        · exact heq
        · rfl
      · exact ⟨x, List.mem_cons_of_mem _ hx, rfl⟩
    · rcases List.mem_cons.1 hx with rfl | hx
      · exact ⟨x, List.mem_cons_self, rfl⟩
      · obtain ⟨y, hy, heq⟩ := ih hx
        exact ⟨y, List.mem_cons_of_mem _ hy, heq⟩

/-- A method of a class keeps its slot among others of the class. -/
theorem Occupies.placeAll (h : Occupies slots m)
    (hentries : ∀ entry ∈ entries, entry.method.definer = m.definer) :
    Occupies (ClassPath.placeAll o replace entries slots) m :=
  List.foldlRecOn (motive := fun slots => Occupies slots m) entries _ h
    fun _ h entry hentry => h.place (hentries entry hentry)

theorem definer_slotsOf (h : x ∈ slotsOf c ty) : x.method.definer = ty := by
  obtain ⟨k, _, rfl⟩ := mem_slotsOf_iff.1 h
  rfl

/-- All methods that replace others have slots in the end. -/
theorem occupies_placeAll_self (hx : x ∈ entries)
    (hentries : ∀ entry ∈ entries, entry.method.definer = ty) :
    Occupies (placeAll o true entries slots) x.method := by
  induction entries generalizing slots with
  | nil => cases hx
  | cons entry entries ih =>
    obtain ⟨hentry, hentries'⟩ := List.forall_mem_cons.1 hentries
    rcases List.mem_cons.1 hx with rfl | hx
    · exact occupies_place_self.placeAll fun y hy => (hentries' y hy).trans hentry.symm
    · exact ih hx hentries'

theorem Distinct.place (h : Distinct slots) (ho : o.checksPackages = false) :
    Distinct (ClassPath.place o replace entry slots) := by
  have hallows (x : Slot) : o.allows x entry = x.method.sameSignature entry.method := by
    simp [Overriding.allows, ho]
  induction slots with
  | nil => exact List.pairwise_singleton _ _
  | cons slot rest ih =>
    obtain ⟨hslot, hrest⟩ := List.pairwise_cons.1 h
    unfold ClassPath.place
    split
    · next hsame =>
      split
      · refine List.pairwise_cons.2 ⟨fun y hy => ?_, hrest⟩
        rw [Bool.eq_false_iff, ne_eq, ← sameSignature_of_allows hsame, ← ne_eq, ← Bool.eq_false_iff]
        exact hslot y hy
      · exact h
    · next hsame =>
      refine List.pairwise_cons.2 ⟨fun y hy => ?_, ih hrest⟩
      rcases mem_place hy with hy | rfl
      · exact hslot y hy
      · rw [hallows] at hsame
        exact Bool.eq_false_iff.2 hsame

theorem Distinct.placeAll (h : Distinct slots) (ho : o.checksPackages = false) :
    Distinct (ClassPath.placeAll o replace entries slots) :=
  List.foldlRecOn entries _ h fun _ h _ _ => h.place ho

/-! ## The slots of a class -/

/-- The slots of a class with some direct interfaces over those of its superclass. -/
def ownSlots (cp : ClassPath) (c : ClassDef) (is : List ClassDef) (slots : List Slot) :
    List Slot :=
  let o : Overriding := ⟨cp.checksPackages, c.package⟩
  is.foldl (fun slots i => placeAll o false (slotsOf i c.ty) slots)
    (placeAll o true (slotsOf c c.ty) slots)

/-- The methods of interfaces add their signatures. -/
theorem hasSignature_placeInterfaces :
    HasSignature (is.foldl (fun slots i => placeAll o false (slotsOf i ty) slots) slots) m ↔
      HasSignature slots m ∨ ∃ i ∈ is, DeclaresMethod i m := by
  induction is generalizing slots with
  | nil => simp
  | cons i is ih =>
    rw [List.foldl_cons, ih, hasSignature_placeAll, hasSignature_slotsOf, or_assoc]
    simp only [List.mem_cons, exists_eq_or_imp]

/-- The signatures of a vtable are those of the superclass, of the class and of its interfaces. -/
theorem hasSignature_ownSlots_iff : HasSignature (cp.ownSlots c is slots) m ↔
    HasSignature slots m ∨ DeclaresMethod c m ∨ ∃ i ∈ is, DeclaresMethod i m := by
  rw [ownSlots, hasSignature_placeInterfaces, hasSignature_placeAll, hasSignature_slotsOf, or_assoc]

/-- Every method of the class has a slot.  The interfaces do not take it away, since the class is
taken to define their methods. -/
theorem occupies_ownSlots {k : MethodDef} (hk : k ∈ c.virtualMethods) :
    Occupies (cp.ownSlots c is slots) (k.ref c.ty) := by
  have hmem : ⟨k.ref c.ty, k.flags⟩ ∈ slotsOf c c.ty := mem_slotsOf_iff.2 ⟨k, hk, rfl⟩
  have hown : Occupies (placeAll ⟨cp.checksPackages, c.package⟩ true (slotsOf c c.ty) slots)
      (k.ref c.ty) :=
    occupies_placeAll_self hmem fun _ hentry => definer_slotsOf hentry
  exact List.foldlRecOn (motive := fun slots => Occupies slots (k.ref c.ty)) is _ hown
    fun _ h i _ => h.placeAll fun _ hentry => definer_slotsOf hentry

theorem Distinct.ownSlots (h : Distinct slots) (hcp : cp.checksPackages = false) :
    Distinct (cp.ownSlots c is slots) :=
  List.foldlRecOn is _ (h.placeAll hcp) fun _ h _ _ => h.placeAll hcp

theorem covers_ownSlots (cp : ClassPath) (c : ClassDef) (is : List ClassDef)
    (slots : List Slot) : Covers c.ty slots (cp.ownSlots c is slots) :=
  (Covers.slotsOf _ true c slots).trans (.foldl (fun i _ slots => .slotsOf _ false i slots) _)

/-- A class extends the slots from above by its own, and by those of its direct interfaces. -/
theorem slots_of_extendVtable (hc : c.isInterface = false)
    (h : (cp.extendVtable cp.interfacesOf d c slots).answer .empty = .ok v) :
    ∃ is, (cp.directInterfaces d).answer .empty = .ok is ∧
      v = ⟨cp.ownSlots c is slots, true⟩ := by
  simp only [extendVtable, hc, Bool.false_eq_true, if_false, Asking.answer_bind_pure] at h
  obtain ⟨is, his, rfl⟩ := except_map_ok.1 h
  exact ⟨is, his, rfl⟩

/-- A resolved vtable is built over a resolved one. -/
theorem extendVtable_of_resolved (hd : cp.def? d = some c) (hv : v.resolved = true)
    (h : cp.vtableOver? d above = some v) :
    above.resolved = true ∧
      (cp.extendVtable cp.interfacesOf d c above.slots).answer .empty = .ok v := by
  simp only [vtableOver?, hd] at h
  split at h
  · next hresolved => exact ⟨hresolved, ok_of_toOption h⟩
  · cases h
    cases hv

/-- A resolved vtable is that of a defined class. -/
theorem HasVtable.defined (h : cp.HasVtable d v) (hv : v.resolved = true) :
    ∃ c, cp.def? d = some c := by
  cases hd : cp.def? d with
  | some c => exact ⟨c, rfl⟩
  | none =>
    have hblank {above : Vtable} (hover : cp.vtableOver? d above = some v) : False := by
      simp only [vtableOver?, hd] at hover
      cases hover
      cases hv
    cases h with
    | root _ hover => exact (hblank hover).elim
    | derived _ _ hover => exact (hblank hover).elim
    | cyclic => cases hv

/-- The slots that a resolved vtable is built over, and the interfaces. -/
theorem HasVtable.layers (h : cp.HasVtable d v) (hd : cp.def? d = some c)
    (hc : c.isInterface = false) (hv : v.resolved = true) :
    ∃ slots is, (c.superclass? = none ∧ slots = [] ∨
        ∃ s, c.superclass? = some s ∧ cp.HasVtable s.descriptor ⟨slots, true⟩) ∧
      (cp.directInterfaces d).answer .empty = .ok is ∧ v.slots = cp.ownSlots c is slots := by
  cases h with
  | root hroot hover =>
    obtain ⟨_, hextend⟩ := extendVtable_of_resolved hd hv hover
    obtain ⟨is, his, rfl⟩ := slots_of_extendVtable hc hextend
    exact ⟨[], is, .inl ⟨superclass_of_root hd hroot, rfl⟩, his, rfl⟩
  | @derived _ name above _ hleans habove hover =>
    obtain ⟨hresolved, hextend⟩ := extendVtable_of_resolved hd hv hover
    obtain ⟨is, his, rfl⟩ := slots_of_extendVtable hc hextend
    obtain ⟨s, hs, hname⟩ := superclass_of_leans hd hleans
    cases eq_descriptor_of_ofTy hname
    obtain ⟨slots, _⟩ := above
    cases hresolved
    exact ⟨slots, is, .inr ⟨s, hs, habove⟩, his, rfl⟩
  | cyclic => cases hv

/-- Without a check of packages no two slots of a vtable have the same signature. -/
theorem HasVtable.distinct (h : cp.HasVtable d v) (hcp : cp.checksPackages = false) :
    Distinct v.slots := by
  have of_over {d : String} {v above : Vtable} (habove : Distinct above.slots)
      (hover : cp.vtableOver? d above = some v) : Distinct v.slots := by
    unfold vtableOver? at hover
    split at hover
    · next c _ =>
      split at hover
      · have hv := ok_of_toOption hover
        cases hc : c.isInterface with
        | false =>
          obtain ⟨is, _, rfl⟩ := slots_of_extendVtable hc hv
          exact habove.ownSlots hcp
        | true =>
          simp only [extendVtable, hc, if_true] at hv
          cases hv
          exact habove
      · cases hover
        exact habove
    · cases hover
      exact habove
  induction h with
  | root _ hover =>
    have hnil : Distinct (⟨[], true⟩ : Vtable).slots := List.Pairwise.nil
    exact of_over hnil hover
  | derived _ _ hover ih => exact of_over ih hover
  | cyclic => exact .nil

/-! ## Resolved vtables are always found -/

/-- A vtable that is found without a memory is found with one. -/
theorem found_extendVtable (hd : cp.def? d = some c)
    (h : (cp.extendVtable cp.interfacesOf d c slots).answer .empty = .ok v) :
    Yields cp.SlottedAll (cp.extendVtable cp.interfacesOf d c slots) (· = .ok v) := by
  have hsteady : Steady cp.ToldAll (cp.extendVtable cp.interfacesOf d c slots) := by
    cases hc : c.isInterface with
    | true =>
      simp only [extendVtable, hc, if_true]
      exact .pure _
    | false =>
      -- direct interfaces are only given for a complete class, and then they are always the same
      obtain ⟨is, his, _⟩ := slots_of_extendVtable hc h
      have hcomplete := ((complete_of_directInterfaces hd).answer cp.toldAll_empty).1 his
      simp only [extendVtable, hc, Bool.false_eq_true, if_false]
      exact hcomplete.steady_directInterfaces.bind fun _ => .pure _
  have htells : Yields cp.ToldAll (cp.extendVtable cp.interfacesOf d c slots)
      (· = (cp.extendVtable cp.interfacesOf d c slots).answer .empty) :=
    hsteady.tells cp.toldAll_empty
  exact (htells.within (fun _ hm => hm.1) (keeps_slottedAll_extendVtable cp d c slots)).mono
    fun r hr => hr.trans h

/-- What is known of the answer for a class.  A resolved vtable is never missed. -/
structure Secured (cp : ClassPath) (d : String) (r : Except HierarchyError Vtable) : Prop where
  slotted : cp.Slotted d r
  found : ∀ {v}, cp.HasVtable d v → v.resolved = true → r = .ok v

/-- The search goes on above the class, where nothing is missed. -/
theorem found_collectVtable {inherited : String → Query Vtable} (hd : cp.def? d = some c)
    (hin : ∀ name, cp.Leans d name → Yields cp.SlottedAll (inherited name) (cp.Secured name))
    (h : cp.HasVtable d v) (hv : v.resolved = true) :
    Yields cp.SlottedAll (cp.collectVtable cp.interfacesOf inherited d c) (· = .ok v) := by
  unfold collectVtable
  cases h with
  | root hroot hover =>
    rw [superclass_of_root hd hroot]
    exact found_extendVtable hd (extendVtable_of_resolved hd hv hover).2
  | @derived _ name above _ hleans habove hover =>
    obtain ⟨hresolved, hextend⟩ := extendVtable_of_resolved hd hv hover
    obtain ⟨s, hs, hname⟩ := superclass_of_leans hd hleans
    rw [hs]
    refine .bind_lift (fun n hn => ?_) fun e he => ?_
    · cases hname.symm.trans hn
      have hfound : Yields cp.SlottedAll (inherited name) (· = .ok above) :=
        (hin name hleans).mono fun r hr => hr.found habove hresolved
      refine hfound.bind_attempt fun r hr => ?_
      cases hr
      simp only [hresolved, if_true]
      exact found_extendVtable hd hextend
    · cases hname.symm.trans he
  | cyclic => cases hv

theorem secured_collectVtable {inherited : String → Query Vtable} (hd : cp.def? d = some c)
    (hin : ∀ name, cp.Leans d name → Yields cp.SlottedAll (inherited name) (cp.Secured name)) :
    Yields cp.SlottedAll (cp.collectVtable cp.interfacesOf inherited d c) (cp.Secured d) := by
  have hslotted :
      Yields cp.SlottedAll (cp.collectVtable cp.interfacesOf inherited d c) (cp.Slotted d) :=
    slotted_collectVtable hd fun name hname => (hin name hname).mono fun _ h => h.slotted
  by_cases hv : ∃ v, cp.HasVtable d v ∧ v.resolved = true
  · obtain ⟨v, hv, hresolved⟩ := hv
    refine (hslotted.and (found_collectVtable hd hin hv hresolved)).mono fun r h =>
      ⟨h.1, fun hw _ => ?_⟩
    rw [h.2, hv.unique hw]
  · exact hslotted.mono fun r h => ⟨h, fun hw hresolved => absurd ⟨_, hw, hresolved⟩ hv⟩

/-- A resolved vtable is given after every history. -/
theorem secured_vtableOf (cp : ClassPath) (d : String) :
    Yields cp.SlottedAll (cp.vtableOf d) (cp.Secured d) := by
  refine yields_vtableFrom (R := cp.Secured) (fun {m d v} hm h => ?_) (fun {d} hcycle => ?_)
    secured_collectVtable (fun {d r} hd _ h => ?_) (fun hm h => ⟨hm.1, hm.2.add h.slotted⟩) [] d
    (List.forall_mem_nil _)
  · have hslotted := hm.2 _ _ h
    exact ⟨hslotted, fun hw _ => by rw [(hslotted.ok rfl).unique hw]⟩
  · have hd : ¬ Quiet cp.Leans d := not_quiet_of_cycle hcycle
    refine ⟨⟨?_, fun _ => hd⟩, fun hw hresolved => ?_⟩
    · rintro v ⟨⟩
    · cases hw.eq_blank hd
      cases hresolved
  · refine ⟨h.slotted.missing hd, fun hw hresolved => ?_⟩
    obtain ⟨c, hc⟩ := hw.defined hresolved
    cases hd.symm.trans hc

/-- A resolved vtable is given after every history. -/
theorem HasVtable.answer (h : cp.HasVtable d v) (hv : v.resolved = true)
    (history : List Question) : (cp.vtableOf d).answer (cp.remembered history) = .ok v :=
  ((cp.secured_vtableOf d).answer (slottedAll_of_asked (cp.asked_remembered history))).found h hv

/-! ## Complete vtables -/

/-- Resolved vtables are complete but for hidden interfaces, and free of duplicates.  A vtable is
built over that of the superclass, which is then given after every history.  Each method of the
class has a slot.  The signatures are those of the superclass, of the class and of its direct
interfaces.  A superinterface has slots for all its methods unless it is hidden.  Each slot is that
of the superclass at the same index or holds a method of the class.  Without a check of packages no
two slots have the same signature. -/
theorem vtable_complete (cp : ClassPath) (history : List Question) {d : String} {c : ClassDef}
    {v : Vtable} (hd : cp.def? d = some c) (hc : c.isInterface = false)
    (hv : (cp.vtableOf d).answer (cp.remembered history) = .ok v) (hresolved : v.resolved = true) :
    ∃ slots, (c.superclass? = none ∧ slots = [] ∨ ∃ s, c.superclass? = some s ∧ ∀ history',
        (cp.vtableOf s.descriptor).answer (cp.remembered history') = .ok ⟨slots, true⟩) ∧
      (∀ k ∈ c.virtualMethods, ∃ x ∈ v.slots, x.method = k.ref c.ty) ∧
      (∀ m, HasSignature v.slots m ↔ HasSignature slots m ∨ DeclaresMethod c m ∨
        ∃ e i, cp.Direct d e ∧ cp.def? e = some i ∧ DeclaresMethod i m) ∧
      (∀ e, cp.Direct d e → cp.Superinterface d e) ∧
      (∀ e, cp.Superinterface d e → ∃ i, cp.def? e = some i ∧
        ((∀ k ∈ i.virtualMethods, HasSignature v.slots (k.ref i.ty)) ∨ cp.Hidden d e)) ∧
      (∀ (k : Nat) (x : Slot), v.slots[k]? = some x →
        slots[k]? = some x ∨ x.method.definer = c.ty) ∧
      (cp.checksPackages = false →
        v.slots.Pairwise fun x y => x.method.sameSignature y.method = false) := by
  have hv := hasVtable_of_answer hv
  obtain ⟨slots, is, hbelow, his, hslots⟩ := hv.layers hd hc hresolved
  have hcomplete : cp.Complete d :=
    ((complete_of_directInterfaces hd).answer cp.toldAll_empty).1 his
  have hsignatures (m : MethodRef) : HasSignature v.slots m ↔ HasSignature slots m ∨
      DeclaresMethod c m ∨ ∃ e i, cp.Direct d e ∧ cp.def? e = some i ∧ DeclaresMethod i m := by
    rw [hslots, hasSignature_ownSlots_iff]
    refine or_congr_right (or_congr_right ⟨?_, ?_⟩)
    · rintro ⟨i, hi, hm⟩
      obtain ⟨e, he, hdef⟩ := (mem_directInterfaces_iff his).1 hi
      exact ⟨e, i, he, hdef, hm⟩
    · rintro ⟨e, i, he, hdef, hm⟩
      exact ⟨i, (mem_directInterfaces_iff his).2 ⟨e, he, hdef⟩, hm⟩
  refine ⟨slots, ?_, fun k hk => ?_, hsignatures, fun e he => he.superinterface hcomplete,
    fun e he => ?_, fun k x hx => ?_, fun hcp => hv.distinct hcp⟩
  · refine hbelow.imp_right ?_
    rintro ⟨s, hs, habove⟩
    exact ⟨s, hs, habove.answer rfl⟩
  · rw [hslots]
    exact occupies_ownSlots hk
  · obtain ⟨i, hi⟩ := hcomplete e (he.impl.reaches hcomplete)
    refine ⟨i, hi.defined, (he.direct_or_hidden hcomplete).imp_left fun hdirect k hk => ?_⟩
    refine (hsignatures _).2 (.inr (.inr ⟨e, i, hdirect, hi.defined, k, hk, ?_⟩))
    exact MethodRef.sameSignature_refl _
  · rw [hslots] at hx
    exact (cp.covers_ownSlots c is slots).owned hx

/-- A class below another one, with two interfaces.  The second is implemented by the superclass of
the first. -/
def shadowed : ClassPath := .ofClasses
  [{ ty := .cls "java/lang/Object" },
    { ty := .cls "J", flags := .ofList [.interface],
      methods := [⟨"m", [], .void, .none, none⟩] },
    { ty := .cls "S", superclass? := some CoreClasses.objectTy, interfaces := [.cls "J"] },
    { ty := .cls "I", flags := .ofList [.interface], superclass? := some (.cls "S"),
      methods := [⟨"g", [], .void, .none, none⟩] },
    { ty := .cls "B", superclass? := some CoreClasses.objectTy,
      methods := [⟨"f", [], .void, .none, none⟩] },
    { ty := .cls "C", superclass? := some (.cls "B"), interfaces := [.cls "I", .cls "J"],
      methods := [⟨"f", [], .void, .none, none⟩] }] defaultLevel

/-- The vtable of the lower class. -/
def shadowedVtable : Vtable :=
  ⟨[⟨⟨.cls "C", "f", [], .void⟩, .none⟩, ⟨⟨.cls "C", "g", [], .void⟩, .none⟩], true⟩

/-- The method of the superclass is overridden, and the first interface has a slot. -/
theorem vtable_complete_shadowed :
    let history : List Question := [.interfaces "LJ;", .vtable "LS;"]
    (shadowed.vtableOf "LC;").answer (shadowed.remembered history) = .ok shadowedVtable ∧
      (∃ slots, (∀ history', (shadowed.vtableOf "LB;").answer (shadowed.remembered history') =
          .ok ⟨slots, true⟩) ∧
        ∀ (k : Nat) (x : Slot), shadowedVtable.slots[k]? = some x →
          slots[k]? = some x ∨ x.method.definer = .cls "C") ∧
      (∃ x ∈ shadowedVtable.slots, x.method = ⟨.cls "C", "f", [], .void⟩) ∧
      HasSignature shadowedVtable.slots ⟨.cls "I", "g", [], .void⟩ ∧
      shadowedVtable.slots.Pairwise fun x y => x.method.sameSignature y.method = false := by
  intro history
  have hv : (shadowed.vtableOf "LC;").answer (shadowed.remembered history) = .ok shadowedVtable :=
    ok_of_toOption (by decide +kernel)
  obtain ⟨slots, hbelow, hown, hsignatures, _, _, howned, hdistinct⟩ :=
    shadowed.vtable_complete history rfl rfl hv rfl
  have hdirect : shadowed.Direct "LC;" "LI;" :=
    .declared (t := .cls "I") rfl (show _ = [] ++ _ :: _ from rfl) (List.forall_mem_nil _)
  refine ⟨hv, ⟨slots, ?_, howned⟩, hown ⟨"f", [], .void, .none, none⟩ List.mem_cons_self,
    (hsignatures _).2 (.inr (.inr ⟨"LI;", _, hdirect, rfl, _, List.mem_cons_self, rfl⟩)),
    hdistinct rfl⟩
  rcases hbelow with ⟨hnone, _⟩ | ⟨s, hs, habove⟩
  · cases hnone
  · cases hs
    exact habove

/-- The second interface is declared by the class, and there is no slot for its method. -/
theorem vtable_incomplete_shadowed :
    ∃ c i k, shadowed.def? "LC;" = some c ∧ c.isInterface = false ∧
      (shadowed.vtableOf "LC;").answer (shadowed.remembered []) = .ok shadowedVtable ∧
      .cls "J" ∈ c.interfaces ∧ shadowed.def? "LJ;" = some i ∧ k ∈ i.virtualMethods ∧
      ¬ HasSignature shadowedVtable.slots (k.ref i.ty) := by
  refine ⟨_, _, ⟨"m", [], .void, .none, none⟩, rfl, rfl, ok_of_toOption (by decide +kernel),
    ?_, rfl, List.mem_cons_self, by decide⟩
  exact List.mem_cons_of_mem _ List.mem_cons_self

end ClassPath

end Dalvik
