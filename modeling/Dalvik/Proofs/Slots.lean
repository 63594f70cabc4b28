import Dalvik.Proofs.Tables

/-!
# Slots stay where they are

A class has at most one vtable, whatever was asked before, even where its failures depend on the
history: `HasVtable` derives it from that of the superclass, or of the root class if the class is
not defined, and `HasVtable.unique` says that there is no other.  Below a cycle it is blank.

So the vtable of a class and that of its superclass can be compared although they may come from
different histories.  One step up keeps all slots, and replaces the methods in them by methods of
the class at most (`HasVtable.covers`).  Along the superclasses of a class this goes on
(`HasVtable.kept`), and every slot of an ancestor keeps its index and its signature.
-/

namespace Dalvik

open Relation (ReflTransGen TransGen)

namespace ClassPath

variable {cp : ClassPath} {d name a : String} {c : ClassDef} {u v w above : Vtable}

/-! ## Vtables over the slots of a superclass -/

/-- An answer is the one that a question has without a memory, and a failure is not a cycle. -/
structure Firm {α : Type} (q : Query α) (r : Except HierarchyError α) : Prop where
  ok : ∀ {a}, r = .ok a → q.answer .empty = .ok a
  cycle : ∀ {x}, r ≠ .error (.cycle x)

/-- The interfaces of a defined class are never missed because of a cycle. -/
theorem settles_interfacesOf (hd : cp.def? d = some c) :
    Yields cp.ToldAll (cp.interfacesOf d) fun r =>
      cp.Settles d r ∧ ∀ {x}, r ≠ .error (.cycle x) := by
  intro m hm
  have htold := cp.told_interfacesOf d m hm
  cases hq : cp.interfacesOf d m with
  | ok i m' =>
    rw [hq] at htold
    refine ⟨htold.1, htold.2.settles, ?_⟩
    rintro x ⟨⟩
  | error e m' =>
    rw [hq] at htold
    refine ⟨htold.1, htold.2.settles, ?_⟩
    rintro x ⟨⟩
    cases hd.symm.trans (interfacesOf_unresolved hq rfl).1

/-- Direct interfaces are only given if everything above the class is known. -/
theorem complete_of_directInterfaces (hd : cp.def? d = some c) :
    Yields cp.ToldAll (cp.directInterfaces d) fun r =>
      (∀ {is}, r = .ok is → cp.Complete d) ∧ ∀ {x}, r ≠ .error (.cycle x) := by
  refine (settles_interfacesOf hd).bind (fun i hi => ?_) fun e he => ⟨?_, ?_⟩
  · split
    · next hresolved =>
      refine .pure ⟨fun _ => hi.1.resolved.1 hresolved, ?_⟩
      rintro x ⟨⟩
    · refine .throw ⟨?_, ?_⟩
      · rintro is ⟨⟩
      · rintro x ⟨⟩
  · rintro is ⟨⟩
  · rintro x ⟨⟩
    exact he.2 rfl

/-- The direct interfaces are those found without a memory, or the failure is not a cycle. -/
theorem firm_directInterfaces (hd : cp.def? d = some c) :
    Yields cp.ToldAll (cp.directInterfaces d) (Firm (cp.directInterfaces d)) := by
  have hends := complete_of_directInterfaces hd
  by_cases hcomplete : cp.Complete d
  · have htells : Yields cp.ToldAll (cp.directInterfaces d)
        (· = (cp.directInterfaces d).answer .empty) :=
      hcomplete.steady_directInterfaces.tells cp.toldAll_empty
    exact (htells.and hends).mono fun r hr => ⟨fun h => hr.1.symm.trans h, hr.2.2⟩
  · exact hends.mono fun r hr => ⟨fun h => absurd (hr.1 h) hcomplete, hr.2⟩

/-- The vtable of a class over given slots, if there is one, is always the same too. -/
theorem firm_extendVtable (hd : cp.def? d = some c) (slots : List Slot) :
    Yields cp.ToldAll (cp.extendVtable cp.interfacesOf d c slots)
      (Firm (cp.extendVtable cp.interfacesOf d c slots)) := by
  unfold extendVtable
  split
  · refine .pure ⟨fun hv => hv, ?_⟩
    rintro x ⟨⟩
  · refine (firm_directInterfaces hd).bind (fun is his => .pure ⟨?_, ?_⟩) fun e he => ⟨?_, ?_⟩
    · rintro v ⟨⟩
      rw [Asking.answer_bind_pure, his.ok rfl]
      rfl
    · rintro x ⟨⟩
    · rintro v ⟨⟩
    · rintro x ⟨⟩
      exact he.cycle rfl

/-- A class keeps the slots from above, replaced by its own methods at most. -/
theorem covers_of_extendVtable {slots : List Slot}
    (h : (cp.extendVtable cp.interfacesOf d c slots).answer .empty = .ok v) :
    Covers c.ty slots v.slots := by
  obtain ⟨m, hm⟩ := Asking.ok_of_answer h
  have hfinds := finds_extendVtable (fun d => (cp.told_interfacesOf d).keeps) d c slots
  exact (Triple.ok hfinds cp.toldAll_empty hm).2.2

/-- A slot that is kept holds the method it held, or one of the class. -/
theorem Covers.entry {ty : Ty} {slots slots' : List Slot} (h : Covers ty slots slots') {k : Nat}
    {y : Slot} (hy : slots[k]? = some y) :
    ∃ x, slots'[k]? = some x ∧ x.method.sameSignature y.method = true ∧
      (x = y ∨ x.method.definer = ty) := by
  obtain ⟨x, hx, hxy⟩ := h.kept hy
  refine ⟨x, hx, hxy, (h.owned hx).imp_left fun hx' => ?_⟩
  exact Option.some.inj (hx'.symm.trans hy)

theorem Covers.length_le {ty : Ty} {slots slots' : List Slot} (h : Covers ty slots slots') :
    slots.length ≤ slots'.length := by
  refine Nat.le_of_not_lt fun hlt => ?_
  obtain ⟨x, hx, _⟩ := h.kept (List.getElem?_eq_getElem hlt)
  rw [List.getElem?_eq_none (Nat.le_refl _)] at hx
  cases hx

/-! ## The vtable of a class -/

/-- The vtable of a class over another one.  Over an unresolved vtable a class has no slots of its
own, and neither has a class that is not defined. -/
def vtableOver? (cp : ClassPath) (d : String) (above : Vtable) : Option Vtable :=
  match cp.def? d with
  | some c =>
    if above.resolved then
      ((cp.extendVtable cp.interfacesOf d c above.slots).answer .empty).toOption
    else some ⟨above.slots, false⟩
  | none => some ⟨above.slots, false⟩

/-- The vtable that a class has, if it has one. -/
inductive HasVtable (cp : ClassPath) : String → Vtable → Prop where
  /-- A class without superclass starts with no slots. -/
  | root {d : String} {v : Vtable} (hroot : cp.parent? (.cls d) = .ok none)
    (hv : cp.vtableOver? d ⟨[], true⟩ = some v) : HasVtable cp d v
  /-- All others start with the slots of the class they lean on. -/
  | derived {d name : String} {above v : Vtable} (hleans : cp.Leans d name)
    (habove : HasVtable cp name above) (hv : cp.vtableOver? d above = some v) : HasVtable cp d v
  /-- Below a cycle there are no slots. -/
  | cyclic {d : String} (hd : ¬ Quiet cp.Leans d) : HasVtable cp d ⟨[], false⟩

theorem not_leans_of_root (hroot : cp.parent? (.cls d) = .ok none) : ¬ cp.Leans d name := by
  rintro (h | ⟨hd, _⟩)
  · cases hroot.symm.trans h
  · cases hroot.symm.trans (parent?_of_missing hd)

theorem superclass_of_root (hd : cp.def? d = some c) (hroot : cp.parent? (.cls d) = .ok none) :
    c.superclass? = none := by
  cases parent?_eq_none_iff.1 hroot with
  | root hd' hs =>
    cases hd.symm.trans hd'
    exact hs

theorem vtableOver?_blank : cp.vtableOver? d ⟨[], false⟩ = some ⟨[], false⟩ := by
  unfold vtableOver?
  split <;> rfl

/-- One step adds slots and replaces methods by those of the class. -/
theorem covers_of_vtableOver? (hd : cp.def? d = some c) (hv : cp.vtableOver? d above = some v) :
    Covers c.ty above.slots v.slots := by
  simp only [vtableOver?, hd] at hv
  split at hv
  · exact covers_of_extendVtable (ok_of_toOption hv)
  · cases hv
    exact .refl

namespace HasVtable

/-- A class that leans on a cycle has no slots. -/
theorem eq_blank (h : cp.HasVtable d v) (hd : ¬ Quiet cp.Leans d) : v = ⟨[], false⟩ := by
  induction h with
  | root hroot _ =>
    obtain ⟨name, hleans, _⟩ := exists_step_of_not_quiet hd
    exact absurd hleans (not_leans_of_root hroot)
  | derived hleans _ hv ih =>
    obtain ⟨name, hleans', hname⟩ := exists_step_of_not_quiet hd
    cases hleans.unique hleans'
    cases ih hname
    exact Option.some.inj (hv.symm.trans vtableOver?_blank)
  | cyclic => rfl

/-- A class has one vtable. -/
theorem unique (h : cp.HasVtable d v) (h' : cp.HasVtable d w) : v = w := by
  by_cases hd : Quiet cp.Leans d
  · induction h generalizing w with
    | root hroot hv =>
      cases h' with
      | root _ hw => exact Option.some.inj (hv.symm.trans hw)
      | derived hleans => exact absurd hleans (not_leans_of_root hroot)
      | cyclic hcyclic => exact absurd hd hcyclic
    | derived hleans _ hv ih =>
      cases h' with
      | root hroot => exact absurd hleans (not_leans_of_root hroot)
      | derived hleans' habove hw =>
        cases hleans.unique hleans'
        cases ih habove (hd.of_step hleans)
        exact Option.some.inj (hv.symm.trans hw)
      | cyclic hcyclic => exact absurd hd hcyclic
    | cyclic hcyclic => exact absurd hd hcyclic
  · rw [h.eq_blank hd, h'.eq_blank hd]

/-- A class with a vtable has no superclass but a class. -/
theorem extends_superclass {s : Ty} (h : cp.HasVtable d v) (hd : cp.def? d = some c)
    (hs : c.superclass? = some s) : cp.Extends d s.descriptor := by
  have of_leans {name : String} (hleans : cp.Leans d name) : cp.Extends d s.descriptor := by
    obtain ⟨s', hs', hname⟩ := superclass_of_leans hd hleans
    cases hs.symm.trans hs'
    rw [← eq_descriptor_of_ofTy hname]
    exact parent?_of_superclass hd hs hname
  cases h with
  | root hroot => cases hs.symm.trans (superclass_of_root hd hroot)
  | derived hleans => exact of_leans hleans
  | cyclic hcyclic =>
    obtain ⟨_, hleans, _⟩ := exists_step_of_not_quiet hcyclic
    exact of_leans hleans

/-- The vtable of a class covers that of its superclass. -/
theorem covers (h : cp.HasVtable d v) (hd : cp.def? d = some c) (hname : cp.Extends d name)
    (h' : cp.HasVtable name w) : Covers c.ty w.slots v.slots := by
  cases h with
  | root hroot => exact absurd (.inl hname) (not_leans_of_root hroot)
  | derived hleans habove hv =>
    cases hleans.unique (.inl hname)
    cases habove.unique h'
    exact covers_of_vtableOver? hd hv
  | cyclic hcyclic =>
    obtain ⟨name', hleans, hname'⟩ := exists_step_of_not_quiet hcyclic
    cases hleans.unique (.inl hname)
    cases h'.eq_blank hname'
    exact .refl

/-- A class with a vtable has one above it. -/
theorem exists_above (h : cp.HasVtable d v) (hname : cp.Extends d name) :
    ∃ w, cp.HasVtable name w := by
  cases h with
  | root hroot => exact absurd (.inl hname) (not_leans_of_root hroot)
  | derived hleans habove _ =>
    cases hleans.unique (.inl hname)
    exact ⟨_, habove⟩
  | cyclic hcyclic =>
    obtain ⟨name', hleans, hname'⟩ := exists_step_of_not_quiet hcyclic
    cases hleans.unique (.inl hname)
    exact ⟨_, .cyclic hname'⟩

/-- The slots of an ancestor are found again at the same indices. -/
theorem kept (h : cp.HasVtable d v) (hup : ReflTransGen cp.Extends d a) (ha : cp.HasVtable a u)
    {k : Nat} {y : Slot} (hy : u.slots[k]? = some y) :
    ∃ x, v.slots[k]? = some x ∧ x.method.sameSignature y.method = true := by
  induction hup using ReflTransGen.head_induction_on generalizing v with
  | refl =>
    cases h.unique ha
    exact ⟨y, hy, y.method.sameSignature_refl⟩
  | head hstep _ ih =>
    obtain ⟨w, hw⟩ := h.exists_above hstep
    obtain ⟨c, _, hc, _⟩ := hstep.superclass
    obtain ⟨z, hz, hzy⟩ := ih hw
    obtain ⟨x, hx, hxz⟩ := (h.covers hc hstep hw).kept hz
    exact ⟨x, hx, MethodRef.sameSignature_trans hxz hzy⟩

end HasVtable

/-! ## Every history -/

/-- What is known of the vtable of a class even if its failures depend on the history. -/
structure Slotted (cp : ClassPath) (d : String) (r : Except HierarchyError Vtable) : Prop where
  ok : ∀ {v}, r = .ok v → cp.HasVtable d v
  cycle : ∀ {x}, r = .error (.cycle x) → ¬ Quiet cp.Leans d

/-- All remembered interfaces and vtables are as they should be. -/
def SlottedAll (cp : ClassPath) (m : Memo) : Prop :=
  cp.ToldAll m ∧ Remembers m.vtables cp.Slotted

theorem Slotted.missing {r : Except HierarchyError Vtable} (hd : cp.def? d = none)
    (h : cp.Slotted objectClass r) :
    cp.Slotted d (r.map fun above => ⟨above.slots, false⟩) := by
  have hleans : cp.Leans d objectClass := .inr ⟨hd, rfl⟩
  cases r with
  | ok above =>
    refine ⟨?_, ?_⟩
    · rintro v ⟨⟩
      exact .derived hleans (h.ok rfl) (by simp only [vtableOver?, hd])
    · rintro x ⟨⟩
  | error e =>
    refine ⟨?_, ?_⟩
    · rintro v ⟨⟩
    · rintro x ⟨⟩ hquiet
      exact h.cycle rfl (hquiet.of_step hleans)

theorem keeps_slottedAll_extendVtable (cp : ClassPath) (d : String) (c : ClassDef)
    (slots : List Slot) : Keeps cp.SlottedAll (cp.extendVtable cp.interfacesOf d c slots) :=
  (keeps_extendVtable (fun d => (cp.told_interfacesOf d).keeps) d c slots).and
    (keeps_extendVtable (keeps_interfacesOf fun _ _ hm => hm) d c slots)

theorem slotted_extendVtable (hd : cp.def? d = some c) (above : Vtable)
    (hresolved : above.resolved = true)
    (hv : ∀ {v}, cp.vtableOver? d above = some v → cp.HasVtable d v) :
    Yields cp.SlottedAll (cp.extendVtable cp.interfacesOf d c above.slots) (cp.Slotted d) := by
  refine ((firm_extendVtable hd above.slots).within (fun _ hm => hm.1)
    (keeps_slottedAll_extendVtable cp d c above.slots)).mono fun r hr => ?_
  refine ⟨fun h => hv ?_, fun h => absurd h hr.cycle⟩
  simp only [vtableOver?, hd, hresolved, if_true, hr.ok h]
  rfl

/-- The vtable that is collected for a class is one it can have. -/
theorem slotted_collectVtable {inherited : String → Query Vtable} (hd : cp.def? d = some c)
    (hin : ∀ name, cp.Leans d name → Yields cp.SlottedAll (inherited name) (cp.Slotted name)) :
    Yields cp.SlottedAll (cp.collectVtable cp.interfacesOf inherited d c) (cp.Slotted d) := by
  have throws {e : HierarchyError} (he : ∀ x, e ≠ .cycle x) : cp.Slotted d (.error e) := by
    refine ⟨?_, ?_⟩
    · rintro v ⟨⟩
    · rintro x ⟨⟩
      exact absurd rfl (he x)
  unfold collectVtable
  cases hs : c.superclass? with
  | none =>
    exact slotted_extendVtable hd ⟨[], true⟩ rfl fun hv => .root (parent?_of_none hd hs) hv
  | some s =>
    refine .bind_lift (fun n hn => ?_) fun e he => throws ?_
    · cases n with
      | cls name =>
        have hleans := leans_superclass hd hs hn
        refine (hin name hleans).bind_attempt fun r hr => ?_
        cases r with
        | ok above =>
          have habove := hr.ok rfl
          dsimp only
          split
          · next hresolved =>
            exact slotted_extendVtable hd above hresolved fun hv => .derived hleans habove hv
          · next hresolved =>
            refine .pure ⟨?_, ?_⟩
            · rintro v ⟨⟩
              exact .derived hleans habove (by simp only [vtableOver?, hd, if_neg hresolved])
            · rintro x ⟨⟩
        | error e =>
          cases e with
          | cycle x =>
            refine .pure ⟨?_, ?_⟩
            · rintro v ⟨⟩
              exact .cyclic fun hquiet => hr.cycle rfl (hquiet.of_step hleans)
            · rintro x ⟨⟩
          | _ =>
            refine .throw (throws ?_)
            rintro x ⟨⟩
      | _ =>
        refine .throw (throws ?_)
        rintro x ⟨⟩
    · rintro x rfl
      cases isUnresolved_of_ofDescriptor he

/-- So is the one that is found. -/
theorem slotted_vtableOf (cp : ClassPath) (d : String) :
    Yields cp.SlottedAll (cp.vtableOf d) (cp.Slotted d) := by
  refine yields_vtableFrom (R := cp.Slotted) (fun hm h => hm.2 _ _ h) ?_ slotted_collectVtable
    (fun hd _ h => h.missing hd) (fun hm h => ⟨hm.1, hm.2.add h⟩) [] d (List.forall_mem_nil _)
  intro d hcycle
  refine ⟨?_, fun _ => not_quiet_of_cycle hcycle⟩
  rintro v ⟨⟩

theorem slottedAll_of_asked {m : Memo} (h : cp.Asked .empty m) : cp.SlottedAll m := by
  refine h.keeps (I := cp.SlottedAll) ⟨fun d => ?_, fun d => (cp.slotted_vtableOf d).keeps, ?_⟩
    ⟨cp.toldAll_empty, .nil⟩
  · exact (cp.told_interfacesOf d).keeps.and (keeps_interfacesOf (fun _ _ hm => hm) d)
  · exact keeps_layoutOf fun _ hm => hm

/-- Whatever was asked before, a vtable that is given is that of the class. -/
theorem hasVtable_of_answer {history : List Question}
    (h : (cp.vtableOf d).answer (cp.remembered history) = .ok v) : cp.HasVtable d v :=
  ((cp.slotted_vtableOf d).answer (slottedAll_of_asked (cp.asked_remembered history))).ok h

/-- Slots are stable under inheritance.  A class keeps the slots of its superclass at their
indices, with their signatures, and only puts methods of its own into them.  So it keeps the slots
of all its ancestors. -/
theorem slots_stable (cp : ClassPath) (history history' : List Question) {d : String}
    {c : ClassDef} {s : Ty} {v w : Vtable} (hd : cp.def? d = some c) (hs : c.superclass? = some s)
    (hv : (cp.vtableOf d).answer (cp.remembered history) = .ok v)
    (hw : (cp.vtableOf s.descriptor).answer (cp.remembered history') = .ok w) :
    w.slots.length ≤ v.slots.length ∧
      (∀ (k : Nat) (y : Slot), w.slots[k]? = some y → ∃ x, v.slots[k]? = some x ∧
        x.method.name = y.method.name ∧ x.method.params = y.method.params ∧
        x.method.result = y.method.result ∧ (x = y ∨ x.method.definer = c.ty)) ∧
      ∀ a history'' u, TransGen cp.Extends d a →
        (cp.vtableOf a).answer (cp.remembered history'') = .ok u →
        ∀ (k : Nat) (y : Slot), u.slots[k]? = some y → ∃ x, v.slots[k]? = some x ∧
          x.method.name = y.method.name ∧ x.method.params = y.method.params ∧
          x.method.result = y.method.result := by
  have hv := hasVtable_of_answer hv
  have hw := hasVtable_of_answer hw
  have hcovers := hv.covers hd (hv.extends_superclass hd hs) hw
  refine ⟨hcovers.length_le, fun k y hy => ?_, fun a history'' u hup hu k y hy => ?_⟩
  · obtain ⟨x, hx, hxy, hdefiner⟩ := hcovers.entry hy
    obtain ⟨hname, hresult, hparams⟩ := MethodRef.sameSignature_iff.1 hxy
    exact ⟨x, hx, hname, hparams, hresult, hdefiner⟩
  · obtain ⟨x, hx, hxy⟩ := hv.kept hup.to_reflTransGen (hasVtable_of_answer hu) hy
    obtain ⟨hname, hresult, hparams⟩ := MethodRef.sameSignature_iff.1 hxy
    exact ⟨x, hx, hname, hparams, hresult⟩

/-- A class with a method that only its package sees, one of another package below it that declares
the same method, and one below both that overrides it and declares an interface. -/
def packaged : ClassPath := .ofClasses
  [{ ty := .cls "java/lang/Object" },
    { ty := .cls "p/A", superclass? := some CoreClasses.objectTy,
      methods := [⟨"f", [], .void, .none, none⟩] },
    { ty := .cls "q/B", superclass? := some (.cls "p/A"),
      methods := [⟨"f", [], .void, .none, none⟩] },
    { ty := .cls "q/C", superclass? := some (.cls "q/B"), interfaces := [.cls "q/I"],
      methods := [⟨"f", [], .void, .none, none⟩] },
    { ty := .cls "q/I", flags := .ofList [.interface],
      methods := [⟨"g", [], .void, .none, none⟩] }] packageCheckLevel

/-- The methods of these classes, as slots. -/
def packagedSlot (definer name : String) : Slot := ⟨⟨.cls definer, name, [], .void⟩, .none⟩

/-- The slot that only its package sees is kept, and the method of the other package has a slot of
its own, which is overridden further down. -/
theorem slots_stable_packaged :
    let u : Vtable := ⟨[packagedSlot "p/A" "f"], true⟩
    let w : Vtable := ⟨[packagedSlot "p/A" "f", packagedSlot "q/B" "f"], true⟩
    let v : Vtable :=
      ⟨[packagedSlot "p/A" "f", packagedSlot "q/C" "f", packagedSlot "q/C" "g"], true⟩
    let history : List Question := [.vtable "Lp/A;", .interfaces "Lq/C;"]
    (packaged.vtableOf "Lq/C;").answer (packaged.remembered history) = .ok v ∧
      (packaged.vtableOf "Lq/B;").answer (packaged.remembered []) = .ok w ∧
      (packaged.vtableOf "Lp/A;").answer (packaged.remembered history) = .ok u ∧
      w.slots.length ≤ v.slots.length ∧
      (∃ x, v.slots[1]? = some x ∧ x.method.name = "f" ∧
        (x = packagedSlot "q/B" "f" ∨ x.method.definer = .cls "q/C")) ∧
      ∃ x, v.slots[0]? = some x ∧ x.method.name = "f" := by
  intro u w v history
  have hv : (packaged.vtableOf "Lq/C;").answer (packaged.remembered history) = .ok v :=
    ok_of_toOption (by decide +kernel)
  have hw : (packaged.vtableOf (Ty.cls "q/B").descriptor).answer (packaged.remembered []) = .ok w :=
    ok_of_toOption (by decide +kernel)
  have hu : (packaged.vtableOf "Lp/A;").answer (packaged.remembered history) = .ok u :=
    ok_of_toOption (by decide +kernel)
  obtain ⟨hlength, hentry, hkept⟩ := packaged.slots_stable history [] rfl rfl hv hw
  obtain ⟨x, hx, hname, _, _, hdefiner⟩ := hentry 1 _ rfl
  obtain ⟨x', hx', hname', _⟩ := hkept "Lp/A;" history u
    (.head (b := "Lq/B;") rfl (.single rfl)) hu 0 _ rfl
  exact ⟨hv, hw, hu, hlength, ⟨x, hx, hname, hdefiner⟩, x', hx', hname'⟩

end ClassPath

end Dalvik
