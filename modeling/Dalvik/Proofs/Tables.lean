import Dalvik.Proofs.Independence
import Dalvik.Proofs.Inheritance

/-!
# Vtables and layouts do not depend on the history

The vtable and the layout of a class follow the superclasses, so each class has at most one next
class.  If the way up ends, the answer is determined as that for interfaces is.  If it does not,
the vtable is blank and the layout fails: remembered answers are then blank too, or there are none.

The way up for a vtable goes on from a class that is not defined to the root class.  If that is not
defined either the vtable fails.
-/

namespace Dalvik

open Relation (ReflTransGen TransGen)

namespace ClassPath

variable {cp : ClassPath} {I : Memo → Prop} {d name : String} {c : ClassDef}

/-! ## Direct interfaces -/

/-- The direct interfaces of a complete class do not depend on the history. -/
theorem Complete.steady_directInterfaces (h : cp.Complete d) :
    Steady cp.ToldAll (cp.directInterfaces d) := by
  refine (steady_interfacesOf h.quiet).bind fun i => ?_
  split
  · exact .pure _
  · exact .throw _

/-- The direct interfaces of a class are the same for each history, since they are only given if
everything above the class is known. -/
theorem steady_directInterfaces (hcp : cp.ClassesOnly) (hd : cp.def? d = some c) :
    Steady cp.ToldAll (cp.directInterfaces d) := by
  by_cases hcomplete : cp.Complete d
  · exact hcomplete.steady_directInterfaces
  · refine .of_yields (r := .error (.interfacesNotResolved d)) ?_
    refine (found_interfacesOf hcp hd).bind (fun i hi => ?_) fun e he => ?_
    · obtain ⟨_, heq, hi⟩ := hi
      cases heq
      rw [if_neg fun hresolved => hcomplete (hi.resolved.1 hresolved)]
      exact .throw rfl
    · obtain ⟨_, heq, _⟩ := he
      cases heq

/-- What a class adds to the slots from above does not depend on the history. -/
theorem steady_extendVtable (hcp : cp.ClassesOnly) (hd : cp.def? d = some c) (slots : List Slot) :
    Steady cp.ToldAll (cp.extendVtable cp.interfacesOf d c slots) := by
  unfold extendVtable
  split
  · exact .pure _
  · exact (steady_directInterfaces hcp hd).bind fun _ => .pure _

/-! ## Vtables -/

/-- The vtable of a class, from that of its superclass or of the root class. -/
def vtableBy (cp : ClassPath) (d : String) (ref : String → Except HierarchyError Vtable) :
    Except HierarchyError Vtable :=
  match cp.def? d with
  | some c =>
    (cp.collectVtable cp.interfacesOf (fun name => Asking.lift (ref name)) d c).answer Memo.empty
  | none => (ref objectClass).map fun above => ⟨above.slots, false⟩

theorem leans_superclass {s : Ty} (hd : cp.def? d = some c) (hs : c.superclass? = some s)
    (hname : TypeNode.ofTy s = .ok (.cls name)) : cp.Leans d name :=
  .inl (parent?_of_superclass hd hs hname)

theorem superclass_of_leans (hd : cp.def? d = some c) (h : cp.Leans d name) :
    ∃ s, c.superclass? = some s ∧ TypeNode.ofTy s = .ok (.cls name) := by
  rcases h with h | ⟨hnone, _⟩
  · obtain ⟨c', s, hd', hs, hn⟩ := h.superclass
    cases hd.symm.trans hd'
    exact ⟨s, hs, hn⟩
  · cases hd.symm.trans hnone

/-- A class leans on one class at most. -/
theorem Leans.unique {name' : String} (h : cp.Leans d name) (h' : cp.Leans d name') :
    name = name' := by
  have hdefined : ∀ {name}, cp.Extends d name → cp.def? d ≠ none := by
    intro name hname hd
    cases (parent?_of_missing hd).symm.trans hname
  rcases h with h | ⟨hd, rfl⟩
  · rcases h' with h' | ⟨hd, _⟩
    · cases h.symm.trans h'
      rfl
    · exact absurd hd (hdefined h)
  · rcases h' with h' | ⟨_, rfl⟩
    · exact absurd hd (hdefined h')
    · rfl

/-- A vtable is made from the one above as it would be without a memory. -/
theorem tells_collectVtable {inherited : String → Query Vtable}
    {ref : String → Except HierarchyError Vtable} (hd : cp.def? d = some c)
    (hextend : ∀ slots, Tells I (cp.extendVtable cp.interfacesOf d c slots)
      (cp.extendVtable cp.interfacesOf d c slots))
    (hin : ∀ name, cp.Leans d name → Yields I (inherited name) (· = ref name)) :
    Yields I (cp.collectVtable cp.interfacesOf inherited d c) (· = cp.vtableBy d ref) := by
  simp only [vtableBy, hd, collectVtable]
  cases hs : c.superclass? with
  | none => exact hextend []
  | some s =>
    refine Tells.bind_lift fun n hn => ?_
    cases n with
    | cls name =>
      refine .bind_attempt (hin name (leans_superclass hd hs hn)) ?_
      cases ref name with
      | ok above =>
        simp only
        split
        · exact hextend above.slots
        · exact .pure _
      | error e =>
        cases e with
        | cycle _ => exact .pure _
        | _ => exact .throw _
    | primitive _ => exact .throw _
    | unknown => exact .throw _
    | array _ _ => exact .throw _

/-- The vtable of a class depends on those it leans on only. -/
theorem local_vtableBy (hcp : cp.ClassesOnly) : Local cp.Leans cp.vtableBy := by
  intro d ref ref' h
  cases hd : cp.def? d with
  | none =>
    simp only [vtableBy, hd]
    rw [h objectClass (.inr ⟨hd, rfl⟩)]
  | some c =>
    have htells : Yields cp.ToldAll
        (cp.collectVtable cp.interfacesOf (fun name => Asking.lift (ref name)) d c)
        (· = cp.vtableBy d ref') :=
      tells_collectVtable hd
        (fun slots => (steady_extendVtable hcp hd slots).tells cp.toldAll_empty)
        fun name hname => .lift (h name hname)
    rw [← htells.answer cp.toldAll_empty]
    simp only [vtableBy, hd]

/-- Below a cycle, the vtable of a defined class is blank. -/
theorem blank_collectVtable {inherited : String → Query Vtable} (hd : cp.def? d = some c)
    (hquiet : ¬ Quiet cp.Leans d)
    (hin : ∀ name, cp.Leans d name → ¬ Quiet cp.Leans name → Yields I (inherited name) fun r =>
      r = .ok ⟨[], false⟩ ∨ ∃ x, r = .error (.cycle x)) :
    Yields I (cp.collectVtable cp.interfacesOf inherited d c) (· = .ok ⟨[], false⟩) := by
  obtain ⟨name, hleans, hname⟩ := exists_step_of_not_quiet hquiet
  obtain ⟨s, hs, hn⟩ := superclass_of_leans hd hleans
  unfold collectVtable
  rw [hs]
  refine .bind_lift (fun n hn' => ?_) fun e he => ?_
  · cases hn.symm.trans hn'
    refine (hin name hleans hname).bind_attempt ?_
    rintro _ (rfl | ⟨x, rfl⟩)
    · exact .pure rfl
    · exact .pure rfl
  · cases hn.symm.trans he

/-- What is known of the vtable of a class, whatever was asked before. -/
structure Tabled (cp : ClassPath) (d : String) (r : Except HierarchyError Vtable) : Prop where
  quiet : Quiet cp.Leans d → Determined cp.Leans cp.vtableBy d r
  blank : ¬ Quiet cp.Leans d → r = .ok ⟨[], false⟩ ∨ ∃ x, r = .error (.cycle x)
  rootless : cp.def? objectClass = none → cp.def? d = none → ∃ e, r = .error e

/-- All remembered interfaces and vtables are as they should be. -/
def TabledAll (cp : ClassPath) (m : Memo) : Prop :=
  cp.ToldAll m ∧ Remembers m.vtables cp.Tabled

theorem tabledAll_empty (cp : ClassPath) : cp.TabledAll .empty :=
  ⟨cp.toldAll_empty, .nil⟩

theorem tells_extendVtable (hcp : cp.ClassesOnly) (hd : cp.def? d = some c) (slots : List Slot) :
    Tells cp.TabledAll (cp.extendVtable cp.interfacesOf d c slots)
      (cp.extendVtable cp.interfacesOf d c slots) := by
  refine Steady.tells ?_ cp.tabledAll_empty
  refine (steady_extendVtable hcp hd slots).mono (fun _ hm => hm.1) ?_
  refine (steady_extendVtable hcp hd slots).keeps.and ?_
  exact keeps_extendVtable (keeps_interfacesOf fun _ _ hm => hm) d c slots

/-- The vtable that is collected for a class is as it should be if those above are. -/
theorem tabled_collectVtable (hcp : cp.ClassesOnly) {inherited : String → Query Vtable}
    (hd : cp.def? d = some c)
    (hin : ∀ name, cp.Leans d name → Yields cp.TabledAll (inherited name) (cp.Tabled name)) :
    Yields cp.TabledAll (cp.collectVtable cp.interfacesOf inherited d c) (cp.Tabled d) := by
  have defined (r : Except HierarchyError Vtable) :
      cp.def? objectClass = none → cp.def? d = none → ∃ e, r = .error e := by
    intro _ hnone
    cases hd.symm.trans hnone
  by_cases hquiet : Quiet cp.Leans d
  · refine Yields.mono ?_ fun r hr => ⟨fun _ => hr, fun h => absurd hquiet h, defined r⟩
    refine yields_determined (local_vtableBy hcp) inherited (fun name hname => ?_)
      fun ref href => tells_collectVtable hd (tells_extendVtable hcp hd) href
    exact (hin name hname).mono fun r h => h.quiet (hquiet.of_step hname)
  · refine Yields.mono (blank_collectVtable hd hquiet fun name hleans hname => ?_) fun r hr => ?_
    · exact (hin name hleans).mono fun r h => h.blank hname
    · exact ⟨fun h => absurd h hquiet, fun _ => .inl hr, defined r⟩

/-- A missing class has the slots of the root class. -/
theorem tabled_missing {r : Except HierarchyError Vtable} (hd : cp.def? d = none)
    (h : cp.Tabled objectClass r) :
    cp.Tabled d (r.map fun above => ⟨above.slots, false⟩) where
  quiet hquiet := by
    have hroot := h.quiet (hquiet.of_step (.inr ⟨hd, rfl⟩))
    have hout : cp.vtableBy d (fun _ => r) = r.map fun above => ⟨above.slots, false⟩ := by
      simp only [vtableBy, hd]
    rw [← hout]
    refine .of_next fun name hname => ?_
    cases hname.unique (.inr ⟨hd, rfl⟩)
    exact hroot
  blank hquiet := by
    obtain ⟨name, hleans, hname⟩ := exists_step_of_not_quiet hquiet
    cases hleans.unique (.inr ⟨hd, rfl⟩)
    rcases h.blank hname with rfl | ⟨x, rfl⟩
    · exact .inl rfl
    · exact .inr ⟨x, rfl⟩
  rootless hroot _ := by
    obtain ⟨e, rfl⟩ := h.rootless hroot hroot
    exact ⟨e, rfl⟩

/-- The vtable that is found for a class is as it should be, by induction over the search. The open
classes lean on the one that is asked for. -/
theorem tabled_vtableFrom (hcp : cp.ClassesOnly) (open_ : List String) (d : String)
    (hopen : ∀ o ∈ open_, TransGen cp.Leans o d) :
    Yields cp.TabledAll (cp.vtableFrom open_ d) (cp.Tabled d) := by
  refine yields_vtableFrom (R := cp.Tabled) (fun hm h => hm.2 _ _ h) ?_
    (tabled_collectVtable hcp) (fun hd _ => tabled_missing hd)
    (fun hm h => ⟨hm.1, hm.2.add h⟩) open_ d hopen
  intro d hcycle
  exact ⟨fun h => absurd h (not_quiet_of_cycle hcycle), fun _ => .inr ⟨d, rfl⟩,
    fun _ _ => ⟨_, rfl⟩⟩

/-- Below a cycle, the vtable of a defined class that is not being computed is blank. -/
theorem blank_vtableFrom (hcp : cp.ClassesOnly) {open_ : List String}
    (hopen : ∀ o ∈ open_, TransGen cp.Leans o d) (hmet : d ∉ open_) (hd : cp.def? d = some c)
    (hquiet : ¬ Quiet cp.Leans d) :
    Yields cp.TabledAll (cp.vtableFrom open_ d) (· = .ok ⟨[], false⟩) := by
  rw [vtableFrom_eq, if_neg hmet, hd]
  refine .recalled (fun hm hv => ?_) ?_ fun hm hv => ⟨hm.1, hm.2.add ?_⟩
  · rcases (hm.2 _ _ hv).blank hquiet with h | ⟨x, h⟩
    · exact h
    · cases h
  · refine blank_collectVtable hd hquiet fun name hleans hname => ?_
    exact (tabled_vtableFrom hcp (d :: open_) name (leads_cons hopen hleans)).mono
      fun r h => h.blank hname
  · refine ⟨fun h => absurd h hquiet, fun _ => .inl hv, fun _ hnone => ?_⟩
    cases hd.symm.trans hnone

section Missing

variable (hd : cp.def? d = none)
include hd

/-- If the root class is not defined, it leans on itself. -/
theorem rootless_vtableFrom (hroot : d = objectClass) (open_ : List String) :
    Yields cp.TabledAll (cp.vtableFrom open_ d) (· = .error (.cycle objectClass)) := by
  cases hroot
  rw [vtableFrom_eq, hd]
  refine .recalled (fun hm hv => ?_) ?_ nofun
  · obtain ⟨e, he⟩ := (hm.2 _ _ hv).rootless hd hd
    cases he
  · split
    · exact .throw rfl
    · rw [if_pos rfl]
      exact .throw rfl

/-- Without a definition of the root class there is no vtable of a class that is not defined. -/
theorem rootless_vtableOf (hroot : cp.def? objectClass = none) :
    Yields cp.TabledAll (cp.vtableOf d) (· = .error (.cycle objectClass)) := by
  by_cases hne : d = objectClass
  · exact rootless_vtableFrom hd hne []
  rw [vtableOf, vtableFrom_eq, if_neg List.not_mem_nil, hd, if_neg hne]
  refine .recalled (fun hm hv => ?_) ?_ nofun
  · obtain ⟨e, he⟩ := (hm.2 _ _ hv).rootless hroot hd
    cases he
  · refine (rootless_vtableFrom hroot rfl [d]).bind (fun above h => ?_) fun e he => he
    cases h

/-- The vtable of a class that is not defined is blank if the root class is below a cycle. -/
theorem blank_vtableOf_missing (hcp : cp.ClassesOnly) (hroot : cp.def? objectClass = some c)
    (hquiet : ¬ Quiet cp.Leans d) :
    Yields cp.TabledAll (cp.vtableOf d) (· = .ok ⟨[], false⟩) := by
  have hne : d ≠ objectClass := by
    rintro rfl
    cases hd.symm.trans hroot
  have hleans : cp.Leans d objectClass := .inr ⟨hd, rfl⟩
  have hrootQuiet : ¬ Quiet cp.Leans objectClass := by
    obtain ⟨name, hstep, hname⟩ := exists_step_of_not_quiet hquiet
    cases hstep.unique hleans
    exact hname
  rw [vtableOf, vtableFrom_eq, if_neg List.not_mem_nil, hd, if_neg hne]
  refine .recalled (fun hm hv => ?_) ?_ fun hm hv => ⟨hm.1, hm.2.add ?_⟩
  · rcases (hm.2 _ _ hv).blank hquiet with h | ⟨x, h⟩
    · exact h
    · cases h
  · refine (blank_vtableFrom hcp (leads_cons (List.forall_mem_nil _) hleans) ?_ hroot
      hrootQuiet).bind (fun above habove => ?_) nofun
    · exact fun h => hne (List.mem_singleton.1 h).symm
    · cases habove
      exact .pure rfl
  · refine ⟨fun h => absurd h hquiet, fun _ => .inl hv, fun hnone => ?_⟩
    cases hroot.symm.trans hnone

end Missing

/-- The vtable of a class does not depend on the history. -/
theorem steady_vtableOf (hcp : cp.ClassesOnly) (d : String) :
    Steady cp.TabledAll (cp.vtableOf d) := by
  have htabled := tabled_vtableFrom hcp [] d nofun
  by_cases hquiet : Quiet cp.Leans d
  · refine ⟨htabled.keeps, fun hm hm' => ?_⟩
    have hr := (htabled.answer hm).quiet hquiet
    exact hr.unique (local_vtableBy hcp) ((htabled.answer hm').quiet hquiet)
  cases hd : cp.def? d with
  | some c => exact .of_yields (blank_vtableFrom hcp nofun List.not_mem_nil hd hquiet)
  | none =>
    cases hroot : cp.def? objectClass with
    | none => exact .of_yields (rootless_vtableOf hd hroot)
    | some c => exact .of_yields (blank_vtableOf_missing hd hcp hroot hquiet)

theorem tabledAll_of_asked (hcp : cp.ClassesOnly) {m : Memo} (h : cp.Asked .empty m) :
    cp.TabledAll m := by
  refine h.keeps (I := cp.TabledAll) ⟨fun d => ?_, fun d => (steady_vtableOf hcp d).keeps, ?_⟩
    cp.tabledAll_empty
  · exact (cp.told_interfacesOf d).keeps.and (keeps_interfacesOf (fun _ _ hm => hm) d)
  · exact keeps_layoutOf fun _ hm => hm

/-! ## Layouts -/

/-- The layout of a class, from that of its superclass. -/
def layoutBy (cp : ClassPath) (d : String) (ref : String → Except HierarchyError Layout) :
    Except HierarchyError Layout :=
  match cp.def? d with
  | none => .error (.unresolvedClass d)
  | some c => (collectLayout (fun name => Asking.lift (ref name)) c).answer Memo.empty

/-- A layout is made from the one above as it would be without a memory. -/
theorem tells_collectLayout {inherited : String → Query Layout}
    {ref : String → Except HierarchyError Layout} (hd : cp.def? d = some c)
    (hin : ∀ name, cp.Extends d name → Yields I (inherited name) (· = ref name)) :
    Yields I (collectLayout inherited c) (· = cp.layoutBy d ref) := by
  simp only [layoutBy, hd, collectLayout]
  cases hs : c.superclass? with
  | none => exact .pure rfl
  | some s =>
    refine Tells.bind_lift fun n hn => ?_
    cases n with
    | cls name =>
      refine Tells.bind ?_ (.lift _) fun above => .pure _
      rw [Tells, Asking.answer_lift]
      exact hin name (parent?_of_superclass hd hs hn)
    | primitive _ => exact .pure _
    | unknown => exact .pure _
    | array _ _ => exact .pure _

/-- The layout of a class depends on that of its superclass only. -/
theorem local_layoutBy (cp : ClassPath) : Local cp.Extends cp.layoutBy := by
  intro d ref ref' h
  cases hd : cp.def? d with
  | none => simp only [layoutBy, hd]
  | some c =>
    have htells : Yields (fun _ => True) (collectLayout (fun name => Asking.lift (ref name)) c)
        (· = cp.layoutBy d ref') :=
      tells_collectLayout hd fun name hname => .lift (h name hname)
    rw [← htells.answer (m := .empty) trivial]
    simp only [layoutBy, hd]

/-- What is known of the layout of a class, whatever was asked before. -/
structure Laid (cp : ClassPath) (d : String) (r : Except HierarchyError Layout) : Prop where
  quiet : Quiet cp.Extends d → Determined cp.Extends cp.layoutBy d r
  cyclic : ¬ Quiet cp.Extends d → ∃ e, r = .error e

/-- All remembered layouts are as they should be. -/
def LaidAll (cp : ClassPath) (m : Memo) : Prop := Remembers m.layouts cp.Laid

theorem superclass_of_extends (hd : cp.def? d = some c) (h : cp.Extends d name) :
    ∃ s, c.superclass? = some s ∧ TypeNode.ofTy s = .ok (.cls name) :=
  superclass_of_leans hd (.inl h)

/-- The layout that is collected for a class is as it should be if the one above is. -/
theorem laid_collectLayout {inherited : String → Query Layout} (hd : cp.def? d = some c)
    (hin : ∀ name, cp.Extends d name → Yields cp.LaidAll (inherited name) (cp.Laid name)) :
    Yields cp.LaidAll (collectLayout inherited c) (cp.Laid d) := by
  by_cases hquiet : Quiet cp.Extends d
  · refine Yields.mono ?_ fun r hr => ⟨fun _ => hr, fun h => absurd hquiet h⟩
    refine yields_determined cp.local_layoutBy inherited (fun name hname => ?_)
      fun ref href => tells_collectLayout hd href
    exact (hin name hname).mono fun r h => h.quiet (hquiet.of_step hname)
  · refine Yields.mono ?_ fun r hr => ⟨fun h => absurd h hquiet, fun _ => hr⟩
    obtain ⟨name, hextends, hname⟩ := exists_step_of_not_quiet hquiet
    obtain ⟨s, hs, hn⟩ := superclass_of_extends hd hextends
    unfold collectLayout
    rw [hs]
    refine .bind_lift (fun n hn' => ?_) fun e _ => ⟨e, rfl⟩
    cases hn.symm.trans hn'
    refine (hin name hextends).bind (fun above h => ?_) fun e _ => ⟨e, rfl⟩
    obtain ⟨e, he⟩ := h.cyclic hname
    cases he

theorem determined_layout_of_missing (hd : cp.def? d = none) :
    Determined cp.Extends cp.layoutBy d (.error (.unresolvedClass d)) := by
  have hout : cp.layoutBy d (fun _ => .error (.unresolvedClass d)) =
      .error (.unresolvedClass d) := by
    simp only [layoutBy, hd]
  rw [← hout]
  refine .of_next fun name hname => ?_
  cases (parent?_of_missing hd).symm.trans hname

/-- The layout that is found for a class is as it should be, by induction over the search. The open
classes are below the one that is asked for. -/
theorem laid_layoutFrom (open_ : List String) (d : String)
    (hopen : ∀ o ∈ open_, TransGen cp.Extends o d) :
    Yields cp.LaidAll (cp.layoutFrom open_ d) (cp.Laid d) := by
  refine yields_layoutFrom (R := cp.Laid) (fun hm h => hm _ _ h) ?_ ?_ laid_collectLayout
    (fun hm h => Remembers.add hm h) open_ d hopen
  · intro d hcycle
    exact ⟨fun h => absurd h (not_quiet_of_cycle hcycle), fun _ => ⟨_, rfl⟩⟩
  · intro d hd
    exact ⟨fun _ => determined_layout_of_missing hd, fun _ => ⟨_, rfl⟩⟩

/-- Below a cycle nothing is remembered, so the search for a layout takes the same way and fails
in the same place each time. -/
theorem same_layoutFrom (open_ : List String) (d : String) (hquiet : ¬ Quiet cp.Extends d)
    {m m' : Memo} (hm : cp.LaidAll m) (hm' : cp.LaidAll m') :
    (cp.layoutFrom open_ d).answer m = (cp.layoutFrom open_ d).answer m' := by
  have unknown : ∀ {m}, cp.LaidAll m → m.layouts.lookup d = none := by
    intro m hm
    cases hl : m.layouts.lookup d with
    | none => rfl
    | some l =>
      obtain ⟨e, he⟩ := (hm d l hl).cyclic hquiet
      cases he
  obtain ⟨name, hextends, hname⟩ := exists_step_of_not_quiet hquiet
  rw [layoutFrom_eq, Asking.answer_recalled (unknown hm), Asking.answer_recalled (unknown hm')]
  split
  · rfl
  cases hd : cp.def? d with
  | none => rfl
  | some c =>
    obtain ⟨s, hs, hn⟩ := superclass_of_extends hd hextends
    have hcollect : collectLayout (cp.layoutFrom (d :: open_)) c = (do
        let above ← cp.layoutFrom (d :: open_) name
        pure (extendLayout c above)) := by
      simp only [collectLayout, hs, hn]
      rfl
    simp only [hcollect, Asking.answer_bind_pure]
    rw [same_layoutFrom (d :: open_) name hname hm hm']
termination_by cp.unmet open_
decreasing_by exact unmet_cons_lt ‹_› ‹_›

/-- The layout of a class does not depend on the history. -/
theorem steady_layoutOf (cp : ClassPath) (d : String) : Steady cp.LaidAll (cp.layoutOf d) := by
  have hlaid := cp.laid_layoutFrom [] d nofun
  refine ⟨hlaid.keeps, fun hm hm' => ?_⟩
  by_cases hquiet : Quiet cp.Extends d
  · have hr := (hlaid.answer hm).quiet hquiet
    exact hr.unique cp.local_layoutBy ((hlaid.answer hm').quiet hquiet)
  · exact same_layoutFrom [] d hquiet hm hm'

theorem laidAll_of_asked {m : Memo} (h : cp.Asked .empty m) : cp.LaidAll m := by
  have hi : ∀ d, Keeps cp.LaidAll (cp.interfacesOf d) := keeps_interfacesOf fun _ _ hm => hm
  exact h.keeps ⟨hi, keeps_vtableOf hi fun _ hm => hm, fun d => (cp.steady_layoutOf d).keeps⟩ .nil

/-! ## Every history -/

/-- Vtables and layouts are the same after every history. -/
theorem vtables_and_layouts_steady (cp : ClassPath) (hcp : cp.ClassesOnly)
    (history : List Question) (d : String) :
    (cp.vtableOf d).answer (cp.remembered history) = (cp.vtableOf d).answer .empty ∧
      (cp.layoutOf d).answer (cp.remembered history) = (cp.layoutOf d).answer .empty := by
  have hasked := cp.asked_remembered history
  refine ⟨?_, ?_⟩
  · exact (steady_vtableOf hcp d).same (tabledAll_of_asked hcp hasked) cp.tabledAll_empty
  · exact (cp.steady_layoutOf d).same (laidAll_of_asked hasked) .nil

/-- Two classes below each other, a class below one of them, and a class below a missing one. -/
def looped : ClassPath := .ofClasses
  [{ ty := .cls "A", superclass? := some (.cls "B") },
    { ty := .cls "B", superclass? := some (.cls "A"), interfaces := [.cls "I"] },
    { ty := .cls "C", superclass? := some (.cls "A"), fields := [⟨"f", .int, .none⟩] },
    { ty := .cls "D", superclass? := some (.cls "Missing") },
    { ty := .cls "I", flags := .ofList [.interface], interfaces := [.cls "I"] }] defaultLevel

theorem vtables_and_layouts_steady_looped :
    looped.ClassesOnly ∧
      (looped.vtableOf "LC;").answer
          (looped.remembered [.vtable "LB;", .layout "LD;", .interfaces "LI;"]) =
        (looped.vtableOf "LC;").answer .empty ∧
      (looped.layoutOf "LC;").answer
          (looped.remembered [.vtable "LB;", .layout "LD;", .interfaces "LI;"]) =
        (looped.layoutOf "LC;").answer .empty := by
  have hcp : looped.ClassesOnly := classesOnly_of_defs (by decide +kernel)
  exact ⟨hcp, looped.vtables_and_layouts_steady hcp _ "LC;"⟩

end ClassPath

end Dalvik
