import Dalvik.Proofs.Below
import Dalvik.Proofs.Histories

/-!
# Which interfaces a class implements

`ClassPath.Impl` is the least relation between a class and the interfaces that it declares or gets
from a class that it declares, and itself if it is an interface.  It is said without a memory and
without an order.

The collected interfaces are all in this relation (`Answers.sound`).  They are marked as resolved
if and only if the class is `Complete`: all classes above it are defined and on no cycle, and what
they declare can be read.  Then no interface is left out (`Answers.whole`).  This holds of every
remembered answer, in a cyclic hierarchy too, where what is collected depends on where one starts.
-/

namespace Dalvik

open Relation (ReflTransGen TransGen)

/-! ## Names of collected interfaces -/

namespace Interfaces

variable {i other : Interfaces} {e : Implemented} {name : String}

theorem resolved_insert : (i.insert e).resolved = i.resolved := by
  unfold insert
  split <;> rfl

end Interfaces

namespace ClassPath

/-! ## Implemented interfaces and complete classes -/

/-- A class implements an interface. -/
inductive Impl (cp : ClassPath) : String → String → Prop where
  /-- It is one of those it declares. -/
  | declared {d : String} {c : ClassDef} {t : Ty} (hd : cp.def? d = some c)
    (ht : t ∈ c.interfaces) : Impl cp d t.descriptor
  /-- A declared interface or the superclass implements it. -/
  | above {d e iface : String} (h : cp.Declares d e) (he : Impl cp e iface) : Impl cp d iface
  /-- It is the class itself. -/
  | self {d : String} {c : ClassDef} (hd : cp.def? d = some c) (hc : c.isInterface = true) :
    Impl cp d d

/-- A class that leads back to itself. -/
def OnCycle (cp : ClassPath) (d : String) : Prop := TransGen cp.Declares d d

/-- A defined class on no cycle.  All interfaces it declares are classes, and its superclass is a
type. -/
structure Regular (cp : ClassPath) (d : String) (c : ClassDef) : Prop where
  defined : cp.def? d = some c
  acyclic : ¬ cp.OnCycle d
  interfaces : ∀ t ∈ c.interfaces, ∃ name, TypeNode.ofTy t = .ok (.cls name)
  superclass : ∀ s, c.superclass? = some s → ∃ n, TypeNode.ofTy s = .ok n

/-- Everything above a class is known. -/
def Complete (cp : ClassPath) (d : String) : Prop :=
  ∀ e, ReflTransGen cp.Declares d e → ∃ c, cp.Regular e c

/-- A type is a class above which everything is known. -/
def CompleteTy (cp : ClassPath) (t : Ty) : Prop :=
  ∃ name, TypeNode.ofTy t = .ok (.cls name) ∧ cp.Complete name

variable {cp : ClassPath} {d e name : String} {c : ClassDef} {t : Ty} {i : Interfaces}

/-- A class is named by the descriptor of its type. -/
theorem eq_descriptor_of_ofTy (h : TypeNode.ofTy t = .ok (.cls name)) : name = t.descriptor :=
  TypeNode.descriptor_of_ofDescriptor h

/-- A class implements all that the classes above it implement. -/
theorem Impl.of_reaches (h : ReflTransGen cp.Declares d e) (he : cp.Impl e name) :
    cp.Impl d name := by
  induction h using ReflTransGen.head_induction_on with
  | refl => exact he
  | head hstep _ ih => exact .above hstep ih

/-- What is declared above a complete class is complete. -/
theorem Complete.of_reaches (h : cp.Complete d) (hr : ReflTransGen cp.Declares d e) :
    cp.Complete e :=
  fun e' he' => h e' (hr.trans he')

/-- No way leads from a complete class to a cycle. -/
theorem Complete.quiet (h : cp.Complete d) : Quiet cp.Declares d := by
  intro e he
  obtain ⟨c, hc⟩ := h e he
  exact hc.acyclic

theorem Complete.regular (h : cp.Complete d) (hd : cp.def? d = some c) : cp.Regular d c := by
  obtain ⟨c', hc'⟩ := h d .refl
  cases hd.symm.trans hc'.defined
  exact hc'

theorem Complete.completeTy (h : cp.Complete d) (hd : cp.def? d = some c) (ht : t ∈ c.interfaces) :
    cp.CompleteTy t := by
  obtain ⟨name, hname⟩ := (h.regular hd).interfaces t ht
  exact ⟨name, hname, h.of_reaches (.single ⟨c, t, hd, .inr ht, hname⟩)⟩

/-- A class is complete if all it declares is.  It is on no cycle, since a cycle would lead on to
a complete class. -/
theorem complete_of_declared (hd : cp.def? d = some c) (hi : ∀ t ∈ c.interfaces, cp.CompleteTy t)
    (hs : ∀ s, c.superclass? = some s → ∃ n, TypeNode.ofTy s = .ok n ∧
      ∀ name, n = .cls name → cp.Complete name) : cp.Complete d := by
  have declared : ∀ name, cp.Declares d name → cp.Complete name := by
    rintro name ⟨c', t, hd', ht | ht, hname⟩ <;> cases hd.symm.trans hd'
    · obtain ⟨n, hn, hcomplete⟩ := hs t ht
      exact hcomplete name (Except.ok.inj (hn.symm.trans hname))
    · obtain ⟨name', hname', hcomplete⟩ := hi t ht
      cases hname'.symm.trans hname
      exact hcomplete
  have hregular : cp.Regular d c := by
    refine ⟨hd, fun hcycle => ?_, fun t ht => ?_, fun s hs' => ?_⟩
    · obtain ⟨e, hde, hed⟩ := TransGen.head'_iff.1 hcycle
      exact (((declared e hde).of_reaches hed).regular hd).acyclic hcycle
    · exact (hi t ht).imp fun _ h => h.1
    · exact (hs s hs').imp fun _ h => h.1
  intro e he
  rcases ReflTransGen.cases_head he with rfl | ⟨e', hde, hr⟩
  · exact ⟨c, hregular⟩
  · exact declared e' hde e hr

/-- A class on a cycle is not complete. -/
theorem not_complete_of_cycle (h : cp.OnCycle d) : ¬ cp.Complete d := by
  intro hcomplete
  obtain ⟨c, hc⟩ := hcomplete d .refl
  exact hc.acyclic h

/-- A missing class is not complete. -/
theorem not_complete_of_missing (h : cp.def? d = none) : ¬ cp.Complete d := by
  intro hcomplete
  obtain ⟨c, hc⟩ := hcomplete d .refl
  cases h.symm.trans hc.defined

/-- All that a complete class implements is above it. -/
theorem Impl.reaches (h : cp.Impl d name) (hd : cp.Complete d) :
    ReflTransGen cp.Declares d name := by
  induction h with
  | declared hdef ht =>
    obtain ⟨name', hname⟩ := (hd.regular hdef).interfaces _ ht
    cases eq_descriptor_of_ofTy hname
    exact .single ⟨_, _, hdef, .inr ht, hname⟩
  | above hstep _ ih => exact .head hstep (ih (hd.of_reaches (.single hstep)))
  | self => exact .refl

/-- Types above a complete class type are complete. -/
theorem CompleteTy.of_reaches {t' : Ty} (h : cp.CompleteTy t)
    (hr : ReflTransGen cp.Declares t.descriptor t'.descriptor) : cp.CompleteTy t' := by
  obtain ⟨name, hname, hcomplete⟩ := h
  cases eq_descriptor_of_ofTy hname
  rcases ReflTransGen.cases_tail hr with heq | ⟨e, _, c, s, _, _, hs⟩
  · refine ⟨t.descriptor, ?_, hcomplete⟩
    rw [TypeNode.ofTy, heq]
    exact hname
  · refine ⟨t'.descriptor, ?_, hcomplete.of_reaches hr⟩
    exact TypeNode.named_of_ofDescriptor hs

/-! ## Collected interfaces -/

/-- What the interfaces found for a class say. -/
structure Answers (cp : ClassPath) (d : String) (i : Interfaces) : Prop where
  sound : ∀ name ∈ i.names, cp.Impl d name
  resolved : i.resolved = true ↔ cp.Complete d
  whole : i.resolved = true → ∀ name, cp.Impl d name → name ∈ i.names

/-- What the answer for a class says.  A failure says that not everything above is known. -/
def Settles (cp : ClassPath) (d : String) : Except HierarchyError Interfaces → Prop
  | .ok i => cp.Answers d i
  | .error _ => ¬ cp.Complete d

/-- A declared interface brings itself, and all it implements if it is a class. -/
inductive Brings (cp : ClassPath) (t : Ty) : String → Prop where
  | itself : Brings cp t t.descriptor
  | extended {name iface : String} (hname : TypeNode.ofTy t = .ok (.cls name))
    (himpl : cp.Impl name iface) : Brings cp t iface

/-- Interfaces collected from some of the declared types. -/
structure Gathered (cp : ClassPath) (done : Ty → Prop) (i : Interfaces) : Prop where
  sound : ∀ name ∈ i.names, ∃ t, done t ∧ cp.Brings t name
  whole : i.resolved = true → ∀ t, done t → cp.CompleteTy t ∧
    ∀ name, cp.Brings t name → name ∈ i.names

variable {done : Ty → Prop} {more : Interfaces}

/-- Unresolved interfaces may be collected from more types. -/
theorem Gathered.unresolved {done' : Ty → Prop} (h : cp.Gathered done i)
    (hdone : ∀ t, done t → done' t) : cp.Gathered done' i.unresolved where
  sound name hname := by
    obtain ⟨t, ht, hsound⟩ := h.sound name hname
    exact ⟨t, hdone t ht, hsound⟩
  whole hresolved := by cases hresolved

/-- All that a complete type brings is above it. -/
theorem Brings.reaches (h : cp.Brings t name) (ht : cp.CompleteTy t) :
    ReflTransGen cp.Declares t.descriptor name := by
  obtain ⟨e, he, hcomplete⟩ := ht
  cases eq_descriptor_of_ofTy he
  cases h with
  | itself => exact .refl
  | extended hname himpl =>
    cases he.symm.trans hname
    exact himpl.reaches hcomplete

/-- What is above a complete type brings nothing more. -/
theorem Brings.of_reaches {t' : Ty} (h : cp.Brings t' name) (ht : cp.CompleteTy t)
    (hr : ReflTransGen cp.Declares t.descriptor t'.descriptor) (ht' : cp.Brings t t'.descriptor) :
    cp.Brings t name := by
  cases h with
  | itself => exact ht'
  | extended hname himpl =>
    obtain ⟨e, he, _⟩ := ht
    cases eq_descriptor_of_ofTy he
    cases eq_descriptor_of_ofTy hname
    exact .extended he (himpl.of_reaches hr)

/-- A type whose name was found before adds nothing. -/
theorem Gathered.skip (h : cp.Gathered done i) (ht : t.descriptor ∈ i.names) :
    cp.Gathered (fun t' => done t' ∨ t' = t) i where
  sound name hname := by
    obtain ⟨t', ht', hsound⟩ := h.sound name hname
    exact ⟨t', .inl ht', hsound⟩
  whole hresolved t' ht' := by
    rcases ht' with ht' | rfl
    · exact h.whole hresolved t' ht'
    obtain ⟨s, hs, hbrings⟩ := h.sound _ ht
    obtain ⟨hcomplete, hall⟩ := h.whole hresolved s hs
    have hreaches := hbrings.reaches hcomplete
    exact ⟨hcomplete.of_reaches hreaches,
      fun name hname => hall name (hname.of_reaches hcomplete hreaches hbrings)⟩

theorem mem_names_insertDeclared :
    name ∈ (cp.insertDeclared t i).names ↔ name = t.descriptor ∨ name ∈ i.names := by
  unfold insertDeclared
  split <;> exact Interfaces.mem_names_insert

theorem resolved_insertDeclared :
    (cp.insertDeclared t i).resolved = true ↔
      i.resolved = true ∧ (cp.def? t.descriptor).isSome := by
  unfold insertDeclared
  cases cp.def? t.descriptor with
  | none => simp [Interfaces.unresolved]
  | some c => simp [Interfaces.resolved_insert]

/-- The name of a declared type is added, and nothing is known of the type. -/
theorem Gathered.insert_unresolved (h : cp.Gathered done i) :
    cp.Gathered (fun t' => done t' ∨ t' = t) (cp.insertDeclared t i).unresolved where
  sound name hname := by
    rcases mem_names_insertDeclared.1 hname with rfl | hname
    · exact ⟨t, .inr rfl, .itself⟩
    · obtain ⟨t', ht', hsound⟩ := h.sound name hname
      exact ⟨t', .inl ht', hsound⟩
  whole hresolved := by cases hresolved

/-- A declared class is added with all it implements. -/
theorem Gathered.absorb (h : cp.Gathered done i) (hname : TypeNode.ofTy t = .ok (.cls name))
    (hmore : cp.Answers name more) :
    cp.Gathered (fun t' => done t' ∨ t' = t) ((cp.insertDeclared t i).absorb more) where
  sound e he := by
    rcases Interfaces.mem_names_absorb.1 he with he | he
    · exact h.insert_unresolved.sound e he
    · exact ⟨t, .inr rfl, .extended hname (hmore.sound e he)⟩
  whole hresolved t' ht' := by
    obtain ⟨hinsert, hmoreResolved⟩ := Bool.and_eq_true_iff.1 hresolved
    have hi := (resolved_insertDeclared.1 hinsert).1
    simp only [Interfaces.mem_names_absorb, mem_names_insertDeclared]
    rcases ht' with ht' | rfl
    · obtain ⟨hcomplete, hall⟩ := h.whole hi t' ht'
      exact ⟨hcomplete, fun e he => .inl (.inr (hall e he))⟩
    · refine ⟨⟨name, hname, hmore.resolved.1 hmoreResolved⟩, fun e he => ?_⟩
      cases he with
      | itself => exact .inl (.inl rfl)
      | extended hname' himpl =>
        cases hname.symm.trans hname'
        exact .inr (hmore.whole hmoreResolved e himpl)

/-- How collecting from declared types ends.  It stays resolved if all types are complete, and
only fails if one is not. -/
def Gathers (cp : ClassPath) (done : Ty → Prop) (ts : List Ty) (acc : Interfaces) :
    Except HierarchyError Interfaces → Prop
  | .ok i => cp.Gathered (fun t => done t ∨ t ∈ ts) i ∧
      ((∀ t ∈ ts, cp.CompleteTy t) → acc.resolved = true → i.resolved = true)
  | .error _ => ¬ ∀ t ∈ ts, cp.CompleteTy t

/-- One more declared type is taken in. -/
theorem Gathers.cons {ts : List Ty} {acc acc' : Interfaces}
    {r : Except HierarchyError Interfaces}
    (hacc : cp.CompleteTy t → acc.resolved = true → acc'.resolved = true)
    (h : cp.Gathers (fun t' => done t' ∨ t' = t) ts acc' r) : cp.Gathers done (t :: ts) acc r := by
  cases r with
  | ok i =>
    obtain ⟨hgathered, hresolved⟩ := h
    refine ⟨by simpa only [List.mem_cons, ← or_assoc] using hgathered, fun hts hacc' => ?_⟩
    obtain ⟨ht, hts⟩ := List.forall_mem_cons.1 hts
    exact hresolved hts (hacc ht hacc')
  | error e => exact fun hts => h (List.forall_mem_cons.1 hts).2

/-- A declared type of which not everything is known ends the search. -/
theorem Gathers.stop {ts : List Ty} {acc : Interfaces} (hacc : cp.Gathered done acc)
    (ht : ¬ cp.CompleteTy t) :
    cp.Gathers done (t :: ts) acc (.ok (cp.insertDeclared t acc).unresolved) := by
  refine ⟨hacc.insert_unresolved.unresolved ?_, fun hts => absurd (hts t List.mem_cons_self) ht⟩
  rintro t' (ht' | rfl)
  · exact .inl ht'
  · exact .inr List.mem_cons_self

section Collect

variable {I : Memo → Prop} {inherited : String → Query Interfaces}

/-- The walk over declared interfaces gathers what they implement. -/
theorem yields_addDeclared : ∀ (ts : List Ty) (done : Ty → Prop) (acc : Interfaces),
    (∀ t ∈ ts, ∀ name, TypeNode.ofTy t = .ok (.cls name) →
      Yields I (inherited name) (cp.Settles name)) →
    cp.Gathered done acc → Yields I (cp.addDeclared inherited ts acc) (cp.Gathers done ts acc)
  | [], done, acc, _, hacc => .pure ⟨by simpa using hacc, fun _ h => h⟩
  | t :: rest, done, acc, hin, hacc => by
    have hrest := fun t' ht' => hin t' (List.mem_cons_of_mem t ht')
    unfold addDeclared
    split
    · next hcontains =>
      exact (yields_addDeclared rest _ acc hrest
        (hacc.skip (List.contains_iff_mem.1 hcontains))).mono fun r => .cons fun _ h => h
    refine .bind_lift (fun n hn => ?_) fun e he hts => ?_
    · -- a type that is not a class ends the search, as a class that is not complete does
      have stop (hne : ∀ name, n ≠ .cls name) : Yields I
          (pure (cp.insertDeclared t acc).unresolved) (cp.Gathers done (t :: rest) acc) := by
        refine .pure (.stop hacc ?_)
        rintro ⟨name, hname, _⟩
        exact hne name (Except.ok.inj (hn.symm.trans hname))
      cases n with
      | cls name =>
        refine (hin t List.mem_cons_self name hn).bind_attempt fun r hr => ?_
        cases r with
        | ok more =>
          refine (yields_addDeclared rest _ _ hrest (hacc.absorb hn hr)).mono fun r =>
            .cons fun ht hresolved => ?_
          obtain ⟨name', hname', hcomplete⟩ := ht
          cases hn.symm.trans hname'
          cases eq_descriptor_of_ofTy hn
          obtain ⟨c, hc⟩ := hcomplete _ .refl
          exact Bool.and_eq_true_iff.2 ⟨resolved_insertDeclared.2 ⟨hresolved, hc.defined ▸ rfl⟩,
            hr.resolved.2 hcomplete⟩
        | error e =>
          have ht : ¬ cp.CompleteTy t := by
            rintro ⟨name', hname', hcomplete⟩
            cases hn.symm.trans hname'
            exact hr hcomplete
          simp only
          split
          · exact .pure (.stop hacc ht)
          · exact .throw fun hts => ht (hts t List.mem_cons_self)
      | primitive _ => exact stop nofun
      | unknown => exact stop nofun
      | array _ _ => exact stop nofun
    · obtain ⟨name, hname, _⟩ := hts t List.mem_cons_self
      cases he.symm.trans hname

/-- What is collected for a class before its superclass is looked at. -/
structure Own (cp : ClassPath) (d : String) (c : ClassDef) (i : Interfaces) : Prop where
  sound : ∀ name ∈ i.names, cp.Impl d name
  whole : i.resolved = true → (∀ t ∈ c.interfaces, cp.CompleteTy t) ∧
    (∀ t ∈ c.interfaces, ∀ name, cp.Brings t name → name ∈ i.names) ∧
    (c.isInterface = true → d ∈ i.names)

/-- An interface implements itself besides what it declares. -/
theorem Gathered.own (hd : cp.def? d = some c) (h : cp.Gathered (· ∈ c.interfaces) i) :
    cp.Own d c (if c.isInterface then i.insert ⟨d, false⟩ else i) := by
  have declared : ∀ name ∈ i.names, cp.Impl d name := by
    intro name hname
    obtain ⟨t, ht, hbrings⟩ := h.sound name hname
    cases hbrings with
    | itself => exact .declared hd ht
    | extended hname himpl => exact .above ⟨c, t, hd, .inr ht, hname⟩ himpl
  split
  · next hc =>
    refine ⟨fun name hname => ?_, fun hresolved => ?_⟩
    · rcases Interfaces.mem_names_insert.1 hname with rfl | hname
      · exact .self hd hc
      · exact declared name hname
    · rw [Interfaces.resolved_insert] at hresolved
      refine ⟨fun t ht => (h.whole hresolved t ht).1, fun t ht name hname => ?_, fun _ => ?_⟩
      · exact Interfaces.mem_names_insert.2 (.inr ((h.whole hresolved t ht).2 name hname))
      · exact Interfaces.mem_names_insert.2 (.inl rfl)
  · next hc =>
    exact ⟨declared, fun hresolved => ⟨fun t ht => (h.whole hresolved t ht).1,
      fun t ht => (h.whole hresolved t ht).2, fun h => absurd h hc⟩⟩

/-- What a class implements comes from itself, from its interfaces or from its superclass. -/
theorem Impl.cases_of_def (h : cp.Impl d name) (hd : cp.def? d = some c) :
    (c.isInterface = true ∧ name = d) ∨ (∃ t ∈ c.interfaces, cp.Brings t name) ∨
      ∃ s e, c.superclass? = some s ∧ TypeNode.ofTy s = .ok (.cls e) ∧ cp.Impl e name := by
  cases h with
  | declared hd' ht =>
    cases hd.symm.trans hd'
    exact .inr (.inl ⟨_, ht, .itself⟩)
  | above hstep he =>
    obtain ⟨c', t, hd', ht | ht, hname⟩ := hstep <;> cases hd.symm.trans hd'
    · exact .inr (.inr ⟨t, _, ht, hname, he⟩)
    · exact .inr (.inl ⟨t, ht, .extended hname he⟩)
  | self hd' hc =>
    cases hd.symm.trans hd'
    exact .inl ⟨hc, rfl⟩

/-- A class whose superclass has no interfaces of its own. -/
theorem Own.answers (hd : cp.def? d = some c) (h : cp.Own d c i)
    (hresolved : cp.Complete d → i.resolved = true)
    (hs : ∀ s, c.superclass? = some s → ∃ n, TypeNode.ofTy s = .ok n ∧ ∀ name, n ≠ .cls name) :
    cp.Answers d i where
  sound := h.sound
  resolved := by
    refine ⟨fun hi => complete_of_declared hd (h.whole hi).1 fun s hs' => ?_, hresolved⟩
    obtain ⟨n, hn, hne⟩ := hs s hs'
    exact ⟨n, hn, fun name hname => absurd hname (hne name)⟩
  whole hi name hname := by
    obtain ⟨_, hdeclared, hself⟩ := h.whole hi
    obtain ⟨hc, rfl⟩ | ⟨t, ht, hbrings⟩ | ⟨s, e, hs', he, _⟩ := hname.cases_of_def hd
    · exact hself hc
    · exact hdeclared t ht name hbrings
    · obtain ⟨n, hn, hne⟩ := hs s hs'
      exact absurd (Except.ok.inj (hn.symm.trans he)) (hne e)

/-- A class below a class. -/
theorem Own.answers_inherit {s : Ty} (hd : cp.def? d = some c) (h : cp.Own d c i)
    (hresolved : cp.Complete d → i.resolved = true) (hs : c.superclass? = some s)
    (hname : TypeNode.ofTy s = .ok (.cls name)) (hmore : cp.Answers name more) :
    cp.Answers d (i.inherit more) where
  sound e he := by
    rcases Interfaces.mem_names_inherit.1 he with he | he
    · exact h.sound e he
    · exact .above ⟨c, s, hd, .inl hs, hname⟩ (hmore.sound e he)
  resolved := by
    constructor
    · intro hi
      obtain ⟨hi, hmoreResolved⟩ := Bool.and_eq_true_iff.1 hi
      refine complete_of_declared hd (h.whole hi).1 fun s' hs' => ⟨.cls name, ?_, ?_⟩
      · cases hs.symm.trans hs'
        exact hname
      · rintro _ ⟨⟩
        exact hmore.resolved.1 hmoreResolved
    · intro hcomplete
      refine Bool.and_eq_true_iff.2 ⟨hresolved hcomplete, hmore.resolved.2 ?_⟩
      exact hcomplete.of_reaches (.single ⟨c, s, hd, .inl hs, hname⟩)
  whole hi e he := by
    obtain ⟨hi, hmoreResolved⟩ := Bool.and_eq_true_iff.1 hi
    obtain ⟨_, hdeclared, hself⟩ := h.whole hi
    rw [Interfaces.mem_names_inherit]
    obtain ⟨hc, rfl⟩ | ⟨t, ht, hbrings⟩ | ⟨s', e', hs', hname', himpl⟩ := he.cases_of_def hd
    · exact .inl (hself hc)
    · exact .inl (hdeclared t ht e hbrings)
    · cases hs.symm.trans hs'
      cases hname.symm.trans hname'
      exact .inr (hmore.whole hmoreResolved e himpl)

/-- A class below one of which not everything is known. -/
theorem Own.answers_unresolved (h : cp.Own d c i) (hd : ¬ cp.Complete d) :
    cp.Answers d i.unresolved where
  sound := h.sound
  resolved := ⟨nofun, fun hcomplete => absurd hcomplete hd⟩
  whole hi := by cases hi

/-- With the interfaces of the superclass, the answer for a class is settled. -/
theorem yields_addInherited (hd : cp.def? d = some c) (h : cp.Own d c i)
    (hresolved : cp.Complete d → i.resolved = true)
    (hin : ∀ name, cp.Declares d name → Yields I (inherited name) (cp.Settles name)) :
    Yields I (addInherited inherited c.superclass? i) (cp.Settles d) := by
  unfold addInherited
  cases hs : c.superclass? with
  | none =>
    refine .pure (h.answers hd hresolved fun s hs' => ?_)
    rw [hs] at hs'
    cases hs'
  | some s =>
    refine .bind_lift (fun n hn => ?_) fun e he hcomplete => ?_
    · have other (hne : ∀ name, n ≠ .cls name) : Yields I (pure i) (cp.Settles d) := by
        refine .pure (h.answers hd hresolved fun s' hs' => ?_)
        cases hs.symm.trans hs'
        exact ⟨n, hn, hne⟩
      cases n with
      | cls name =>
        have hdeclares : cp.Declares d name := ⟨c, s, hd, .inl hs, hn⟩
        refine (hin name hdeclares).bind_attempt fun r hr => ?_
        cases r with
        | ok more => exact .pure (h.answers_inherit hd hresolved hs hn hr)
        | error e =>
          have hincomplete : ¬ cp.Complete d := fun hd => hr (hd.of_reaches (.single hdeclares))
          simp only
          split
          · exact .pure (h.answers_unresolved hincomplete)
          · exact .throw hincomplete
      | primitive _ => exact other nofun
      | unknown => exact other nofun
      | array _ _ => exact other nofun
    · obtain ⟨n, hn⟩ := (hcomplete.regular hd).superclass s hs
      cases he.symm.trans hn

/-- The interfaces that are collected for a class settle what it implements. -/
theorem yields_collectInterfaces (hd : cp.def? d = some c)
    (hin : ∀ name, cp.Declares d name → Yields I (inherited name) (cp.Settles name)) :
    Yields I (cp.collectInterfaces inherited d c) (cp.Settles d) := by
  have hstart : cp.Gathered (fun _ => False) ⟨[], true⟩ :=
    ⟨fun _ h => absurd h List.not_mem_nil, fun _ _ h => h.elim⟩
  refine (yields_addDeclared c.interfaces _ ⟨[], true⟩
    (fun t ht name hname => hin name ⟨c, t, hd, .inr ht, hname⟩) hstart).bind
    (fun declared hdeclared => ?_) fun e he hcomplete => ?_
  · obtain ⟨hgathered, hresolved⟩ := hdeclared
    simp only [false_or] at hgathered
    refine yields_addInherited hd (hgathered.own hd) (fun hcomplete => ?_) hin
    have := hresolved (fun t ht => hcomplete.completeTy hd ht) rfl
    split
    · rw [Interfaces.resolved_insert, this]
    · exact this
  · exact he fun t ht => hcomplete.completeTy hd ht

end Collect

/-! ## Every history -/

/-- The interfaces of a class settle what it implements, if those that are remembered do. -/
theorem yields_interfacesOf (cp : ClassPath) (d : String) :
    Yields (fun m => Remembers m.interfaces cp.Settles) (cp.interfacesOf d) (cp.Settles d) := by
  exact yields_interfacesFrom (R := cp.Settles) (fun hm h => hm _ _ h)
    (fun hcycle => not_complete_of_cycle hcycle) (fun hd => not_complete_of_missing hd)
    yields_collectInterfaces (fun hm h => hm.add h) [] d nofun

/-- Whatever was asked, the interfaces that are remembered settle what classes implement. -/
theorem settles_of_asked {m : Memo} (h : cp.Asked .empty m) : Remembers m.interfaces cp.Settles :=
  h.keeps (I := fun m => Remembers m.interfaces cp.Settles)
    (keptBy_of_interfaces (fun d => (cp.yields_interfacesOf d).keeps) (fun _ hm => hm)
      fun _ hm => hm) .nil

/-- What the test for an interface says. -/
def Decides (cp : ClassPath) (d iface : String) : Except HierarchyError Bool → Prop
  | .ok true => cp.Impl d iface
  | .ok false => ¬ cp.Impl d iface ∧ cp.Complete d
  | .error _ => ¬ cp.Complete d

/-- The test for an interface decides whether the class implements it. -/
theorem yields_classImplements (cp : ClassPath) (d iface : String) :
    Yields (fun m => Remembers m.interfaces cp.Settles) (cp.classImplements d iface)
      (cp.Decides d iface) := by
  refine (cp.yields_interfacesOf d).bind (fun i hi => ?_) fun e he => he
  split
  · next hcontains => exact .pure (hi.sound iface (List.contains_iff_mem.1 hcontains))
  · next hcontains =>
    split
    · next hresolved =>
      refine .pure ⟨fun himpl => hcontains ?_, hi.resolved.1 hresolved⟩
      exact List.contains_iff_mem.2 (hi.whole hresolved iface himpl)
    · next hresolved => exact .throw fun hcomplete => hresolved (hi.resolved.2 hcomplete)

/-- The test for an interface is right after every history.  A yes is right, a no is right and
only given if everything above the class is known, and then an answer is given. -/
theorem implements_decides (cp : ClassPath) (history : List Question) (d iface : String) :
    let answer := (cp.implements (.cls d) iface).answer (cp.remembered history)
    (answer = .ok true → cp.Impl d iface) ∧
      (answer = .ok false → ¬ cp.Impl d iface ∧
        ∀ e, ReflTransGen cp.Declares d e → (cp.def? e).isSome ∧ ¬ cp.OnCycle e) ∧
      ((∀ e, ReflTransGen cp.Declares d e → ∃ c, cp.def? e = some c ∧ ¬ cp.OnCycle e ∧
        ∀ t, c.superclass? = some t ∨ t ∈ c.interfaces →
          ∃ name, TypeNode.ofTy t = .ok (.cls name)) → ∃ yes, answer = .ok yes) := by
  have hdecides := (cp.yields_classImplements d iface).answer
    (settles_of_asked (cp.asked_remembered history))
  intro answer
  refine ⟨fun hyes => ?_, fun hno => ?_, fun habove => ?_⟩
  · have hdecides : cp.Decides d iface (.ok true) := hyes ▸ hdecides
    exact hdecides
  · have hdecides : cp.Decides d iface (.ok false) := hno ▸ hdecides
    refine ⟨hdecides.1, fun e he => ?_⟩
    obtain ⟨c, hc⟩ := hdecides.2 e he
    exact ⟨hc.defined ▸ rfl, hc.acyclic⟩
  · have hcomplete : cp.Complete d := by
      intro e he
      obtain ⟨c, hc, hacyclic, htypes⟩ := habove e he
      refine ⟨c, hc, hacyclic, fun t ht => htypes t (.inr ht), fun s hs => ?_⟩
      obtain ⟨name, hname⟩ := htypes s (.inl hs)
      exact ⟨.cls name, hname⟩
    cases hanswer : answer with
    | ok yes => exact ⟨yes, rfl⟩
    | error e =>
      have hdecides : cp.Decides d iface (.error e) := hanswer ▸ hdecides
      exact absurd hcomplete hdecides

/-- Two interfaces that extend each other, a class that declares one of them, and its superclass. -/
def tangled : ClassPath := .ofClasses
  [{ ty := .cls "A", superclass? := some (.cls "B"), interfaces := [.cls "I"] },
    { ty := .cls "B", superclass? := some CoreClasses.objectTy },
    { ty := .cls "I", flags := .ofList [.interface], interfaces := [.cls "J", .cls "K"] },
    { ty := .cls "J", flags := .ofList [.interface], interfaces := [.cls "I"] },
    { ty := .cls "K", flags := .ofList [.interface] }] defaultLevel

/-- What was asked of them before. -/
def tangledHistory : List Question := [.interfaces "LJ;", .implements (.cls "LA;") "LK;"]

theorem not_declares_object (name : String) : ¬ tangled.Declares objectClass name := by
  rintro ⟨c, t, hc, ht, _⟩
  cases hc
  rcases ht with ht | ht <;> cases ht

theorem of_declares_superclass {name : String} (h : tangled.Declares "LB;" name) :
    name = objectClass := by
  obtain ⟨c, t, hc, ht | ht, hname⟩ := h <;> cases hc
  · cases ht
    exact eq_descriptor_of_ofTy hname
  · cases ht

theorem quiet_tangled : Quiet tangled.Declares "LB;" := by
  refine quiet_of_next fun name hname => ?_
  cases of_declares_superclass hname
  exact quiet_of_no_step not_declares_object

theorem implements_decides_tangled :
    (tangled.implements (.cls "LA;") "LI;").answer (tangled.remembered tangledHistory) = .ok true ∧
      tangled.Impl "LA;" "LI;" ∧
      (tangled.implements (.cls "LB;") "LI;").answer (tangled.remembered tangledHistory) =
        .ok false ∧
      ¬ tangled.Impl "LB;" "LI;" ∧
      (∀ e, ReflTransGen tangled.Declares "LB;" e → ∃ c, tangled.def? e = some c ∧
        ¬ tangled.OnCycle e ∧ ∀ t, c.superclass? = some t ∨ t ∈ c.interfaces →
          ∃ name, TypeNode.ofTy t = .ok (.cls name)) ∧
      ∃ yes, (tangled.implements (.cls "LB;") "LK;").answer (tangled.remembered tangledHistory) =
        .ok yes := by
  have hyes : (tangled.implements (.cls "LA;") "LI;").answer
      (tangled.remembered tangledHistory) = .ok true :=
    ok_of_toOption (by decide +kernel)
  have hno : (tangled.implements (.cls "LB;") "LI;").answer
      (tangled.remembered tangledHistory) = .ok false :=
    ok_of_toOption (by decide +kernel)
  have habove : ∀ e, ReflTransGen tangled.Declares "LB;" e → ∃ c, tangled.def? e = some c ∧
      ¬ tangled.OnCycle e ∧ ∀ t, c.superclass? = some t ∨ t ∈ c.interfaces →
        ∃ name, TypeNode.ofTy t = .ok (.cls name) := by
    intro e he
    have hacyclic : ¬ tangled.OnCycle e := quiet_tangled e he
    rcases ReflTransGen.cases_head he with rfl | ⟨e', hstep, hrest⟩
    · refine ⟨_, rfl, hacyclic, ?_⟩
      rintro t (ht | ht) <;> cases ht
      exact ⟨_, rfl⟩
    · cases of_declares_superclass hstep
      rcases ReflTransGen.cases_head hrest with rfl | ⟨name, h, _⟩
      · refine ⟨_, rfl, hacyclic, ?_⟩
        rintro t (ht | ht) <;> cases ht
      · exact absurd h (not_declares_object name)
  exact ⟨hyes, (tangled.implements_decides tangledHistory "LA;" "LI;").1 hyes, hno,
    ((tangled.implements_decides tangledHistory "LB;" "LI;").2.1 hno).1, habove,
    (tangled.implements_decides tangledHistory "LB;" "LK;").2.2 habove⟩

end ClassPath

end Dalvik
