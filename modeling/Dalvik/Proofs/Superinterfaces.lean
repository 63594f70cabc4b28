import Dalvik.Proofs.Slots

/-!
# Direct interfaces

The *superinterfaces* of a class are the interfaces it declares and those they extend.  The direct
interfaces of a class, whose methods get slots in its vtable, are those found on the way along
declared interfaces.  An interface that is found on another way first, as an interface of the
superclass of a superinterface, is not looked at again, and so it is not direct although the class
may declare it.

`Direct` says this without a memory: of the declared interfaces that bring an interface, the first
one counts.  The interfaces that are marked as direct are these (`Marked`).  A superinterface is
direct unless it is `Hidden` behind the superclass of another one
(`Superinterface.direct_or_hidden`).
-/

namespace Dalvik

open Relation (ReflTransGen TransGen)

/-! ## Entries of collected interfaces -/

namespace Interfaces

variable {i other : Interfaces} {e x : Implemented}

/-- An entry is inserted if there is none for its name. -/
theorem mem_entries_insert_iff :
    x ∈ (i.insert e).entries ↔ x ∈ i.entries ∨ x = e ∧ e.name ∉ i.names := by
  unfold insert
  split
  · next hmem =>
    have hmem : e.name ∈ i.names := List.contains_iff_mem.1 hmem
    simp [hmem]
  · next hmem =>
    have hmem : e.name ∉ i.names := fun h => hmem (List.contains_iff_mem.2 h)
    simp [hmem]

/-- Names stay distinct. -/
theorem nodup_insert (h : i.names.Nodup) : (i.insert e).names.Nodup := by
  unfold insert
  split
  · exact h
  · next hmem =>
    have hmem : e.name ∉ i.names := fun h => hmem (List.contains_iff_mem.2 h)
    simp only [names, List.map_append, List.map_cons, List.map_nil]
    refine List.nodup_append.2 ⟨h, List.pairwise_singleton _ _, ?_⟩
    rintro a ha b hb rfl
    exact hmem (List.mem_singleton.1 hb ▸ ha)

theorem nodup_absorb (h : i.names.Nodup) : (i.absorb other).names.Nodup :=
  List.foldlRecOn (motive := fun i => i.names.Nodup) other.entries insert h
    fun _ h _ _ => nodup_insert h

/-- Of two entries with one name the first is kept. -/
theorem mem_entries_absorb_iff (hother : other.names.Nodup) :
    x ∈ (i.absorb other).entries ↔
      x ∈ i.entries ∨ x ∈ other.entries ∧ x.name ∉ i.names := by
  have fold : ∀ (es : List Implemented) (i : Interfaces), (es.map Implemented.name).Nodup →
      (x ∈ (es.foldl insert i).entries ↔ x ∈ i.entries ∨ x ∈ es ∧ x.name ∉ i.names) := by
    intro es
    induction es with
    | nil => simp
    | cons e es ih =>
      intro i hes
      obtain ⟨he, hes⟩ := List.nodup_cons.1 hes
      have hne : x ∈ es → x.name ≠ e.name := fun hx heq => he (heq ▸ List.mem_map_of_mem hx)
      rw [List.foldl_cons, ih _ hes, mem_entries_insert_iff, mem_names_insert, List.mem_cons]
      constructor
      · rintro ((hx | ⟨rfl, hx⟩) | ⟨hx, hnames⟩)
        · exact .inl hx
        · exact .inr ⟨.inl rfl, hx⟩
        · exact .inr ⟨.inr hx, fun h => hnames (.inr h)⟩
      · rintro (hx | ⟨rfl | hx, hnames⟩)
        · exact .inl (.inl hx)
        · exact .inl (.inr ⟨rfl, hnames⟩)
        · exact .inr ⟨hx, fun h => h.elim (hne hx) hnames⟩
  exact fold other.entries i hother

/-- Nothing from the superclass is direct. -/
theorem mem_direct_inherit_iff {name : String} (hother : other.names.Nodup) :
    ⟨name, true⟩ ∈ (i.inherit other).entries ↔ ⟨name, true⟩ ∈ i.entries := by
  have hnames : (other.entries.map fun e => (⟨e.name, false⟩ : Implemented)).map
      Implemented.name = other.names := by
    simp [names, Function.comp_def]
  rw [inherit, mem_entries_absorb_iff (by rw [names, hnames]; exact hother)]
  simp

end Interfaces

namespace ClassPath

variable {cp : ClassPath} {d e name : String} {c : ClassDef} {t : Ty} {i more : Interfaces}
  {done : List Ty}

/-! ## Superinterfaces -/

/-- A class declares an interface, which is a class. -/
def DeclaresInterface (cp : ClassPath) (d e : String) : Prop :=
  ∃ c t, cp.def? d = some c ∧ t ∈ c.interfaces ∧ TypeNode.ofTy t = .ok (.cls e)

theorem DeclaresInterface.declares (h : cp.DeclaresInterface d e) : cp.Declares d e := by
  obtain ⟨c, t, hd, ht, hname⟩ := h
  exact ⟨c, t, hd, .inr ht, hname⟩

/-- The interfaces that a class declares, and those they extend. -/
def Superinterface (cp : ClassPath) : String → String → Prop := TransGen cp.DeclaresInterface

/-- An interface of a class that counts as direct.  It is found along declared interfaces, where
of all that bring it the first one counts. -/
inductive Direct (cp : ClassPath) : String → String → Prop where
  /-- The class declares it, and no interface before brings it. -/
  | declared {d : String} {c : ClassDef} {before after : List Ty} {t : Ty}
    (hd : cp.def? d = some c) (hsplit : c.interfaces = before ++ t :: after)
    (hfirst : ∀ s ∈ before, ¬ cp.Brings s t.descriptor) : Direct cp d t.descriptor
  /-- It is a direct one of a declared interface, and no interface before brings it. -/
  | extended {d e name : String} {c : ClassDef} {before after : List Ty} {t : Ty}
    (hd : cp.def? d = some c) (hsplit : c.interfaces = before ++ t :: after)
    (hname : TypeNode.ofTy t = .ok (.cls name)) (hfirst : ∀ s ∈ before, ¬ cp.Brings s e)
    (he : Direct cp name e) : Direct cp d e

/-- An interface that the superclass of a superinterface implements. -/
def Hidden (cp : ClassPath) (d e : String) : Prop :=
  ∃ s name, cp.Superinterface d s ∧ cp.Extends s name ∧ cp.Impl name e

/-- An interface that counts as direct for a class that declares some types. -/
def DirectBy (cp : ClassPath) (ts : List Ty) (e : String) : Prop :=
  ∃ before t after, ts = before ++ t :: after ∧ (∀ s ∈ before, ¬ cp.Brings s e) ∧
    (e = t.descriptor ∨ ∃ name, TypeNode.ofTy t = .ok (.cls name) ∧ cp.Direct name e)

/-- Whether an interface is direct is a question about the declared types in their order. -/
theorem direct_iff (hd : cp.def? d = some c) : cp.Direct d e ↔ cp.DirectBy c.interfaces e := by
  constructor
  · intro h
    cases h with
    | declared hd' hsplit hfirst =>
      cases hd.symm.trans hd'
      exact ⟨_, _, _, hsplit, hfirst, .inl rfl⟩
    | extended hd' hsplit hname hfirst he =>
      cases hd.symm.trans hd'
      exact ⟨_, _, _, hsplit, hfirst, .inr ⟨_, hname, he⟩⟩
  · rintro ⟨before, t, after, hsplit, hfirst, rfl | ⟨name, hname, he⟩⟩
    · exact .declared hd hsplit hfirst
    · exact .extended hd hsplit hname hfirst he

/-- The last declared type brings what none before it brings. -/
theorem directBy_concat : cp.DirectBy (done ++ [t]) e ↔ cp.DirectBy done e ∨
    (∀ s ∈ done, ¬ cp.Brings s e) ∧
      (e = t.descriptor ∨ ∃ name, TypeNode.ofTy t = .ok (.cls name) ∧ cp.Direct name e) := by
  constructor
  · rintro ⟨before, t', after, hsplit, hfirst, he⟩
    rcases List.eq_nil_or_concat after with rfl | ⟨after, t'', rfl⟩
    · obtain ⟨rfl, heq⟩ := List.append_inj' hsplit rfl
      cases heq
      exact .inr ⟨hfirst, he⟩
    · rw [List.concat_eq_append, ← List.cons_append, ← List.append_assoc] at hsplit
      obtain ⟨rfl, _⟩ := List.append_inj' hsplit rfl
      exact .inl ⟨before, t', after, rfl, hfirst, he⟩
  · rintro (⟨before, t', after, rfl, hfirst, he⟩ | ⟨hfirst, he⟩)
    · exact ⟨before, t', after ++ [t], by simp, hfirst, he⟩
    · exact ⟨done, t, [], rfl, hfirst, he⟩

/-- Direct interfaces are implemented. -/
theorem Direct.impl (h : cp.Direct d e) : cp.Impl d e := by
  induction h with
  | declared hd hsplit _ => exact .declared hd (by simp [hsplit])
  | extended hd hsplit hname _ _ ih => exact .above ⟨_, _, hd, .inr (by simp [hsplit]), hname⟩ ih

/-- Direct interfaces of a complete class are superinterfaces. -/
theorem Direct.superinterface (h : cp.Direct d e) (hcomplete : cp.Complete d) :
    cp.Superinterface d e := by
  induction h with
  | declared hd hsplit _ =>
    have ht := hsplit ▸ List.mem_append_cons_self
    obtain ⟨name, hname⟩ := (hcomplete.regular hd).interfaces _ ht
    cases eq_descriptor_of_ofTy hname
    exact .single ⟨_, _, hd, ht, hname⟩
  | extended hd hsplit hname _ _ ih =>
    have ht := hsplit ▸ List.mem_append_cons_self
    have hdeclares : cp.DeclaresInterface _ _ := ⟨_, _, hd, ht, hname⟩
    exact .head hdeclares (ih (hcomplete.of_reaches (.single hdeclares.declares)))

/-- Of the types that bring an interface there is a first one. -/
theorem exists_first_brings {ts : List Ty} (h : ∃ t ∈ ts, cp.Brings t e) :
    ∃ before t after, ts = before ++ t :: after ∧ cp.Brings t e ∧
      ∀ s ∈ before, ¬ cp.Brings s e := by
  classical
  obtain ⟨t, hfind⟩ : ∃ t, ts.find? (fun t => decide (cp.Brings t e)) = some t := by
    obtain ⟨t, ht, hbrings⟩ := h
    exact Option.isSome_iff_exists.1 (List.find?_isSome.2 ⟨t, ht, decide_eq_true hbrings⟩)
  obtain ⟨hbrings, before, after, hsplit, hfirst⟩ := List.find?_eq_some_iff_append.1 hfind
  refine ⟨before, t, after, hsplit, of_decide_eq_true hbrings, fun s hs => ?_⟩
  simpa using hfirst s hs

/-- What a declared interface of a complete class brings is direct, or hidden behind the superclass
of a superinterface, if this is so for what the interface implements. -/
theorem direct_or_hidden_of_brings (hd : cp.def? d = some c)
    (hnext : ∀ name, cp.DeclaresInterface d name → cp.Impl name e →
      e = name ∨ cp.Direct name e ∨ cp.Hidden name e ∨
        ∃ name', cp.Extends name name' ∧ cp.Impl name' e)
    (h : ∃ t ∈ c.interfaces, cp.Brings t e) : cp.Direct d e ∨ cp.Hidden d e := by
  -- of the declared interfaces that bring it, the first one counts
  obtain ⟨before, t, after, hsplit, hbrings, hfirst⟩ := exists_first_brings h
  have ht : t ∈ c.interfaces := hsplit ▸ List.mem_append_cons_self
  cases hbrings with
  | itself => exact .inl (.declared hd hsplit hfirst)
  | extended hname himpl =>
    have hdeclares : cp.DeclaresInterface d _ := ⟨c, t, hd, ht, hname⟩
    obtain rfl | hdirect | ⟨s, name', hs, hname', himpl'⟩ | ⟨name', hname', himpl'⟩ :=
      hnext _ hdeclares himpl
    · cases eq_descriptor_of_ofTy hname
      exact .inl (.declared hd hsplit hfirst)
    · exact .inl (.extended hd hsplit hname hfirst hdirect)
    · exact .inr ⟨s, name', .head hdeclares hs, hname', himpl'⟩
    · exact .inr ⟨_, name', .single hdeclares, hname', himpl'⟩

/-- Where a complete class has an interface from. -/
theorem Complete.impl_cases (hcomplete : cp.Complete d) (he : cp.Impl d e) :
    e = d ∨ cp.Direct d e ∨ cp.Hidden d e ∨ ∃ name, cp.Extends d name ∧ cp.Impl name e := by
  -- away from cycles the interfaces are determined by those of the classes above, and the induction
  -- goes along with that
  have h := ((cp.told_interfacesOf d).answer cp.toldAll_empty).determined hcomplete.quiet
  generalize (cp.interfacesOf d).answer .empty = r at h
  induction h with
  | of_next _ ih =>
    obtain ⟨c, hc⟩ := hcomplete _ .refl
    obtain ⟨_, rfl⟩ | hbrings | ⟨s, name, hs, hname, himpl⟩ := he.cases_of_def hc.defined
    · exact .inl rfl
    · have hfound := direct_or_hidden_of_brings hc.defined (fun name hname himpl => ?_) hbrings
      · exact .inr (hfound.imp_right .inl)
      · have hdeclares := hname.declares
        exact ih name hdeclares (hcomplete.of_reaches (.single hdeclares)) himpl
    · exact .inr (.inr (.inr ⟨name, parent?_of_superclass hc.defined hs hname, himpl⟩))

theorem Superinterface.impl (h : cp.Superinterface d e) : cp.Impl d e := by
  induction h using TransGen.head_induction_on with
  | single hstep =>
    obtain ⟨c, t, hd, ht, hname⟩ := hstep
    cases eq_descriptor_of_ofTy hname
    exact .declared hd ht
  | head hstep _ ih => exact .above hstep.declares ih

/-- A superinterface of a complete class is direct unless the superclass of another one implements
it. -/
theorem Superinterface.direct_or_hidden (h : cp.Superinterface d e) (hcomplete : cp.Complete d) :
    cp.Direct d e ∨ cp.Hidden d e := by
  obtain ⟨name, hfirst, hrest⟩ := TransGen.head'_iff.1 h
  obtain ⟨c, t, hd, ht, hname⟩ := id hfirst
  refine direct_or_hidden_of_brings hd (fun name' hname' himpl => ?_) ⟨t, ht, ?_⟩
  · exact (hcomplete.of_reaches (.single hname'.declares)).impl_cases himpl
  · rcases ReflTransGen.cases_head hrest with rfl | ⟨next, hstep, hrest⟩
    · cases eq_descriptor_of_ofTy hname
      exact .itself
    · have hsuper : cp.Superinterface name e := .head' hstep hrest
      exact .extended hname hsuper.impl

/-! ## Entries marked as direct -/

/-- What the interfaces collected from some declared types say of direct ones. -/
structure Ranked (cp : ClassPath) (done : List Ty) (i : Interfaces) : Prop where
  gathered : cp.Gathered (· ∈ done) i
  distinct : i.names.Nodup
  direct : i.resolved = true → ∀ e, ⟨e, true⟩ ∈ i.entries ↔ cp.DirectBy done e

/-- What the interfaces found for a class say of direct ones. -/
structure Marked (cp : ClassPath) (d : String) (i : Interfaces) : Prop where
  distinct : i.names.Nodup
  direct : i.resolved = true → ∀ e, ⟨e, true⟩ ∈ i.entries ↔ cp.Direct d e

/-- Interfaces found for a class say what they should. -/
structure Listed (cp : ClassPath) (d : String) (r : Except HierarchyError Interfaces) : Prop where
  settles : cp.Settles d r
  marked : ∀ {i}, r = .ok i → cp.Marked d i

namespace Ranked

theorem nil (cp : ClassPath) : cp.Ranked [] ⟨[], true⟩ where
  gathered := ⟨fun _ h => absurd h List.not_mem_nil, fun _ _ h => absurd h List.not_mem_nil⟩
  distinct := .nil
  direct _ e := by simp [DirectBy]

/-- Resolved interfaces have the names that the types bring. -/
theorem not_mem_names_iff (h : cp.Ranked done i) (hi : i.resolved = true) :
    e ∉ i.names ↔ ∀ s ∈ done, ¬ cp.Brings s e := by
  refine ⟨fun he s hs hbrings => he ((h.gathered.whole hi s hs).2 e hbrings), fun hnone he => ?_⟩
  obtain ⟨s, hs, hbrings⟩ := h.gathered.sound e he
  exact hnone s hs hbrings

/-- A type whose name was found before adds no direct interface: what it extends was found then. -/
theorem skip (h : cp.Ranked done i) (ht : t.descriptor ∈ i.names) :
    cp.Ranked (done ++ [t]) i where
  gathered := by simpa only [List.mem_append, List.mem_singleton] using h.gathered.skip ht
  distinct := h.distinct
  direct hi e := by
    rw [h.direct hi e, directBy_concat]
    refine ⟨.inl, fun h' => h'.resolve_right ?_⟩
    rintro ⟨hnone, hbrought⟩
    have hbrings : cp.Brings t e := by
      rcases hbrought with rfl | ⟨name, hname, hdirect⟩
      · exact .itself
      · exact .extended hname hdirect.impl
    obtain ⟨s, hs, hst⟩ := h.gathered.sound _ ht
    have hcomplete := (h.gathered.whole hi s hs).1
    exact hnone s hs (hbrings.of_reaches hcomplete (hst.reaches hcomplete) hst)

theorem nodup_insertDeclared (h : i.names.Nodup) : (cp.insertDeclared t i).names.Nodup := by
  unfold insertDeclared
  split <;> exact Interfaces.nodup_insert h

/-- A type of which not everything is known ends the search. -/
theorem stop {rest : List Ty} (h : cp.Ranked done i) :
    cp.Ranked (done ++ t :: rest) (cp.insertDeclared t i).unresolved where
  gathered := by
    refine h.gathered.insert_unresolved.unresolved ?_
    rintro s (hs | rfl) <;> simp [*]
  distinct := nodup_insertDeclared h.distinct
  direct hi := by cases hi

/-- A declared class is direct, and so are its direct interfaces that are new. -/
theorem absorb (h : cp.Ranked done i) (ht : t.descriptor ∉ i.names)
    (hname : TypeNode.ofTy t = .ok (.cls name)) (hmore : cp.Listed name (.ok more)) :
    cp.Ranked (done ++ [t]) ((cp.insertDeclared t i).absorb more) where
  gathered := by
    have hgathered := h.gathered.absorb hname hmore.settles
    simpa only [List.mem_append, List.mem_singleton] using hgathered
  distinct := Interfaces.nodup_absorb (nodup_insertDeclared h.distinct)
  direct hresolved e := by
    obtain ⟨hinsert, hmoreResolved⟩ := Bool.and_eq_true_iff.1 hresolved
    obtain ⟨hi, hdefined⟩ := resolved_insertDeclared.1 hinsert
    obtain ⟨c, hc⟩ := Option.isSome_iff_exists.1 hdefined
    have hmarked := hmore.marked rfl
    rw [Interfaces.mem_entries_absorb_iff hmarked.distinct, mem_names_insertDeclared,
      insertDeclared, hc, Interfaces.mem_entries_insert_iff, h.direct hi,
      hmarked.direct hmoreResolved, directBy_concat, ← h.not_mem_names_iff hi]
    constructor
    · rintro ((hdirect | ⟨heq, hnew⟩) | ⟨hdirect, hnew⟩)
      · exact .inl hdirect
      · cases heq
        exact .inr ⟨hnew, .inl rfl⟩
      · exact .inr ⟨fun he => hnew (.inr he), .inr ⟨name, hname, hdirect⟩⟩
    · rintro (hdirect | ⟨hnew, rfl | ⟨name', hname', hdirect⟩⟩)
      · exact .inl (.inl hdirect)
      · exact .inl (.inr ⟨rfl, ht⟩)
      · cases hname.symm.trans hname'
        by_cases heq : e = t.descriptor
        · exact .inl (.inr ⟨by rw [heq], ht⟩)
        · exact .inr ⟨hdirect, not_or.2 ⟨heq, hnew⟩⟩

/-- An interface itself is not direct. -/
theorem own (h : cp.Ranked c.interfaces i) (hd : cp.def? d = some c) :
    cp.Marked d (if c.isInterface then i.insert ⟨d, false⟩ else i) := by
  split
  · refine ⟨Interfaces.nodup_insert h.distinct, fun hi e => ?_⟩
    rw [Interfaces.resolved_insert] at hi
    rw [Interfaces.mem_entries_insert_iff, direct_iff hd, ← h.direct hi]
    simp
  · exact ⟨h.distinct, fun hi e => by rw [direct_iff hd, h.direct hi]⟩

end Ranked

/-- Interfaces from the superclass are not direct. -/
theorem Marked.inherit (h : cp.Marked d i) (hmore : more.names.Nodup) :
    cp.Marked d (i.inherit more) where
  distinct := Interfaces.nodup_absorb h.distinct
  direct hi e := by
    rw [Interfaces.mem_direct_inherit_iff hmore]
    exact h.direct (Bool.and_eq_true_iff.1 hi).1 e

theorem Marked.unresolved (h : cp.Marked d i) : cp.Marked d i.unresolved where
  distinct := h.distinct
  direct hi := by cases hi

section Collect

variable {I : Memo → Prop} {inherited : String → Query Interfaces}

/-- The walk over declared interfaces ranks them in their order. -/
theorem ranked_addDeclared : ∀ (ts done : List Ty) (acc : Interfaces),
    (∀ t ∈ ts, ∀ name, TypeNode.ofTy t = .ok (.cls name) →
      Yields I (inherited name) (cp.Listed name)) →
    cp.Ranked done acc →
    Yields I (cp.addDeclared inherited ts acc) fun r => ∀ i, r = .ok i → cp.Ranked (done ++ ts) i
  | [], done, acc, _, hacc => by
    refine .pure ?_
    rintro i ⟨⟩
    simpa using hacc
  | t :: rest, done, acc, hin, hacc => by
    have hrest := fun t' ht' => hin t' (List.mem_cons_of_mem t ht')
    have fails {e : HierarchyError} {i : Interfaces} (h : Except.error e = .ok i) :
        cp.Ranked (done ++ t :: rest) i := by cases h
    have stop : Yields I (pure (cp.insertDeclared t acc).unresolved) fun r =>
        ∀ i, r = .ok i → cp.Ranked (done ++ t :: rest) i := by
      refine .pure ?_
      rintro i ⟨⟩
      exact hacc.stop
    rw [List.append_cons]
    unfold addDeclared
    split
    · next hcontains =>
      exact ranked_addDeclared rest _ acc hrest (hacc.skip (List.contains_iff_mem.1 hcontains))
    next hcontains =>
    have ht : t.descriptor ∉ acc.names := fun h => hcontains (List.contains_iff_mem.2 h)
    rw [← List.append_cons]
    refine .bind_lift (fun n hn => ?_) fun e he i h => fails h
    cases n with
    | cls name =>
      refine (hin t List.mem_cons_self name hn).bind_attempt fun r hr => ?_
      cases r with
      | ok more =>
        rw [List.append_cons]
        exact ranked_addDeclared rest _ _ hrest (hacc.absorb ht hn hr)
      | error e =>
        simp only
        split
        · exact stop
        · exact .throw fun i h => fails h
    | _ => exact stop

/-- With those of the superclass the interfaces of a class are marked. -/
theorem marked_addInherited (h : cp.Marked d i) (hd : cp.def? d = some c)
    (hin : ∀ name, cp.Declares d name → Yields I (inherited name) (cp.Listed name)) :
    Yields I (addInherited inherited c.superclass? i) fun r => ∀ i, r = .ok i → cp.Marked d i := by
  have fails {e : HierarchyError} {i : Interfaces} (h : Except.error e = .ok i) :
      cp.Marked d i := by cases h
  have found {i : Interfaces} (h : cp.Marked d i) :
      Yields I (pure i) fun r => ∀ i, r = .ok i → cp.Marked d i := by
    refine .pure ?_
    rintro i ⟨⟩
    exact h
  unfold addInherited
  cases hs : c.superclass? with
  | none => exact found h
  | some s =>
    refine .bind_lift (fun n hn => ?_) fun e he i h => fails h
    cases n with
    | cls name =>
      refine (hin name ⟨c, s, hd, .inl hs, hn⟩).bind_attempt fun r hr => ?_
      cases r with
      | ok more => exact found (h.inherit (hr.marked rfl).distinct)
      | error e =>
        simp only
        split
        · exact found h.unresolved
        · exact .throw fun i h => fails h
    | _ => exact found h

/-- Interfaces that are collected for a class are listed as they should be. -/
theorem listed_collectInterfaces (hd : cp.def? d = some c)
    (hin : ∀ name, cp.Declares d name → Yields I (inherited name) (cp.Listed name)) :
    Yields I (cp.collectInterfaces inherited d c) (cp.Listed d) := by
  have hsettles : Yields I (cp.collectInterfaces inherited d c) (cp.Settles d) :=
    yields_collectInterfaces hd fun name hname => (hin name hname).mono fun _ h => h.settles
  have hmarked : Yields I (cp.collectInterfaces inherited d c) fun r =>
      ∀ i, r = .ok i → cp.Marked d i := by
    refine (ranked_addDeclared c.interfaces [] ⟨[], true⟩
      (fun t ht name hname => hin name ⟨c, t, hd, .inr ht, hname⟩) (.nil cp)).bind
      (fun declared hdeclared => ?_) fun e _ i h => ?_
    · exact marked_addInherited ((hdeclared declared rfl).own hd) hd hin
    · cases h
  exact (hsettles.and hmarked).mono fun r h => ⟨h.1, h.2 _⟩

end Collect

/-- So are those that are found for it. -/
theorem listed_interfacesOf (cp : ClassPath) (d : String) :
    Yields (fun m => Remembers m.interfaces cp.Listed) (cp.interfacesOf d) (cp.Listed d) := by
  refine yields_interfacesFrom (R := cp.Listed) (fun hm h => hm _ _ h) (fun hcycle => ?_)
    (fun hd => ?_) listed_collectInterfaces (fun hm h => hm.add h) [] d (List.forall_mem_nil _)
  · refine ⟨not_complete_of_cycle hcycle, ?_⟩
    rintro i ⟨⟩
  · refine ⟨not_complete_of_missing hd, ?_⟩
    rintro i ⟨⟩

/-- The direct interfaces of a resolved list are found by their marks. -/
theorem Marked.mem_definitions_iff {iface : ClassDef} (h : cp.Marked d i)
    (hi : i.resolved = true) :
    iface ∈ ((i.entries.filter Implemented.direct).filterMap fun e => cp.def? e.name) ↔
      ∃ e, cp.Direct d e ∧ cp.def? e = some iface := by
  simp only [List.mem_filterMap, List.mem_filter]
  constructor
  · rintro ⟨⟨e, direct⟩, ⟨hmem, rfl⟩, hdef⟩
    exact ⟨e, (h.direct hi e).1 hmem, hdef⟩
  · rintro ⟨e, hdirect, hdef⟩
    exact ⟨⟨e, true⟩, ⟨(h.direct hi e).2 hdirect, rfl⟩, hdef⟩

/-- The interfaces given as direct are those that count as direct. -/
theorem mem_directInterfaces_iff {is : List ClassDef} {iface : ClassDef}
    (h : (cp.directInterfaces d).answer .empty = .ok is) :
    iface ∈ is ↔ ∃ e, cp.Direct d e ∧ cp.def? e = some iface := by
  have hyields : Yields (fun m => Remembers m.interfaces cp.Listed) (cp.directInterfaces d)
      fun r => ∀ is, r = .ok is →
        (iface ∈ is ↔ ∃ e, cp.Direct d e ∧ cp.def? e = some iface) := by
    refine (cp.listed_interfacesOf d).bind (fun i hi => ?_) fun e _ is h => ?_
    · split
      · next hresolved =>
        refine .pure ?_
        rintro is ⟨⟩
        exact (hi.marked rfl).mem_definitions_iff hresolved
      · refine .throw ?_
        rintro is ⟨⟩
    · cases h
  exact hyields.answer .nil is h

end ClassPath

end Dalvik
