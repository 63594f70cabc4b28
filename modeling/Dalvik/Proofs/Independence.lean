import Dalvik.Proofs.Implementing
import Dalvik.Proofs.Lasting

/-!
# Answers that do not depend on the history

What is remembered of a cyclic hierarchy can depend on the class that was asked for first.  Away
from cycles it cannot: the answer for a class is then determined by the answers for the classes
above it (`Determined`), and there is only one such answer (`Determined.unique`).

For the interfaces of a class, away from cycles means that no class above it lies on a cycle of
declared superclasses and interfaces.  The vtable and the layout depend on the superclasses only.
If these are cyclic, the vtable is blank and the layout fails, whatever was asked before.  A vtable
also depends on the direct interfaces, but only if everything above the class is known.
-/

namespace Dalvik

open Relation (ReflTransGen TransGen)

namespace Asking

variable {α β : Type} {m : Memo}

/-- The answer of a sequence is that of its second part, if the first one does not touch the memory.
-/
theorem answer_bind_ok {q : Query α} {f : α → Query β} {a : α} (hq : Keeps (· = m) q)
    (h : q.answer m = .ok a) : (q >>= f).answer m = (f a).answer m := by
  have hkept := hq m rfl
  unfold answer at h ⊢
  rw [bind_apply]
  cases hqm : q m with
  | ok b m' =>
    rw [hqm] at h hkept
    cases h
    cases hkept
    rfl
  | error e m' =>
    rw [hqm] at h
    cases h

/-- The answer of a sequence is the failure of its first part. -/
theorem answer_bind_error {q : Query α} {f : α → Query β} {e : HierarchyError}
    (h : q.answer m = .error e) : (q >>= f).answer m = .error e := by
  unfold answer at h ⊢
  rw [bind_apply]
  cases hqm : q m with
  | ok b m' =>
    rw [hqm] at h
    cases h
  | error e' m' =>
    rw [hqm] at h
    cases h
    rfl

theorem answer_bind_pure (q : Query α) (f : α → β) :
    (q >>= fun a => pure (f a)).answer m = (q.answer m).map f := by
  unfold answer
  rw [bind_apply]
  cases q m <;> rfl

/-- A question that is not answered yet has its own answer. -/
theorem answer_recalled {known? : Memo → Option α} {add : α → Memo → Memo} {q : Query α}
    (h : known? m = none) : (ClassPath.recalled known? add q).answer m = q.answer m := by
  unfold answer ClassPath.recalled
  simp only [h]
  cases q m <;> rfl

theorem answer_lift (r : Except HierarchyError α) : (lift r).answer m = r := by
  cases r <;> rfl

end Asking

/-- Why there is no answer. -/
def failure? {ε α : Type} : Except ε α → Option ε
  | .ok _ => none
  | .error e => some e

theorem error_of_failure? {ε α : Type} {r : Except ε α} {e : ε} (h : failure? r = some e) :
    r = .error e := by
  cases r with
  | ok a => cases h
  | error e' => exact congrArg Except.error (Option.some.inj h)

/-! ## Questions that others answer -/

/-- A question has the answer that another one has without a memory. -/
def Tells {α : Type} (I : Memo → Prop) (q q₀ : Query α) : Prop :=
  Yields I q (· = q₀.answer .empty)

namespace Tells

variable {α β : Type} {I : Memo → Prop} {q q₀ : Query α} {r : Except HierarchyError α}

theorem pure (a : α) : Tells I (Pure.pure a) (Pure.pure a) := Yields.pure rfl

theorem throw (e : HierarchyError) :
    Tells I (MonadExcept.throw e : Query α) (MonadExcept.throw e) :=
  Yields.throw rfl

/-- Sequences have the same answers if their parts do. -/
theorem bind {f g : α → Query β} (hq : Tells I q q₀) (hkeeps : Keeps (· = .empty) q₀)
    (hf : ∀ a, Tells I (f a) (g a)) : Tells I (q >>= f) (q₀ >>= g) := by
  refine Yields.bind hq (fun a ha => ?_) fun e he => ?_
  · rw [Asking.answer_bind_ok hkeeps ha.symm]
    exact hf a
  · exact (Asking.answer_bind_error he.symm).symm

/-- The first part of a sequence may be a known answer. -/
theorem bind_lift {f g : α → Query β} (hf : ∀ a, r = .ok a → Tells I (f a) (g a)) :
    Tells I (Asking.lift r >>= f) (Asking.lift r >>= g) := by
  refine Yields.bind_lift (fun a ha => ?_) fun e he => ?_
  · rw [Asking.answer_bind_ok (.lift _) ((Asking.answer_lift r).trans ha)]
    exact hf a ha
  · exact (Asking.answer_bind_error ((Asking.answer_lift r).trans he)).symm

/-- The first part may also be a question whose failure is an answer. -/
theorem bind_attempt {f g : Except HierarchyError α → Query β} (hq : Yields I q (· = r))
    (hf : Tells I (f r) (g r)) :
    Tells I (q.attempt >>= f) ((Asking.lift r).attempt >>= g) := by
  have hlift : ((Asking.lift r).attempt >>= g).answer .empty = (g r).answer .empty := by
    cases r <;> rfl
  refine hq.bind_attempt ?_
  rintro _ rfl
  rw [hlift]
  exact hf

end Tells

/-! ## Determined answers -/

section Determined

variable {α : Type} {E : String → String → Prop} {I : Memo → Prop} {d name : String}
  {out : String → (String → Except HierarchyError α) → Except HierarchyError α}
  {r r' : Except HierarchyError α}

/-- The answer for a class comes from those for the classes next to it. -/
inductive Determined (E : String → String → Prop)
    (out : String → (String → Except HierarchyError α) → Except HierarchyError α) :
    String → Except HierarchyError α → Prop where
  | of_next {d : String} {ref : String → Except HierarchyError α}
    (h : ∀ name, E d name → Determined E out name (ref name)) : Determined E out d (out d ref)

/-- Only the classes next to a class count for its answer. -/
def Local (E : String → String → Prop)
    (out : String → (String → Except HierarchyError α) → Except HierarchyError α) : Prop :=
  ∀ {d ref ref'}, (∀ name, E d name → ref name = ref' name) → out d ref = out d ref'

/-- An answer that comes from the classes next to a class is the only one. -/
theorem Determined.unique (hlocal : Local E out) (h : Determined E out d r)
    (h' : Determined E out d r') : r = r' := by
  induction h generalizing r' with
  | of_next _ ih =>
    cases h' with
    | of_next h' => exact hlocal fun name hname => ih name hname (h' name hname)

/-- A question that is answered from the classes next to a class has a determined answer if they
have. -/
theorem yields_determined (hlocal : Local E out) (inherited : String → Query α) {q : Query α}
    (hin : ∀ name, E d name → Yields I (inherited name) (Determined E out name))
    (hq : ∀ ref, (∀ name, E d name → Yields I (inherited name) (· = ref name)) →
      Yields I q (· = out d ref)) : Yields I q (Determined E out d) := by
  intro m hm
  -- any memory at all shows what the answers of the next classes are
  let ref := fun name => (inherited name).answer m
  have href : ∀ name, E d name → Determined E out name (ref name) :=
    fun name hname => (hin name hname).answer hm
  refine (hq ref fun name hname => ?_).mono (fun r hr => hr ▸ .of_next href) m hm
  exact (hin name hname).mono fun r hr => hr.unique hlocal (href name hname)

end Determined

namespace ClassPath

variable {cp : ClassPath} {I : Memo → Prop} {d name : String} {c : ClassDef}

/-! ## Interfaces -/

section Interfaces

variable {inherited : String → Query Interfaces} {ref : String → Except HierarchyError Interfaces}

/-- The interfaces of a class, from those of the classes it declares. -/
def interfacesBy (cp : ClassPath) (d : String) (ref : String → Except HierarchyError Interfaces) :
    Except HierarchyError Interfaces :=
  match cp.def? d with
  | none => .error (.unresolvedClass d)
  | some c => (cp.collectInterfaces (fun name => Asking.lift (ref name)) d c).answer Memo.empty

/-- The walk over declared interfaces only depends on the answers for them. -/
theorem tells_addDeclared : ∀ (ts : List Ty) (acc : Interfaces),
    (∀ t ∈ ts, ∀ name, TypeNode.ofTy t = .ok (.cls name) →
      Yields I (inherited name) (· = ref name)) →
    Tells I (cp.addDeclared inherited ts acc)
      (cp.addDeclared (fun name => Asking.lift (ref name)) ts acc)
  | [], acc, _ => .pure acc
  | t :: rest, acc, hin => by
    have hrest := fun t' ht' => hin t' (List.mem_cons_of_mem t ht')
    unfold addDeclared
    split
    · exact tells_addDeclared rest acc hrest
    refine .bind_lift fun n hn => ?_
    cases n with
    | cls name =>
      refine .bind_attempt (hin t List.mem_cons_self name hn) ?_
      cases ref name with
      | ok more => exact tells_addDeclared rest _ hrest
      | error e =>
        simp only
        split
        · exact .pure _
        · exact .throw e
    | primitive _ => exact .pure _
    | unknown => exact .pure _
    | array _ _ => exact .pure _

/-- What is taken in from the superclass only depends on its answer. -/
theorem tells_addInherited (superclass? : Option Ty) (acc : Interfaces)
    (hin : ∀ s name, superclass? = some s → TypeNode.ofTy s = .ok (.cls name) →
      Yields I (inherited name) (· = ref name)) :
    Tells I (addInherited inherited superclass? acc)
      (addInherited (fun name => Asking.lift (ref name)) superclass? acc) := by
  unfold addInherited
  cases superclass? with
  | none => exact .pure acc
  | some s =>
    refine .bind_lift fun n hn => ?_
    cases n with
    | cls name =>
      refine .bind_attempt (hin s name rfl hn) ?_
      cases ref name with
      | ok more => exact .pure _
      | error e =>
        simp only
        split
        · exact .pure _
        · exact .throw e
    | primitive _ => exact .pure _
    | unknown => exact .pure _
    | array _ _ => exact .pure _

/-- The interfaces of a class only depend on the answers for the types it declares. -/
theorem tells_collectInterfaces (hd : cp.def? d = some c)
    (hin : ∀ name, cp.Declares d name → Yields I (inherited name) (· = ref name)) :
    Yields I (cp.collectInterfaces inherited d c) (· = cp.interfacesBy d ref) := by
  simp only [interfacesBy, hd]
  refine Tells.bind ?_ (keeps_addDeclared (fun _ => .lift _) _ _) fun declared => ?_
  · exact tells_addDeclared _ _ fun t ht name hname => hin name ⟨c, t, hd, .inr ht, hname⟩
  · exact tells_addInherited _ _ fun s name hs hname => hin name ⟨c, s, hd, .inl hs, hname⟩

/-- Only declared types count for the interfaces of a class. -/
theorem local_interfacesBy (cp : ClassPath) : Local cp.Declares cp.interfacesBy := by
  intro d ref ref' h
  cases hd : cp.def? d with
  | none => simp only [interfacesBy, hd]
  | some c =>
    have htells : Yields (fun _ => True)
        (cp.collectInterfaces (fun name => Asking.lift (ref name)) d c)
        (· = cp.interfacesBy d ref') :=
      tells_collectInterfaces hd fun name hname => .lift (h name hname)
    rw [← htells.answer (m := .empty) trivial]
    simp only [interfacesBy, hd]

/-- The interfaces of a missing class are always a failure. -/
theorem determined_interfaces_of_missing (hd : cp.def? d = none) :
    Determined cp.Declares cp.interfacesBy d (.error (.unresolvedClass d)) := by
  have hout : cp.interfacesBy d (fun _ => .error (.unresolvedClass d)) =
      .error (.unresolvedClass d) := by
    simp only [interfacesBy, hd]
  rw [← hout]
  refine .of_next fun name hname => ?_
  obtain ⟨c, _, hc, _⟩ := hname
  cases hd.symm.trans hc

end Interfaces

/-- All superclasses and interfaces that are declared are classes. -/
def ClassesOnly (cp : ClassPath) : Prop :=
  ∀ d c t, cp.def? d = some c → c.superclass? = some t ∨ t ∈ c.interfaces →
    ∃ name, TypeNode.ofTy t = .ok (.cls name)

/-- It is enough to look at all definitions. -/
theorem classesOnly_of_defs (h : ∀ e ∈ cp.defs, ∀ t ∈ e.2.superclass?.toList ++ e.2.interfaces,
    (TypeNode.ofTy t).toOption = some (.cls t.descriptor)) : cp.ClassesOnly := by
  intro d c t hd ht
  obtain ⟨before, rest, hdefs, _⟩ := List.lookup_eq_some_iff.1 hd
  have hmem : t ∈ c.superclass?.toList ++ c.interfaces := by
    rw [List.mem_append, Option.mem_toList]
    exact ht
  refine ⟨t.descriptor, ok_of_toOption (h (d, c) ?_ t hmem)⟩
  rw [hdefs]
  exact List.mem_append_right _ List.mem_cons_self

theorem classesOnly_tangled : tangled.ClassesOnly := classesOnly_of_defs (by decide +kernel)

section Succeeds

variable {inherited : String → Query Interfaces}

/-- The walk over declared interfaces succeeds if classes fail for missing parts only. -/
theorem succeeds_addDeclared : ∀ (ts : List Ty) (acc : Interfaces),
    (∀ t ∈ ts, ∃ name, TypeNode.ofTy t = .ok (.cls name) ∧
      Yields I (inherited name) fun r => ∀ e, r = .error e → e.isUnresolved = true) →
    Yields I (cp.addDeclared inherited ts acc) fun r => ∃ i, r = .ok i
  | [], acc, _ => .pure ⟨acc, rfl⟩
  | t :: rest, acc, hin => by
    have hrest := fun t' ht' => hin t' (List.mem_cons_of_mem t ht')
    obtain ⟨name, hname, hinherited⟩ := hin t List.mem_cons_self
    unfold addDeclared
    split
    · exact succeeds_addDeclared rest acc hrest
    refine .bind_lift (fun n hn => ?_) fun e he => ?_
    · cases hname.symm.trans hn
      refine hinherited.bind_attempt fun r hr => ?_
      cases r with
      | ok more => exact succeeds_addDeclared rest _ hrest
      | error e =>
        simp only [hr e rfl]
        exact .pure ⟨_, rfl⟩
    · cases hname.symm.trans he

/-- So does the step to the superclass. -/
theorem succeeds_addInherited (superclass? : Option Ty) (acc : Interfaces)
    (hin : ∀ s, superclass? = some s → ∃ name, TypeNode.ofTy s = .ok (.cls name) ∧
      Yields I (inherited name) fun r => ∀ e, r = .error e → e.isUnresolved = true) :
    Yields I (addInherited inherited superclass? acc) fun r => ∃ i, r = .ok i := by
  unfold addInherited
  cases superclass? with
  | none => exact .pure ⟨acc, rfl⟩
  | some s =>
    obtain ⟨name, hname, hinherited⟩ := hin s rfl
    refine .bind_lift (fun n hn => ?_) fun e he => ?_
    · cases hname.symm.trans hn
      refine hinherited.bind_attempt fun r hr => ?_
      cases r with
      | ok more => exact .pure ⟨_, rfl⟩
      | error e =>
        simp only [hr e rfl]
        exact .pure ⟨_, rfl⟩
    · cases hname.symm.trans he

/-- If only classes are declared, the interfaces of a defined class are found. -/
theorem succeeds_collectInterfaces (hcp : cp.ClassesOnly) (hd : cp.def? d = some c)
    (hin : ∀ name, cp.Declares d name →
      Yields I (inherited name) fun r => ∀ e, r = .error e → e.isUnresolved = true) :
    Yields I (cp.collectInterfaces inherited d c) fun r => ∃ i, r = .ok i := by
  refine (succeeds_addDeclared c.interfaces _ fun t ht => ?_).bind (fun declared _ => ?_) ?_
  · obtain ⟨name, hname⟩ := hcp d c t hd (.inr ht)
    exact ⟨name, hname, hin name ⟨c, t, hd, .inr ht, hname⟩⟩
  · refine succeeds_addInherited _ _ fun s hs => ?_
    obtain ⟨name, hname⟩ := hcp d c s hd (.inl hs)
    exact ⟨name, hname, hin name ⟨c, s, hd, .inl hs, hname⟩⟩
  · rintro e ⟨i, hi⟩
    cases hi

end Succeeds

/-- What is known of the interfaces of a class, whatever was asked before. -/
structure Told (cp : ClassPath) (d : String) (r : Except HierarchyError Interfaces) : Prop where
  settles : cp.Settles d r
  determined : Quiet cp.Declares d → Determined cp.Declares cp.interfacesBy d r
  unresolved : cp.ClassesOnly → ∀ e, r = .error e → e.isUnresolved = true

/-- If the answers for declared types are as they should be, then so is the one for the class. -/
theorem told_collectInterfaces {inherited : String → Query Interfaces} (hd : cp.def? d = some c)
    (hin : ∀ name, cp.Declares d name → Yields I (inherited name) (cp.Told name)) :
    Yields I (cp.collectInterfaces inherited d c) (cp.Told d) := by
  have hsettles : Yields I (cp.collectInterfaces inherited d c) (cp.Settles d) :=
    yields_collectInterfaces hd fun name hname => (hin name hname).mono fun _ h => h.settles
  have hdetermined : Yields I (cp.collectInterfaces inherited d c) fun r =>
      Quiet cp.Declares d → Determined cp.Declares cp.interfacesBy d r := by
    by_cases hquiet : Quiet cp.Declares d
    · refine Yields.mono ?_ fun r h _ => h
      refine yields_determined cp.local_interfacesBy inherited (fun name hname => ?_)
        fun ref href => tells_collectInterfaces hd href
      exact (hin name hname).mono fun r h => h.determined (hquiet.of_step hname)
    · exact hsettles.mono fun r _ h => absurd h hquiet
  have hunresolved : Yields I (cp.collectInterfaces inherited d c) fun r =>
      cp.ClassesOnly → ∀ e, r = .error e → e.isUnresolved = true := by
    by_cases hcp : cp.ClassesOnly
    · refine (succeeds_collectInterfaces hcp hd fun name hname => ?_).mono ?_
      · exact (hin name hname).mono fun r h => h.unresolved hcp
      · rintro _ ⟨i, rfl⟩ _ e he
        cases he
    · exact hsettles.mono fun r _ h => absurd h hcp
  exact ((hsettles.and hdetermined).and hunresolved).mono fun r h => ⟨h.1.1, h.1.2, h.2⟩

/-- The interfaces of a class are as they should be, if those that are remembered are. -/
theorem told_interfacesOf (cp : ClassPath) (d : String) :
    Yields (fun m => Remembers m.interfaces cp.Told) (cp.interfacesOf d) (cp.Told d) := by
  refine yields_interfacesFrom (R := cp.Told) (fun hm h => hm _ _ h) ?_ ?_
    told_collectInterfaces (fun hm h => hm.add h) [] d nofun
  · intro d hcycle
    refine ⟨not_complete_of_cycle hcycle, fun h => absurd h (not_quiet_of_cycle hcycle), ?_⟩
    rintro _ _ ⟨⟩
    rfl
  · intro d hd
    refine ⟨not_complete_of_missing hd, fun _ => determined_interfaces_of_missing hd, ?_⟩
    rintro _ _ ⟨⟩
    rfl

/-- Whatever was asked, the interfaces that are remembered are as they should be. -/
theorem told_of_asked {m : Memo} (h : cp.Asked .empty m) : Remembers m.interfaces cp.Told :=
  h.keeps (I := fun m => Remembers m.interfaces cp.Told)
    (keptBy_of_interfaces (fun d => (cp.told_interfacesOf d).keeps) (fun _ hm => hm)
      fun _ hm => hm) .nil

end ClassPath

/-! ## Steady questions -/

/-- A question whose answer is the same for all memories with a property, which it keeps. -/
structure Steady {α : Type} (I : Memo → Prop) (q : Query α) : Prop where
  keeps : Keeps I q
  same : ∀ {m m'}, I m → I m' → q.answer m = q.answer m'

namespace Steady

variable {α β : Type} {I J : Memo → Prop} {q : Query α}

theorem of_yields {r : Except HierarchyError α} (h : Yields I q (· = r)) : Steady I q where
  keeps := h.keeps
  same hm hm' := (h.answer hm).trans (h.answer hm').symm

/-- A steady question has the answer that it has without a memory. -/
theorem tells (h : Steady I q) (hempty : I .empty) : Tells I q q := by
  intro m hm
  have hkeeps := h.keeps m hm
  have hsame := h.same hm hempty
  cases hq : q m with
  | ok a m' =>
    rw [hq] at hkeeps
    rw [Asking.answer_ok hq] at hsame
    exact ⟨hkeeps, hsame⟩
  | error e m' =>
    rw [hq] at hkeeps
    rw [Asking.answer_error hq] at hsame
    exact ⟨hkeeps, hsame⟩

theorem mono (h : Steady J q) (hI : ∀ m, I m → J m) (hkeeps : Keeps I q) : Steady I q where
  keeps := hkeeps
  same hm hm' := h.same (hI _ hm) (hI _ hm')

theorem pure (a : α) : Steady I (Pure.pure a : Query α) := ⟨.pure a, fun _ _ => rfl⟩

theorem throw (e : HierarchyError) : Steady I (MonadExcept.throw e : Query α) :=
  ⟨.throw e, fun _ _ => rfl⟩

theorem lift (r : Except HierarchyError α) : Steady I (Asking.lift r) := by
  refine ⟨.lift r, fun _ _ => ?_⟩
  cases r <;> rfl

/-- Steady questions are steady one after the other. -/
theorem bind {f : α → Query β} (hq : Steady I q) (hf : ∀ a, Steady I (f a)) :
    Steady I (q >>= f) where
  keeps := hq.keeps.bind fun a => (hf a).keeps
  same := by
    intro m m' hm hm'
    have hsame := hq.same hm hm'
    cases hqm : q m with
    | error e m₁ =>
      rw [Asking.answer_error hqm] at hsame
      rw [Asking.answer_bind_error (Asking.answer_error hqm), Asking.answer_bind_error hsame.symm]
    | ok a m₁ =>
      rw [Asking.answer_ok hqm] at hsame
      cases hqm' : q m' with
      | error e m₁' =>
        rw [Asking.answer_error hqm'] at hsame
        cases hsame
      | ok a' m₁' =>
        rw [Asking.answer_ok hqm'] at hsame
        cases hsame
        have := (hf a).same (Triple.ok hq.keeps hm hqm) (Triple.ok hq.keeps hm' hqm')
        unfold Asking.answer at this ⊢
        rw [bind_apply, bind_apply, hqm, hqm']
        exact this

theorem attempt (hq : Steady I q) : Steady I q.attempt where
  keeps := hq.keeps.attempt
  same := by
    intro m m' hm hm'
    have hattempt : ∀ m, q.attempt.answer m = .ok (q.answer m) := by
      intro m
      unfold Asking.answer Asking.attempt
      cases q m <;> rfl
    rw [hattempt, hattempt, hq.same hm hm']

end Steady

namespace ClassPath

variable {cp : ClassPath} {d name iface : String} {c : ClassDef}

/-- All remembered interfaces are as they should be. -/
def ToldAll (cp : ClassPath) (m : Memo) : Prop := Remembers m.interfaces cp.Told

theorem toldAll_empty (cp : ClassPath) : cp.ToldAll .empty := .nil

/-- Away from cycles, the interfaces of a class are always the same. -/
theorem steady_interfacesOf (h : Quiet cp.Declares d) : Steady cp.ToldAll (cp.interfacesOf d) where
  keeps := (cp.told_interfacesOf d).keeps
  same hm hm' := by
    have hr := ((cp.told_interfacesOf d).answer hm).determined h
    exact hr.unique cp.local_interfacesBy (((cp.told_interfacesOf d).answer hm').determined h)

/-- Away from cycles, whether a class implements an interface is always the same. -/
theorem steady_classImplements (h : Quiet cp.Declares d) (iface : String) :
    Steady cp.ToldAll (cp.classImplements d iface) := by
  refine (steady_interfacesOf h).bind fun i => ?_
  split
  · exact .pure _
  · split
    · exact .pure _
    · exact .throw _

/-- So is whether an interface is one of the class. -/
theorem steady_isInterfaceOf (h : Quiet cp.Declares d) (iface : String) :
    Steady cp.ToldAll (cp.isInterfaceOf iface d) := by
  unfold isInterfaceOf
  split
  · split
    · exact steady_classImplements h iface
    · exact .pure _
  · refine (steady_classImplements h iface).attempt.bind fun answer => ?_
    cases answer with
    | ok b => exact .pure b
    | error e =>
      simp only
      split
      · exact .pure _
      · exact .throw e

theorem steady_joinAfter {a b : String} {rest : Query TypeNode} (h : Quiet cp.Declares a)
    (hrest : Steady cp.ToldAll rest) : Steady cp.ToldAll (cp.joinAfter a b rest) := by
  refine (steady_isInterfaceOf h b).attempt.bind fun second => ?_
  rcases second with e | _ | _
  · simp only
    split
    · exact .pure _
    · exact .throw e
  · exact hrest
  · exact .pure _

/-- The join of two classes away from cycles is always the same. -/
theorem steady_classJoin {a b : String} (ha : Quiet cp.Declares a) (hb : Quiet cp.Declares b) :
    Steady cp.ToldAll (cp.classJoin a b) := by
  rw [classJoin_eq]
  split
  · exact .pure _
  split
  · exact .pure _
  refine (steady_isInterfaceOf hb a).attempt.bind fun first => ?_
  rcases first with e | _ | _
  · simp only [joinFirst]
    split
    · exact steady_joinAfter ha (.pure _)
    · exact .throw e
  · exact steady_joinAfter ha (.lift _)
  · exact .pure _

/-- So is the common superclass of a class and any node away from cycles. -/
theorem steady_commonSuperclass {n : TypeNode} (hd : Quiet cp.Declares d)
    (hn : ∀ e, n = .cls e → Quiet cp.Declares e) :
    Steady cp.ToldAll (cp.commonSuperclass (.cls d) n) := by
  cases n with
  | primitive d => exact .throw _
  | unknown => exact .pure _
  | array dims elem => exact .pure _
  | cls e => exact steady_classJoin hd (hn e rfl)

/-- The interfaces of a defined class are found if only classes are declared. -/
theorem found_interfacesOf (hcp : cp.ClassesOnly) (hd : cp.def? d = some c) :
    Yields cp.ToldAll (cp.interfacesOf d) fun r => ∃ i, r = .ok i ∧ cp.Answers d i := by
  intro m hm
  have htold := cp.told_interfacesOf d m hm
  cases hq : cp.interfacesOf d m with
  | ok i m' =>
    rw [hq] at htold
    exact ⟨htold.1, i, rfl, htold.2.settles⟩
  | error e m' =>
    rw [hq] at htold
    have hmissing := interfacesOf_unresolved hq (htold.2.unresolved hcp e rfl)
    cases hd.symm.trans hmissing.1

/-- A missing class declares nothing, so it is on no way to a cycle. -/
theorem quiet_of_missing (hd : cp.def? d = none) : Quiet cp.Declares d := by
  refine quiet_of_no_step fun name hname => ?_
  obtain ⟨c, _, hc, _⟩ := hname
  cases hd.symm.trans hc

/-- If only classes are declared, it is always the same whether the interfaces of a class are
found, and whether they are resolved. -/
theorem map_resolved_interfacesOf (hcp : cp.ClassesOnly) {m m' : Memo} (hm : cp.ToldAll m)
    (hm' : cp.ToldAll m') :
    ((cp.interfacesOf d).answer m).map Interfaces.resolved =
      ((cp.interfacesOf d).answer m').map Interfaces.resolved := by
  cases hd : cp.def? d with
  | none => rw [(steady_interfacesOf (quiet_of_missing hd)).same hm hm']
  | some c =>
    obtain ⟨i, hi, hanswers⟩ := (found_interfacesOf hcp hd).answer hm
    obtain ⟨i', hi', hanswers'⟩ := (found_interfacesOf hcp hd).answer hm'
    rw [hi, hi']
    exact congrArg Except.ok (Bool.eq_iff_iff.2 (hanswers.resolved.trans hanswers'.resolved.symm))

/-- Answers about interfaces do not depend on the history away from cycles.  On a cycle they may,
but whether all interfaces of a class are known does not. -/
theorem interface_answers_steady (cp : ClassPath) (hcp : cp.ClassesOnly) (history : List Question)
    (d : String) :
    ((cp.interfacesOf d).answer (cp.remembered history)).map Interfaces.resolved =
        ((cp.interfacesOf d).answer .empty).map Interfaces.resolved ∧
      (Quiet cp.Declares d →
        (cp.interfacesOf d).answer (cp.remembered history) = (cp.interfacesOf d).answer .empty ∧
        (∀ iface, (cp.implements (.cls d) iface).answer (cp.remembered history) =
          (cp.implements (.cls d) iface).answer .empty) ∧
        ∀ n, (∀ e, n = .cls e → Quiet cp.Declares e) →
          (cp.commonSuperclass (.cls d) n).answer (cp.remembered history) =
            (cp.commonSuperclass (.cls d) n).answer .empty) := by
  have hm : cp.ToldAll (cp.remembered history) := told_of_asked (cp.asked_remembered history)
  have hempty := cp.toldAll_empty
  refine ⟨map_resolved_interfacesOf hcp hm hempty, fun hd => ⟨?_, fun iface => ?_, fun n hn => ?_⟩⟩
  · exact (steady_interfacesOf hd).same hm hempty
  · exact (steady_classImplements hd iface).same hm hempty
  · exact (steady_commonSuperclass hd hn).same hm hempty

theorem interface_answers_steady_tangled :
    tangled.ClassesOnly ∧ Quiet tangled.Declares "LB;" ∧ Quiet tangled.Declares "LK;" ∧
      (tangled.interfacesOf "LB;").answer (tangled.remembered tangledHistory) =
        (tangled.interfacesOf "LB;").answer .empty ∧
      (tangled.commonSuperclass (.cls "LB;") (.cls "LK;")).answer
        (tangled.remembered tangledHistory) =
          (tangled.commonSuperclass (.cls "LB;") (.cls "LK;")).answer .empty := by
  have hquiet : Quiet tangled.Declares "LK;" := by
    refine quiet_of_no_step fun name => ?_
    rintro ⟨c, t, hc, ht, _⟩
    cases hc
    rcases ht with ht | ht <;> cases ht
  have hsteady := (tangled.interface_answers_steady classesOnly_tangled tangledHistory "LB;").2
    quiet_tangled
  refine ⟨classesOnly_tangled, quiet_tangled, hquiet, hsteady.1, hsteady.2.2 _ ?_⟩
  rintro e ⟨⟩
  exact hquiet

/-- On a cycle the order of the questions counts: after the interfaces of the second interface,
the first one has lost one of its own, and a test for it and a join with it are not decided. -/
theorem interface_answers_unsteady :
    tangled.ClassesOnly ∧
      (tangled.interfacesOf "LI;").answer (tangled.remembered [.interfaces "LJ;"]) ≠
        (tangled.interfacesOf "LI;").answer .empty ∧
      (tangled.implements (.cls "LI;") "LK;").answer .empty = .ok true ∧
      (tangled.implements (.cls "LI;") "LK;").answer (tangled.remembered [.interfaces "LJ;"]) =
        .error (.interfacesNotResolved "LI;") ∧
      (tangled.commonSuperclass (.cls "LI;") (.cls "LK;")).answer .empty = .ok (.cls "LK;") ∧
      (tangled.commonSuperclass (.cls "LI;") (.cls "LK;")).answer
        (tangled.remembered [.interfaces "LJ;"]) = .ok .unknown := by
  refine ⟨classesOnly_tangled, fun h => ?_, ok_of_toOption (by decide +kernel),
    error_of_failure? (by decide +kernel), ok_of_toOption (by decide +kernel),
    ok_of_toOption (by decide +kernel)⟩
  have hne :
      ((tangled.interfacesOf "LI;").answer (tangled.remembered [.interfaces "LJ;"])).toOption ≠
        ((tangled.interfacesOf "LI;").answer .empty).toOption := by decide +kernel
  exact hne (congrArg Except.toOption h)

end ClassPath

end Dalvik
