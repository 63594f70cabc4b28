import Dalvik.Proofs.Memory

/-!
# Answers that last

In a cyclic hierarchy an answer can depend on what was asked before.  Once a question is answered
the answer lasts all the same: the same question gets it again, no matter what was asked in
between, and asks for nothing new (`ClassPath.Lasting`).

The reason is that remembered answers are never replaced (`Memo.Within`), and that the interfaces
of a class are unknown for one reason only, which does not go away: the class is not defined
(`interfacesOf_unresolved`).  Malformed hierarchies are another matter.  A failure that is not
remembered may be avoided later, so nothing is said of it.
-/

namespace Dalvik

/-! ## Remembered answers -/

/-- All answers in a memory are also in another. -/
structure Memo.Within (m m' : Memo) : Prop where
  interfaces : ∀ {d i}, m.interfaces.lookup d = some i → m'.interfaces.lookup d = some i
  vtables : ∀ {d v}, m.vtables.lookup d = some v → m'.vtables.lookup d = some v
  layouts : ∀ {d l}, m.layouts.lookup d = some l → m'.layouts.lookup d = some l

/-- A new answer hides no other. -/
theorem lookup_cons_of_fresh {α : Type} {answers : List (String × α)} {d d' : String} {a a' : α}
    (hd : answers.lookup d = none) (h : answers.lookup d' = some a') :
    ((d, a) :: answers).lookup d' = some a' := by
  have hne : d' ≠ d := by
    rintro rfl
    rw [hd] at h
    cases h
  rw [List.lookup_cons, beq_false_of_ne hne]
  exact h

namespace ClassPath

variable {cp : ClassPath} {m m₁ m₂ : Memo} {d : String}

/-- No answer is replaced. -/
theorem within_of_asked (h : cp.Asked m m₁) : m.Within m₁ := by
  refine h.keeps (keptBy_of_interfaces (keeps_interfacesOf ?_) ?_ ?_) ⟨id, id, id⟩
  · intro m' d i _ hd hm
    exact ⟨fun h => lookup_cons_of_fresh hd (hm.interfaces h), hm.vtables, hm.layouts⟩
  · intro m' d v hd hm
    exact ⟨hm.interfaces, fun h => lookup_cons_of_fresh hd (hm.vtables h), hm.layouts⟩
  · intro m' d l hd hm
    exact ⟨hm.interfaces, hm.vtables, fun h => lookup_cons_of_fresh hd (hm.layouts h)⟩

/-- Interfaces are remembered of defined classes only. -/
theorem defined_of_interfaces {i : Interfaces} (h : cp.Asked .empty m)
    (hd : m.interfaces.lookup d = some i) : (cp.def? d).isSome := by
  have hkeys : ∀ d i, m.interfaces.lookup d = some i → (cp.def? d).isSome := by
    refine h.keeps (I := fun m => ∀ d i, m.interfaces.lookup d = some i → (cp.def? d).isSome)
      (keptBy_of_interfaces (keeps_interfacesOf ?_) (fun _ hm => hm) (fun _ hm => hm)) ?_
    · intro m' d i hdef _ hm d' i' hd'
      simp only [Memo.addInterfaces, List.lookup_cons] at hd'
      split at hd'
      · next heq => exact beq_iff_eq.1 heq ▸ hdef
      · exact hm d' i' hd'
    · intro d i hd
      cases hd
  exact hkeys d i hd

/-! ## Failures -/

/-- Whether a question can only fail since something is malformed. -/
def Definite {α : Type} (q : Query α) : Prop :=
  Triple (fun _ => True) q (fun _ _ => True) (fun e _ => e.isUnresolved = false)

/-- A descriptor that names no type is malformed, not unresolved. -/
theorem isUnresolved_of_ofDescriptor {e : HierarchyError}
    (h : TypeNode.ofDescriptor d = .error e) : e.isUnresolved = false := by
  unfold TypeNode.ofDescriptor at h
  split at h
  · cases h
  split at h
  · cases h
  split at h
  · split at h
    · cases h
    · cases h
      rfl
  · cases h
    rfl
  · cases h

theorem definite_ofTy (t : Ty) : Definite (Asking.lift (TypeNode.ofTy t)) := by
  intro m _
  unfold Asking.lift
  cases h : TypeNode.ofTy t with
  | ok n => trivial
  | error e => exact isUnresolved_of_ofDescriptor h

/-- Where a failure is an answer, nothing fails. -/
theorem definite_attempt {α : Type} (q : Query α) : Definite q.attempt := by
  intro m _
  unfold Asking.attempt
  cases q m <;> trivial

theorem definite_pure {α : Type} (a : α) : Definite (pure a : Query α) := fun _ _ => trivial

/-- Questions that fail for malformed parts only do so one after the other. -/
theorem definite_bind {α β : Type} {q : Query α} {f : α → Query β} (hq : Definite q)
    (hf : ∀ a, Definite (f a)) : Definite (q >>= f) :=
  Triple.bind hq hf

/-- What is unresolved is answered in another way, and other failures remain. -/
theorem definite_orUnresolved {α : Type} (a : α) (e : HierarchyError) :
    Definite (if e.isUnresolved then pure a else throw e : Query α) := by
  cases he : e.isUnresolved with
  | true => exact definite_pure a
  | false => exact fun _ _ => he

/-- The walk over declared interfaces fails for malformed types only. -/
theorem definite_addDeclared (inherited : String → Query Interfaces) :
    ∀ (ts : List Ty) (acc : Interfaces), Definite (cp.addDeclared inherited ts acc)
  | [], acc => definite_pure acc
  | t :: rest, acc => by
    unfold addDeclared
    split
    · exact definite_addDeclared inherited rest acc
    · refine definite_bind (definite_ofTy t) fun n => ?_
      cases n with
      | cls name =>
        refine definite_bind (definite_attempt _) fun answer => ?_
        cases answer with
        | ok more => exact definite_addDeclared inherited rest _
        | error e => exact definite_orUnresolved _ e
      | _ => exact definite_pure _

/-- Interfaces that are collected for a defined class fail for malformed types only. -/
theorem definite_collectInterfaces (inherited : String → Query Interfaces) (d : String)
    (c : ClassDef) : Definite (cp.collectInterfaces inherited d c) := by
  refine definite_bind (definite_addDeclared inherited _ _) fun declared => ?_
  unfold addInherited
  dsimp only
  cases c.superclass? with
  | none => exact definite_pure _
  | some s =>
    refine definite_bind (definite_ofTy s) fun n => ?_
    cases n with
    | cls name =>
      refine definite_bind (definite_attempt _) fun answer => ?_
      cases answer with
      | ok more => exact definite_pure _
      | error e => exact definite_orUnresolved _ e
    | _ => exact definite_pure _

/-- The interfaces of a class are only unknown if it is not defined. -/
theorem interfacesOf_unresolved {e : HierarchyError} (h : cp.interfacesOf d m = .error e m₁)
    (he : e.isUnresolved = true) : cp.def? d = none ∧ e = .unresolvedClass d := by
  rw [interfacesOf, interfacesFrom_eq, recalled] at h
  cases hknown : m.interfaces.lookup d with
  | some known =>
    simp only [hknown] at h
    cases h
  | none =>
    cases hdef : cp.def? d with
    | none =>
      simp only [hknown, hdef] at h
      cases h
      exact ⟨rfl, rfl⟩
    | some c =>
      simp only [hknown, hdef, List.not_mem_nil, if_false] at h
      split at h
      · cases h
      · next e' m' hcollect =>
        cases h
        have hfalse := Triple.error (definite_collectInterfaces _ d c) trivial hcollect
        rw [he] at hfalse
        cases hfalse

/-! ## Lasting questions -/

/-- A question that gets its answer again whatever was asked in between, and so the answer that
something is not known. -/
structure Lasting (cp : ClassPath) {α : Type} (q : Query α) : Prop where
  asks : ∀ m, Keeps (cp.Asked m) q
  again : ∀ {m m₁ m₂ a}, cp.Asked .empty m → q m = .ok a m₁ → cp.Asked m₁ m₂ → q m₂ = .ok a m₂
  unresolved : ∀ {m m₁ m₂ e}, cp.Asked .empty m → q m = .error e m₁ → e.isUnresolved = true →
    cp.Asked m₁ m₂ → q m₂ = .error e m₂

namespace Lasting

variable {α β : Type} {q : Query α}

theorem pure (a : α) : cp.Lasting (Pure.pure a : Query α) where
  asks _ := .pure a
  again := by
    intro m m₁ m₂ b _ h _
    cases h
    rfl
  unresolved := by
    intro m m₁ m₂ e _ h
    cases h

theorem throw (e : HierarchyError) : cp.Lasting (MonadExcept.throw e : Query α) where
  asks _ := .throw e
  again := by
    intro m m₁ m₂ b _ h
    cases h
  unresolved := by
    intro m m₁ m₂ e _ h _ _
    cases h
    rfl

theorem lift (r : Except HierarchyError α) : cp.Lasting (Asking.lift r) := by
  cases r with
  | ok a => exact pure a
  | error e => exact throw e

/-- Lasting questions last one after the other. -/
theorem bind {f : α → Query β} (hq : cp.Lasting q) (hf : ∀ a, cp.Lasting (f a)) :
    cp.Lasting (q >>= f) where
  asks m := (hq.asks m).bind fun a => (hf a).asks m
  again := by
    intro m m₂ m₃ b hm h h₃
    obtain ⟨a, m₁, ha, hb⟩ := bind_ok.1 h
    have h₁ : cp.Asked m m₁ := Triple.ok (hq.asks m) .refl ha
    have h₂ : cp.Asked m₁ m₂ := Triple.ok ((hf a).asks m₁) .refl hb
    refine bind_ok.2 ⟨a, m₃, hq.again hm ha (h₂.trans h₃), ?_⟩
    exact (hf a).again (hm.trans h₁) hb h₃
  unresolved := by
    intro m m₂ m₃ e hm h he h₃
    rw [bind_apply] at h ⊢
    cases ha : q m with
    | error e' m₁ =>
      simp only [ha] at h
      cases h
      rw [hq.unresolved hm ha he h₃]
    | ok a m₁ =>
      simp only [ha] at h
      have h₁ : cp.Asked m m₁ := Triple.ok (hq.asks m) .refl ha
      have h₂ : cp.Asked m₁ m₂ := Triple.error ((hf a).asks m₁) .refl h
      rw [hq.again hm ha (h₂.trans h₃)]
      exact (hf a).unresolved (hm.trans h₁) h he h₃

/-- The answer that something is not known is given again. -/
theorem attempt_again {r : Except HierarchyError α} (hq : cp.Lasting q) (hm : cp.Asked .empty m)
    (h : q.attempt m = .ok r m₁) (hr : ∀ e, r = .error e → e.isUnresolved = true)
    (h₂ : cp.Asked m₁ m₂) : q.attempt m₂ = .ok r m₂ := by
  obtain ⟨a, rfl, ha⟩ | ⟨e, rfl, he⟩ := Asking.attempt_ok h
  · rw [Asking.attempt, hq.again hm ha h₂]
  · rw [Asking.attempt, hq.unresolved hm he (hr e rfl) h₂]

/-- A question that is attempted lasts, if what is done with the answer fails as soon as something
is malformed. -/
theorem attempt {f : Except HierarchyError α → Query β} (hq : cp.Lasting q)
    (hf : ∀ r, cp.Lasting (f r))
    (hfail : ∀ e, e.isUnresolved = false → f (.error e) = MonadExcept.throw e) :
    cp.Lasting (q.attempt >>= f) where
  asks m := (hq.asks m).attempt.bind fun r => (hf r).asks m
  again := by
    intro m m₂ m₃ b hm h h₃
    obtain ⟨r, m₁, hr, hb⟩ := bind_ok.1 h
    have h₁ : cp.Asked m m₁ := Triple.ok (hq.asks m).attempt .refl hr
    have h₂ : cp.Asked m₁ m₂ := Triple.ok ((hf r).asks m₁) .refl hb
    have hresolved : ∀ e, r = .error e → e.isUnresolved = true := by
      rintro e rfl
      cases he : e.isUnresolved with
      | true => rfl
      | false =>
        rw [hfail e he] at hb
        cases hb
    exact bind_ok.2 ⟨r, m₃, hq.attempt_again hm hr hresolved (h₂.trans h₃),
      (hf r).again (hm.trans h₁) hb h₃⟩
  unresolved := by
    intro m m₂ m₃ e hm h he h₃
    rw [bind_apply] at h ⊢
    cases hr : q.attempt m with
    | error e' m₁ =>
      unfold Asking.attempt at hr
      cases hqm : q m <;> rw [hqm] at hr <;> cases hr
    | ok r m₁ =>
      simp only [hr] at h
      have h₁ : cp.Asked m m₁ := Triple.ok (hq.asks m).attempt .refl hr
      have h₂ : cp.Asked m₁ m₂ := Triple.error ((hf r).asks m₁) .refl h
      have hresolved : ∀ e', r = .error e' → e'.isUnresolved = true := by
        rintro e' rfl
        cases he' : e'.isUnresolved with
        | true => rfl
        | false =>
          rw [hfail e' he'] at h
          cases h
          exact he'.symm.trans he
      rw [hq.attempt_again hm hr hresolved (h₂.trans h₃)]
      exact (hf r).unresolved (hm.trans h₁) h he h₃

end Lasting

theorem interfacesOf_eq_of_lookup {i : Interfaces} (h : m.interfaces.lookup d = some i) :
    cp.interfacesOf d m = .ok i m := by
  rw [interfacesOf, interfacesFrom_eq]
  exact recalled_of_known h

/-- Interfaces are remembered once they are given. -/
theorem lookup_of_interfacesOf {i : Interfaces} (h : cp.interfacesOf d m = .ok i m₁) :
    m₁.interfaces.lookup d = some i := by
  rw [interfacesOf, interfacesFrom_eq] at h
  exact known_of_recalled (fun _ _ => List.lookup_cons_self) h

/-- The interfaces of a class are given again, whatever was asked in between. -/
theorem lasting_interfacesOf (d : String) : cp.Lasting (cp.interfacesOf d) where
  asks m := (cp.asked_keptBy m).interfaces d
  again := by
    intro m m₁ m₂ i _ h h₂
    exact interfacesOf_eq_of_lookup ((within_of_asked h₂).interfaces (lookup_of_interfacesOf h))
  unresolved := by
    intro m m₁ m₂ e hm h he h₂
    obtain ⟨hdef, rfl⟩ := interfacesOf_unresolved h he
    have hm₂ : cp.Asked .empty m₂ :=
      (hm.trans (Triple.error ((cp.asked_keptBy m).interfaces d) .refl h)).trans h₂
    have hnone : m₂.interfaces.lookup d = none := by
      cases hlookup : m₂.interfaces.lookup d with
      | none => rfl
      | some i =>
        have hsome := defined_of_interfaces hm₂ hlookup
        rw [hdef] at hsome
        cases hsome
    rw [interfacesOf, interfacesFrom_eq, recalled]
    simp only [hnone, hdef, List.not_mem_nil, if_false]
    rfl

/-- So is the answer whether a class implements an interface. -/
theorem lasting_classImplements (d iface : String) : cp.Lasting (cp.classImplements d iface) := by
  refine (lasting_interfacesOf d).bind fun i => ?_
  split
  · exact .pure _
  · split
    · exact .pure _
    · exact .throw _

theorem lasting_isInterfaceOf (iface d : String) : cp.Lasting (cp.isInterfaceOf iface d) := by
  unfold isInterfaceOf
  split
  · split
    · exact lasting_classImplements d iface
    · exact .pure _
  · refine (lasting_classImplements d iface).attempt (fun r => ?_) fun e he => ?_
    · cases r with
      | ok answer => exact .pure answer
      | error e =>
        simp only
        split
        · exact .pure _
        · exact .throw e
    · simp only [he, Bool.false_eq_true, if_false]

theorem lasting_joinAfter {rest : Query TypeNode} (hrest : cp.Lasting rest) (a b : String) :
    cp.Lasting (cp.joinAfter a b rest) := by
  refine (lasting_isInterfaceOf b a).attempt (fun second => ?_) fun e he => ?_
  · rcases second with e | _ | _
    · simp only
      split
      · exact .pure _
      · exact .throw e
    · exact hrest
    · exact .pure _
  · simp only [he, Bool.false_eq_true, if_false]

/-- The join of two classes lasts. -/
theorem lasting_classJoin (a b : String) : cp.Lasting (cp.classJoin a b) := by
  rw [classJoin_eq]
  split
  · exact .pure _
  split
  · exact .pure _
  refine (lasting_isInterfaceOf a b).attempt (fun first => ?_) fun e he => ?_
  · rcases first with e | _ | _
    · simp only [joinFirst]
      split
      · exact lasting_joinAfter (.pure _) a b
      · exact .throw e
    · exact lasting_joinAfter (.lift _) a b
    · exact .pure _
  · simp only [joinFirst, he, Bool.false_eq_true, if_false]

theorem lasting_plainJoin (a b : TypeNode) : cp.Lasting (cp.plainJoin a b) := by
  cases a with
  | primitive d => exact .throw _
  | unknown => exact .pure _
  | array dims elem => exact .pure _
  | cls a =>
    cases b with
    | primitive d => exact .throw _
    | unknown => exact .pure _
    | array dims elem => exact .pure _
    | cls b => exact lasting_classJoin a b

theorem lasting_arrayJoin (dims : Nat) (elem : String) (dims' : Nat) (elem' : String) :
    cp.Lasting (cp.arrayJoin dims elem dims' elem') := by
  unfold arrayJoin
  split
  · exact .pure _
  split
  · exact (Lasting.lift _).bind fun a => (Lasting.lift _).bind fun b =>
      (lasting_plainJoin a b).bind fun _ => .pure _
  · exact .pure _

/-- The common superclass of two nodes lasts. -/
theorem lasting_commonSuperclass (a b : TypeNode) : cp.Lasting (cp.commonSuperclass a b) := by
  cases a with
  | primitive d => exact .throw _
  | unknown =>
    cases b with
    | array dims elem => exact .pure _
    | primitive d => exact .pure _
    | unknown => exact .pure _
    | cls b => exact .pure _
  | array dims elem =>
    cases b with
    | primitive d => exact .throw _
    | array dims' elem' => exact lasting_arrayJoin dims elem dims' elem'
    | unknown => exact .pure _
    | cls b => exact .pure _
  | cls a =>
    cases b with
    | array dims elem => exact .pure _
    | primitive d => exact .throw _
    | unknown => exact .pure _
    | cls b => exact lasting_classJoin a b

/-- So does the join of register types. -/
theorem lasting_join (a b : RegType) : cp.Lasting (a.join cp b) := by
  unfold RegType.join
  split
  · exact .pure _
  cases a.category.join b.category with
  | reference =>
    cases a.node? with
    | none => cases b.node? <;> exact .pure _
    | some p =>
      cases b.node? with
      | none => exact .pure _
      | some q => exact (lasting_commonSuperclass p q).bind fun _ => .pure _
  | _ => exact .pure _

/-- And so does the type of what handlers catch. -/
theorem lasting_caughtType : ∀ (handlers : List Handler) (found : RegType),
    cp.Lasting (Analysis.caughtType cp found handlers)
  | [], _ => .pure _
  | h :: rest, found => by
    unfold Analysis.caughtType
    cases h.exception? with
    | none => exact (Lasting.lift _).bind fun _ => lasting_caughtType rest _
    | some ty =>
      exact (Lasting.lift _).bind fun n => (lasting_join _ found).bind fun t =>
        lasting_caughtType rest t

end ClassPath

end Dalvik
