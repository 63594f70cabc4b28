import Dalvik.Proofs.Answers
import Dalvik.Proofs.Rules
import Dalvik.Proofs.Steps

/-!
# What is remembered

All questions about the hierarchy come down to three, whose answers are remembered: the
interfaces, the vtable and the layout of a class.  `ClassPath.Asked` relates two memories if the
second comes from the first by asking them, in any order and any number of times, no matter
whether they are answered.

A property of memories that the three questions keep (`ClassPath.KeptBy`) is kept by every
question and by every rule of an analysis.  So it holds of every memory that was asked for
(`Asked.keeps`), and rules only ask (`ClassPath.asked_keptBy`).  Rules and standard forms also
fail in their own ways only: no limit is reached by asking (`Analysis.Asks`).
-/

namespace Dalvik

/-- What a computation can leave behind. -/
def Leaves {ε σ α : Type} (x : EStateM ε σ α) (s s' : σ) : Prop :=
  (∃ a, x s = .ok a s') ∨ ∃ e, x s = .error e s'

namespace ClassPath

variable {cp : ClassPath} {m m₁ m₂ : Memo}

/-- The memories to which a memory grows when the class path is asked. -/
inductive Asked (cp : ClassPath) (m : Memo) : Memo → Prop where
  | refl : Asked cp m m
  | interfaces {m₁ m₂ : Memo} {d : String} (h : Asked cp m m₁)
    (hq : Leaves (cp.interfacesOf d) m₁ m₂) : Asked cp m m₂
  | vtable {m₁ m₂ : Memo} {d : String} (h : Asked cp m m₁)
    (hq : Leaves (cp.vtableOf d) m₁ m₂) : Asked cp m m₂
  | layout {m₁ m₂ : Memo} {d : String} (h : Asked cp m m₁)
    (hq : Leaves (cp.layoutOf d) m₁ m₂) : Asked cp m m₂

/-- Questions after questions are questions. -/
theorem Asked.trans (h₁ : cp.Asked m m₁) (h₂ : cp.Asked m₁ m₂) : cp.Asked m m₂ := by
  induction h₂ with
  | refl => exact h₁
  | interfaces _ hq ih => exact .interfaces ih hq
  | vtable _ hq ih => exact .vtable ih hq
  | layout _ hq ih => exact .layout ih hq

/-- The three costly questions keep a property of the memory. -/
structure KeptBy (cp : ClassPath) (I : Memo → Prop) : Prop where
  interfaces : ∀ d, Keeps I (cp.interfacesOf d)
  vtable : ∀ d, Keeps I (cp.vtableOf d)
  layout : ∀ d, Keeps I (cp.layoutOf d)

/-- What a question keeps holds of all it can leave behind. -/
theorem of_leaves {α : Type} {I : Memo → Prop} {q : Query α} (hq : Keeps I q) (hm : I m)
    (h : Leaves q m m₁) : I m₁ := by
  rcases h with ⟨a, ha⟩ | ⟨e, he⟩
  · exact Triple.ok hq hm ha
  · exact Triple.error hq hm he

/-- What the three questions keep holds of every memory that was asked for. -/
theorem Asked.keeps {I : Memo → Prop} (hI : cp.KeptBy I) (h : cp.Asked m m₁) (hm : I m) :
    I m₁ := by
  induction h with
  | refl => exact hm
  | interfaces _ hq ih => exact of_leaves (hI.interfaces _) ih hq
  | vtable _ hq ih => exact of_leaves (hI.vtable _) ih hq
  | layout _ hq ih => exact of_leaves (hI.layout _) ih hq

/-- To keep a property, a question has to keep it in both ways it can end. -/
theorem keeps_of_leaves {α : Type} {I : Memo → Prop} {q : Query α}
    (h : ∀ {m m'}, I m → Leaves q m m' → I m') : Keeps I q := by
  intro m hm
  cases hq : q m with
  | ok a m' => exact h hm (.inl ⟨a, hq⟩)
  | error e m' => exact h hm (.inr ⟨e, hq⟩)

/-- Asking leads to memories that were asked for. -/
theorem asked_keptBy (cp : ClassPath) (m : Memo) : cp.KeptBy (cp.Asked m) where
  interfaces _ := keeps_of_leaves .interfaces
  vtable _ := keeps_of_leaves .vtable
  layout _ := keeps_of_leaves .layout

/-! ## Properties that new answers keep -/

section Fresh

variable {I : Memo → Prop}

/-- The walk over declared interfaces keeps what the questions for each of them keep. -/
theorem keeps_addDeclared {inherited : String → Query Interfaces}
    (hin : ∀ name, Keeps I (inherited name)) :
    ∀ (ts : List Ty) (acc : Interfaces), Keeps I (cp.addDeclared inherited ts acc)
  | [], _ => .pure _
  | t :: rest, acc => by
    unfold addDeclared
    split
    · exact keeps_addDeclared hin rest acc
    · refine (Keeps.lift _).bind fun n => ?_
      cases n with
      | cls name =>
        refine (hin name).attempt.bind fun answer => ?_
        cases answer with
        | ok more => exact keeps_addDeclared hin rest _
        | error e =>
          simp only
          split
          · exact .pure _
          · exact .throw e
      | _ => exact .pure _

theorem keeps_addInherited {inherited : String → Query Interfaces}
    (hin : ∀ name, Keeps I (inherited name)) (superclass? : Option Ty) (acc : Interfaces) :
    Keeps I (addInherited inherited superclass? acc) := by
  unfold addInherited
  split
  · exact .pure _
  · refine (Keeps.lift _).bind fun n => ?_
    cases n with
    | cls name =>
      refine (hin name).attempt.bind fun answer => ?_
      cases answer with
      | ok more => exact .pure _
      | error e =>
        simp only
        split
        · exact .pure _
        · exact .throw e
    | _ => exact .pure _

/-- A property that the questions for other classes keep is kept by the search for interfaces. -/
theorem keeps_collectInterfaces {inherited : String → Query Interfaces}
    (hin : ∀ name, Keeps I (inherited name)) (d : String) (c : ClassDef) :
    Keeps I (cp.collectInterfaces inherited d c) :=
  (keeps_addDeclared hin _ _).bind fun _ => keeps_addInherited hin _ _

/-- A property holds, and for some classes no answer of one kind is remembered. -/
def Unanswered {α : Type} (answers : Memo → List (String × α)) (I : Memo → Prop)
    (open_ : List String) (m : Memo) : Prop :=
  I m ∧ ∀ d ∈ open_, (answers m).lookup d = none

/-- A question that is not answered yet can be opened. -/
theorem Unanswered.enter {α : Type} {answers : Memo → List (String × α)} {open_ : List String}
    {d : String} (hm : Unanswered answers I open_ m) (hd : (answers m).lookup d = none) :
    Unanswered answers I (d :: open_) m :=
  ⟨hm.1, List.forall_mem_cons.2 ⟨hd, hm.2⟩⟩

/-- A question can be closed without an answer. -/
theorem Unanswered.leave {α : Type} {answers : Memo → List (String × α)} {open_ : List String}
    {d : String} (hm : Unanswered answers I (d :: open_) m) : Unanswered answers I open_ m :=
  ⟨hm.1, (List.forall_mem_cons.1 hm.2).2⟩

/-- A question is closed with its answer, which was not there before. -/
theorem Unanswered.add {α : Type} {answers : Memo → List (String × α)} {open_ : List String}
    {d : String} {answer : α} (hopen : d ∉ open_) (hm : Unanswered answers I (d :: open_) m)
    (hanswers : answers m₁ = (d, answer) :: answers m)
    (hI : (answers m).lookup d = none → I m → I m₁) : Unanswered answers I open_ m₁ := by
  obtain ⟨hnone, hrest⟩ := List.forall_mem_cons.1 hm.2
  refine ⟨hI hnone hm.1, fun d' hd' => ?_⟩
  have hne : d' ≠ d := fun h => hopen (h ▸ hd')
  rw [hanswers, List.lookup_cons, beq_false_of_ne hne]
  exact hrest d' hd'

/-- No question is open at first, so what is found while none is open is found always. -/
theorem Unanswered.finds {α β : Type} (answers : Memo → List (String × α)) {q : Query β}
    {Q : β → Memo → Prop} (h : Finds (Unanswered answers I []) Q q) : Finds I Q q :=
  Triple.mono h (fun _ hm => ⟨hm, by simp⟩) (fun _ _ hm => ⟨hm.1.1, hm.2⟩) fun _ _ hm => hm.1

theorem Unanswered.keeps {α β : Type} (answers : Memo → List (String × α)) {q : Query β}
    (h : Keeps (Unanswered answers I []) q) : Keeps I q :=
  Triple.mono h (fun _ hm => ⟨hm, by simp⟩) (fun _ _ hm => hm.1) fun _ _ hm => hm.1

/-- Interfaces are only added for a defined class for which none are remembered. -/
theorem keeps_interfacesOf
    (add : ∀ {m d i}, (cp.def? d).isSome → m.interfaces.lookup d = none → I m →
      I (m.addInterfaces d i)) (d : String) : Keeps I (cp.interfacesOf d) := by
  refine Unanswered.keeps Memo.interfaces (Finds.keeps (Q := fun _ _ => True) ?_)
  refine finds_interfacesFrom (I := Unanswered Memo.interfaces I) (Q := fun _ _ _ => True)
    (R := fun d _ _ => (cp.def? d).isSome) (fun _ _ => trivial) .enter .leave ?_ ?_ [] d
  · intro open_ d c inherited hd hin
    exact (keeps_collectInterfaces (fun name => (hin name).keeps) d c).finds.mono
      fun _ _ _ _ => hd ▸ rfl
  · intro open_ d i m hopen hm hd
    exact ⟨hm.add hopen rfl fun hnone => add hd hnone, trivial⟩

theorem keeps_directInterfaces (hi : ∀ d, Keeps I (cp.interfacesOf d)) (d : String) :
    Keeps I (cp.directInterfaces d) := by
  refine (hi d).bind fun i => ?_
  split
  · exact .pure _
  · exact .throw _

/-- A vtable is extended by a look at the interfaces, and nothing else is asked. -/
theorem keeps_extendVtable (hi : ∀ d, Keeps I (cp.interfacesOf d)) (d : String) (c : ClassDef)
    (inherited : List Slot) : Keeps I (cp.extendVtable cp.interfacesOf d c inherited) := by
  unfold extendVtable
  split
  · exact .pure _
  · exact (keeps_directInterfaces hi d).bind fun _ => .pure _

/-- A property that the questions for other classes keep is kept by the search for a vtable. -/
theorem keeps_collectVtable (hi : ∀ d, Keeps I (cp.interfacesOf d))
    {inherited : String → Query Vtable} (hin : ∀ name, Keeps I (inherited name)) (d : String)
    (c : ClassDef) : Keeps I (cp.collectVtable cp.interfacesOf inherited d c) := by
  unfold collectVtable
  split
  · exact keeps_extendVtable hi d c []
  · refine (Keeps.lift _).bind fun n => ?_
    cases n with
    | cls name =>
      refine (hin name).attempt.bind fun answer => ?_
      rcases answer with e | above
      · cases e <;> first | exact .pure _ | exact .throw _
      · simp only
        split
        · exact keeps_extendVtable hi d c above.slots
        · exact .pure _
    | _ => exact .throw _

/-- A property that the questions for other classes keep is kept by the search for a layout. -/
theorem keeps_collectLayout {inherited : String → Query Layout}
    (hin : ∀ name, Keeps I (inherited name)) (c : ClassDef) :
    Keeps I (collectLayout inherited c) := by
  unfold collectLayout
  split
  · exact .pure _
  · refine (Keeps.lift _).bind fun n => ?_
    cases n with
    | cls name => exact (hin name).bind fun _ => .pure _
    | _ => exact .pure _

/-- The question for a vtable keeps what new answers keep. -/
theorem keeps_vtableOf (hi : ∀ d, Keeps I (cp.interfacesOf d))
    (add : ∀ {m d v}, m.vtables.lookup d = none → I m → I (m.addVtable d v)) (d : String) :
    Keeps I (cp.vtableOf d) := by
  refine Unanswered.keeps Memo.vtables (Finds.keeps (Q := fun _ _ => True) ?_)
  refine finds_vtableFrom (I := Unanswered Memo.vtables I) (Q := fun _ _ _ => True)
    (R := fun _ _ _ => True) (fun _ _ => trivial) .enter .leave ?_ (fun _ _ _ => trivial) ?_ [] d
  · intro open_ d c inherited _ hin
    have hi' : ∀ d, Keeps (Unanswered Memo.vtables I open_) (cp.interfacesOf d) :=
      fun d => (hi d).and (keeps_interfacesOf (fun _ _ hm => hm) d)
    exact (keeps_collectVtable hi' (fun name => (hin name).keeps) d c).finds
  · intro open_ d v m hopen hm _
    exact ⟨hm.add hopen rfl add, trivial⟩

/-- The question for a layout keeps what new answers keep. -/
theorem keeps_layoutOf
    (add : ∀ {m d l}, m.layouts.lookup d = none → I m → I (m.addLayout d l)) (d : String) :
    Keeps I (cp.layoutOf d) := by
  refine Unanswered.keeps Memo.layouts (Finds.keeps (Q := fun _ _ => True) ?_)
  refine finds_layoutFrom (I := Unanswered Memo.layouts I) (Q := fun _ _ _ => True)
    (R := fun _ _ _ => True) (fun _ _ => trivial) .enter .leave ?_ ?_ [] d
  · intro open_ d c inherited _ hin
    exact (keeps_collectLayout (fun name => (hin name).keeps) c).finds
  · intro open_ d l m hopen hm _
    exact ⟨hm.add hopen rfl add, trivial⟩

/-- A property is kept if the question for interfaces keeps it, and so do new vtables and
layouts. -/
theorem keptBy_of_interfaces (hi : ∀ d, Keeps I (cp.interfacesOf d))
    (hv : ∀ {m d v}, m.vtables.lookup d = none → I m → I (m.addVtable d v))
    (hl : ∀ {m d l}, m.layouts.lookup d = none → I m → I (m.addLayout d l)) : cp.KeptBy I :=
  ⟨hi, keeps_vtableOf hi hv, keeps_layoutOf hl⟩

end Fresh

/-! ## The join of two classes -/

/-- What is left to do for a join once the first class is known not to be an interface of the
second. -/
def joinAfter (cp : ClassPath) (a b : String) (rest : Query TypeNode) : Query TypeNode := do
  match ← Asking.attempt (cp.isInterfaceOf b a) with
  | .ok true => pure (.cls b)
  | .error e => if e.isUnresolved then pure .unknown else throw e
  | .ok false => rest

/-- What is left to do for a join once it was asked whether the first class is an interface of the
second. -/
def joinFirst (cp : ClassPath) (a b : String) : Except HierarchyError Bool → Query TypeNode
  | .ok true => pure (.cls a)
  | .ok false => cp.joinAfter a b (Asking.lift (cp.chainJoin a b))
  | .error e => if e.isUnresolved then cp.joinAfter a b (pure .unknown) else throw e

/-- The join of two classes in two steps: the test for an interface and what comes after it. -/
theorem classJoin_eq (cp : ClassPath) (a b : String) :
    cp.classJoin a b =
      if a = b ∨ a = objectClass then pure (.cls a)
      else if b = objectClass then pure (.cls b)
      else Asking.attempt (cp.isInterfaceOf a b) >>= cp.joinFirst a b := by
  unfold classJoin
  congr 3
  funext first
  rcases first with e | _ | _
  · cases he : e.isUnresolved with
    | true =>
      simp only [joinFirst, he]
      rfl
    | false =>
      simp only [joinFirst, he]
      rfl
  · rfl
  · rfl

namespace KeptBy

variable {I : Memo → Prop} (hI : cp.KeptBy I)
include hI

/-! ## Questions -/

theorem classImplements (d iface : String) : Keeps I (cp.classImplements d iface) := by
  refine (hI.interfaces d).bind fun i => ?_
  split
  · exact .pure _
  · split
    · exact .pure _
    · exact .throw _

theorem isInterfaceOf (iface d : String) : Keeps I (cp.isInterfaceOf iface d) := by
  unfold ClassPath.isInterfaceOf
  split
  · split
    · exact hI.classImplements d iface
    · exact .pure _
  · refine (hI.classImplements d iface).attempt.bind fun answer => ?_
    cases answer with
    | ok b => exact .pure b
    | error e =>
      cases he : e.isUnresolved <;> simp only [he]
      · exact .throw e
      · exact .pure _

theorem joinAfter {rest : Query TypeNode} (hrest : Keeps I rest) (a b : String) :
    Keeps I (cp.joinAfter a b rest) := by
  refine (hI.isInterfaceOf b a).attempt.bind fun second => ?_
  rcases second with e | _ | _
  · simp only
    split
    · exact .pure _
    · exact .throw e
  · exact hrest
  · exact .pure _

theorem classJoin (a b : String) : Keeps I (cp.classJoin a b) := by
  rw [classJoin_eq]
  split
  · exact .pure _
  split
  · exact .pure _
  refine (hI.isInterfaceOf a b).attempt.bind fun first => ?_
  rcases first with e | _ | _
  · simp only [joinFirst]
    split
    · exact hI.joinAfter (.pure _) a b
    · exact .throw e
  · exact hI.joinAfter (.lift _) a b
  · exact .pure _

theorem plainJoin (a b : TypeNode) : Keeps I (cp.plainJoin a b) := by
  cases a with
  | primitive d => exact .throw _
  | unknown => exact .pure _
  | array dims elem => exact .pure _
  | cls a =>
    cases b with
    | primitive d => exact .throw _
    | unknown => exact .pure _
    | array dims elem => exact .pure _
    | cls b => exact hI.classJoin a b

theorem arrayJoin (dims : Nat) (elem : String) (dims' : Nat) (elem' : String) :
    Keeps I (cp.arrayJoin dims elem dims' elem') := by
  unfold ClassPath.arrayJoin
  split
  · exact .pure _
  split
  · exact (Keeps.lift _).bind fun a => (Keeps.lift _).bind fun b =>
      (hI.plainJoin a b).bind fun _ => .pure _
  · exact .pure _

/-- The question for a common superclass comes down to the three questions. -/
theorem commonSuperclass (a b : TypeNode) : Keeps I (cp.commonSuperclass a b) := by
  cases a with
  | primitive d => exact .throw _
  | unknown =>
    cases b with
    | primitive d => exact .pure _
    | unknown => exact .pure _
    | array dims elem => exact .pure _
    | cls b => exact .pure _
  | array dims elem =>
    cases b with
    | primitive d => exact .throw _
    | unknown => exact .pure _
    | array dims' elem' => exact hI.arrayJoin dims elem dims' elem'
    | cls b => exact .pure _
  | cls a =>
    cases b with
    | primitive d => exact .throw _
    | unknown => exact .pure _
    | array dims elem => exact .pure _
    | cls b => exact hI.classJoin a b

/-- So does the join of register types. -/
theorem join (a b : RegType) : Keeps I (a.join cp b) := by
  unfold RegType.join
  split
  · exact .pure _
  cases a.category.join b.category with
  | reference =>
    cases a.node? with
    | none => cases b.node? <;> exact .pure _
    | some p =>
      cases b.node? with
      | none => exact .pure _
      | some q => exact (hI.commonSuperclass p q).bind fun _ => .pure _
  | _ => exact .pure _

theorem receive (p : Analysis.Point) (r : Nat) (t : RegType) : Keeps I (p.receive cp r t) := by
  unfold Analysis.Point.receive
  split
  · exact .pure _
  · refine (hI.join _ t).bind fun joined => ?_
    split
    · exact .pure _
    · simp only
      split <;> exact .pure _

theorem fieldAt? (n : TypeNode) (offset : Nat) : Keeps I (cp.fieldAt? n offset) := by
  cases n with
  | primitive d => exact .pure _
  | unknown => exact (hI.layout _).bind fun _ => .pure _
  | array dims elem => exact .pure _
  | cls d => exact (hI.layout _).bind fun _ => .pure _

theorem methodAt? (n : TypeNode) (index : Nat) : Keeps I (cp.methodAt? n index) := by
  cases n with
  | primitive d => exact .pure _
  | unknown => exact (hI.vtable _).bind fun _ => .pure _
  | array dims elem => exact (hI.vtable _).bind fun _ => .pure _
  | cls d => exact (hI.vtable _).bind fun _ => .pure _

theorem caughtType : ∀ (handlers : List Handler) (found : RegType),
    Keeps I (Analysis.caughtType cp found handlers)
  | [], _ => .pure _
  | h :: rest, found => by
    unfold Analysis.caughtType
    cases h.exception? with
    | none => exact (Keeps.lift _).bind fun _ => caughtType rest _
    | some ty =>
      exact (Keeps.lift _).bind fun n => (hI.join _ found).bind fun t => caughtType rest t

end KeptBy

end ClassPath

/-! ## Rules -/

namespace Analysis

/-- A rule only asks: it keeps a property of the memory, and where it fails no limit was
reached. -/
def Asks {α : Type} (I : Memo → Prop) (r : Rule α) : Prop :=
  Triple I r (fun _ m => I m) fun e m => I m ∧ e.stalled = false

namespace Asks

variable {α β : Type} {I : Memo → Prop} {r : Rule α} {m m' : Memo}

theorem pure (a : α) : Asks I (Pure.pure a : Rule α) := fun _ hm => hm

theorem throw {e : AnalysisError} (he : e.stalled = false) :
    Asks I (MonadExcept.throw e : Rule α) := fun _ hm => ⟨hm, he⟩

theorem bind {f : α → Rule β} (hr : Asks I r) (hf : ∀ a, Asks I (f a)) : Asks I (r >>= f) :=
  Triple.bind hr hf

theorem ask {q : Query α} (hq : Keeps I q) : Asks I (Rule.ask q) := by
  intro m hm
  have := hq m hm
  unfold Rule.ask
  cases hqm : q m with
  | ok a m' => rwa [hqm] at this
  | error e m' =>
    rw [hqm] at this
    exact ⟨this, rfl⟩

theorem known (r : Except HierarchyError α) : Asks I (Rule.known r) := ask (.lift r)

theorem lift {Q : α → Prop} {r : Except AnalysisError α} (h : Ends Q r) :
    Asks I (Rule.lift r) := by
  intro m hm
  cases r with
  | ok a => exact hm
  | error e => exact ⟨hm, h⟩

theorem not_stalled {e : AnalysisError} (hr : Asks I r) (hm : I m) (h : r m = .error e m') :
    e.stalled = false :=
  (Triple.error hr hm h).2

end Asks

/-- What holds of a throwable, and of a caught type joined with what was found before it, holds of
all that handlers catch. -/
theorem of_caughtType {cp : ClassPath} {Q : RegType → Prop} {handlers : List Handler}
    {found t : RegType} {m m' : Memo}
    (hthrowable : ∀ n, TypeNode.ofDescriptor throwableClass = .ok n → Q (.reference n))
    (hjoin : ∀ x ∈ handlers, ∀ ty n, x.exception? = some ty → TypeNode.ofTy ty = .ok n →
      ∀ found t m₁ m₂, cp.Asked m m₁ → Q found →
        (RegType.reference n).join cp found m₁ = .ok t m₂ → Q t)
    (hfound : Q found) (h : caughtType cp found handlers m = .ok t m') : Q t := by
  induction handlers generalizing found m with
  | nil =>
    cases h
    exact hfound
  | cons handler rest ih =>
    unfold caughtType at h
    cases hcaught : handler.exception? with
    | none =>
      simp only [hcaught] at h
      obtain ⟨n, m₁, hlift, hrest⟩ := bind_ok.1 h
      obtain ⟨hn, rfl⟩ := Asking.lift_ok.1 hlift
      exact ih (fun x hx => hjoin x (List.mem_cons_of_mem _ hx)) (hthrowable n hn) hrest
    | some ty =>
      simp only [hcaught] at h
      obtain ⟨n, m₁, hlift, hrest⟩ := bind_ok.1 h
      obtain ⟨hn, rfl⟩ := Asking.lift_ok.1 hlift
      obtain ⟨u, m₂, hu, hrest⟩ := bind_ok.1 hrest
      have hasked : cp.Asked m₁ m₂ := Triple.ok ((cp.asked_keptBy m₁).join _ _) .refl hu
      refine ih (fun x hx ty n hty hn found t m₃ m₄ h₃ => ?_)
        (hjoin handler List.mem_cons_self ty n hcaught hn found u m₁ m₂ .refl hfound hu) hrest
      exact hjoin x (List.mem_cons_of_mem _ hx) ty n hty hn found t m₃ m₄ (hasked.trans h₃)

namespace Subject

/-- What holds of a throwable and is kept by joins with the types that a body catches holds of the
type of an exception. -/
theorem of_exceptionType {s : Subject} {Q : RegType → Prop} {addr : Addr} {t : RegType}
    {m m' : Memo} (hunknown : Q .unknown)
    (hthrowable : ∀ n, TypeNode.ofDescriptor throwableClass = .ok n → Q (.reference n))
    (hjoin : ∀ x ∈ s.body.tries.flatMap TryRange.handlers, ∀ ty n, x.exception? = some ty →
      TypeNode.ofTy ty = .ok n → ∀ found t m₁ m₂, s.classPath.Asked m m₁ → Q found →
        (RegType.reference n).join s.classPath found m₁ = .ok t m₂ → Q t)
    (h : s.exceptionType addr m = .ok t m') : Q t := by
  unfold Subject.exceptionType at h
  obtain ⟨u, m₁, hask, h⟩ := bind_ok.1 h
  have hu : Q u := of_caughtType hthrowable (fun x hx => hjoin x (List.mem_filter.1 hx).1)
    hunknown (Rule.ask_ok.1 hask)
  cases u with
  | unknown => cases h
  | _ =>
    cases h
    exact hu

variable {s : Subject} {I : Memo → Prop} (hI : s.classPath.KeptBy I)
include hI

/-- What is caught is found by joins only. -/
theorem asks_exceptionType (a : Addr) : Asks I (s.exceptionType a) := by
  unfold Subject.exceptionType
  refine (Asks.ask (hI.caughtType _ _)).bind fun t => ?_
  cases t <;> first | exact .pure _ | exact .throw rfl

/-- The rules of instructions only ask. -/
theorem asks_effect (i : Nat) (p : Point) (previous? : Option Instr) :
    Asks I (s.effect i p previous?) := by
  cases s.ruled_effect i p previous? with
  | throws he hrule =>
    rw [hrule]
    exact .throw he
  | answers _ hrule =>
    rw [hrule]
    exact .pure _
  | catches _ hrule =>
    rw [hrule]
    exact (asks_exceptionType hI _).bind fun _ => .pure _

omit hI in
theorem asks_receiverNode? (p : Point) (object : Reg) : Asks I (receiverNode? p object) := by
  refine (Asks.lift (ends_typeBefore p object)).bind fun t => ?_
  split <;> first | exact .pure _ | exact .throw rfl

omit hI in
theorem asks_tyOfNode (n : TypeNode) : Asks I (tyOfNode n) := by
  unfold Subject.tyOfNode
  split
  · exact .pure _
  · exact .throw rfl

/-- The search for the field of a quick access asks for layouts and names only. -/
theorem asks_fieldAt (n : TypeNode) (offset : Nat) : Asks I (s.fieldAt n offset) := by
  refine (Asks.ask (hI.fieldAt? n offset)).bind fun f? => ?_
  split
  · exact .throw rfl
  · refine (Asks.known _).bind fun seen => ?_
    split
    · exact .pure _
    · refine (Asks.known _).bind fun definer? => ?_
      split
      · exact .throw rfl
      · refine (Asks.ask (hI.fieldAt? _ offset)).bind fun g? => ?_
        split
        · exact .throw rfl
        · exact (asks_tyOfNode _).bind fun _ => .pure _

omit hI in
theorem asks_superNode : Asks I s.superNode := by
  refine (Asks.known _).bind fun this => ?_
  split
  · exact .known _
  · exact .pure _
  · split
    · exact .pure _
    · exact .throw rfl

theorem asks_slotAt (n receiver : TypeNode) (index : Nat) :
    Asks I (s.slotAt n receiver index) := by
  refine (Asks.ask (hI.methodAt? n index)).bind fun slot? => ?_
  split
  · exact .throw rfl
  · exact .pure _

/-- The search for the method of a quick call asks for vtables and names only. -/
theorem asks_methodAt (n : TypeNode) (index : Nat) : Asks I (s.methodAt n index) := by
  refine (asks_slotAt hI n n index).bind fun slot => (Asks.known _).bind fun seen => ?_
  split
  · exact .pure _
  · refine (Asks.known _).bind fun definer? => ?_
    split
    · exact .throw rfl
    · refine (Asks.ask (hI.methodAt? _ index)).bind fun slot? => ?_
      split
      · exact .throw rfl
      · exact (asks_tyOfNode _).bind fun _ => .pure _

theorem asks_quickMethod (dispatch : QuickDispatch) (receiver : TypeNode) (index : Nat) :
    Asks I (s.quickMethod dispatch receiver index) := by
  cases dispatch with
  | super => exact asks_superNode.bind fun n => (asks_slotAt hI n _ index).bind fun _ => .pure _
  | virtual => exact asks_methodAt hI receiver index

/-- The search for a standard form only asks. -/
theorem asks_standardForm? (p : Point) : Asks I (s.standardForm? p) := by
  unfold Subject.standardForm?
  split
  · refine (asks_receiverNode? p _).bind fun n? => ?_
    split
    · exact .pure _
    · refine (asks_fieldAt hI _ _).bind fun f => ?_
      exact (Asks.lift (ends_accessField p.instr f)).bind fun _ => .pure _
  · unfold Subject.quickCall?
    split
    · exact .throw rfl
    · refine (asks_receiverNode? p _).bind fun n? => ?_
      split
      · exact .pure _
      · exact (asks_quickMethod hI _ _ _).bind fun _ => .pure _
  · exact .lift (Q := fun _ => True) ((ends_inlineCall s _ _).map fun _ _ => trivial)
  · exact .lift (ends_plainForm? _)

end Subject

end Analysis

end Dalvik
