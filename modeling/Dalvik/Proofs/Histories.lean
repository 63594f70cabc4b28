import Dalvik.Proofs.Memory
import Dalvik.Proofs.Superclasses
import Mathlib.Logic.Relation

/-!
# Answers and histories

What was asked before is a list of questions, and what is remembered after them is a memory that
was asked for (`ClassPath.asked_remembered`).

`Yields` is the specification of a question by how it ends: with an answer or with a failure.
The interfaces, the vtable and the layout of a class are collected along declared edges, and the
classes whose answers are being put together lead to the one that is asked for.  Each of the three
questions has a rule that makes use of this (`yields_interfacesFrom`, `yields_vtableFrom`,
`yields_layoutFrom`).  A property of answers that the classes above hand down then holds of all
remembered answers (`Remembers`).
-/

namespace Dalvik

open Relation (ReflTransGen TransGen)

variable {α β : Type}

namespace Asking

variable {σ : Type}

/-- The answer or the failure of a question. -/
def answer (q : Asking σ α) (m : σ) : Except HierarchyError α :=
  match q m with
  | .ok a _ => .ok a
  | .error e _ => .error e

/-- What is remembered after a question. -/
def after (q : Asking σ α) (m : σ) : σ :=
  match q m with
  | .ok _ m' => m'
  | .error _ m' => m'

/-- A question leaves the memory it is said to leave. -/
theorem leaves_after (q : Asking σ α) (m : σ) : Leaves q m (q.after m) := by
  unfold after
  cases h : q m with
  | ok a m' => exact .inl ⟨a, h⟩
  | error e m' => exact .inr ⟨e, h⟩

theorem answer_ok {q : Asking σ α} {m m' : σ} {a : α} (h : q m = .ok a m') :
    q.answer m = .ok a := by
  rw [answer, h]

theorem answer_error {q : Asking σ α} {m m' : σ} {e : HierarchyError} (h : q m = .error e m') :
    q.answer m = .error e := by
  rw [answer, h]

/-- An answer comes with a memory. -/
theorem ok_of_answer {q : Asking σ α} {m : σ} {a : α} (h : q.answer m = .ok a) :
    ∃ m', q m = .ok a m' := by
  unfold answer at h
  cases hq : q m with
  | ok b m' =>
    rw [hq] at h
    cases h
    exact ⟨m', rfl⟩
  | error e m' =>
    rw [hq] at h
    cases h

end Asking

/-! ## Histories -/

namespace ClassPath

/-- A question about the hierarchy. -/
inductive Question where
  /-- For the interfaces of a class. -/
  | interfaces (d : String)
  /-- Whether a type implements an interface. -/
  | implements (n : TypeNode) (iface : String)
  /-- For the common superclass of two types. -/
  | join (n n' : TypeNode)
  /-- For the vtable of a class. -/
  | vtable (d : String)
  /-- For the layout of the objects of a class. -/
  | layout (d : String)
  deriving DecidableEq, Repr

/-- What is remembered after a question. -/
def Question.after (cp : ClassPath) (m : Memo) : Question → Memo
  | .interfaces d => (cp.interfacesOf d).after m
  | .implements n iface => (cp.implements n iface).after m
  | .join n n' => (cp.commonSuperclass n n').after m
  | .vtable d => (cp.vtableOf d).after m
  | .layout d => (cp.layoutOf d).after m

/-- What is remembered after some questions to a fresh class path. -/
def remembered (cp : ClassPath) (history : List Question) : Memo :=
  history.foldl (Question.after cp) .empty

variable {cp : ClassPath} {m : Memo}

theorem KeptBy.implements {I : Memo → Prop} (hI : cp.KeptBy I) (n : TypeNode) (iface : String) :
    Keeps I (cp.implements n iface) := by
  cases n with
  | cls d => exact hI.classImplements d iface
  | primitive d => exact .pure _
  | unknown => exact .pure _
  | array dims elem => exact .pure _

/-- A memory that questions led to is one after another question too. -/
theorem asked_after (h : cp.Asked .empty m) (q : Question) :
    cp.Asked .empty (q.after cp m) := by
  have hkept := cp.asked_keptBy .empty
  cases q with
  | interfaces d => exact of_leaves (hkept.interfaces d) h (Asking.leaves_after _ m)
  | implements n iface => exact of_leaves (hkept.implements n iface) h (Asking.leaves_after _ m)
  | join n n' => exact of_leaves (hkept.commonSuperclass n n') h (Asking.leaves_after _ m)
  | vtable d => exact of_leaves (hkept.vtable d) h (Asking.leaves_after _ m)
  | layout d => exact of_leaves (hkept.layout d) h (Asking.leaves_after _ m)

/-- Only what was asked for is remembered. -/
theorem asked_remembered (cp : ClassPath) (history : List Question) :
    cp.Asked .empty (cp.remembered history) := by
  have run : ∀ (history : List Question) (m : Memo), cp.Asked .empty m →
      cp.Asked .empty (history.foldl (Question.after cp) m) := by
    intro history
    induction history with
    | nil => exact fun m h => h
    | cons q rest ih => exact fun m h => ih _ (asked_after h q)
  exact run history .empty .refl

end ClassPath

/-! ## How questions end -/

/-- A question keeps a property of the memory, and its answer or failure has a property. -/
def Yields (I : Memo → Prop) (q : Query α) (R : Except HierarchyError α → Prop) : Prop :=
  Triple I q (fun a m => I m ∧ R (.ok a)) fun e m => I m ∧ R (.error e)

namespace Yields

variable {I : Memo → Prop} {q : Query α} {R R' : Except HierarchyError α → Prop}

/-- The answer of a question has the property, from every memory it was asked for. -/
theorem answer (h : Yields I q R) {m : Memo} (hm : I m) : R (q.answer m) := by
  cases hq : q m with
  | ok a m' =>
    rw [Asking.answer_ok hq]
    exact (Triple.ok h hm hq).2
  | error e m' =>
    rw [Asking.answer_error hq]
    exact (Triple.error h hm hq).2

theorem keeps (h : Yields I q R) : Keeps I q :=
  Triple.mono h (fun _ hm => hm) (fun _ _ hm => hm.1) fun _ _ hm => hm.1

theorem mono (h : Yields I q R) (hR : ∀ r, R r → R' r) : Yields I q R' :=
  Triple.mono h (fun _ hm => hm) (fun _ _ hm => ⟨hm.1, hR _ hm.2⟩) fun _ _ hm => ⟨hm.1, hR _ hm.2⟩

/-- Two properties of the answers of a question hold together. -/
theorem and (h : Yields I q R) (h' : Yields I q R') : Yields I q fun r => R r ∧ R' r := by
  intro m hm
  have hR := h m hm
  have hR' := h' m hm
  cases hq : q m with
  | ok a m' =>
    rw [hq] at hR hR'
    exact ⟨hR.1, hR.2, hR'.2⟩
  | error e m' =>
    rw [hq] at hR hR'
    exact ⟨hR.1, hR.2, hR'.2⟩

/-- What a question yields for the memories with a property, it yields for fewer memories if it
keeps their property too. -/
theorem within {J : Memo → Prop} (h : Yields J q R) (hI : ∀ m, I m → J m) (hkeeps : Keeps I q) :
    Yields I q R := by
  intro m hm
  have hR := h m (hI m hm)
  have hm' := hkeeps m hm
  cases hq : q m with
  | ok a m' =>
    rw [hq] at hR hm'
    exact ⟨hm', hR.2⟩
  | error e m' =>
    rw [hq] at hR hm'
    exact ⟨hm', hR.2⟩

theorem pure {a : α} (h : R (.ok a)) : Yields I (Pure.pure a) R := fun _ hm => ⟨hm, h⟩

theorem throw {e : HierarchyError} (h : R (.error e)) : Yields I (MonadExcept.throw e) R :=
  fun _ hm => ⟨hm, h⟩

theorem lift {r : Except HierarchyError α} (h : R r) : Yields I (Asking.lift r) R := by
  intro m hm
  cases r <;> exact ⟨hm, h⟩

/-- Where a failure is an answer, the property is one of the answer. -/
theorem attempt (h : Yields I q R) :
    Yields I q.attempt (fun r => ∃ answer, r = .ok answer ∧ R answer) := by
  intro m hm
  have := h m hm
  unfold Asking.attempt
  cases hq : q m with
  | ok a m' =>
    rw [hq] at this
    exact ⟨this.1, _, rfl, this.2⟩
  | error e m' =>
    rw [hq] at this
    exact ⟨this.1, _, rfl, this.2⟩

/-- The answers of a sequence have a property if those after each answer of the first part do. -/
theorem bind {S : Except HierarchyError β → Prop} {f : α → Query β} (hq : Yields I q R)
    (hf : ∀ a, R (.ok a) → Yields I (f a) S) (he : ∀ e, R (.error e) → S (.error e)) :
    Yields I (q >>= f) S := by
  refine Triple.bind (R := fun a m => I m ∧ R (.ok a)) ?_ fun a m hm => hf a hm.2 m hm.1
  exact Triple.mono hq (fun _ hm => hm) (fun _ _ hm => hm) fun e _ hm => ⟨hm.1, he e hm.2⟩

/-- A question that goes on from a known answer. -/
theorem bind_ok {S : Except HierarchyError β → Prop} {f : α → Query β} {a : α}
    (hq : Yields I q (· = .ok a)) (hf : Yields I (f a) S) : Yields I (q >>= f) S := by
  refine hq.bind (fun b hb => ?_) fun e he => ?_
  · cases hb
    exact hf
  · cases he

/-- What is known of an attempt is known of both its outcomes. -/
theorem bind_attempt {S : Except HierarchyError β → Prop} {f : Except HierarchyError α → Query β}
    (hq : Yields I q R) (hf : ∀ r, R r → Yields I (f r) S) : Yields I (q.attempt >>= f) S := by
  refine hq.attempt.bind (fun r hr => ?_) fun e he => ?_
  · obtain ⟨_, heq, hr⟩ := hr
    cases heq
    exact hf r hr
  · obtain ⟨_, heq, _⟩ := he
    cases heq

/-- The first part may be a result that asks nothing. -/
theorem bind_lift {S : Except HierarchyError β → Prop} {r : Except HierarchyError α}
    {f : α → Query β} (hf : ∀ a, r = .ok a → Yields I (f a) S)
    (he : ∀ e, r = .error e → S (.error e)) : Yields I (Asking.lift r >>= f) S :=
  (lift (R := fun r' => r = r') rfl).bind hf he

/-- The answers of a question have a property if remembered and new ones do. -/
theorem recalled {known? : Memo → Option α} {add : α → Memo → Memo}
    (hknown : ∀ {m known}, I m → known? m = some known → R (.ok known)) (hq : Yields I q R)
    (hadd : ∀ {found m}, I m → R (.ok found) → I (add found m)) :
    Yields I (ClassPath.recalled known? add q) R := by
  intro m hm
  unfold ClassPath.recalled
  cases hk : known? m with
  | some known => exact ⟨hm, hknown hm hk⟩
  | none =>
    have := hq m hm
    cases hqm : q m with
    | ok found m' =>
      rw [hqm] at this
      exact ⟨hadd this.1 this.2, this.2⟩
    | error e m' =>
      rw [hqm] at this
      exact this

end Yields

/-! ## Remembered answers with a property -/

/-- All answers that are remembered have a property. -/
def Remembers (answers : List (String × α)) (R : String → Except HierarchyError α → Prop) : Prop :=
  ∀ d a, answers.lookup d = some a → R d (.ok a)

/-- A new answer can be remembered. -/
theorem Remembers.add {answers : List (String × α)} {R : String → Except HierarchyError α → Prop}
    {d : String} {a : α} (h : Remembers answers R) (ha : R d (.ok a)) :
    Remembers ((d, a) :: answers) R := by
  intro d' a' hd'
  rw [List.lookup_cons] at hd'
  split at hd'
  · next heq =>
    cases hd'
    cases beq_iff_eq.1 heq
    exact ha
  · exact h d' a' hd'

theorem Remembers.nil {R : String → Except HierarchyError α → Prop} : Remembers [] R := by
  intro d a h
  cases h

/-- Classes that lead to a class also lead to the next one. -/
theorem leads_cons {E : String → String → Prop} {open_ : List String} {d name : String}
    (hopen : ∀ o ∈ open_, TransGen E o d) (h : E d name) : ∀ o ∈ d :: open_, TransGen E o name :=
  List.forall_mem_cons.2 ⟨.single h, fun o ho => (hopen o ho).tail h⟩

/-! ## Cycles -/

section Cycles

variable {E : String → String → Prop} {d name : String}

/-- No class that a class leads to leads back to itself. -/
def Quiet (E : String → String → Prop) (d : String) : Prop :=
  ∀ e, ReflTransGen E d e → ¬ TransGen E e e

/-- No step leads from a quiet class to a cycle. -/
theorem Quiet.of_step (h : Quiet E d) (hstep : E d name) : Quiet E name :=
  fun e he => h e (.head hstep he)

/-- A cycle through a class also goes through one that is next to it. -/
theorem quiet_of_next (h : ∀ name, E d name → Quiet E name) : Quiet E d := by
  intro e he hcycle
  rcases ReflTransGen.cases_head he with rfl | ⟨name, hstep, hrest⟩
  · obtain ⟨name, hstep, hback⟩ := TransGen.head'_iff.1 hcycle
    exact h name hstep d hback hcycle
  · exact h name hstep e hrest hcycle

theorem quiet_of_no_step (h : ∀ name, ¬ E d name) : Quiet E d :=
  quiet_of_next fun name hstep => absurd hstep (h name)

/-- A class on a cycle is not quiet. -/
theorem not_quiet_of_cycle (h : TransGen E d d) : ¬ Quiet E d := fun hquiet => hquiet d .refl h

/-- The way from a class to a cycle has a first step. -/
theorem exists_step_of_not_quiet (h : ¬ Quiet E d) : ∃ name, E d name ∧ ¬ Quiet E name := by
  obtain ⟨e, he⟩ := Classical.not_forall.1 h
  obtain ⟨hde, hcycle⟩ := Classical.not_imp.1 he
  rw [Classical.not_not] at hcycle
  rcases ReflTransGen.cases_head hde with rfl | ⟨name, hstep, hrest⟩
  · obtain ⟨name, hstep, hback⟩ := TransGen.head'_iff.1 hcycle
    exact ⟨name, hstep, fun hquiet => hquiet d hback hcycle⟩
  · exact ⟨name, hstep, fun hquiet => hquiet e hrest hcycle⟩

end Cycles

namespace ClassPath

/-- A class declares another as its superclass or as one of its interfaces. -/
def Declares (cp : ClassPath) (d name : String) : Prop :=
  ∃ c t, cp.def? d = some c ∧ (c.superclass? = some t ∨ t ∈ c.interfaces) ∧
    TypeNode.ofTy t = .ok (.cls name)

/-- A class is declared right below another. -/
def Extends (cp : ClassPath) (d name : String) : Prop :=
  cp.parent? (.cls d) = .ok (some (.cls name))

/-- A class has its vtable from another: from its superclass, or from the root class if it is not
defined. -/
def Leans (cp : ClassPath) (d name : String) : Prop :=
  cp.Extends d name ∨ cp.def? d = none ∧ name = objectClass

variable {cp : ClassPath} {I : Memo → Prop}

/-- A class that is extended is declared as the superclass. -/
theorem Extends.superclass {d name : String} (h : cp.Extends d name) :
    ∃ c s, cp.def? d = some c ∧ c.superclass? = some s ∧ TypeNode.ofTy s = .ok (.cls name) := by
  cases parent?_eq_some_iff.1 h with
  | declared hd hs hk => exact ⟨_, _, hd, hs, hk⟩

/-- A property of interfaces that the declared classes hand down holds of all answers.  Whoever
meets a class again while its interfaces are collected has come along a cycle. -/
theorem yields_interfacesFrom {R : String → Except HierarchyError Interfaces → Prop}
    (known : ∀ {m d i}, I m → m.interfaces.lookup d = some i → R d (.ok i))
    (cycle : ∀ {d}, TransGen cp.Declares d d → R d (.error (.cycle d)))
    (missing : ∀ {d}, cp.def? d = none → R d (.error (.unresolvedClass d)))
    (collect : ∀ {d c inherited}, cp.def? d = some c →
      (∀ name, cp.Declares d name → Yields I (inherited name) (R name)) →
      Yields I (cp.collectInterfaces inherited d c) (R d))
    (add : ∀ {m d i}, I m → R d (.ok i) → I (m.addInterfaces d i))
    (open_ : List String) (d : String) (hopen : ∀ o ∈ open_, TransGen cp.Declares o d) :
    Yields I (cp.interfacesFrom open_ d) (R d) := by
  rw [interfacesFrom_eq]
  refine .recalled known ?_ add
  split
  · next hmet => exact .throw (cycle (hopen d hmet))
  split
  · next hdef => exact .throw (missing hdef)
  · next c hdef =>
    exact collect hdef fun name hname =>
      yields_interfacesFrom known cycle missing collect add (d :: open_) name
        (leads_cons hopen hname)
termination_by cp.unmet open_
decreasing_by exact unmet_cons_lt ‹_› ‹_›

/-- Induction over the search for a layout.  A class that is still open is on a cycle of
superclasses. -/
theorem yields_layoutFrom {R : String → Except HierarchyError Layout → Prop}
    (known : ∀ {m d l}, I m → m.layouts.lookup d = some l → R d (.ok l))
    (cycle : ∀ {d}, TransGen cp.Extends d d → R d (.error (.cycle d)))
    (missing : ∀ {d}, cp.def? d = none → R d (.error (.unresolvedClass d)))
    (collect : ∀ {d c inherited}, cp.def? d = some c →
      (∀ name, cp.Extends d name → Yields I (inherited name) (R name)) →
      Yields I (collectLayout inherited c) (R d))
    (add : ∀ {m d l}, I m → R d (.ok l) → I (m.addLayout d l))
    (open_ : List String) (d : String) (hopen : ∀ o ∈ open_, TransGen cp.Extends o d) :
    Yields I (cp.layoutFrom open_ d) (R d) := by
  rw [layoutFrom_eq]
  refine .recalled known ?_ add
  split
  · next hmet => exact .throw (cycle (hopen d hmet))
  split
  · next hdef => exact .throw (missing hdef)
  · next c hdef =>
    exact collect hdef fun name hname =>
      yields_layoutFrom known cycle missing collect add (d :: open_) name (leads_cons hopen hname)
termination_by cp.unmet open_
decreasing_by exact unmet_cons_lt ‹_› ‹_›

/-- Induction over the search for a vtable, as for layouts.  A missing class leans on the root
class. -/
theorem yields_vtableFrom {R : String → Except HierarchyError Vtable → Prop}
    (known : ∀ {m d v}, I m → m.vtables.lookup d = some v → R d (.ok v))
    (cycle : ∀ {d}, TransGen cp.Leans d d → R d (.error (.cycle d)))
    (collect : ∀ {d c inherited}, cp.def? d = some c →
      (∀ name, cp.Leans d name → Yields I (inherited name) (R name)) →
      Yields I (cp.collectVtable cp.interfacesOf inherited d c) (R d))
    (missing : ∀ {d r}, cp.def? d = none → d ≠ objectClass → R objectClass r →
      R d (r.map fun above => ⟨above.slots, false⟩))
    (add : ∀ {m d v}, I m → R d (.ok v) → I (m.addVtable d v))
    (open_ : List String) (d : String) (hopen : ∀ o ∈ open_, TransGen cp.Leans o d) :
    Yields I (cp.vtableFrom open_ d) (R d) := by
  rw [vtableFrom_eq]
  refine .recalled known ?_ add
  split
  · next hmet => exact .throw (cycle (hopen d hmet))
  split
  · next c hdef =>
    exact collect hdef fun name hname =>
      yields_vtableFrom known cycle collect missing add (d :: open_) name (leads_cons hopen hname)
  · next hdef =>
    split
    · next hroot => exact .throw (cycle (.single (.inr ⟨hdef, hroot⟩)))
    · next hroot =>
      refine (yields_vtableFrom known cycle collect missing add (d :: open_) objectClass
        (leads_cons hopen (.inr ⟨hdef, rfl⟩))).bind (fun above habove => ?_) fun e he => ?_
      · exact .pure (missing hdef hroot habove)
      · exact missing hdef hroot he
termination_by 2 * cp.unmet open_ + cp.gap d
decreasing_by
  · have : cp.unmet (d :: open_) < cp.unmet open_ := unmet_cons_lt ‹_› ‹_›
    have := cp.gap_le name
    omega
  · have := cp.unmet_cons_le d open_
    have : cp.gap d = 1 := by simp [gap, *]
    have : cp.gap objectClass = 0 := by simp [gap]
    omega

end ClassPath

end Dalvik
