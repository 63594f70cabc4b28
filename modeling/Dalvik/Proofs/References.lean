import Dalvik.Proofs.Noting
import Dalvik.Proofs.Primitives
import Dalvik.Proofs.Settled

/-!
# References of an analysis

The class of a reference is no primitive type, in none of the states an analysis goes through, as
long as no rule takes a primitive type for a class (`Point.takesPrimitive`).  A rule that does so
writes what it took, and then a state is seen in which a primitive type stands for a class.  So the
two go together: `Subject.Tidy` says so of what was seen so far, and every noted step keeps it.

A step that goes on from a type is only fine if the type is.  The type may come from a state that
was spoiled before, and then nothing is left to show (`Subject.Offers`).
-/

namespace Dalvik

namespace Analysis

/-! ## States without primitive types for classes -/

/-- No type at any point has a primitive type for its class. -/
structure State.Clean (st : State) : Prop where
  before : ∀ {i r t}, st.typeBefore? i r = some t → t.Clean
  after : ∀ {n r t}, st.typeAfter? n r = some t → t.Clean

namespace State.Clean

variable {st : State} {i k r : Nat} {p : Point} {m : Memo} {t : RegType}

/-- At the start all types are unknown. -/
theorem initial (b : Body) (m : Memo) : (State.initial b m).Clean := by
  have unknown : ∀ {n r : Nat} {t : RegType},
      (Array.replicate n RegType.unknown)[r]? = some t → t.Clean := by
    intro n r t h
    rw [Array.getElem?_replicate] at h
    split at h
    · cases h
      exact RegType.clean_of_node? rfl
    · cases h
  have point : ∀ {i : Nat} {p : Point}, (State.initial b m).points[i]? = some p →
      ∃ l, p = Point.ofLine b.registers l := by
    intro i p h
    simp only [State.initial, List.getElem?_toArray, List.getElem?_map] at h
    obtain ⟨l, _, rfl⟩ := Option.map_eq_some_iff.1 h
    exact ⟨l, rfl⟩
  constructor
  · intro i r t h
    obtain ⟨p, hp, h⟩ := Option.bind_eq_some_iff.1 h
    obtain ⟨l, rfl⟩ := point hp
    exact unknown h
  · intro n r t h
    cases n with
    | start => exact unknown h
    | instr i =>
      obtain ⟨p, hp, h⟩ := Option.bind_eq_some_iff.1 h
      obtain ⟨l, rfl⟩ := point hp
      exact unknown h

/-- Only the types matter. -/
theorem congr {st' : State} (h : st.Clean)
    (hbefore : ∀ i r, st'.typeBefore? i r = st.typeBefore? i r)
    (hafter : ∀ n r, st'.typeAfter? n r = st.typeAfter? n r) : st'.Clean where
  before := fun ht => h.before (hbefore _ _ ▸ ht)
  after := fun ht => h.after (hafter _ _ ▸ ht)

theorem memo (h : st.Clean) (m : Memo) : ({ st with memo := m } : State).Clean :=
  h.congr (fun _ _ => rfl) fun _ _ => State.typeAfter?_memo

theorem setInstr (h : st.Clean) (i : Nat) (instr : Instr) : (st.setInstr i instr).Clean :=
  h.congr (fun _ _ => State.typeBefore?_setInstr) fun _ _ => State.typeAfter?_setInstr

theorem settle (h : st.Clean) (i : Nat) : (st.settle i).Clean :=
  h.congr (fun _ _ => rfl) fun n _ => by cases n <;> rfl

theorem restore (h : st.Clean) (i : Nat) : (Subject.restore st i).Clean := by
  simp only [Subject.restore]
  split
  · split
    · exact h.setInstr i _
    · exact h
  · exact h

theorem setAfter (h : st.Clean) (n : NodeId) (r : Nat) (ht : t.Clean) :
    (st.setAfter n r t).Clean where
  before := fun hu => h.before (State.typeBefore?_setAfter ▸ hu)
  after := by
    intro n' r' u hu
    rw [State.typeAfter?_setAfter] at hu
    split at hu
    · obtain ⟨_, _, rfl⟩ := Option.map_eq_some_iff.1 hu
      exact ht
    · exact h.after hu

/-- A clean type that comes in leaves the state clean. -/
theorem raise {old : RegType} (h : st.Clean) (hp : st.points[k]? = some p)
    (hold : p.before[r]? = some old) (ht : t.Clean) : (st.raise m k p r t).Clean where
  before := by
    intro i x u hu
    rw [State.typeBefore?_raise hp hold] at hu
    split at hu
    · cases hu
      exact ht
    · exact h.before hu
  after := by
    intro n x u hu
    rw [State.typeAfter?_raise hp] at hu
    split at hu
    · obtain ⟨_, _, rfl⟩ := Option.map_eq_some_iff.1 hu
      exact ht
    · exact h.after hu

/-- The types before a point of a clean state. -/
theorem point (h : st.Clean) (hp : st.points[i]? = some p) : p.CleanBefore := by
  intro r t ht
  refine h.before (i := i) (r := r.index) ?_
  rw [State.typeBefore?, hp, Option.bind_some]
  exact Point.typeBefore_ok.1 ht

end State.Clean

end Analysis

/-! ## Instructions that make objects -/

namespace Instr

variable {i j : Instr}

/-- Odexed instructions make no objects. -/
theorem makesClass_of_odexOnly (h : i.odexOnly = true) : i.makesClass = true := by
  cases i with
  | newInstance dst ty => cases h
  | _ => rfl

/-- Neither do their standard forms. -/
theorem Standard.makesClass (h : i.Standard j) : j.makesClass = true := by
  cases h <;> rfl

theorem makesClass_of_finalForm (h : i.finalForm = .ok j) (hi : i.makesClass = true) :
    j.makesClass = true := by
  rcases finalForm_ok h with hstandard | ⟨r, _, rfl⟩ | rfl
  · exact hstandard.makesClass
  · rfl
  · exact hi

end Instr

namespace Analysis

namespace Subject

/-! ## The shape of a state -/

/-- The points have a type for each register of the body, and their instructions make objects of
classes only. -/
structure InShape (s : Subject) (st : State) : Prop where
  size : ∀ (i : Nat) (p : Point), st.points[i]? = some p → p.after.size = s.body.registers
  makes : ∀ (i : Nat) (p : Point), st.points[i]? = some p → p.instr.makesClass = true

namespace InShape

variable {s : Subject} {st : State} {k r : Nat} {p : Point} {m : Memo} {t : RegType}

theorem initial (hs : s.Classed) (m : Memo) : s.InShape (.initial s.body m) := by
  have point : ∀ {i : Nat} {p : Point}, (State.initial s.body m).points[i]? = some p →
      ∃ l ∈ s.body.lines, p = Point.ofLine s.body.registers l := by
    intro i p h
    simp only [State.initial, List.getElem?_toArray, List.getElem?_map] at h
    obtain ⟨l, hl, rfl⟩ := Option.map_eq_some_iff.1 h
    exact ⟨l, List.mem_of_getElem? hl, rfl⟩
  constructor
  · intro i p h
    obtain ⟨l, _, rfl⟩ := point h
    exact Array.size_replicate
  · intro i p h
    obtain ⟨l, hl, rfl⟩ := point h
    exact hs.makes l hl

/-- Only the points matter. -/
theorem congr {st' : State} (h : s.InShape st) (hpoints : st'.points = st.points) :
    s.InShape st' :=
  ⟨fun i p hp => h.size i p (hpoints ▸ hp), fun i p hp => h.makes i p (hpoints ▸ hp)⟩

theorem memo (h : s.InShape st) (m : Memo) : s.InShape { st with memo := m } := h.congr rfl

theorem settle (h : s.InShape st) (i : Nat) : s.InShape (st.settle i) := h.congr rfl

theorem setInstr {instr : Instr} (h : s.InShape st) (i : Nat) (hinstr : instr.makesClass = true) :
    s.InShape (st.setInstr i instr) := by
  have point : ∀ {j : Nat} {q : Point}, (st.setInstr i instr).points[j]? = some q →
      ∃ p, st.points[j]? = some p ∧ (q = p ∨ q = { p with instr := instr }) := by
    intro j q hq
    rw [State.setInstr_points] at hq
    split at hq
    · obtain ⟨p, hp, rfl⟩ := Option.map_eq_some_iff.1 hq
      exact ⟨p, hp, .inr rfl⟩
    · exact ⟨q, hq, .inl rfl⟩
  constructor
  · intro j q hq
    obtain ⟨p, hp, rfl | rfl⟩ := point hq
    · exact h.size j q hp
    · exact h.size j p hp
  · intro j q hq
    obtain ⟨p, hp, rfl | rfl⟩ := point hq
    · exact h.makes j q hp
    · exact hinstr

theorem restore (h : s.InShape st) (i : Nat) : s.InShape (Subject.restore st i) := by
  simp only [Subject.restore]
  split
  · split
    · next hodex => exact h.setInstr i (Instr.makesClass_of_odexOnly hodex)
    · exact h
  · exact h

theorem setAfter (h : s.InShape st) (n : NodeId) (r : Nat) (t : RegType) :
    s.InShape (st.setAfter n r t) := by
  have point : ∀ {j : Nat} {q : Point}, (st.setAfter n r t).points[j]? = some q →
      ∃ p, st.points[j]? = some p ∧ q.after.size = p.after.size ∧ q.instr = p.instr := by
    intro j q hq
    rw [State.setAfter_points] at hq
    split at hq
    · obtain ⟨p, hp, rfl⟩ := Option.map_eq_some_iff.1 hq
      exact ⟨p, hp, Array.size_setIfInBounds, rfl⟩
    · exact ⟨q, hq, rfl, rfl⟩
  constructor
  · intro j q hq
    obtain ⟨p, hp, hsize, _⟩ := point hq
    exact hsize.trans (h.size j p hp)
  · intro j q hq
    obtain ⟨p, hp, _, hinstr⟩ := point hq
    exact hinstr ▸ h.makes j p hp

theorem raise (h : s.InShape st) (hp : st.points[k]? = some p) :
    s.InShape (st.raise m k p r t) := by
  constructor
  · intro j q hq
    rw [State.raise_points hp] at hq
    split at hq
    · cases hq
      rw [Point.raise_after]
      split
      · exact h.size k p hp
      · exact Array.size_setIfInBounds.trans (h.size k p hp)
    · exact h.size j q hq
  · intro j q hq
    rw [State.raise_points hp] at hq
    split at hq
    · cases hq
      rw [Point.raise_instr]
      exact h.makes k p hp
    · exact h.makes j q hq

end InShape

/-! ## Steps that are not noted -/

section Steps

variable {s : Subject} {I : State → Prop} {t : RegType} {r k : Nat}

/-- A step may look at the state, which has the property. -/
theorem keeps_get_of {α : Type} {f : State → Step α} (hf : ∀ st, I st → Keeps I (f st)) :
    Keeps I (get >>= f) := fun st hst => hf st hst st hst

/-- What survives a type that rises before a point survives that a type is received. -/
theorem keeps_receive_of (hmemo : ∀ {st} m, I st → I { st with memo := m })
    (hraise : ∀ {st p old new m m'}, I st → st.points[k]? = some p → p.before[r]? = some old →
      old.join s.classPath t m = .ok new m' → I (st.raise m' k p r new))
    (changed : Worklist) : Keeps I (s.receive r t changed k) := by
  intro st hst
  cases h : s.receive r t changed k st with
  | ok changed' st' =>
    obtain ⟨passed, hreceived, _⟩ := receive_ok h
    cases hreceived with
    | absent hold => exact hst
    | same hold hjoin => exact hmemo _ hst
    | raised hp hold hjoin hnew hpassed => exact hraise hst hp hold hjoin
  | error e st' =>
    obtain ⟨m, _, rfl, _⟩ := receive_error h
    exact hmemo m hst

/-- What survives a new instruction at a point survives the last forms of instructions. -/
theorem keeps_finishFrom_of (hinstr : ∀ {st i p final}, I st → st.points[i]? = some p →
      p.instr.finalForm = .ok final → I (st.setInstr i final)) (is : List Nat) :
    Keeps I (s.finishFrom is) := by
  induction is with
  | nil => exact .pure _
  | cons i rest ih =>
    rw [finishFrom]
    refine keeps_get_of fun st hst => ?_
    cases hp : st.points[i]? with
    | none => exact .pure _
    | some p =>
      simp only
      split
      · cases hfinal : p.instr.finalForm with
        | ok final => exact fun _ _ => ih _ (hinstr hst hp hfinal)
        | error e => exact (Keeps.throw _).bind fun _ => ih
      · exact ih

/-- A type that comes in does not change the shape of a state. -/
theorem inShape_receive (changed : Worklist) : Keeps s.InShape (s.receive r t changed k) :=
  keeps_receive_of (fun m h => h.memo m) (fun h hp _ _ => h.raise hp) changed

/-- The join of clean types is clean, so it can come in. -/
theorem clean_receive (hs : s.Classed) (ht : t.Clean) (changed : Worklist) :
    Keeps State.Clean (s.receive r t changed k) := by
  refine keeps_receive_of (fun m h => h.memo m) (fun h hp hold hjoin => ?_) changed
  have hclean := h.before (by rw [State.typeBefore?, hp, Option.bind_some, hold])
  exact h.raise hp hold (RegType.clean_of_join hs.apart hjoin hclean ht)

end Steps

end Subject

/-! ## What is seen -/

/-- What can be seen of an analysis. -/
inductive Sight where
  /-- It has come to a state. -/
  | state (st : State)
  /-- It follows the rule of a point. -/
  | rule (p : Point) (previous? : Option Instr)

/-- What is seen of a step that leads from one state to another: where it leads, and the rule that
is followed. -/
def sightsOf : Notes Sight
  | .rule p previous?, _, st => [.state st, .rule p previous?]
  | .step, _, st | .pass _, _, st | .receive _ _, _, st => [.state st]

/-- Analyses a method of a class, and tells what was seen. -/
def watchMethod (cp : ClassPath) (options : Options) (cls : ClassDef) (method : MethodDef)
    (m : Memo) : EStateM.Result AnalysisError Memo Analysed × List Sight :=
  noteMethod sightsOf cp options cls method m

/-- Whether a rule is followed that writes a primitive type as the class of a reference. -/
def Sight.takesPrimitive : Sight → Bool
  | .state _ => false
  | .rule p previous? => p.takesPrimitive previous?

/-- A rule was followed that takes a primitive type for a class. -/
def Taken (seen : List Sight) : Prop := ∃ x ∈ seen, x.takesPrimitive = true

/-- A state was seen in which a primitive type stands for a class. -/
def Soiled (seen : List Sight) : Prop := ∃ st, .state st ∈ seen ∧ ¬ st.Clean

section Seen

variable {seen : List Sight} {st : State} {p : Point} {previous? : Option Instr}

@[simp] theorem taken_state : Taken (.state st :: seen) ↔ Taken seen := by
  simp [Taken, Sight.takesPrimitive]

@[simp] theorem taken_rule :
    Taken (.rule p previous? :: seen) ↔ p.takesPrimitive previous? = true ∨ Taken seen := by
  simp [Taken, Sight.takesPrimitive]

@[simp] theorem soiled_state : Soiled (.state st :: seen) ↔ ¬ st.Clean ∨ Soiled seen := by
  simp only [Soiled, List.mem_cons, Sight.state.injEq]
  constructor
  · rintro ⟨st', rfl | hmem, hclean⟩
    · exact .inl hclean
    · exact .inr ⟨st', hmem, hclean⟩
  · rintro (hclean | ⟨st', hmem, hclean⟩)
    · exact ⟨st, .inl rfl, hclean⟩
    · exact ⟨st', .inr hmem, hclean⟩

@[simp] theorem soiled_rule : Soiled (.rule p previous? :: seen) ↔ Soiled seen := by
  simp [Soiled]

end Seen

namespace Subject

/-- As long as no rule has taken a primitive type for a class, no state has one.  Once a rule has,
a state with one was seen. -/
structure Tidy (s : Subject) (now : Record Sight) : Prop where
  shape : s.InShape now.state
  clean : Taken now.log ∨ (now.state.Clean ∧ ¬ Soiled now.log)
  soiled : Taken now.log → Soiled now.log

/-- A condition holds of what the next step goes on from, unless a primitive type was taken
before. -/
def Offers (s : Subject) (Q : Prop) (now : Record Sight) : Prop := s.Tidy now ∧ (Taken now.log ∨ Q)

variable {s : Subject} {α : Type} {y : Recorded Sight α} {x : Step α} {Q : Prop}
variable {now : Record Sight} {st : State}
  {t : RegType} {n : NodeId} {i r : Nat}

/-- A step to another state that is in shape, and clean if the last one was. -/
theorem Offers.step (h : s.Offers Q now) (hshape : s.InShape st)
    (hclean : Q → now.state.Clean → st.Clean) : s.Offers Q ⟨st, .state st :: now.log⟩ := by
  obtain ⟨htidy, hQ⟩ := h
  refine ⟨⟨hshape, ?_, fun htaken => ?_⟩, by rwa [taken_state]⟩
  · rw [taken_state, soiled_state]
    rcases hQ with htaken | hQ
    · exact .inl htaken
    rcases htidy.clean with htaken | ⟨hst, hseen⟩
    · exact .inl htaken
    · exact .inr ⟨hclean hQ hst, by simp [hclean hQ hst, hseen]⟩
  · exact soiled_state.2 (.inr (htidy.soiled (taken_state.1 htaken)))

/-- A step that leaves clean states clean keeps the notes tidy. -/
theorem Tidy.step (h : s.Tidy now) (hshape : s.InShape st) (hclean : now.state.Clean → st.Clean) :
    s.Tidy ⟨st, .state st :: now.log⟩ :=
  have hnow : s.Offers True now := ⟨h, .inr trivial⟩
  (hnow.step hshape fun _ => hclean).1

/-- What is remembered does not matter. -/
theorem Tidy.memo (h : s.Tidy now) (m : Memo) :
    s.Tidy ⟨{ now.state with memo := m }, .state { now.state with memo := m } :: now.log⟩ :=
  h.step (h.shape.memo m) fun hst => hst.memo m

/-- A step that keeps the shape, and keeps clean states clean under a condition. -/
theorem offers_take {act : Act} (hact : ∀ before after, sightsOf act before after = [.state after])
    (hshape : Keeps s.InShape x) (hclean : Q → Keeps State.Clean x) :
    Keeps (s.Offers Q) (Recorded.take sightsOf act x) := by
  intro now h
  simp only [Recorded.take, hact]
  cases hx : x now.state with
  | ok a st =>
    exact h.step (Triple.ok hshape h.1.shape hx) fun hQ hst => Triple.ok (hclean hQ) hst hx
  | error e st =>
    exact h.step (Triple.error hshape h.1.shape hx) fun hQ hst => Triple.error (hclean hQ) hst hx

/-- What was taken stays taken. -/
theorem offers_of_tidy (hy : Recounts y x)
    (h : Triple (s.Offers Q) y (fun _ => s.Tidy) fun _ => s.Tidy) : Keeps (s.Offers Q) y := by
  have htaken : Keeps (fun now => Taken now.log ∨ Q) y := by
    intro now hnow
    rcases hnow with ⟨rule, hmem, htakes⟩ | hQ
    · exact Triple.mono (hy.keeps rule) (fun _ h => h) (fun _ _ h => .inl ⟨rule, h, htakes⟩)
        (fun _ _ h => .inl ⟨rule, h, htakes⟩) now hmem
    · cases y now with
      | ok a now' => exact .inr hQ
      | error e now' => exact .inr hQ
  intro now hnow
  have htidy := h now hnow
  have htaken' := htaken now hnow.2
  cases hy : y now with
  | ok a now' =>
    rw [hy] at htidy htaken'
    exact ⟨htidy, htaken'⟩
  | error e now' =>
    rw [hy] at htidy htaken'
    exact ⟨htidy, htaken'⟩

/-- The state that is looked at is clean, unless a primitive type was taken before. -/
theorem offers_get : Triple s.Tidy (Recorded.take sightsOf .step get)
    (fun st now => s.Offers st.Clean now ∧ now.state = st) fun _ => s.Tidy := by
  intro now h
  have hnow : s.Offers now.state.Clean now := ⟨h, h.clean.imp_right And.left⟩
  exact ⟨hnow.step h.shape fun _ hst => hst, rfl⟩

/-- Carrying clean types on keeps the notes tidy. -/
theorem tidy_carry (hs : s.Classed) (n : NodeId) (r : Nat) (changed : Worklist) :
    Keeps s.Tidy (s.noteCarry sightsOf n r changed) := by
  refine Triple.bind offers_get fun st => ?_
  cases ht : st.typeAfter? n r with
  | none => exact .pure fun _ h => h.1.1
  | some t =>
    have hkeeps : Keeps (s.Offers t.Clean)
        ((s.graph.successors n).foldlM
          (fun c k => Recorded.take sightsOf (.receive k r) (s.receive r t c k)) changed) :=
      .foldlM (fun c k => offers_take (fun _ _ => rfl) (inShape_receive c) fun htc =>
        clean_receive hs htc c) _ _
    exact Triple.mono hkeeps (fun _ h => ⟨h.1.1, h.1.2.imp_right fun hst => hst.after ht⟩)
      (fun _ _ h => h.1) fun _ _ h => h.1

/-- So does carrying them on as long as something changes. -/
theorem tidy_carryAll (hs : s.Classed) (r limit left : Nat) (changed : Worklist) :
    Keeps s.Tidy (s.noteCarryAll sightsOf r limit left changed) := by
  induction left generalizing changed with
  | zero =>
    rw [noteCarryAll]
    cases changed.pop? with
    | none => exact .pure _
    | some next => exact .throw _
  | succ left ih =>
    rw [noteCarryAll]
    cases changed.pop? with
    | none => exact .pure _
    | some next => exact (tidy_carry hs _ r _).bind ih

theorem tidy_carryOn (hs : s.Classed) (n : NodeId) (r limit : Nat) :
    Keeps s.Tidy (do
      s.noteCarryAll sightsOf r limit limit (← s.noteCarry sightsOf n r .empty)
      return true) :=
  (tidy_carry hs n r _).bind fun _ => (tidy_carryAll hs r limit limit _).bind fun _ => .pure _

/-- An assignment is tidy if the type is clean. -/
theorem offers_assignOne (hs : s.Classed) (n : NodeId) (r : Nat) (t : RegType) :
    Keeps (s.Offers t.Clean) (s.noteAssignOne sightsOf n r t) := by
  refine offers_of_tidy (s.recounts_assignOne sightsOf n r t) ?_
  have hget : Triple (s.Offers t.Clean) (Recorded.take sightsOf .step get)
      (fun st now => s.Offers t.Clean now ∧ now.state = st) fun _ => s.Tidy := by
    intro now h
    exact ⟨h.step h.1.shape fun _ hst => hst, rfl⟩
  refine Triple.bind hget fun st => ?_
  split
  · exact .pure fun _ h => h.1.1
  refine Triple.bind (R := fun _ => s.Tidy) ?_ fun _ => tidy_carryOn hs n r _
  rintro now ⟨h, rfl⟩
  exact (h.step (h.1.shape.setAfter n r t) fun ht hst => hst.setAfter n r ht).1

/-- A clean type may be assigned. -/
theorem tidy_assignOne (hs : s.Classed) (n : NodeId) (r : Nat) (ht : t.Clean) :
    Keeps s.Tidy (s.noteAssignOne sightsOf n r t) :=
  Triple.mono (offers_assignOne hs n r t) (fun _ h => ⟨h, .inr ht⟩) (fun _ _ h => h.1)
    fun _ _ h => h.1

theorem offers_assign (hs : s.Classed) (n : NodeId) (r : Nat) (t : RegType) :
    Keeps (s.Offers t.Clean) (s.noteAssign sightsOf n r t) := by
  refine offers_of_tidy (s.recounts_assign sightsOf n r t) ?_
  rw [noteAssign]
  split
  · exact fun _ h => h.1
  have hone : Triple (s.Offers t.Clean) (s.noteAssignOne sightsOf n r t) (fun _ => s.Tidy)
      fun _ => s.Tidy :=
    Triple.mono (offers_assignOne hs n r t) (fun _ h => h) (fun _ _ h => h.1) fun _ _ h => h.1
  refine Triple.bind hone fun new => ?_
  split
  · cases hhigh : t.high? with
    | none => exact Keeps.pure _
    | some high =>
      simp only
      split
      · exact Keeps.throw _
      · exact (tidy_assignOne hs n (r + 1) (RegType.clean_of_high? hhigh)).discard
  · exact Keeps.pure _

theorem tidy_assign (hs : s.Classed) (n : NodeId) (r : Nat) (ht : t.Clean) :
    Keeps s.Tidy (s.noteAssign sightsOf n r t) :=
  Triple.mono (offers_assign hs n r t) (fun _ h => ⟨h, .inr ht⟩) (fun _ _ h => h.1) fun _ _ h => h.1

/-- The copies of an object get the class of the object. -/
theorem offers_initialiseFrom (hs : s.Classed) (i : Nat) (object : Reg) (n : TypeNode)
    (rs : List Nat) :
    Keeps (s.Offers (RegType.reference n).Clean) (s.noteInitialiseFrom sightsOf i object n rs) := by
  induction rs with
  | nil => exact .pure _
  | cons r rest ih =>
    rw [noteInitialiseFrom]
    refine (offers_take (fun _ _ => rfl) (fun _ h => h) fun _ _ h => h).bind fun st => ?_
    cases st.points[i]? with
    | none => exact .pure _
    | some p =>
      simp only
      split
      · exact (offers_assign hs _ r _).bind fun _ => ih
      · exact ih

/-- What a rule says is tidy if the types it writes are clean. -/
theorem offers_apply (hs : s.Classed) (i : Nat) (instr : Instr) (e : Effect) :
    Keeps (s.Offers (e.Writes RegType.Clean)) (s.noteApply sightsOf i instr e) := by
  cases e with
  | waiting => exact .pure _
  | nothing => exact .pure _
  | write t =>
    rw [noteApply]
    cases instr.destination? with
    | none => exact .throw _
    | some dst => exact (offers_assign hs _ _ t).bind fun _ => .pure _
  | initialise object n => exact (offers_initialiseFrom hs i object n _).bind fun _ => .pure _

/-- A primitive type that is written for a class is seen. -/
theorem tidy_soil (hs : s.Classed) (hr : r < s.body.registers) (ht : ¬ t.Clean) :
    Triple (fun now => s.InShape now.state ∧ Taken now.log ∧ ∃ p, now.state.points[i]? = some p)
      (s.noteAssign sightsOf (.instr i) r t) (fun _ => s.Tidy) fun _ => s.Tidy := by
  have hhigh : t.high? = none := by
    cases t with
    | half x => exact absurd (RegType.clean_of_node? rfl) ht
    | _ => rfl
  have hone : Triple
      (fun now => s.InShape now.state ∧ Taken now.log ∧ ∃ p, now.state.points[i]? = some p)
      (s.noteAssignOne sightsOf (.instr i) r t) (fun _ => s.Tidy) fun _ => s.Tidy := by
    refine Triple.bind (R := fun st now => now.state = st ∧ s.InShape st ∧ Taken now.log ∧
      (∃ p, st.points[i]? = some p) ∧ .state st ∈ now.log) ?_ fun st => ?_
    · rintro now ⟨hshape, htaken, hp⟩
      exact ⟨rfl, hshape, taken_state.2 htaken, hp, List.mem_cons_self⟩
    split
    · next hsame =>
      rintro now ⟨rfl, hshape, htaken, _, hseen⟩
      exact ⟨hshape, .inl htaken, fun _ => ⟨_, hseen, fun hclean => ht (hclean.after hsame)⟩⟩
    refine Triple.bind (R := fun _ => s.Tidy) ?_ fun _ => tidy_carryOn hs (.instr i) r _
    rintro now ⟨rfl, hshape, htaken, ⟨p, hp⟩, _⟩
    have hlt : r < p.after.size := (hshape.size i p hp).symm ▸ hr
    have hafter : (now.state.setAfter (.instr i) r t).typeAfter? (.instr i) r = some t := by
      rw [State.typeAfter?_setAfter, if_pos ⟨rfl, rfl⟩, State.typeAfter?, hp, Option.bind_some,
        Array.getElem?_eq_getElem hlt]
      rfl
    exact ⟨hshape.setAfter (.instr i) r t, .inl (taken_state.2 htaken),
      fun _ => soiled_state.2 (.inl fun hclean => ht (hclean.after hafter))⟩
  rw [noteAssign, if_neg (Nat.not_le.2 hr)]
  refine Triple.bind hone fun new => ?_
  rw [hhigh]
  split <;> exact Keeps.pure _

/-- A rule that takes no primitive type may be followed. -/
theorem Tidy.follow {p : Point} {previous? : Option Instr} (h : s.Tidy now)
    (htakes : p.takesPrimitive previous? = false) :
    s.Tidy ⟨now.state, .rule p previous? :: now.log⟩ :=
  ⟨h.shape, by simpa [htakes] using h.clean, by simpa [htakes] using h.soiled⟩

/-- What a rule says that finds no primitive type may be carried out. -/
theorem offers_effect (hs : s.Classed) {p : Point} {previous? : Option Instr}
    (hfinds : p.findsPrimitive previous? = false) :
    Triple (fun now => s.Tidy now ∧ now.state.points[i]? = some p)
      (Recorded.take sightsOf (.rule p previous?) (Step.ofRule (s.effect i p previous?)))
      (fun e => s.Offers (e.Writes RegType.Clean)) fun _ => s.Tidy := by
  rintro now ⟨h, hp⟩
  have hfollow : s.Tidy ⟨now.state, .rule p previous? :: now.log⟩ :=
    h.follow (by rw [Point.takesPrimitive, hfinds, Bool.false_and])
  simp only [Recorded.take, Step.ofRule]
  cases heffect : s.effect i p previous? now.state.memo with
  | ok e m =>
    have hnow : s.Offers (e.Writes RegType.Clean) ⟨now.state, .rule p previous? :: now.log⟩ := by
      refine ⟨hfollow, hfollow.clean.imp_right fun hclean => ?_⟩
      exact clean_of_effect hs (hclean.1.point hp) (h.shape.makes i p hp) hfinds heffect
    exact hnow.step (h.shape.memo m) fun _ hst => hst.memo m
  | error e m => exact hfollow.memo m

/-- A reference to a primitive type is not clean. -/
theorem not_clean_primitive (d : String) : ¬ (RegType.reference (.primitive d)).Clean := by
  intro h
  cases h _ rfl

/-- The rule of a point that has its standard form. -/
theorem tidy_transfer (hs : s.Classed) (i : Nat) (p : Point) :
    Triple (fun now => s.Tidy now ∧ now.state.points[i]? = some p) (s.noteTransfer sightsOf i p)
      (fun _ => s.Tidy) fun _ => s.Tidy := by
  refine Triple.bind (R := fun st now => s.Tidy now ∧ now.state.points[i]? = some p) ?_ fun st => ?_
  · rintro now ⟨h, hp⟩
    exact ⟨(offers_get now h).1.1, hp⟩
  cases hfinds : p.findsPrimitive (previous? st i) with
  | false =>
    refine Triple.bind (offers_effect hs hfinds) fun e => ?_
    exact Triple.mono (offers_apply hs i p.instr e) (fun _ h => h) (fun _ _ h => h.1)
      fun _ _ h => h.1
  | true =>
    obtain ⟨dst, d, hdst, heffect⟩ := s.effect_of_findsPrimitive (i := i) hfinds
    by_cases hrange : dst.index < s.body.registers
    · -- The type is written, and then it is seen.
      refine Triple.bind (R := fun e now => e = .write (.reference (.primitive d)) ∧
        s.InShape now.state ∧ Taken now.log ∧ ∃ p, now.state.points[i]? = some p) ?_ fun e => ?_
      · rintro now ⟨h, hp⟩
        simp only [Recorded.take, Step.ofRule, heffect]
        refine ⟨trivial, h.shape, taken_state.2 (taken_rule.2 (.inl ?_)), p, hp⟩
        simp [Point.takesPrimitive, hfinds, hdst, h.shape.size i p hp, hrange]
      · rintro now ⟨rfl, h⟩
        simp only [noteApply, hdst]
        exact (Triple.bind (tidy_soil hs hrange (not_clean_primitive d)) fun _ =>
          Keeps.pure true) now h
    · -- There is no register to write it to.
      refine Triple.bind (R := fun e now => e = .write (.reference (.primitive d)) ∧ s.Tidy now) ?_
        fun e => ?_
      · rintro now ⟨h, hp⟩
        simp only [Recorded.take, Step.ofRule, heffect]
        refine ⟨trivial, (h.follow ?_).memo now.state.memo⟩
        simp [Point.takesPrimitive, hfinds, hdst, h.shape.size i p hp, hrange]
      · rintro now ⟨rfl, h⟩
        simp only [noteApply, hdst, noteAssign, if_pos (Nat.not_lt.1 hrange)]
        exact h

/-- A pass gives a point its standard form, and then follows its rule. -/
theorem tidy_analyse (hs : s.Classed) (i : Nat) : Keeps s.Tidy (s.noteAnalyse sightsOf i) := by
  refine Triple.bind (R := fun st now => s.Tidy now ∧ now.state = st) ?_ fun st => ?_
  · intro now h
    exact ⟨(offers_get now h).1.1, rfl⟩
  cases hp : st.points[i]? with
  | none => exact .pure fun _ h => h.1
  | some p =>
    simp only
    split
    · refine Triple.bind (R := fun form? now => s.Tidy now ∧ now.state.points[i]? = some p ∧
        ∀ standard, form? = some standard → p.instr.Standard standard) ?_ fun form? => ?_
      · rintro now ⟨h, rfl⟩
        simp only [Recorded.take, Step.ofRule]
        cases hform : s.standardForm? p now.state.memo with
        | ok form? m =>
          refine ⟨h.memo m, hp, ?_⟩
          rintro standard rfl
          exact standard_of_standardForm? hform
        | error e m => exact h.memo m
      cases form? with
      | none => exact .pure fun _ h => h.1
      | some standard =>
        refine Triple.bind (R := fun _ now => s.Tidy now ∧
          now.state.points[i]? = some { p with instr := standard }) ?_ fun _ =>
          tidy_transfer hs i _
        rintro now ⟨h, hnow, hstandard⟩
        refine ⟨h.step (h.shape.setInstr i (hstandard standard rfl).makesClass)
          fun hst => hst.setInstr i standard, ?_⟩
        show (now.state.setInstr i standard).points[i]? = _
        rw [State.setInstr_points, if_pos rfl, hnow]
        rfl
    · exact Triple.mono (tidy_transfer hs i p) (fun _ h => ⟨h.1, h.2 ▸ hp⟩) (fun _ _ h => h)
        fun _ _ h => h

/-- A pass is tidy: its rule takes a primitive type, or what it writes is clean. -/
theorem tidy_pass (hs : s.Classed) (i : Nat) : Keeps s.Tidy (s.notePass sightsOf i) := by
  intro now h
  have hstep := h.step (h.shape.restore i) fun hst => hst.restore i
  simp only [notePass]
  cases hanalyse : s.noteAnalyse sightsOf i
      ⟨restore now.state i, sightsOf (.pass i) now.state (restore now.state i) ++ now.log⟩ with
  | ok done now' => exact Triple.ok (tidy_analyse hs i) hstep hanalyse
  | error e now' => exact Triple.error (tidy_analyse hs i) hstep hanalyse

/-- All passes are.  The induction is on the passes that are left. -/
theorem tidy_runFrom (hs : s.Classed) (limit passes : Nat) (agenda : Agenda) :
    Keeps s.Tidy (s.noteRunFrom sightsOf limit passes agenda) := by
  have hget : Keeps s.Tidy (Recorded.take sightsOf .step get : Recorded Sight State) :=
    Triple.mono offers_get (fun _ h => h) (fun _ _ h => h.1.1) fun _ _ h => h
  have hsettle : ∀ i,
      Keeps s.Tidy (Recorded.take sightsOf .step (modify fun st => st.settle i)) := by
    intro i now h
    exact h.step (h.shape.settle i) fun hst => hst.settle i
  induction passes generalizing agenda with
  | zero =>
    rw [noteRunFrom]
    refine hget.bind fun st => ?_
    cases agenda.take? st.settled with
    | none => exact .pure _
    | some next => exact .throw _
  | succ passes ih =>
    rw [noteRunFrom]
    refine hget.bind fun st => ?_
    cases agenda.take? st.settled with
    | none => exact .pure _
    | some next =>
      refine (tidy_pass hs next.1).bind fun done => ?_
      simp only
      split
      · exact (hsettle next.1).bind fun _ => ih _
      · exact ih _

/-- What is entered for a type is clean if the type is. -/
theorem tidy_known {α : Type} {rule : Except HierarchyError α} :
    Triple s.Tidy (Recorded.take sightsOf .step (Step.ofRule (Rule.known rule)))
      (fun a now => s.Tidy now ∧ rule = .ok a) fun _ => s.Tidy := by
  intro now h
  have hstep := h.memo now.state.memo
  cases rule with
  | ok a => exact ⟨hstep, rfl⟩
  | error e => exact hstep

/-- Parameters that are not hollow are clean. -/
theorem tidy_params (hs : s.Classed) (r : Nat) (params : List Ty)
    (hparams : ∀ ty ∈ params, ty.hollow = false) :
    Keeps s.Tidy (s.noteParams sightsOf r params) := by
  induction params generalizing r with
  | nil => exact .pure _
  | cons ty rest ih =>
    rw [noteParams]
    refine Triple.bind tidy_known fun t => ?_
    rintro now ⟨h, ht⟩
    have hclean := RegType.clean_of_ofTy ht (hparams ty List.mem_cons_self)
    exact ((tidy_assign hs .start r hclean).bind fun _ =>
      ih (r + ty.registerCount) fun ty' hty' => hparams ty' (List.mem_cons_of_mem ty hty')) now h

/-- The receiver has the class of the method. -/
theorem tidy_receiver (hs : s.Classed) (r : Nat) : Keeps s.Tidy (s.noteReceiver sightsOf r) := by
  refine Triple.bind tidy_known fun n => ?_
  rintro now ⟨h, hn⟩
  have hclean : (if s.method.name = Instr.constructorName then RegType.uninitThis n
      else .reference n).Clean := by
    intro k hk
    split at hk <;> cases hk <;> exact TypeNode.isPrimitive_of_ofTy hn hs.cls
  exact tidy_assign hs .start r hclean now h

/-- The types at the start are tidy. -/
theorem tidy_enter (hs : s.Classed) (isStatic : Bool) (locals : Nat) :
    Keeps s.Tidy (s.noteEnter sightsOf isStatic locals) := by
  have hlocals :
      Keeps s.Tidy ((List.range locals).forM fun r => s.noteAssign sightsOf .start r .uninit) :=
    .forM (fun r => tidy_assign hs .start r (RegType.clean_of_node? rfl)) _
  rw [noteEnter]
  split
  · exact (tidy_params hs locals _ hs.params).bind fun _ => hlocals
  · exact (tidy_receiver hs locals).bind fun _ =>
      (tidy_params hs (locals + 1) _ hs.params).bind fun _ => hlocals

theorem tidy_finish : Keeps s.Tidy (Recorded.take sightsOf .step s.finish) := by
  have hshape : Keeps s.InShape s.finish :=
    keeps_finishFrom_of (fun h hp hfinal =>
      h.setInstr _ (Instr.makesClass_of_finalForm hfinal (h.makes _ _ hp))) _
  have hclean : Keeps State.Clean s.finish :=
    keeps_finishFrom_of (fun h _ _ => h.setInstr _ _) _
  exact Triple.mono (offers_take (fun _ _ => rfl) hshape fun _ : True => hclean)
    (fun _ h => ⟨h, .inr trivial⟩) (fun _ _ h => h.1) fun _ _ h => h.1

/-- The whole analysis is tidy. -/
theorem tidy_all (hs : s.Classed) (isStatic : Bool) (locals : Nat) (passes? : Option Nat) :
    Keeps s.Tidy (s.noteAll sightsOf isStatic locals passes?) :=
  (tidy_enter hs isStatic locals).bind fun _ => (tidy_runFrom hs _ _ _).bind fun _ => tidy_finish

/-- With tidy notes, a primitive type was taken for a class where a state has one. -/
theorem Tidy.taken_iff (h : s.Tidy now) : Taken now.log ↔ Soiled now.log :=
  ⟨h.soiled, fun hsoiled => h.clean.resolve_right fun hclean => hclean.2 hsoiled⟩

end Subject

/-! ## Whole analyses -/

section Methods

variable {cp : ClassPath} {options : Options} {cls : ClassDef} {method : MethodDef} {m : Memo}
  {b : Body}

/-- A rule takes a primitive type for a class if and only if some state has one, whether the
analysis succeeds or fails. -/
theorem taken_iff_soiled
    (hs : ∀ s params, subjectOf cp options cls method = .ok (s, params) → s.Classed) :
    Taken (watchMethod cp options cls method m).2 ↔
      Soiled (watchMethod cp options cls method m).2 := by
  rw [watchMethod, noteMethod]
  cases hsubject : subjectOf cp options cls method with
  | error e => simp [Taken, Soiled]
  | ok found =>
    obtain ⟨s, params⟩ := found
    have hclassed := hs s params hsubject
    have hclean : (State.initial s.body m).Clean := .initial s.body m
    have hfirst : s.Tidy ⟨.initial s.body m, [.state (.initial s.body m)]⟩ :=
      ⟨.initial hclassed m, .inr ⟨hclean, by simp [Soiled, hclean]⟩,
        by simp [Taken, Sight.takesPrimitive]⟩
    have hkeeps := Subject.tidy_all hclassed method.isStatic (s.body.registers - params)
      options.passes?
    simp only
    cases hall : s.noteAll sightsOf method.isStatic (s.body.registers - params) options.passes?
        ⟨.initial s.body m, sightsOf .step (.initial s.body m) (.initial s.body m)⟩ with
    | ok u now => exact (Triple.ok hkeeps hfirst hall).taken_iff
    | error e now => exact (Triple.error hkeeps hfirst hall).taken_iff

/-- The references of an analysis have classes in all states it goes through, if and only if no
rule that it follows takes a primitive type for a class.  Where references have classes, no join
fails because a primitive type is compared with a class. -/
theorem references_have_classes_iff (hbody : method.body? = some b) (hcp : cp.PrimitivesApart)
    (hcls : cls.ty.isClass = true) (hparams : ∀ ty ∈ method.params, ty.hollow = false)
    (hmakes : ∀ l ∈ b.lines, l.instr.makesClass = true)
    (hcatches : ∀ h ∈ b.tries.flatMap TryRange.handlers, h.catchesClass = true) :
    (watchMethod cp options cls method m).1 = analyseMethod cp options cls method m ∧
      ((∀ st, .state st ∈ (watchMethod cp options cls method m).2 → st.Clean) ↔
        ∀ x ∈ (watchMethod cp options cls method m).2, x.takesPrimitive = false) ∧
      ∀ t u : RegType, t.Clean → u.Clean → ∀ m₁ d m₂,
        t.join cp u m₁ ≠ .error (.noCommonSuperclass d) m₂ := by
  have hs : ∀ s params, subjectOf cp options cls method = .ok (s, params) → s.Classed := by
    intro s params h
    obtain ⟨body, graph, hbody', _, rfl⟩ := subjectOf_ok h
    cases hbody.symm.trans hbody'
    exact ⟨hcp, hcls, hparams, hmakes, hcatches⟩
  refine ⟨forget_noteMethod sightsOf cp options cls method m, ?_, fun t u ht hu m₁ d m₂ h => ?_⟩
  · have hiff := not_congr (taken_iff_soiled (m := m) hs)
    simp only [Taken, Soiled, not_exists, not_and, not_not, Bool.not_eq_true] at hiff
    exact hiff.symm
  · exact (Triple.error (RegType.matched_join hcp ht hu) trivial h).2 d rfl

/-- A method that fetches a row of an array of arrays of numbers, makes an object and catches an
exception. -/
def fetchingRow : MethodDef :=
  ⟨"m", [.array 2 .int, .int], .void, .ofList [.static],
    some (.assemble 4 [.arrayAccess .get .object ⟨0⟩ ⟨2⟩ ⟨3⟩, .newInstance ⟨1⟩ (.cls "A"),
      .returnVoid, .moveException ⟨0⟩, .returnVoid]
      [⟨⟨0⟩, 4, [⟨some (.cls "E"), ⟨5⟩⟩]⟩])⟩

/-- The row is an array of one dimension less. -/
theorem fetchingRow_has_classes :
    (∃ a m', analyseMethod (.ofClasses [emptyClass] 15) {} emptyClass fetchingRow .empty =
        .ok a m' ∧ a.typeAfter? (.instr 0) 0 = some (.reference (.array 1 "I")) ∧
      a.typeAfter? (.instr 3) 0 = some (.reference (.cls "LE;"))) ∧
    ∀ st, .state st ∈
        (watchMethod (.ofClasses [emptyClass] 15) {} emptyClass fetchingRow .empty).2 →
      st.Clean := by
  refine ⟨by decide +kernel, ?_⟩
  refine (references_have_classes_iff rfl (ClassPath.primitivesApart_of_defs ?_)
    ?_ ?_ ?_ ?_).2.1.2 ?_
  all_goals decide +kernel

/-- A method that fetches an object from an array of numbers. -/
def fetchingNumber : MethodDef :=
  ⟨"m", [.array 1 .int, .int], .void, .ofList [.static],
    some (.assemble 3 [.arrayAccess .get .object ⟨0⟩ ⟨1⟩ ⟨2⟩, .returnVoid] [])⟩

/-- The class of the object is the primitive type of the numbers. -/
theorem fetchingNumber_has_no_class :
    ∃ a m', analyseMethod (.ofClasses [emptyClass] 15) {} emptyClass fetchingNumber .empty =
        .ok a m' ∧ a.typeAfter? (.instr 0) 0 = some (.reference (.primitive "I")) ∧
      a.typeBefore? 1 0 = some (.reference (.primitive "I")) := by
  decide +kernel

end Methods

end Analysis

end Dalvik
