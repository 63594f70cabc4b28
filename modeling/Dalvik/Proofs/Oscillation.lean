import Dalvik.Proofs.Termination

/-!
# An analysis without an end

No class has to be above itself for types to go round in a circle.  Arrays have two interfaces, and
if these are declared below an array, then an array joins with each of them to the interface, and
the two join to the array.

A run that comes back to where it was stalls for every number of passes (`runFrom_stalls`), and
there is a method whose analysis comes back after 18 passes (`restless_circles`).
-/

namespace Dalvik.Analysis

open Relation (TransGen)
open Subject (Agenda)

/-- What a lookup gives can be tested by doing it. -/
instance decidableSome {α : Type} {o : Option α} {P : α → Prop} [∀ a, Decidable (P a)] :
    Decidable (∃ a, o = some a ∧ P a) :=
  match o with
  | some a => decidable_of_iff (P a)
    ⟨fun h => ⟨a, rfl, h⟩, fun ⟨_, ho, h⟩ => by cases ho; exact h⟩
  | none => isFalse fun ⟨_, ho, _⟩ => by cases ho

instance decidableOk {ε α : Type} {r : Except ε α} {P : α → Prop} [∀ a, Decidable (P a)] :
    Decidable (∃ a, r = .ok a ∧ P a) :=
  match r with
  | .ok a => decidable_of_iff (P a)
    ⟨fun h => ⟨a, rfl, h⟩, fun ⟨_, hr, h⟩ => by cases hr; exact h⟩
  | .error _ => isFalse fun ⟨_, hr, _⟩ => by cases hr

deriving instance DecidableEq for Memo
deriving instance DecidableEq for State

namespace Subject

variable {s : Subject} {left next turn : Agenda × State}

/-! ## Rounds of a run -/

/-- One round of a run: what is left after the next point was analysed. -/
def round? (s : Subject) (left : Agenda × State) : Option (Agenda × State) :=
  match left.1.take? left.2.settled with
  | none => none
  | some (i, rest) =>
    match s.pass i left.2 with
    | .error _ _ => none
    | .ok done st =>
      some (rest.after i done (s.graph.successors (.instr i)), if done then st.settle i else st)

/-- Some rounds of a run. -/
def rounds? (s : Subject) : Nat → Agenda × State → Option (Agenda × State)
  | 0, left => some left
  | n + 1, left => (s.round? left).bind (s.rounds? n)

theorem rounds?_add (m n : Nat) :
    s.rounds? (m + n) left = (s.rounds? m left).bind (s.rounds? n) := by
  induction m generalizing left with
  | zero => rw [Nat.zero_add, rounds?, Option.bind_some]
  | succ m ih =>
    rw [Nat.add_right_comm, rounds?, rounds?, Option.bind_assoc]
    exact congrArg _ (funext fun _ => ih)

/-- A round is a pass of the run. -/
theorem runFrom_round (h : s.round? left = some next) (limit passes : Nat) :
    s.runFrom limit 0 left.1 left.2 = .error (.iterationLimit limit) left.2 ∧
      s.runFrom limit (passes + 1) left.1 left.2 = s.runFrom limit passes next.1 next.2 := by
  unfold round? at h
  split at h
  · cases h
  · next i rest htake =>
    split at h
    · cases h
    · next done st hpass =>
      cases h
      constructor
      · unfold runFrom
        simp only [bind_apply, get_apply, htake]
        rfl
      · rw [runFrom]
        simp only [bind_apply, get_apply, htake, hpass]
        cases done <;> rfl

/-- A run that has one more round to go than it has passes stalls. -/
theorem runFrom_stalls {passes : Nat} (h : s.rounds? (passes + 1) left = some next)
    (limit : Nat) :
    ∃ st, s.runFrom limit passes left.1 left.2 = .error (.iterationLimit limit) st := by
  induction passes generalizing left with
  | zero =>
    obtain ⟨_, hround, _⟩ := Option.bind_eq_some_iff.1 h
    exact ⟨_, (runFrom_round hround limit 0).1⟩
  | succ passes ih =>
    obtain ⟨_, hround, hrounds⟩ := Option.bind_eq_some_iff.1 h
    rw [(runFrom_round hround limit passes).2]
    exact ih hrounds

/-- From a circle there are rounds without end. -/
theorem rounds?_of_circle {lead period : Nat} (hperiod : 0 < period)
    (hlead : s.rounds? lead left = some turn) (hcircle : s.rounds? period turn = some turn)
    (n : Nat) : ∃ next, s.rounds? n left = some next := by
  have hturns : ∀ k, s.rounds? (period * k) turn = some turn := by
    intro k
    induction k with
    | zero => rfl
    | succ k ih => rw [Nat.mul_succ, rounds?_add, ih, Option.bind_some, hcircle]
  have hall : s.rounds? (n + (lead + period * n - n)) left = some turn := by
    have hle : n ≤ period * n := Nat.le_mul_of_pos_left n hperiod
    rw [Nat.add_sub_cancel' (hle.trans (Nat.le_add_left _ _)), rounds?_add, hlead,
      Option.bind_some, hturns]
  rw [rounds?_add] at hall
  obtain ⟨next, hnext, _⟩ := Option.bind_eq_some_iff.1 hall
  exact ⟨next, hnext⟩

end Subject

/-! ## A circle -/

/-- An interface below an array. -/
def arrayInterface (name : String) : ClassDef where
  ty := .cls name
  flags := .ofList [.pub, .interface, .abstract]
  superclass? := some (.array 1 (.cls "F"))

/-- The interfaces of arrays are below an array. -/
def restless : ClassPath := .ofClasses
  [arrayInterface "java/lang/Cloneable", arrayInterface "java/io/Serializable", emptyClass]
  defaultLevel

/-- The registers take each other's types, and the types go on to the handlers. -/
def restlessBody : Body :=
  let raise (dst src : Nat) : List Instr := [.move .object .near ⟨dst⟩ ⟨src⟩, .throw ⟨dst⟩]
  let catching (addr : Nat) (handlers : List (String × Nat)) : TryRange :=
    ⟨⟨addr⟩, 1, handlers.map fun (name, target) => ⟨some (.cls name), ⟨target⟩⟩⟩
  .assemble 3 (raise 1 2 ++ raise 1 2 ++ raise 0 1 ++ raise 2 0 ++ raise 2 1 ++ raise 0 2)
    [catching 1 [("X", 6), ("Y", 8)], catching 3 [("X", 6)],
      catching 5 [("X", 0), ("Y", 2), ("Z", 6)], catching 7 [("X", 10), ("Y", 8)],
      catching 9 [("X", 10), ("Y", 4)], catching 11 [("X", 0), ("Y", 2), ("Z", 4)]]

def restlessMethod : MethodDef :=
  ⟨"m", [.cls "java/io/Serializable", .cls "java/io/Serializable", .cls "java/lang/Cloneable"],
    .void, .ofList [.static], some restlessBody⟩

/-- After nine passes the analysis goes round, 18 passes at a time. -/
theorem restless_circles :
    ∃ x, subjectOf restless {} emptyClass restlessMethod = .ok x ∧
      ∃ (u : Unit) (st : State), x.1.enter true (x.1.body.registers - x.2)
          (.initial x.1.body .empty) = .ok u st ∧
        ∃ turn, x.1.rounds? 9 (⟨Worklist.empty.insertAll x.1.graph.entry, .empty, false⟩, st) =
          some turn ∧ x.1.rounds? 18 turn = some turn := by
  decide +kernel

/-- The classes that are below others. -/
def restlessLayers : List (List String) :=
  [[classClass, stringClass, throwableClass], ["Ljava/lang/Cloneable;", "Ljava/io/Serializable;"]]

/-- No class is above itself, and no number of passes is enough for the analysis. -/
theorem analysis_oscillates :
    (∀ d, ¬ TransGen restless.Rises d d) ∧
      ∀ passes, ∃ m, analyseMethod restless { passes? := some passes } emptyClass restlessMethod
        .empty = .error (.iterationLimit passes) m := by
  refine ⟨ClassPath.acyclic_of_rank (ClassPath.layerRank restlessLayers) (by decide +kernel),
    fun passes => ?_⟩
  obtain ⟨⟨s, params⟩, hs, _, st, henter, turn, hlead, hcircle⟩ := restless_circles
  obtain ⟨_, hrounds⟩ := Subject.rounds?_of_circle (by decide) hlead hcircle (passes + 1)
  obtain ⟨st', hrun⟩ := Subject.runFrom_stalls hrounds passes
  have hsteps : (do
      s.enter restlessMethod.isStatic (s.body.registers - params)
      s.run (some passes)
      s.finish) (.initial s.body .empty) = .error (.iterationLimit passes) st' :=
    bind_error.2 (.inr ⟨_, st, henter, bind_error.2 (.inl hrun)⟩)
  refine ⟨st'.memo, bind_error.2 (.inr ⟨(s, params), .empty, ?_, ?_⟩)⟩
  · have hsubject : subjectOf restless { passes? := some passes } emptyClass restlessMethod =
      .ok (s, params) := hs
    rw [hsubject]
    rfl
  · simp only [hsteps]

end Dalvik.Analysis
