import Dalvik.Proofs.Monads

/-!
# Noted analyses

An analysis goes through many states, and its answer shows the last one only.  Neither the states
in between nor what was done can be seen from it.  A noted analysis takes the steps of the analysis
one for one, and notes something of each.  What is noted is a parameter (`Notes`): it may depend on
what a step is taken for (`Act`), and on the states before and after it.

Apart from its notes, a noted analysis is the analysis (`forget_noteMethod`), and no note is lost
later on.  `Recounts` says both of a single computation.
-/

namespace Dalvik.Analysis

/-- What a step of an analysis is taken for. -/
inductive Act where
  /-- To look something up, or to put it down. -/
  | step
  /-- To begin a pass over the point at an index. -/
  | pass (i : Nat)
  /-- To follow the rule of a point, by the instruction that stands before it. -/
  | rule (p : Point) (previous? : Option Instr)
  /-- To join a type into that of a register before the point at an index. -/
  | receive (i r : Nat)

/-- What is noted of a step that leads from one state to another, with the last note first. -/
abbrev Notes (ν : Type) := Act → State → State → List ν

/-- A state of an analysis, and what was noted so far, with the last note first. -/
structure Record (ν : Type) where
  state : State
  log : List ν

/-- A step of an analysis that is noted.  A failure keeps the notes. -/
abbrev Recorded (ν : Type) := EStateM AnalysisError (Record ν)

/-- Takes a step, and notes it. -/
def Recorded.take {ν α : Type} (note : Notes ν) (act : Act) (x : Step α) : Recorded ν α :=
  fun now =>
  match x now.state with
  | .ok a st => .ok a ⟨st, note act now.state st ++ now.log⟩
  | .error e st => .error e ⟨st, note act now.state st ++ now.log⟩

/-! ## Steps with notes -/

namespace Subject

variable {ν : Type}

def noteCarry (s : Subject) (note : Notes ν) (n : NodeId) (r : Nat) (changed : Worklist) :
    Recorded ν Worklist := do
  match (← Recorded.take note .step get).typeAfter? n r with
  | none => return changed
  | some t =>
    (s.graph.successors n).foldlM
      (fun changed i => Recorded.take note (.receive i r) (s.receive r t changed i)) changed

def noteCarryAll (s : Subject) (note : Notes ν) (r limit : Nat) :
    Nat → Worklist → Recorded ν Unit
  | left, changed =>
    match changed.pop? with
    | none => return
    | some (i, rest) =>
      match left with
      | 0 => throw (.iterationLimit limit)
      | left + 1 => do s.noteCarryAll note r limit left (← s.noteCarry note (.instr i) r rest)

def noteAssignOne (s : Subject) (note : Notes ν) (n : NodeId) (r : Nat) (t : RegType) :
    Recorded ν Bool := do
  let st ← Recorded.take note .step get
  if st.typeAfter? n r = some t then return false
  else
    let limit := s.budget (max t.dims (st.depth r))
    Recorded.take note .step (set (st.setAfter n r t))
    s.noteCarryAll note r limit limit (← s.noteCarry note n r .empty)
    return true

def noteAssign (s : Subject) (note : Notes ν) (n : NodeId) (r : Nat) (t : RegType) :
    Recorded ν Unit := do
  if s.body.registers ≤ r then throw (.registerOutOfBounds ⟨r⟩)
  else if ← s.noteAssignOne note n r t then
    match t.high? with
    | none => return
    | some high =>
      if s.body.registers ≤ r + 1 then throw (.widePairOutOfBounds ⟨r⟩)
      else discard (s.noteAssignOne note n (r + 1) high)
  else return

def noteInitialiseFrom (s : Subject) (note : Notes ν) (i : Nat) (object : Reg) (n : TypeNode) :
    List Nat → Recorded ν Unit
  | [] => return
  | r :: rest => do
    match (← Recorded.take note .step get).points[i]? with
    | none => return
    | some p =>
      if r == object.index || p.sets r then s.noteAssign note (.instr i) r (.reference n)
      s.noteInitialiseFrom note i object n rest

def noteApply (s : Subject) (note : Notes ν) (i : Nat) (instr : Instr) : Effect → Recorded ν Bool
  | .waiting => return false
  | .nothing => return true
  | .write t =>
    match instr.destination? with
    | none => throw (.noDestination instr.mnemonic)
    | some dst => do
      s.noteAssign note (.instr i) dst.index t
      return true
  | .initialise object n => do
    s.noteInitialiseFrom note i object n (List.range s.body.registers)
    return true

def noteTransfer (s : Subject) (note : Notes ν) (i : Nat) (p : Point) : Recorded ν Bool := do
  let st ← Recorded.take note .step get
  let e ← Recorded.take note (.rule p (previous? st i))
    (Step.ofRule (s.effect i p (previous? st i)))
  s.noteApply note i p.instr e

def noteAnalyse (s : Subject) (note : Notes ν) (i : Nat) : Recorded ν Bool := do
  match (← Recorded.take note .step get).points[i]? with
  | none => return true
  | some p =>
    if p.instr.hasStandardForm then
      match ← Recorded.take note .step (Step.ofRule (s.standardForm? p)) with
      | none => return false
      | some standard =>
        Recorded.take note .step (modify fun st => st.setInstr i standard)
        s.noteTransfer note i { p with instr := standard }
    else s.noteTransfer note i p

/-- One pass over the point at an index.  It is noted when it begins. -/
def notePass (s : Subject) (note : Notes ν) (i : Nat) : Recorded ν Bool := fun now =>
  match s.noteAnalyse note i
    ⟨restore now.state i, note (.pass i) now.state (restore now.state i) ++ now.log⟩ with
  | .ok done now => .ok done now
  | .error e now => .error (s.locate now.state i e) now

def noteRunFrom (s : Subject) (note : Notes ν) (limit : Nat) : Nat → Agenda → Recorded ν Unit
  | passes, agenda => do
    match agenda.take? (← Recorded.take note .step get).settled with
    | none => return
    | some (i, agenda) =>
      match passes with
      | 0 => throw (.iterationLimit limit)
      | passes + 1 =>
        let done ← s.notePass note i
        if done then Recorded.take note .step (modify fun st => st.settle i)
        s.noteRunFrom note limit passes (agenda.after i done (s.graph.successors (.instr i)))

def noteRun (s : Subject) (note : Notes ν) (passes? : Option Nat) : Recorded ν Unit :=
  s.noteRunFrom note (passLimit passes? s.body.lines.length s.body.registers)
    (passBound passes? s.body.lines.length s.body.registers)
    ⟨Worklist.empty.insertAll s.graph.entry, .empty, false⟩

def noteParams (s : Subject) (note : Notes ν) : Nat → List Ty → Recorded ν Unit
  | _, [] => return
  | r, ty :: rest => do
    let t ← Recorded.take note .step (Step.ofRule (Rule.known (RegType.ofTy ty)))
    s.noteAssign note .start r t
    s.noteParams note (r + ty.registerCount) rest

def noteReceiver (s : Subject) (note : Notes ν) (r : Nat) : Recorded ν Unit := do
  let n ← Recorded.take note .step (Step.ofRule (Rule.known (TypeNode.ofTy s.cls.ty)))
  s.noteAssign note .start r
    (if s.method.name = Instr.constructorName then .uninitThis n else .reference n)

def noteEnter (s : Subject) (note : Notes ν) (isStatic : Bool) (locals : Nat) :
    Recorded ν Unit := do
  if isStatic then s.noteParams note locals s.method.params
  else
    s.noteReceiver note locals
    s.noteParams note (locals + 1) s.method.params
  (List.range locals).forM fun r => s.noteAssign note .start r .uninit

/-- All steps of an analysis of a method whose first registers are locals.  The state they start
from is noted too. -/
def noteAll (s : Subject) (note : Notes ν) (isStatic : Bool) (locals : Nat)
    (passes? : Option Nat) : Recorded ν Unit := do
  s.noteEnter note isStatic locals
  s.noteRun note passes?
  Recorded.take note .step s.finish

end Subject

/-- Analyses a method of a class, and tells what was noted. -/
def noteMethod {ν : Type} (note : Notes ν) (cp : ClassPath) (options : Options) (cls : ClassDef)
    (method : MethodDef) (m : Memo) : EStateM.Result AnalysisError Memo Analysed × List ν :=
  match subjectOf cp options cls method with
  | .error e => (.error e m, [])
  | .ok (s, params) =>
    let first := State.initial s.body m
    match s.noteAll note method.isStatic (s.body.registers - params) options.passes?
      ⟨first, note .step first first⟩ with
    | .ok _ now => (.ok ⟨s, params, now.state.entry, now.state.points⟩ now.state.memo, now.log)
    | .error e now => (.error e now.state.memo, now.log)

/-! ## Forgetting the notes -/

namespace Record

variable {ν α : Type}

/-- A result without the notes. -/
def forget : EStateM.Result AnalysisError (Record ν) α → EStateM.Result AnalysisError State α
  | .ok a now => .ok a now.state
  | .error e now => .error e now.state

/-- What was noted when a computation has ended. -/
def notes : EStateM.Result AnalysisError (Record ν) α → List ν
  | .ok _ now => now.log
  | .error _ now => now.log

end Record

/-- The noted form of a step does what the step does, and adds to the notes. -/
def Recounts {ν α : Type} (y : Recorded ν α) (x : Step α) : Prop :=
  ∀ now, Record.forget (y now) = x now.state ∧ now.log <:+ Record.notes (y now)

namespace Recounts

variable {ν α β : Type} {y : Recorded ν α} {x : Step α}

/-- What was noted before a step is still noted after it. -/
theorem keeps (h : Recounts y x) (e : ν) : Keeps (fun now => e ∈ now.log) y := by
  intro now hnow
  have hlog := (h now).2
  cases hy : y now with
  | ok a now' =>
    rw [hy] at hlog
    exact hlog.subset hnow
  | error e now' =>
    rw [hy] at hlog
    exact hlog.subset hnow

/-- A noted step does what the step does. -/
theorem take (note : Notes ν) (act : Act) (x : Step α) : Recounts (Recorded.take note act x) x := by
  intro now
  simp only [Recorded.take]
  cases x now.state with
  | ok a st => exact ⟨rfl, List.suffix_append _ _⟩
  | error e st => exact ⟨rfl, List.suffix_append _ _⟩

/-- Doing nothing notes nothing. -/
theorem pure (a : α) : Recounts (Pure.pure a : Recorded ν α) (Pure.pure a) :=
  fun _ => ⟨rfl, List.suffix_rfl⟩

theorem throw (e : AnalysisError) :
    Recounts (MonadExcept.throw e : Recorded ν α) (MonadExcept.throw e) :=
  fun _ => ⟨rfl, List.suffix_rfl⟩

/-- Noted steps are put together as the steps are. -/
theorem bind {g : α → Recorded ν β} {f : α → Step β} (hy : Recounts y x)
    (hg : ∀ a, Recounts (g a) (f a)) : Recounts (y >>= g) (x >>= f) := by
  intro now
  obtain ⟨hforget, hlog⟩ := hy now
  rw [bind_apply, bind_apply, ← hforget]
  cases hnow : y now with
  | ok a now' =>
    rw [hnow] at hlog
    exact ⟨(hg a now').1, hlog.trans (hg a now').2⟩
  | error e now' =>
    rw [hnow] at hlog
    exact ⟨rfl, hlog⟩

theorem ite {c : Prop} [Decidable c] {y' : Recorded ν α} {x' : Step α} (h : Recounts y x)
    (h' : Recounts y' x') : Recounts (if c then y else y') (if c then x else x') := by
  split
  · exact h
  · exact h'

theorem foldlM {g : β → α → Recorded ν β} {f : β → α → Step β}
    (h : ∀ b a, Recounts (g b a) (f b a)) (as : List α) (b : β) :
    Recounts (as.foldlM g b) (as.foldlM f b) := by
  induction as generalizing b with
  | nil => exact pure b
  | cons a as ih =>
    rw [List.foldlM_cons, List.foldlM_cons]
    exact (h b a).bind ih

theorem forM {g : β → Recorded ν PUnit} {f : β → Step PUnit} (h : ∀ b, Recounts (g b) (f b))
    (bs : List β) : Recounts (bs.forM g) (bs.forM f) := by
  induction bs with
  | nil => exact pure _
  | cons b bs ih =>
    rw [List.forM_eq_forM, List.forM_eq_forM, List.forM_cons, List.forM_cons]
    exact (h b).bind fun _ => ih

end Recounts

namespace Subject

variable {ν : Type} (s : Subject) (note : Notes ν)

/-- Carrying a type on to the successors of a node. -/
theorem recounts_carry (n : NodeId) (r : Nat) (changed : Worklist) :
    Recounts (s.noteCarry note n r changed) (s.carry n r changed) := by
  refine (Recounts.take note .step get).bind fun st => ?_
  cases st.typeAfter? n r with
  | none => exact .pure _
  | some t => exact .foldlM (fun _ _ => .take _ _ _) _ _

/-- Carrying it on until nothing changes.  The induction is that of the loop. -/
theorem recounts_carryAll (r limit left : Nat) (changed : Worklist) :
    Recounts (s.noteCarryAll note r limit left changed) (s.carryAll r limit left changed) := by
  induction left generalizing changed with
  | zero =>
    rw [noteCarryAll, carryAll]
    cases changed.pop? with
    | none => exact .pure _
    | some next => exact .throw _
  | succ left ih =>
    rw [noteCarryAll, carryAll]
    cases changed.pop? with
    | none => exact .pure _
    | some next => exact (s.recounts_carry note _ r _).bind ih

/-- An assignment to one register, with all that follows from it. -/
theorem recounts_assignOne (n : NodeId) (r : Nat) (t : RegType) :
    Recounts (s.noteAssignOne note n r t) (s.assignOne n r t) :=
  (Recounts.take note .step get).bind fun _ => .ite (.pure _) <|
    (Recounts.take note .step _).bind fun _ => (s.recounts_carry note n r _).bind fun _ =>
      (s.recounts_carryAll note r _ _ _).bind fun _ => .pure _

theorem recounts_assign (n : NodeId) (r : Nat) (t : RegType) :
    Recounts (s.noteAssign note n r t) (s.assign n r t) := by
  refine .ite (.throw _) ((s.recounts_assignOne note n r t).bind fun new => .ite ?_ (.pure _))
  cases t.high? with
  | none => exact .pure _
  | some high =>
    refine .ite (.throw _) ?_
    rw [discard_eq, discard_eq]
    exact (s.recounts_assignOne note n (r + 1) high).bind fun _ => .pure _

/-- The copies of an object that was constructed. -/
theorem recounts_initialiseFrom (i : Nat) (object : Reg) (n : TypeNode) (rs : List Nat) :
    Recounts (s.noteInitialiseFrom note i object n rs) (s.initialiseFrom i object n rs) := by
  induction rs with
  | nil => exact .pure _
  | cons r rest ih =>
    refine (Recounts.take note .step get).bind fun st => ?_
    cases st.points[i]? with
    | none => exact .pure _
    | some p => exact .ite ((s.recounts_assign note _ r _).bind fun _ => ih) ih

/-- What a rule says about a point, case by case. -/
theorem recounts_apply (i : Nat) (instr : Instr) (e : Effect) :
    Recounts (s.noteApply note i instr e) (s.apply i instr e) := by
  cases e with
  | waiting => exact .pure _
  | nothing => exact .pure _
  | write t =>
    rw [noteApply, apply]
    cases instr.destination? with
    | none => exact .throw _
    | some dst => exact (s.recounts_assign note _ _ t).bind fun _ => .pure _
  | initialise object n =>
    exact (s.recounts_initialiseFrom note i object n _).bind fun _ => .pure _

theorem recounts_transfer (i : Nat) (p : Point) :
    Recounts (s.noteTransfer note i p) (s.transfer i p) :=
  (Recounts.take note .step get).bind fun _ => (Recounts.take note _ _).bind fun e =>
    s.recounts_apply note i p.instr e

/-- An attempt at a point, with its standard form or without. -/
theorem recounts_analyse (i : Nat) : Recounts (s.noteAnalyse note i) (s.analyse i) := by
  refine (Recounts.take note .step get).bind fun st => ?_
  cases st.points[i]? with
  | none => exact .pure _
  | some p =>
    refine .ite ((Recounts.take note .step _).bind fun form? => ?_) (s.recounts_transfer note i p)
    cases form? with
    | none => exact .pure _
    | some standard =>
      exact (Recounts.take note .step _).bind fun _ => s.recounts_transfer note i _

/-- A pass over a point, by the same cases as the pass. -/
theorem recounts_pass (i : Nat) : Recounts (s.notePass note i) (s.pass i) := by
  intro now
  -- the failure gets its place in both, and the notes are those of the analysis
  have h := s.recounts_analyse note i
    ⟨restore now.state i, note (.pass i) now.state (restore now.state i) ++ now.log⟩
  rw [notePass, pass, ← h.1]
  cases hnow : s.noteAnalyse note i
      ⟨restore now.state i, note (.pass i) now.state (restore now.state i) ++ now.log⟩ with
  | ok done now' =>
    rw [hnow] at h
    exact ⟨rfl, (List.suffix_append _ _).trans h.2⟩
  | error e now' =>
    rw [hnow] at h
    exact ⟨rfl, (List.suffix_append _ _).trans h.2⟩

/-- All passes.  The induction is on the passes that are left. -/
theorem recounts_runFrom (limit passes : Nat) (agenda : Agenda) :
    Recounts (s.noteRunFrom note limit passes agenda) (s.runFrom limit passes agenda) := by
  induction passes generalizing agenda with
  | zero =>
    rw [noteRunFrom, runFrom]
    refine (Recounts.take note .step get).bind fun st => ?_
    cases agenda.take? st.settled with
    | none => exact .pure _
    | some next => exact .throw _
  | succ passes ih =>
    rw [noteRunFrom, runFrom]
    refine (Recounts.take note .step get).bind fun st => ?_
    cases agenda.take? st.settled with
    | none => exact .pure _
    | some next =>
      exact (s.recounts_pass note next.1).bind fun done =>
        .ite ((Recounts.take note .step _).bind fun _ => ih _) (ih _)

/-- The parameters one by one. -/
theorem recounts_params (r : Nat) (params : List Ty) :
    Recounts (s.noteParams note r params) (s.enterParams r params) := by
  induction params generalizing r with
  | nil => exact .pure _
  | cons ty rest ih =>
    exact (Recounts.take note .step _).bind fun t =>
      (s.recounts_assign note .start r t).bind fun _ => ih _

theorem recounts_receiver (r : Nat) : Recounts (s.noteReceiver note r) (s.enterReceiver r) :=
  (Recounts.take note .step _).bind fun _ => s.recounts_assign note .start r _

/-- The types at the start of a method. -/
theorem recounts_enter (isStatic : Bool) (locals : Nat) :
    Recounts (s.noteEnter note isStatic locals) (s.enter isStatic locals) := by
  have hlocals : Recounts ((List.range locals).forM fun r => s.noteAssign note .start r .uninit)
      ((List.range locals).forM fun r => s.assign .start r .uninit) :=
    .forM (fun r => s.recounts_assign note .start r .uninit) _
  exact .ite ((s.recounts_params note locals _).bind fun _ => hlocals)
    ((s.recounts_receiver note locals).bind fun _ =>
      (s.recounts_params note (locals + 1) _).bind fun _ => hlocals)

/-- The whole analysis does what it does, noted or not. -/
theorem recounts_all (isStatic : Bool) (locals : Nat) (passes? : Option Nat) :
    Recounts (s.noteAll note isStatic locals passes?) (do
      s.enter isStatic locals
      s.run passes?
      s.finish) :=
  (s.recounts_enter note isStatic locals).bind fun _ =>
    (s.recounts_runFrom note _ _ _).bind fun _ => .take note .step s.finish

end Subject

/-- Apart from its notes, a noted analysis is the analysis. -/
theorem forget_noteMethod {ν : Type} (note : Notes ν) (cp : ClassPath) (options : Options)
    (cls : ClassDef) (method : MethodDef) (m : Memo) :
    (noteMethod note cp options cls method m).1 = analyseMethod cp options cls method m := by
  unfold noteMethod analyseMethod
  rw [bind_apply]
  cases subjectOf cp options cls method with
  | error e => rfl
  | ok found =>
    obtain ⟨s, params⟩ := found
    have h := (s.recounts_all note method.isStatic (s.body.registers - params) options.passes?
      ⟨.initial s.body m, note .step (.initial s.body m) (.initial s.body m)⟩).1
    simp only [Rule.lift]
    rw [← h]
    cases s.noteAll note method.isStatic (s.body.registers - params) options.passes?
      ⟨.initial s.body m, note .step (.initial s.body m) (.initial s.body m)⟩ <;> rfl

end Dalvik.Analysis
