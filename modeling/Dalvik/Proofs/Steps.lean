import Dalvik.Proofs.Spread

/-!
# The steps of an analysis

An analysis writes the types a method is entered with, analyses points until none is left, and
replaces what is left of the odexed instructions.  Each part is taken apart here once: a part
that succeeded has a list of the ways in which it can have done so.

`Subject.Invariant` has what a property of states has to survive.  What survives it holds of the
outcome of every analysis (`Invariant.analysed`).
-/

namespace Dalvik.Analysis

/-! ## Replacing an instruction -/

namespace State

variable {st : State} {i j r : Nat} {instr : Instr}

/-- Only the point at the index changes. -/
theorem setInstr_points :
    (st.setInstr i instr).points[j]? =
      if i = j then (st.points[j]?).map fun p => { p with instr := instr } else st.points[j]? := by
  simp only [setInstr, Array.getElem?_modify]

@[simp] theorem typeBefore?_setInstr :
    (st.setInstr i instr).typeBefore? j r = st.typeBefore? j r := by
  unfold typeBefore?
  rw [setInstr_points]
  split
  · cases st.points[j]? <;> rfl
  · rfl

@[simp] theorem typeAfter?_setInstr {n : NodeId} :
    (st.setInstr i instr).typeAfter? n r = st.typeAfter? n r := by
  cases n with
  | start => rfl
  | instr j =>
    simp only [typeAfter?]
    rw [setInstr_points]
    split
    · cases st.points[j]? <;> rfl
    · rfl

@[simp] theorem setInstr_frame : (st.setInstr i instr).frame = st.frame := by
  refine Prod.ext rfl (List.ext_getElem? fun j => ?_)
  simp only [frame, List.getElem?_map, Array.getElem?_toList]
  rw [setInstr_points]
  split
  · cases st.points[j]? <;> rfl
  · rfl

end State

/-! ## Standard forms -/

namespace Subject

variable {s : Subject} {p : Point} {form? : Option Instr} {m m' : Memo}

/-- The four kinds of instructions with a standard form. -/
theorem standardForm?_ok (h : s.standardForm? p m = .ok form? m') :
    (∃ dir w value object offset, p.instr = .instanceQuick dir w value object offset ∧
      s.quickField? p object offset m = .ok form? m') ∨
    (∃ dispatch args index, p.instr = .invokeQuick dispatch args index ∧
      s.quickCall? p dispatch args index m = .ok form? m') ∨
    (∃ args index, p.instr = .executeInline args index ∧
      (s.inlineCall args index).map some = .ok form? ∧ m' = m) ∨
    (p.instr.plainForm? = .ok form? ∧ m' = m) := by
  unfold Subject.standardForm? at h
  cases hi : p.instr with
  | instanceQuick dir w value object offset =>
    simp only [hi] at h
    exact .inl ⟨dir, w, value, object, offset, rfl, h⟩
  | invokeQuick dispatch args index =>
    simp only [hi] at h
    exact .inr (.inl ⟨dispatch, args, index, rfl, h⟩)
  | executeInline args index =>
    simp only [hi] at h
    exact .inr (.inr (.inl ⟨args, index, rfl, Rule.lift_ok.1 h⟩))
  | _ =>
    simp only [hi] at h
    exact .inr (.inr (.inr (Rule.lift_ok.1 h)))

/-- An odexed access gets its standard form from the field in the object. -/
theorem quickField?_ok {object : Reg} {offset : Nat} {instr : Instr}
    (h : s.quickField? p object offset m = .ok (some instr) m') :
    ∃ n m₁ f, receiverNode? p object m = .ok (some n) m₁ ∧ s.fieldAt n offset m₁ = .ok f m' ∧
      p.instr.accessField f = .ok instr := by
  unfold Subject.quickField? at h
  obtain ⟨n?, m₁, hn, h⟩ := bind_ok.1 h
  cases n? with
  | none => cases h
  | some n =>
    obtain ⟨f, m₂, hf, h⟩ := bind_ok.1 h
    obtain ⟨j, m₃, hj, h⟩ := bind_ok.1 h
    cases h
    obtain ⟨haccess, rfl⟩ := Rule.lift_ok.1 hj
    exact ⟨n, m₁, f, hn, hf, haccess⟩

/-- A call by vtable index gets its standard form from the class of its receiver. -/
theorem quickCall?_ok {dispatch : QuickDispatch} {args : Args} {index : Nat} {instr : Instr}
    (h : s.quickCall? p dispatch args index m = .ok (some instr) m') :
    ∃ object n m₁ method, args.first? = some object ∧
      receiverNode? p object m = .ok (some n) m₁ ∧
      s.quickMethod dispatch n index m₁ = .ok method m' ∧
      instr = .invoke dispatch.dispatch args method := by
  unfold Subject.quickCall? at h
  cases hfirst : args.first? with
  | none =>
    simp only [hfirst] at h
    cases h
  | some object =>
    simp only [hfirst] at h
    obtain ⟨n?, m₁, hn, h⟩ := bind_ok.1 h
    cases n? with
    | none => cases h
    | some n =>
      obtain ⟨method, m₂, hmethod, h⟩ := bind_ok.1 h
      cases h
      exact ⟨object, n, m₁, method, rfl, hn, hmethod, rfl⟩

end Subject

/-! ## One pass -/

namespace Subject

variable {s : Subject} {i : Nat} {p : Point} {done : Bool} {u : Unit} {st st' : State}

/-- The rule of an instruction is asked, and what it says is carried out. -/
theorem transfer_ok (h : s.transfer i p st = .ok done st') :
    ∃ e m, s.effect i p (previous? st i) st.memo = .ok e m ∧
      s.apply i p.instr e { st with memo := m } = .ok done st' := by
  unfold Subject.transfer at h
  obtain ⟨_, _, hget, h⟩ := bind_ok.1 h
  cases hget
  obtain ⟨e, _, heffect, h⟩ := bind_ok.1 h
  obtain ⟨m, hrule, rfl⟩ := Step.ofRule_ok.1 heffect
  exact ⟨e, m, hrule, h⟩

/-- The ways to carry out an effect. -/
theorem apply_ok {instr : Instr} {e : Effect} (h : s.apply i instr e st = .ok done st') :
    (e = .waiting ∧ done = false ∧ st' = st) ∨
    (e = .nothing ∧ done = true ∧ st' = st) ∨
    (∃ t dst, e = .write t ∧ instr.destination? = some dst ∧ done = true ∧
      s.assign (.instr i) dst.index t st = .ok () st') ∨
    ∃ object n, e = .initialise object n ∧ done = true ∧
      s.initialiseFrom i object n (List.range s.body.registers) st = .ok () st' := by
  cases e with
  | waiting =>
    cases h
    exact .inl ⟨rfl, rfl, rfl⟩
  | nothing =>
    cases h
    exact .inr (.inl ⟨rfl, rfl, rfl⟩)
  | write t =>
    simp only [Subject.apply] at h
    cases hdst : instr.destination? with
    | none =>
      simp only [hdst] at h
      cases h
    | some dst =>
      simp only [hdst] at h
      obtain ⟨_, _, hassign, h⟩ := bind_ok.1 h
      cases h
      exact .inr (.inr (.inl ⟨t, dst, rfl, rfl, rfl, hassign⟩))
  | initialise object n =>
    obtain ⟨_, _, hinit, h⟩ := bind_ok.1 h
    cases h
    exact .inr (.inr (.inr ⟨object, n, rfl, rfl, hinit⟩))

/-- What each assignment of a constructor call keeps, the call keeps.  `I` may speak of the
registers that are left.  None is left unless the point is gone. -/
theorem initialiseFrom_keeps {object : Reg} {n : TypeNode} {I : List Nat → State → Prop}
    (assign : ∀ {r rest p u st st'}, I (r :: rest) st → st.points[i]? = some p →
      (r == object.index || p.sets r) = true →
      s.assign (.instr i) r (.reference n) st = .ok u st' → I rest st')
    (skip : ∀ {r rest p st}, I (r :: rest) st → st.points[i]? = some p →
      (r == object.index || p.sets r) = false → I rest st) :
    ∀ {rs : List Nat} {u : Unit} {st st' : State}, I rs st →
      s.initialiseFrom i object n rs st = .ok u st' →
      ∃ rest, I rest st' ∧ (rest = [] ∨ st'.points[i]? = none)
  | [], _, _, _, hI, h => by
    cases h
    exact ⟨[], hI, .inl rfl⟩
  | r :: rest, u, st, st', hI, h => by
    unfold Subject.initialiseFrom at h
    obtain ⟨_, _, hget, h⟩ := bind_ok.1 h
    cases hget
    cases hp : st.points[i]? with
    | none =>
      simp only [hp] at h
      cases h
      exact ⟨r :: rest, hI, .inr hp⟩
    | some p =>
      simp only [hp] at h
      cases hr : r == object.index || p.sets r with
      | true =>
        simp only [hr, if_true] at h
        obtain ⟨_, st₁, hassign, h⟩ := bind_ok.1 h
        exact initialiseFrom_keeps assign skip (assign hI hp hr hassign) h
      | false =>
        simp only [hr, Bool.false_eq_true, if_false] at h
        exact initialiseFrom_keeps assign skip (skip hI hp hr) h

/-- The ways to analyse a point. -/
theorem analyse_ok (h : s.analyse i st = .ok done st') :
    (st.points[i]? = none ∧ done = true ∧ st' = st) ∨
    ∃ p, st.points[i]? = some p ∧
      ((p.instr.hasStandardForm = true ∧ ∃ m, s.standardForm? p st.memo = .ok none m ∧
          done = false ∧ st' = { st with memo := m }) ∨
        (p.instr.hasStandardForm = true ∧ ∃ standard m,
          s.standardForm? p st.memo = .ok (some standard) m ∧
          s.transfer i { p with instr := standard }
            (({ st with memo := m } : State).setInstr i standard) = .ok done st') ∨
        (p.instr.hasStandardForm = false ∧ s.transfer i p st = .ok done st')) := by
  unfold Subject.analyse at h
  obtain ⟨_, _, hget, h⟩ := bind_ok.1 h
  cases hget
  cases hp : st.points[i]? with
  | none =>
    simp only [hp] at h
    cases h
    exact .inl ⟨rfl, rfl, rfl⟩
  | some p =>
    refine .inr ⟨p, rfl, ?_⟩
    simp only [hp] at h
    cases hform : p.instr.hasStandardForm with
    | false =>
      simp only [hform, Bool.false_eq_true, if_false] at h
      exact .inr (.inr ⟨rfl, h⟩)
    | true =>
      simp only [hform, if_true] at h
      obtain ⟨form?, _, hstep, h⟩ := bind_ok.1 h
      obtain ⟨m, hrule, rfl⟩ := Step.ofRule_ok.1 hstep
      cases form? with
      | none =>
        cases h
        exact .inl ⟨rfl, m, hrule, rfl, rfl⟩
      | some standard =>
        obtain ⟨_, _, hmodify, h⟩ := bind_ok.1 h
        cases hmodify
        exact .inr (.inl ⟨rfl, standard, m, hrule, h⟩)

/-- A pass restores the point and analyses it. -/
theorem pass_ok (h : s.pass i st = .ok done st') :
    s.analyse i (restore st i) = .ok done st' := by
  unfold Subject.pass at h
  cases ha : s.analyse i (restore st i) with
  | ok done₁ st₁ =>
    rw [ha] at h
    exact h
  | error e st₁ =>
    rw [ha] at h
    cases h

/-! ## All passes -/

/-- What each pass keeps, a run keeps, and no point is left to be taken in the end. -/
theorem runFrom_keeps {I : Agenda → State → Prop}
    (step : ∀ {agenda rest i done st st'}, I agenda st → agenda.take? st.settled = some (i, rest) →
      s.pass i st = .ok done st' →
      I (rest.after i done (s.graph.successors (.instr i))) (if done then st'.settle i else st')) :
    ∀ {passes limit : Nat} {agenda : Agenda} {u : Unit} {st st' : State}, I agenda st →
      s.runFrom limit passes agenda st = .ok u st' →
      ∃ agenda', I agenda' st' ∧ agenda'.take? st'.settled = none := by
  intro passes
  induction passes with
  | zero =>
    intro limit agenda u st st' hI h
    unfold Subject.runFrom at h
    obtain ⟨_, _, hget, h⟩ := bind_ok.1 h
    cases hget
    cases htake : agenda.take? st.settled with
    | none =>
      simp only [htake] at h
      cases h
      exact ⟨agenda, hI, htake⟩
    | some next =>
      simp only [htake] at h
      cases h
  | succ passes ih =>
    intro limit agenda u st st' hI h
    unfold Subject.runFrom at h
    obtain ⟨_, _, hget, h⟩ := bind_ok.1 h
    cases hget
    cases htake : agenda.take? st.settled with
    | none =>
      simp only [htake] at h
      cases h
      exact ⟨agenda, hI, htake⟩
    | some next =>
      obtain ⟨i, rest⟩ := next
      simp only [htake] at h
      obtain ⟨done, st₁, hpass, h⟩ := bind_ok.1 h
      have hI₁ := step hI htake hpass
      cases done with
      | false =>
        exact ih hI₁ h
      | true =>
        obtain ⟨_, _, hmodify, h⟩ := bind_ok.1 h
        cases hmodify
        exact ih hI₁ h

/-! ## Before and after -/

/-- What assignments of the types of parameters keep, entering them keeps. -/
theorem enterParams_keeps {I : State → Prop}
    (assign : ∀ {r ty t u st st'}, I st → RegType.ofTy ty = .ok t →
      s.assign .start r t st = .ok u st' → I st') :
    ∀ {params : List Ty} {r : Nat} {u : Unit} {st st' : State}, I st →
      s.enterParams r params st = .ok u st' → I st'
  | [], _, _, _, _, hI, h => by
    cases h
    exact hI
  | ty :: rest, r, u, st, st', hI, h => by
    unfold Subject.enterParams at h
    obtain ⟨t, _, hty, h⟩ := bind_ok.1 h
    obtain ⟨m, hrule, rfl⟩ := Step.ofRule_ok.1 hty
    obtain ⟨ht, rfl⟩ := Rule.known_ok.1 hrule
    obtain ⟨_, st₁, hassign, h⟩ := bind_ok.1 h
    exact enterParams_keeps assign (assign hI ht hassign) h

/-- The receiver is entered by one assignment. -/
theorem enterReceiver_ok {r : Nat} (h : s.enterReceiver r st = .ok u st') :
    ∃ n, TypeNode.ofTy s.cls.ty = .ok n ∧ s.assign .start r
      (if s.method.name = Instr.constructorName then .uninitThis n else .reference n) st =
        .ok u st' := by
  unfold Subject.enterReceiver at h
  obtain ⟨n, _, hty, h⟩ := bind_ok.1 h
  obtain ⟨m, hrule, rfl⟩ := Step.ofRule_ok.1 hty
  obtain ⟨hn, rfl⟩ := Rule.known_ok.1 hrule
  exact ⟨n, hn, h⟩

/-- The receiver is written first, then the parameters and the other registers. -/
theorem enter_keeps_from {I : State → Prop} {isStatic : Bool} {locals : Nat}
    (param : ∀ {r ty t u st st'}, I st → RegType.ofTy ty = .ok t →
      s.assign .start r t st = .ok u st' → I st')
    (receiver : ∀ {r n u st'}, TypeNode.ofTy s.cls.ty = .ok n → s.assign .start r
      (if s.method.name = Instr.constructorName then .uninitThis n else .reference n) st =
        .ok u st' → I st')
    (uninit : ∀ {r u st st'}, I st → s.assign .start r .uninit st = .ok u st' → I st')
    (h : s.enter isStatic locals st = .ok u st') (hI : I st) : I st' := by
  unfold Subject.enter at h
  cases isStatic with
  | true =>
    obtain ⟨_, st₁, hparams, h⟩ := bind_ok.1 h
    exact forM_keeps (fun r _ => uninit) (enterParams_keeps param hI hparams) h
  | false =>
    obtain ⟨_, st₁, hreceiver, h⟩ := bind_ok.1 h
    obtain ⟨n, hn, hassign⟩ := enterReceiver_ok hreceiver
    obtain ⟨_, st₂, hparams, h⟩ := bind_ok.1 h
    exact forM_keeps (fun r _ => uninit)
      (enterParams_keeps param (receiver hn hassign) hparams) h

/-- What the assignments after the start node keep, entering a method keeps. -/
theorem enter_keeps {I : State → Prop} {isStatic : Bool} {locals : Nat}
    (param : ∀ {r ty t u st st'}, I st → RegType.ofTy ty = .ok t →
      s.assign .start r t st = .ok u st' → I st')
    (receiver : ∀ {r n u st st'}, I st → TypeNode.ofTy s.cls.ty = .ok n → s.assign .start r
      (if s.method.name = Instr.constructorName then .uninitThis n else .reference n) st =
        .ok u st' → I st')
    (uninit : ∀ {r u st st'}, I st → s.assign .start r .uninit st = .ok u st' → I st')
    (h : s.enter isStatic locals st = .ok u st') (hI : I st) : I st' :=
  enter_keeps_from param (fun hn hassign => receiver hI hn hassign) uninit h hI

/-- Finishing replaces the odexed instruction at the first index and goes on. -/
theorem finishFrom_cons {is : List Nat} (h : s.finishFrom (i :: is) st = .ok u st') :
    (st.points[i]? = none ∧ st' = st) ∨
    ∃ p, st.points[i]? = some p ∧
      ((p.instr.odexOnly = false ∧ s.finishFrom is st = .ok u st') ∨
        (p.instr.odexOnly = true ∧ ∃ instr, p.instr.finalForm = .ok instr ∧
          s.finishFrom is (st.setInstr i instr) = .ok u st')) := by
  unfold Subject.finishFrom at h
  obtain ⟨_, _, hget, h⟩ := bind_ok.1 h
  cases hget
  cases hp : st.points[i]? with
  | none =>
    simp only [hp] at h
    cases h
    exact .inl ⟨rfl, rfl⟩
  | some p =>
    refine .inr ⟨p, rfl, ?_⟩
    simp only [hp] at h
    cases hodex : p.instr.odexOnly with
    | false =>
      simp only [hodex, Bool.false_eq_true, if_false] at h
      exact .inl ⟨rfl, h⟩
    | true =>
      simp only [hodex, if_true] at h
      cases hform : p.instr.finalForm with
      | error e =>
        simp only [hform] at h
        obtain ⟨_, _, hthrow, _⟩ := bind_ok.1 h
        cases hthrow
      | ok instr =>
        simp only [hform] at h
        obtain ⟨_, _, hset, h⟩ := bind_ok.1 h
        cases hset
        exact .inr ⟨rfl, instr, rfl, h⟩

/-- What the last replacements keep, finishing keeps. -/
theorem finishFrom_keeps {I : State → Prop}
    (final : ∀ {i p instr st}, I st → st.points[i]? = some p → p.instr.odexOnly = true →
      p.instr.finalForm = .ok instr → I (st.setInstr i instr)) :
    ∀ {is : List Nat} {u : Unit} {st st' : State}, I st →
      s.finishFrom is st = .ok u st' → I st'
  | [], _, _, _, hI, h => by
    cases h
    exact hI
  | i :: rest, u, st, st', hI, h => by
    obtain ⟨_, rfl⟩ | ⟨p, hp, ⟨_, h⟩ | ⟨hodex, instr, hform, h⟩⟩ := finishFrom_cons h
    · exact hI
    · exact finishFrom_keeps final hI h
    · exact finishFrom_keeps final (final hI hp hodex hform) h

end Subject

/-- What is analysed of a method with a body, and how many registers its receiver and parameters
take. -/
theorem subjectOf_parts {cp : ClassPath} {options : Options} {cls : ClassDef} {method : MethodDef}
    {s : Subject} {params : Nat} (h : subjectOf cp options cls method = .ok (s, params)) :
    ∃ body graph, method.body? = some body ∧ FlowGraph.build body = .ok graph ∧
      s = ⟨cp, options.inline?, cls, method.ref cls.ty, body, graph⟩ ∧
      params = (method.ref cls.ty).paramRegisters + (if method.isStatic then 0 else 1) ∧
      params ≤ body.registers := by
  unfold subjectOf at h
  cases hbody : method.body? with
  | none =>
    simp only [hbody] at h
    cases h
  | some body =>
    simp only [hbody] at h
    generalize (method.ref cls.ty).paramRegisters + (if method.isStatic then 0 else 1) = n at h ⊢
    split at h
    · cases h
    · next hfit =>
      cases hgraph : FlowGraph.build body with
      | error e =>
        simp only [hgraph] at h
        cases h
      | ok graph =>
        simp only [hgraph] at h
        cases h
        exact ⟨body, graph, rfl, hgraph, rfl, rfl, Nat.le_of_not_lt hfit⟩

theorem subjectOf_ok {cp : ClassPath} {options : Options} {cls : ClassDef} {method : MethodDef}
    {s : Subject} {params : Nat} (h : subjectOf cp options cls method = .ok (s, params)) :
    ∃ body graph, method.body? = some body ∧ FlowGraph.build body = .ok graph ∧
      s = ⟨cp, options.inline?, cls, method.ref cls.ty, body, graph⟩ := by
  obtain ⟨body, graph, hbody, hgraph, hs, _⟩ := subjectOf_parts h
  exact ⟨body, graph, hbody, hgraph, hs⟩

/-- The parts of a successful analysis. -/
theorem analyseMethod_steps {cp : ClassPath} {options : Options} {cls : ClassDef}
    {method : MethodDef} {m m' : Memo} {a : Analysed}
    (h : analyseMethod cp options cls method m = .ok a m') :
    subjectOf cp options cls method = .ok (a.subject, a.paramRegisters) ∧
      ∃ passes? settled st₁ st₂,
        a.subject.enter method.isStatic (a.subject.body.registers - a.paramRegisters)
          (.initial a.subject.body m) = .ok () st₁ ∧
        a.subject.run passes? st₁ = .ok () st₂ ∧
        a.subject.finish st₂ = .ok () ⟨m', a.entry, a.points, settled⟩ := by
  unfold analyseMethod at h
  obtain ⟨⟨s, params⟩, m₁, hlift, hsteps⟩ := bind_ok.1 h
  obtain ⟨hsubject, hm⟩ := Rule.lift_ok.1 hlift
  subst hm
  simp only at hsteps
  split at hsteps
  · next st hdo =>
    cases hsteps
    obtain ⟨_, st₁, henter, hdo⟩ := bind_ok.1 hdo
    obtain ⟨_, st₂, hrun, hfinish⟩ := bind_ok.1 hdo
    exact ⟨hsubject, _, st.settled, st₁, st₂, henter, hrun, hfinish⟩
  · cases hsteps

theorem analyseMethod_ok {cp : ClassPath} {options : Options} {cls : ClassDef}
    {method : MethodDef} {m m' : Memo} {a : Analysed}
    (h : analyseMethod cp options cls method m = .ok a m') :
    subjectOf cp options cls method = .ok (a.subject, a.paramRegisters) ∧
      ∃ isStatic locals passes? settled st₁ st₂,
        a.subject.enter isStatic locals (.initial a.subject.body m) = .ok () st₁ ∧
        a.subject.run passes? st₁ = .ok () st₂ ∧
        a.subject.finish st₂ = .ok () ⟨m', a.entry, a.points, settled⟩ := by
  obtain ⟨hsubject, passes?, settled, st₁, st₂, hsteps⟩ := analyseMethod_steps h
  exact ⟨hsubject, _, _, passes?, settled, st₁, st₂, hsteps⟩

/-! ## Invariants -/

/-- A property of all types that an effect writes. -/
def Effect.Writes (Q : RegType → Prop) : Effect → Prop
  | .nothing | .waiting => True
  | .write t => Q t
  | .initialise _ n => Q (.reference n)

/-- What a property of the states of an analysis has to survive, where `Q` holds of the types
that are assigned. -/
structure Subject.Invariant (s : Subject) (Q : RegType → Prop) (I : State → Prop) : Prop where
  /-- An assignment. -/
  assign : ∀ {n r t u st st'}, I st → Q t → s.assign n r t st = .ok u st' → I st'
  /-- The question what an instruction does. -/
  effect : ∀ {i : Nat} {p e m st}, I st → st.points[i]? = some p →
    s.effect i p (Subject.previous? st i) st.memo = .ok e m → I { st with memo := m } ∧ e.Writes Q
  /-- The question for a standard form that is not known yet. -/
  wait : ∀ {i : Nat} {p m st}, I st → st.points[i]? = some p →
    s.standardForm? p st.memo = .ok none m → I { st with memo := m }
  /-- A standard form in the place of an instruction. -/
  standard : ∀ {i : Nat} {p instr m st}, I st → st.points[i]? = some p →
    p.instr.hasStandardForm = true → s.standardForm? p st.memo = .ok (some instr) m →
    I (({ st with memo := m } : State).setInstr i instr)
  /-- The given instruction in the place of its standard form. -/
  restore : ∀ {i st}, I st → I (Subject.restore st i)
  /-- The note that a point was analysed. -/
  settle : ∀ {i st}, I st → I (st.settle i)
  /-- The last form of an odexed instruction. -/
  final : ∀ {i : Nat} {p instr st}, I st → st.points[i]? = some p → p.instr.odexOnly = true →
    p.instr.finalForm = .ok instr → I (st.setInstr i instr)
  /-- Parameters are assigned. -/
  param : ∀ {ty t}, RegType.ofTy ty = .ok t → Q t
  /-- The receiver is assigned. -/
  receiver : ∀ {n}, TypeNode.ofTy s.cls.ty = .ok n → Q (.uninitThis n) ∧ Q (.reference n)
  /-- Other registers are empty. -/
  uninit : Q .uninit

namespace Subject.Invariant

variable {s : Subject} {Q : RegType → Prop} {I : State → Prop} {i : Nat} {p : Point} {u : Unit}
  {done : Bool} {st st' : State}

/-- An invariant survives an effect. -/
theorem apply (hI : Invariant s Q I) {instr : Instr} {e : Effect} (hst : I st) (he : e.Writes Q)
    (h : s.apply i instr e st = .ok done st') : I st' := by
  obtain ⟨_, _, rfl⟩ | ⟨_, _, rfl⟩ | ⟨t, dst, rfl, _, _, hassign⟩ | ⟨object, n, rfl, _, hinit⟩ :=
    apply_ok h
  · exact hst
  · exact hst
  · exact hI.assign hst he hassign
  · obtain ⟨_, hst', _⟩ := initialiseFrom_keeps (I := fun _ st => I st)
      (fun hst _ _ hassign => hI.assign hst he hassign) (fun hst _ _ => hst) hst hinit
    exact hst'

/-- An invariant survives the rule of an instruction. -/
theorem transfer (hI : Invariant s Q I) (hst : I st) (hp : st.points[i]? = some p)
    (h : s.transfer i p st = .ok done st') : I st' := by
  obtain ⟨e, m, heffect, happly⟩ := transfer_ok h
  obtain ⟨hst₁, he⟩ := hI.effect hst hp heffect
  exact hI.apply hst₁ he happly

/-- An invariant survives a pass. -/
theorem pass (hI : Invariant s Q I) (hst : I st) (h : s.pass i st = .ok done st') : I st' := by
  obtain ⟨_, _, rfl⟩ | ⟨p, hp, ⟨_, m, hform, _, rfl⟩ | ⟨hhas, instr, m, hform, h⟩ | ⟨_, h⟩⟩ :=
    analyse_ok (pass_ok h)
  · exact hI.restore hst
  · exact hI.wait (hI.restore hst) hp hform
  · refine hI.transfer (hI.standard (hI.restore hst) hp hhas hform) ?_ h
    rw [State.setInstr_points, if_pos rfl]
    exact congrArg (Option.map _) hp
  · exact hI.transfer (hI.restore hst) hp h

/-- An invariant holds of the outcome of an analysis. -/
theorem analysed {cp : ClassPath} {options : Options} {cls : ClassDef} {method : MethodDef}
    {m m' : Memo} {a : Analysed} (h : analyseMethod cp options cls method m = .ok a m')
    (hI : Invariant a.subject Q I) (hst : I (.initial a.subject.body m)) :
    ∃ settled, I ⟨m', a.entry, a.points, settled⟩ := by
  obtain ⟨_, isStatic, locals, limit, settled, st₁, st₂, henter, hrun, hfinish⟩ :=
    analyseMethod_ok h
  have hst₁ : I st₁ := by
    refine enter_keeps ?_ ?_ ?_ henter hst
    · exact fun hst ht hassign => hI.assign hst (hI.param ht) hassign
    · intro r n u st st' hst hn hassign
      refine hI.assign hst ?_ hassign
      split
      · exact (hI.receiver hn).1
      · exact (hI.receiver hn).2
    · exact fun hst hassign => hI.assign hst hI.uninit hassign
  have hst₂ : I st₂ := by
    have hrun := runFrom_keeps (I := fun _ st => I st) ?_ hst₁ hrun
    · exact hrun.elim fun _ hst₂ => hst₂.1
    · intro agenda rest i done st st' hst _ hpass
      have hst' := hI.pass hst hpass
      cases done with
      | false => exact hst'
      | true => exact hI.settle hst'
  exact ⟨settled, finishFrom_keeps hI.final hst₂ hfinish⟩

end Subject.Invariant

/-! ## Analysed methods -/

namespace Analysed

/-- The type of a register before an instruction. -/
def typeBefore? (a : Analysed) (i r : Nat) : Option RegType :=
  (a.points[i]?).bind fun p => p.before[r]?

/-- The type of a register after a node. -/
def typeAfter? (a : Analysed) (n : NodeId) (r : Nat) : Option RegType :=
  match n with
  | .start => a.entry[r]?
  | .instr i => (a.points[i]?).bind fun p => p.after[r]?

/-- The state in which an analysis ended. -/
def final (a : Analysed) (m : Memo) (settled : Worklist) : State := ⟨m, a.entry, a.points, settled⟩

end Analysed

/-- No step of an analysis changes the frame. -/
theorem Subject.frame_invariant (s : Subject) (st₀ : State) :
    s.Invariant (fun _ => True) (fun st => st.frame = st₀.frame) where
  assign h _ hassign := (frame_of_assign hassign).1.trans h
  effect := by
    intro i p e m st h _ _
    exact ⟨h, by cases e <;> trivial⟩
  wait h _ _ := h
  standard h _ _ _ := State.setInstr_frame.trans h
  restore := by
    intro i st h
    unfold restore
    split
    · split
      · exact State.setInstr_frame.trans h
      · exact h
    · exact h
  settle h := h
  final h _ _ _ := State.setInstr_frame.trans h
  param _ := trivial
  receiver _ := ⟨trivial, trivial⟩
  uninit := trivial

section Analysed

variable {cp : ClassPath} {options : Options} {cls : ClassDef} {method : MethodDef} {m m' : Memo}
  {a : Analysed}

/-- An analysed method has a point for each line of its body, with types for all registers. -/
theorem points_of_analysed (h : analyseMethod cp options cls method m = .ok a m') :
    a.entry.size = a.subject.body.registers ∧
      ∀ i < a.subject.body.lines.length, ∃ p, a.points[i]? = some p ∧
        p.before.size = a.subject.body.registers ∧ p.after.size = a.subject.body.registers := by
  obtain ⟨settled, hframe⟩ := Subject.Invariant.analysed h (Subject.frame_invariant _ _) rfl
  constructor
  · have hsize := congrArg Prod.fst hframe
    simpa [State.frame, State.initial] using hsize
  · intro i hi
    have hpoint := congrArg (fun f => f.2[i]?) hframe
    simp only [State.frame, State.initial, List.getElem?_map, Array.getElem?_toList,
      List.getElem?_eq_getElem hi, Option.map_some] at hpoint
    obtain ⟨p, hp, hq⟩ := Option.map_eq_some_iff.1 hpoint
    simp only [Prod.mk.injEq, Point.ofLine, Array.size_replicate] at hq
    exact ⟨p, hp, hq.2.2⟩

/-- The graph of an analysed method is that of its body. -/
theorem graph_of_analysed (h : analyseMethod cp options cls method m = .ok a m') :
    FlowGraph.build a.subject.body = .ok a.subject.graph ∧ a.subject.classPath = cp := by
  obtain ⟨hsubject, _⟩ := analyseMethod_ok h
  obtain ⟨body, graph, _, hgraph, hs⟩ := subjectOf_ok hsubject
  rw [hs]
  exact ⟨hgraph, rfl⟩

/-- Every register has a type before every instruction. -/
theorem exists_typeBefore? {i r : Nat} (h : analyseMethod cp options cls method m = .ok a m')
    (hi : i < a.subject.body.lines.length) (hr : r < a.subject.body.registers) :
    ∃ t, a.typeBefore? i r = some t := by
  obtain ⟨p, hp, hbefore, _⟩ := (points_of_analysed h).2 i hi
  exact ⟨p.before[r], by simp [Analysed.typeBefore?, hp, hbefore, hr]⟩

/-- Every register has a type after every node. -/
theorem exists_typeAfter? {n : NodeId} {k r : Nat}
    (h : analyseMethod cp options cls method m = .ok a m')
    (hk : k ∈ a.subject.graph.successors n) (hr : r < a.subject.body.registers) :
    ∃ t, a.typeAfter? n r = some t := by
  obtain ⟨hentry, hpoints⟩ := points_of_analysed h
  cases n with
  | start => exact ⟨a.entry[r], by simp [Analysed.typeAfter?, hentry, hr]⟩
  | instr i =>
    have hi := FlowGraph.lt_of_mem_successors (graph_of_analysed h).1 hk
    obtain ⟨p, hp, _, hafter⟩ := hpoints i hi
    exact ⟨p.after[r], by simp [Analysed.typeAfter?, hp, hafter, hr]⟩

end Analysed

end Dalvik.Analysis
