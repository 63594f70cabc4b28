import Dalvik.Proofs.Steps
import Mathlib.Data.List.Forall2

/-!
# The types a method is entered with

The receiver and the parameters of a method are in its last registers, one after another, and a
wide parameter takes two of them.  The other registers hold nothing.  Entering a method writes all
this register by register, from left to right in a row that was empty at first
(`Subject.entry_of_assign`).

What is carried on never gets back to the start node, and passes only write after instructions.  So
the types a method is entered with stay as they were written (`entry_of_analysed`), and they are
those of its prototype (`entry_matches_prototype`).
-/

namespace Dalvik

/-- The types of the registers that hold a value.  The second half of a wide value has one of its
own. -/
def RegType.spanned (t : RegType) : List RegType := t :: t.high?.toList

/-- The types of the registers that hold a parameter. -/
def Ty.registerTypes (ty : Ty) : List RegType :=
  match RegType.ofTy ty with
  | .ok t => t.spanned
  | .error _ => []

/-- The types of the registers that a parameter of a type fills: one value, or both halves of a wide
one. -/
inductive Ty.Fills : Ty → List RegType → Prop where
  | long : Fills .long [.half .longLo, .half .longHi]
  | double : Fills .double [.half .doubleLo, .half .doubleHi]
  | narrow {ty : Ty} {t : RegType} (hwide : ty.isWide = false) (h : RegType.ofTy ty = .ok t) :
    Fills ty [t]

/-- The number of registers that some parameters take. -/
def registersOf (params : List Ty) : Nat := params.foldr (fun t n => t.registerCount + n) 0

/-- A parameter fills the registers of its type, one or two. -/
theorem Ty.registerTypes_of_ofTy {ty : Ty} {t : RegType} (h : RegType.ofTy ty = .ok t) :
    ty.registerTypes = t.spanned ∧ t.spanned.length = ty.registerCount := by
  refine ⟨by rw [registerTypes, h], ?_⟩
  cases ty with
  | void => cases h
  | cls | array =>
    obtain ⟨_, _, rfl⟩ := except_map_ok.1 h
    rfl
  | _ =>
    cases h
    rfl

theorem Ty.fills_registerTypes {ty : Ty} {t : RegType} (h : RegType.ofTy ty = .ok t) :
    ty.Fills ty.registerTypes := by
  rw [(registerTypes_of_ofTy h).1]
  cases ty with
  | void => cases h
  | long =>
    cases h
    exact .long
  | double =>
    cases h
    exact .double
  | cls | array =>
    obtain ⟨n, _, rfl⟩ := except_map_ok.1 h
    exact .narrow rfl h
  | _ =>
    cases h
    exact .narrow rfl rfl

/-- Parameters fill as many registers as they take. -/
theorem length_flatMap_registerTypes {params : List Ty}
    (h : ∀ ty ∈ params, ∃ t, RegType.ofTy ty = .ok t) :
    (params.flatMap Ty.registerTypes).length = registersOf params := by
  induction params with
  | nil => rfl
  | cons ty params ih =>
    obtain ⟨⟨t, ht⟩, hparams⟩ := List.forall_mem_cons.1 h
    obtain ⟨htypes, hlength⟩ := Ty.registerTypes_of_ofTy ht
    rw [List.flatMap_cons, List.length_append, htypes, hlength, ih hparams]
    rfl

namespace Analysis

namespace Subject

variable {s : Subject} {P : RegType → Prop} {n : NodeId} {i r : Nat} {t : RegType} {u : Unit}
  {new done : Bool} {sources : List NodeId} {st st' : State}

/-! ## Assignments -/

/-- Carrying a type on does not touch the types of the start node. -/
theorem Spread.entry (h : Spread s P r n st sources st') : st'.entry = st.entry := by
  induction h with
  | start => rfl
  | step _ _ _ _ hreceived ih =>
    cases hreceived with
    | absent | same | raised => exact ih

/-- An assignment touches the types of the start node only where it is told to. -/
theorem entry_of_assignOne (h : s.assignOne n r t st = .ok new st') :
    st'.entry = (st.setAfter n r t).entry := by
  cases new with
  | true =>
    obtain ⟨_, hspread⟩ := spread_of_assignOne (P := fun _ => True) (fun _ _ => trivial) trivial h
    exact hspread.entry
  | false =>
    obtain ⟨_, ht, rfl⟩ | ⟨hfalse, _⟩ := assignOne_ok h
    · cases n with
      | instr i => rfl
      | start =>
        obtain ⟨hr, rfl⟩ := Array.getElem?_eq_some_iff.1 ht
        simp [State.setAfter, Array.setIfInBounds, hr]
    · cases hfalse

/-- Assignments behind instructions do not touch them. -/
theorem entry_of_assign_instr (h : s.assign (.instr i) r t st = .ok u st') :
    st'.entry = st.entry := by
  refine assign_keeps (I := fun st' => st'.entry = st.entry) ?_ rfl h
  intro x t' new st₁ st₂ _ hI hone
  have hset : (st₁.setAfter (.instr i) x t').entry = st₁.entry := rfl
  rw [entry_of_assignOne hone, hset, hI]

theorem toList_entry_of_assignOne (h : s.assignOne .start r t st = .ok new st') :
    st'.entry.toList = st.entry.toList.set r t := by
  rw [entry_of_assignOne h]
  exact Array.toList_setIfInBounds

/-- A value fills the first of the empty registers. -/
theorem entry_of_assign {before : List RegType} (rest : List RegType) (k : Nat)
    (h : s.assign .start before.length t st = .ok u st') (hentry : st.entry.toList =
      before ++ (List.replicate (t.spanned.length + k) .unknown ++ rest)) :
    st'.entry.toList = before ++ (t.spanned ++ (List.replicate k .unknown ++ rest)) := by
  obtain ⟨_, new, st₁, hone, hrest⟩ := assign_cases h
  have hfirst := toList_entry_of_assignOne hone
  rw [hentry] at hfirst
  cases hhigh : t.high? with
  | none =>
    obtain ⟨_, rfl⟩ | ⟨_, _, _, hsome, _⟩ := hrest
    · rw [hfirst]
      simp [RegType.spanned, hhigh, Nat.add_comm 1 k, List.replicate_succ]
    · cases hhigh.symm.trans hsome
  | some high =>
    obtain ⟨hor, rfl⟩ | ⟨_, _, _, hsome, _, hsecond⟩ := hrest
    · -- The first half cannot have been there, for the register was empty.
      obtain rfl := hor.resolve_right (by simp [hhigh])
      obtain ⟨_, hsame, _⟩ | ⟨hfalse, _⟩ := assignOne_ok hone
      · have hempty : st.entry.toList[before.length]? = some .unknown := by
          rw [hentry]
          simp [RegType.spanned, Nat.add_right_comm _ 1 k, List.replicate_succ]
        cases (Array.getElem?_toList ▸ hempty).symm.trans hsame
        cases hhigh
      · cases hfalse
    · cases hhigh.symm.trans hsome
      rw [toList_entry_of_assignOne hsecond, hfirst]
      simp [RegType.spanned, hhigh, Nat.add_comm 2 k, List.replicate_succ]

/-! ## Entering -/

/-- The type of the receiver of a method that has one. -/
def receiverTypes (s : Subject) (isStatic : Bool) : List RegType :=
  if isStatic then []
  else
    match TypeNode.ofTy s.cls.ty with
    | .ok n => [if s.method.name = Instr.constructorName then .uninitThis n else .reference n]
    | .error _ => []

/-- The parameters are written one after the other, from a register on. -/
theorem entry_of_enterParams :
    ∀ {params : List Ty} {before : List RegType} {u : Unit} {st st' : State},
      s.enterParams before.length params st = .ok u st' →
      st.entry.toList = before ++ List.replicate (registersOf params) .unknown →
      st'.entry.toList = before ++ params.flatMap Ty.registerTypes ∧
        ∀ ty ∈ params, ∃ t, RegType.ofTy ty = .ok t
  | [], _, _, _, _, h, hentry => by
    cases h
    exact ⟨hentry, fun _ hty => by cases hty⟩
  | ty :: params, before, u, st, st', h, hentry => by
    unfold Subject.enterParams at h
    obtain ⟨t, _, hty, h⟩ := bind_ok.1 h
    obtain ⟨m, hrule, rfl⟩ := Step.ofRule_ok.1 hty
    obtain ⟨ht, rfl⟩ := Rule.known_ok.1 hrule
    obtain ⟨_, st₁, hassign, h⟩ := bind_ok.1 h
    obtain ⟨htypes, hlength⟩ := Ty.registerTypes_of_ofTy ht
    have hentry₁ := entry_of_assign [] (registersOf params) hassign
      (by rw [hlength, List.append_nil]; exact hentry)
    rw [List.append_nil, ← List.append_assoc] at hentry₁
    rw [← hlength, ← List.length_append] at h
    obtain ⟨hentry', hparams⟩ := entry_of_enterParams h hentry₁
    rw [hentry', List.flatMap_cons, htypes, List.append_assoc]
    exact ⟨rfl, List.forall_mem_cons.2 ⟨⟨t, ht⟩, hparams⟩⟩

/-- The registers that hold no parameter are emptied. -/
theorem entry_of_locals {rest : List RegType} :
    ∀ {k start : Nat} {u : Unit} {st st' : State},
      ((List.range' start k).forM fun r => s.assign .start r .uninit) st = .ok u st' →
      st.entry.toList =
        List.replicate start .uninit ++ (List.replicate k .unknown ++ rest) →
      st'.entry.toList = List.replicate (start + k) .uninit ++ rest
  | 0, _, _, _, _, h, hentry => by
    cases h
    exact hentry
  | k + 1, start, u, st, st', h, hentry => by
    rw [List.range'_succ, List.forM_eq_forM, List.forM_cons, bind_ok] at h
    obtain ⟨_, st₁, hassign, h⟩ := h
    have hstart : (List.replicate start RegType.uninit).length = start := List.length_replicate
    rw [← hstart] at hassign
    have hentry₁ := entry_of_assign rest k hassign
      (by rw [hentry, RegType.spanned, Nat.add_comm k 1]; rfl)
    rw [← List.append_assoc] at hentry₁
    have hdone : List.replicate start RegType.uninit ++ RegType.uninit.spanned =
        List.replicate (start + 1) .uninit := List.replicate_succ'.symm
    rw [entry_of_locals h (by rw [hentry₁, hdone]), Nat.add_assoc, Nat.add_comm 1 k]

/-- The receiver is written to one register, and those behind it wait for the parameters. -/
theorem entry_of_enterReceiver {before : List RegType} {k : Nat}
    (h : s.enterReceiver before.length st = .ok u st')
    (hentry : st.entry.toList = before ++ List.replicate (1 + k) .unknown) :
    st'.entry.toList = before ++ s.receiverTypes false ++ List.replicate k .unknown ∧
      (s.receiverTypes false).length = 1 := by
  obtain ⟨n, hn, hassign⟩ := enterReceiver_ok h
  have htypes : s.receiverTypes false =
      [if s.method.name = Instr.constructorName then .uninitThis n else .reference n] := by
    simp [receiverTypes, hn]
  have hspanned : RegType.spanned
      (if s.method.name = Instr.constructorName then .uninitThis n else .reference n) =
        s.receiverTypes false := by
    rw [htypes]
    split <;> rfl
  have hlength : (s.receiverTypes false).length = 1 := by rw [htypes]; rfl
  have hentry' := entry_of_assign [] k hassign
    (by rw [hspanned, hlength, List.append_nil]; exact hentry)
  rw [hspanned, List.append_nil, ← List.append_assoc] at hentry'
  exact ⟨hentry', hlength⟩

/-- Entering a method writes its receiver, its parameters and its other registers. -/
theorem entry_of_enter {isStatic : Bool} {locals : Nat}
    (h : s.enter isStatic locals st = .ok u st') (hentry : st.entry.toList =
      List.replicate locals .unknown ++
        List.replicate ((if isStatic then 0 else 1) + s.method.paramRegisters) .unknown) :
    st'.entry.toList = List.replicate locals .uninit ++
        (s.receiverTypes isStatic ++ s.method.params.flatMap Ty.registerTypes) ∧
      ∀ ty ∈ s.method.params, ∃ t, RegType.ofTy ty = .ok t := by
  have hlocals : locals = (List.replicate locals RegType.unknown).length :=
    List.length_replicate.symm
  have hheld : ∃ st₁, st₁.entry.toList = List.replicate locals .unknown ++
          (s.receiverTypes isStatic ++ s.method.params.flatMap Ty.registerTypes) ∧
        (∀ ty ∈ s.method.params, ∃ t, RegType.ofTy ty = .ok t) ∧
        ((List.range locals).forM fun r => s.assign .start r .uninit) st₁ = .ok u st' := by
    unfold Subject.enter at h
    cases isStatic with
    | true =>
      obtain ⟨_, st₁, hparams, h⟩ := bind_ok.1 h
      rw [hlocals] at hparams
      simp only [if_true, Nat.zero_add] at hentry
      obtain ⟨hentry₁, htypes⟩ := entry_of_enterParams hparams hentry
      exact ⟨st₁, hentry₁, htypes, h⟩
    | false =>
      obtain ⟨_, st₁, hreceiver, h⟩ := bind_ok.1 h
      obtain ⟨_, st₂, hparams, h⟩ := bind_ok.1 h
      rw [hlocals] at hreceiver hparams
      obtain ⟨hentry₁, hone⟩ := entry_of_enterReceiver hreceiver hentry
      rw [← hone, ← List.length_append] at hparams
      obtain ⟨hentry₂, htypes⟩ := entry_of_enterParams hparams hentry₁
      rw [List.append_assoc] at hentry₂
      exact ⟨st₂, hentry₂, htypes, h⟩
  obtain ⟨st₁, hentry₁, htypes, h⟩ := hheld
  rw [List.range_eq_range'] at h
  rw [entry_of_locals h hentry₁, Nat.zero_add]
  exact ⟨rfl, htypes⟩

/-! ## Passes -/

theorem entry_of_apply {instr : Instr} {e : Effect} (h : s.apply i instr e st = .ok done st') :
    st'.entry = st.entry := by
  obtain ⟨_, _, rfl⟩ | ⟨_, _, rfl⟩ | ⟨t, dst, _, _, _, hassign⟩ | ⟨object, n, _, _, hinit⟩ :=
    apply_ok h
  · rfl
  · rfl
  · exact entry_of_assign_instr hassign
  · obtain ⟨_, hentry, _⟩ := initialiseFrom_keeps (I := fun _ st' => st'.entry = st.entry)
      (fun hentry _ _ hassign => (entry_of_assign_instr hassign).trans hentry)
      (fun hentry _ _ => hentry) rfl hinit
    exact hentry

theorem entry_of_transfer {p : Point} (h : s.transfer i p st = .ok done st') :
    st'.entry = st.entry := by
  obtain ⟨e, m, _, happly⟩ := transfer_ok h
  have hentry := entry_of_apply happly
  exact hentry

theorem entry_of_restore (st : State) (i : Nat) : (restore st i).entry = st.entry := by
  unfold restore
  split
  · split <;> rfl
  · rfl

theorem entry_of_pass (h : s.pass i st = .ok done st') : st'.entry = st.entry := by
  rw [← entry_of_restore st i]
  obtain ⟨_, _, rfl⟩ | ⟨p, _, ⟨_, m, _, _, rfl⟩ | ⟨_, instr, m, _, h⟩ | ⟨_, h⟩⟩ :=
    analyse_ok (pass_ok h)
  · rfl
  · rfl
  · have hentry := entry_of_transfer h
    exact hentry
  · exact entry_of_transfer h

/-- The types of the start node stay as they are in all passes. -/
theorem entry_of_run {passes? : Option Nat} (h : s.run passes? st = .ok u st') :
    st'.entry = st.entry := by
  have hrun := runFrom_keeps (I := fun _ st' => st'.entry = st.entry) ?_ rfl h
  · exact hrun.elim fun _ hentry => hentry.1
  · intro agenda rest i done st₁ st₂ hentry _ hpass
    rw [← hentry, ← entry_of_pass hpass]
    cases done <;> rfl

theorem entry_of_finish (h : s.finish st = .ok u st') : st'.entry = st.entry :=
  finishFrom_keeps (I := fun st' => st'.entry = st.entry) (fun hentry _ _ _ => hentry) rfl h

end Subject

section Analysed

variable {cp : ClassPath} {options : Options} {cls : ClassDef} {method : MethodDef} {m m' : Memo}
  {a : Analysed}

/-- The types a method is entered with: those of the receiver and the parameters come last. -/
theorem entry_of_analysed (h : analyseMethod cp options cls method m = .ok a m') :
    a.entry.toList =
        List.replicate (a.subject.body.registers - a.paramRegisters) .uninit ++
          (a.subject.receiverTypes method.isStatic ++ method.params.flatMap Ty.registerTypes) ∧
      ∀ ty ∈ method.params, ∃ t, RegType.ofTy ty = .ok t := by
  obtain ⟨hsubject, limit, settled, st₁, st₂, henter, hrun, hfinish⟩ := analyseMethod_steps h
  obtain ⟨body, graph, _, _, hs, hparams, hfit⟩ := subjectOf_parts hsubject
  have hmethod : a.subject.method = method.ref cls.ty := by rw [hs]
  have hbody : a.subject.body = body := by rw [hs]
  have hentry : a.entry = st₁.entry :=
    (Subject.entry_of_finish hfinish).trans (Subject.entry_of_run hrun)
  rw [hentry]
  have hheld := Subject.entry_of_enter henter ?_
  · rwa [hmethod] at hheld
  · rw [List.replicate_append_replicate, hmethod, Nat.add_comm _ (method.ref cls.ty).paramRegisters,
      ← hparams, hbody, Nat.sub_add_cancel hfit]
    exact Array.toList_replicate

/-- The types of the receiver of a method of a class: an object that is not initialised yet if the
method is a constructor. -/
def IsReceiver (cls : ClassDef) (method : MethodDef) (types : List RegType) : Prop :=
  if method.isStatic then types = []
  else ∃ n, TypeNode.ofTy cls.ty = .ok n ∧
    types = [if method.name = "<init>" then .uninitThis n else .reference n]

/-- The type of the receiver is the one that the kind of the method asks for. -/
theorem isReceiver_of_analysed (h : analyseMethod cp options cls method m = .ok a m') :
    IsReceiver cls method (a.subject.receiverTypes method.isStatic) := by
  obtain ⟨hsubject, limit, settled, st₁, st₂, henter, _⟩ := analyseMethod_steps h
  obtain ⟨body, graph, _, _, hs, _⟩ := subjectOf_parts hsubject
  unfold IsReceiver
  cases hstatic : method.isStatic with
  | true => rfl
  | false =>
    rw [hstatic] at henter
    obtain ⟨_, _, hreceiver, _⟩ := bind_ok.1 henter
    obtain ⟨n, hn, _⟩ := Subject.enterReceiver_ok hreceiver
    have htypes : a.subject.receiverTypes false =
        [if a.subject.method.name = Instr.constructorName then .uninitThis n
          else .reference n] := by
      simp [Subject.receiverTypes, hn]
    rw [hs] at hn htypes
    rw [hs, htypes]
    exact ⟨n, hn, rfl⟩

/-- The types a method is entered with match its prototype.  They are as many as the method has
registers.  The receiver comes behind the registers that hold nothing, and then the parameters, each
with its types. -/
theorem entry_matches_prototype (h : analyseMethod cp options cls method m = .ok a m') :
    ∃ body receiver rows, method.body? = some body ∧ IsReceiver cls method receiver ∧
      List.Forall₂ Ty.Fills method.params rows ∧ a.entry.size = body.registers ∧
      a.entry.toList =
        List.replicate (body.registers - (receiver ++ rows.flatten).length) .uninit ++
          (receiver ++ rows.flatten) := by
  obtain ⟨hentry, htypes⟩ := entry_of_analysed h
  obtain ⟨hsubject, _⟩ := analyseMethod_steps h
  obtain ⟨body, graph, hbody, _, hs, _⟩ := subjectOf_parts hsubject
  have hregisters : a.subject.body = body := by rw [hs]
  have hsize := (points_of_analysed h).1
  have hlength : a.entry.toList.length = a.subject.body.registers := hsize
  rw [hregisters] at hentry hsize hlength
  refine ⟨body, _, method.params.map Ty.registerTypes, hbody, isReceiver_of_analysed h, ?_, hsize,
    ?_⟩
  · rw [List.forall₂_map_right_iff, List.forall₂_same]
    intro ty hty
    obtain ⟨t, ht⟩ := htypes ty hty
    exact Ty.fills_registerTypes ht
  · -- the registers that hold nothing are those that are left
    rw [← List.flatMap_def]
    rw [hentry, List.length_append, List.length_replicate] at hlength
    rw [hentry, Nat.eq_sub_of_add_eq hlength]

/-- A class with a constructor that has two wide parameters. -/
def widelyMade : ClassDef where
  ty := .cls "A"
  methods := [⟨"<init>", [.long, .array 1 .int, .double], .void, .ofList [.constructor],
    some (.assemble 7 [.returnVoid] [])⟩]

/-- The constructor is entered with one register that holds nothing. -/
theorem widelyMade_matches_prototype :
    ∃ method a m', widelyMade.methods = [method] ∧
      analyseMethod (.ofClasses [widelyMade] 15) {} widelyMade method .empty = .ok a m' ∧
      a.entry.toList = [.uninit, .uninitThis (.cls "LA;"), .half .longLo, .half .longHi,
        .reference (.array 1 "I"), .half .doubleLo, .half .doubleHi] := by
  have hrun : ∃ a m', analyseMethod (.ofClasses [widelyMade] 15) {} widelyMade
      (widelyMade.methods.get ⟨0, by decide⟩) .empty = .ok a m' ∧ a.paramRegisters = 6 := by
    decide +kernel
  obtain ⟨a, m', h, _⟩ := hrun
  refine ⟨_, a, m', rfl, h, ?_⟩
  obtain ⟨body, receiver, rows, hbody, ⟨n, hn, rfl⟩, hrows, _, hentry⟩ := entry_matches_prototype h
  cases hbody
  cases hn
  obtain _ | ⟨hlong, _ | ⟨harray, _ | ⟨hdouble, ⟨⟩⟩⟩⟩ := hrows
  obtain _ | _ | ⟨⟨⟩⟩ := hlong
  obtain _ | _ | ⟨_, ⟨⟩⟩ := harray
  obtain _ | _ | ⟨⟨⟩⟩ := hdouble
  exact hentry

/-- The first register of a parameter: the parameters from there on take the last registers. -/
def firstRegister (body : Body) (params : List Ty) (k : Nat) : Nat :=
  body.registers - registersOf (params.drop k)

/-- A parameter is found at its first register. -/
theorem entry_of_param {k : Nat} {ty : Ty} (h : analyseMethod cp options cls method m = .ok a m')
    (hk : method.params[k]? = some ty) :
    ∃ before rest, a.entry.toList = before ++ (ty.registerTypes ++ rest) ∧
      before.length = firstRegister a.subject.body method.params k := by
  obtain ⟨hentry, htypes⟩ := entry_of_analysed h
  obtain ⟨hlt, rfl⟩ := List.getElem?_eq_some_iff.1 hk
  have hlength : ((method.params.drop k).flatMap Ty.registerTypes).length =
      registersOf (method.params.drop k) :=
    length_flatMap_registerTypes fun ty hty => htypes ty (List.mem_of_mem_drop hty)
  have hsplit : method.params.flatMap Ty.registerTypes =
      (method.params.take k).flatMap Ty.registerTypes ++
        (method.params.drop k).flatMap Ty.registerTypes := by
    rw [← List.flatMap_append, List.take_append_drop]
  have hsize : a.entry.toList.length = a.subject.body.registers := (points_of_analysed h).1
  rw [hsplit, ← List.append_assoc, ← List.append_assoc] at hentry
  rw [hentry, List.length_append, hlength] at hsize
  refine ⟨_, (method.params.drop (k + 1)).flatMap Ty.registerTypes, hentry.trans ?_,
    Nat.eq_sub_of_add_eq hsize⟩
  rw [List.drop_eq_getElem_cons hlt, List.flatMap_cons]

end Analysed

end Analysis

end Dalvik
