import Dalvik.Proofs.Flow
import Dalvik.Proofs.Settled

/-!
# Straight code

In a body without branches, switches and try ranges each node is followed by at most the next
instruction.  A type that is written after a node then goes from point to point until it adds
nothing or meets an instruction that writes the register (`Subject.Carried`), and the points are
analysed in their order (`Subject.Level`).
-/

namespace Dalvik

/-- The index of the instruction after a node. -/
def NodeId.next : NodeId → Nat
  | .start => 0
  | .instr i => i + 1

/-! ## Bodies -/

/-- There are no branches, switches or try ranges. -/
structure Body.Linear (b : Body) : Prop where
  tries : b.tries = []
  branches : ∀ l ∈ b.lines, l.instr.isBranch = false

namespace FlowGraph

variable {handlers : List (List Nat)} {k : Nat}

/-- What has no handlers is added alone. -/
theorem close_singleton (hk : k < handlers.length) (hnone : handlers.getD k [] = []) :
    close handlers [k] [] = [k] := by
  rw [close]
  split
  · next hdrop =>
    have hkept : k ∈ [] := hdrop ▸ mem_dropWhile_of_refused List.mem_cons_self (by simp [hk])
    cases hkept
  · next t rest hdrop =>
    have hdropped : [k].dropWhile (fun t => decide (t ∈ [] ∨ handlers.length ≤ t)) = [k] := by
      simp [hk]
    cases hdropped.symm.trans hdrop
    rw [hnone]
    exact close_nil

end FlowGraph

namespace Body.Linear

variable {b : Body} (hb : b.Linear) {l : Line} {i : Nat}
include hb

/-- Straight code has no handlers. -/
theorem handlersOf_eq (l : Line) : b.handlersOf l = .ok [] := by
  unfold handlersOf handlersAt
  rw [hb.tries]
  split <;> rfl

theorem handlers_eq {handlers : List (List Nat)} (h : b.lines.mapM b.handlersOf = .ok handlers)
    (k : Nat) : handlers.getD k [] = [] := by
  rw [List.getD_eq_getElem?_getD]
  cases hk : handlers[k]? with
  | none => rfl
  | some hs =>
    obtain ⟨l, _, hl⟩ := (mem_of_mapM_ok h).1 (List.mem_of_getElem? hk)
    rw [hb.handlersOf_eq] at hl
    cases hl
    rfl

theorem jumpTargets_eq (hl : b.lines[i]? = some l) : b.jumpTargets l = .ok [] := by
  have hbranch := hb.branches l (List.mem_of_getElem? hl)
  have hswitch : ¬ l.instr.isSwitch = true := by
    intro hswitch
    rw [isBranch_of_isSwitch hswitch] at hbranch
    cases hbranch
  unfold jumpTargets
  split
  · rfl
  · rw [if_neg hswitch, hbranch]
    rfl

/-- The next instruction is the only normal successor. -/
theorem normalSuccessors_ok {ns : List Nat} (hl : b.lines[i]? = some l)
    (h : b.normalSuccessors i l = .ok ns) :
    (l.instr.canContinue = true ∧ i + 1 < b.lines.length ∧ ns = [i + 1]) ∨
      (l.instr.canContinue = false ∧ ns = []) := by
  unfold normalSuccessors at h
  obtain ⟨next, hnext, h⟩ := except_bind_ok.1 h
  obtain ⟨targets, htargets, h⟩ := except_bind_ok.1 h
  obtain ⟨_, _, h⟩ := except_bind_ok.1 h
  cases h
  rw [hb.jumpTargets_eq hl] at htargets
  cases htargets
  rw [List.append_nil]
  unfold nextOf at hnext
  split at hnext
  · next hcont =>
    split at hnext
    · next hlt =>
      obtain ⟨_, _, hnext⟩ := except_bind_ok.1 hnext
      cases hnext
      exact .inl ⟨hcont, hlt, rfl⟩
    · cases hnext
  · next hcont =>
    cases hnext
    exact .inr ⟨Bool.eq_false_iff.2 hcont, rfl⟩

end Body.Linear

/-! ## Graphs -/

namespace FlowGraph.Built

variable {b : Body} {handlers : List (List Nat)} {g : FlowGraph} (hg : Built b handlers g)
  (hb : b.Linear) {i : Nat}
include hg hb

/-- Straight code begins at its first instruction. -/
theorem entry_of_linear : g.entry = [0] := by
  rw [hg.entry]
  refine close_singleton ?_ (hb.handlers_eq hg.handled 0)
  rw [hg.length_handlers]
  exact List.length_pos_iff.2 hg.lines

/-- An instruction that is found is followed by the next one if it can continue. -/
theorem successors_of_linear (hi : Visited b handlers g.entry i) :
    ∃ l, b.lines[i]? = some l ∧
      ((l.instr.canContinue = true ∧ g.successors (.instr i) = [i + 1]) ∨
        (l.instr.canContinue = false ∧ g.successors (.instr i) = [])) := by
  obtain ⟨succs, hfin⟩ := hg.finished hi
  rw [hg.successors_of_finished hfin]
  obtain ⟨_, l, normal, hl, hnormal, rfl⟩ := hfin
  dsimp only at hl hnormal
  refine ⟨l, hl, ?_⟩
  obtain ⟨hcont, hlt, rfl⟩ | ⟨hcont, rfl⟩ := hb.normalSuccessors_ok hl hnormal
  · rw [← hg.length_handlers] at hlt
    exact .inl ⟨hcont, close_singleton hlt (hb.handlers_eq hg.handled (i + 1))⟩
  · exact .inr ⟨hcont, close_nil⟩

/-- What is followed by the next instruction can continue. -/
theorem canContinue_of_next {l : Line} (hi : g.successors (.instr i) = [i + 1])
    (hl : b.lines[i]? = some l) : l.instr.canContinue = true := by
  have hvisited : Visited b handlers g.entry i :=
    hg.visited_of_mem_successors (hi ▸ List.mem_singleton_self (i + 1))
  obtain ⟨l', hl', ⟨hcont, _⟩ | ⟨_, hnone⟩⟩ := hg.successors_of_linear hb hvisited
  · cases hl.symm.trans hl'
    exact hcont
  · cases hnone.symm.trans hi

/-- A node is followed by the next instruction or by none. -/
theorem successors_cases (n : NodeId) : g.successors n = [] ∨ g.successors n = [n.next] := by
  cases n with
  | start => exact .inr (hg.entry_of_linear hb)
  | instr i =>
    by_cases hi : Visited b handlers g.entry i
    · obtain ⟨l, _, ⟨_, hsuccs⟩ | ⟨_, hsuccs⟩⟩ := hg.successors_of_linear hb hi
      · exact .inr hsuccs
      · exact .inl hsuccs
    · exact .inl (List.eq_nil_iff_forall_not_mem.2 fun k hk => hi (hg.visited_of_mem_successors hk))

/-- All instructions before one that is found are found, and go on. -/
theorem continues_of_linear (hi : Visited b handlers g.entry i) :
    ∀ j < i, Visited b handlers g.entry j ∧ g.successors (.instr j) = [j + 1] := by
  induction hi with
  | entry hk =>
    rw [hg.entry_of_linear hb, List.mem_singleton] at hk
    subst hk
    intro j hj
    cases hj
  | @step i k l normal hi hl hnormal hk ih =>
    have hsuccs : g.successors (.instr i) = close handlers normal [] :=
      hg.successors_of_finished ⟨hi, l, normal, hl, hnormal, rfl⟩
    rw [← hsuccs] at hk
    have hnext : g.successors (.instr i) = [i + 1] :=
      (hg.successors_cases hb (.instr i)).resolve_left (List.ne_nil_of_mem hk)
    rw [hnext, List.mem_singleton] at hk
    subst hk
    intro j hj
    rcases Nat.lt_succ_iff_lt_or_eq.1 hj with hj | rfl
    · exact ih j hj
    · exact ⟨hi, hnext⟩

end FlowGraph.Built

/-! ## New objects -/

namespace RegType

variable {cp : ClassPath} {old t new : RegType} {n : TypeNode} {m m' : Memo}

/-- The class of an object whose constructor was not called yet. -/
def newClass? : RegType → Option TypeNode
  | .uninitRef n _ | .uninitThis n => some n
  | _ => none

/-- A type that rises to that of a new object was not known. -/
theorem join_new (h : old.join cp t m = .ok new m') (hn : new.newClass? = some n) :
    new = old ∨ (old = .unknown ∧ t = new) := by
  cases joined_of_join h with
  | same | unknown_right | receivers => exact .inl rfl
  | unknown_left => exact .inr ⟨rfl, rfl⟩
  | _ => cases hn

/-- A type that rises is known. -/
theorem ne_unknown_of_join (h : old.join cp t m = .ok new m') (hnew : new ≠ old) :
    new ≠ .unknown := by
  rintro rfl
  cases joined_of_join h with
  | same | unknown_left | unknown_right => exact hnew rfl

/-- The unknown type joins to the other one. -/
theorem unknown_join (h : RegType.unknown.join cp t m = .ok new m') : new = t := by
  cases t <;> cases h <;> rfl

/-- A new object and one that is initialised do not go together. -/
theorem new_join_reference {n' : TypeNode} (hn : old.newClass? = some n)
    (h : old.join cp (.reference n') m = .ok new m') : new = .conflicted := by
  cases joined_of_join h with
  | conflict => rfl
  | _ => cases hn

end RegType

/-! ## Registers that are always written -/

/-- Whether the instruction writes a register, whatever the registers hold. -/
def Instr.writes (i : Instr) (r : Nat) : Bool :=
  match i.destination? with
  | some dst => r == dst.index || (i.setsWide && r == dst.index + 1)
  | none => false

theorem Instr.writes_of_isConstructorCall {i : Instr} (h : i.isConstructorCall = true) (r : Nat) :
    i.writes r = false := by
  cases i with
  | invoke | invokeDirectEmpty | invokeObjectInit => rfl
  | _ => cases h

namespace Analysis

namespace Point

variable {p : Point} {r : Nat} {t : RegType}

/-- Apart from a constructor call, an instruction sets the registers it writes. -/
theorem sets_eq_writes (h : p.instr.isConstructorCall = false) : p.sets r = p.instr.writes r := by
  unfold sets Instr.writes
  rw [h]
  rfl

/-- What is always written is written. -/
theorem writes_of_sets (h : (p.entered r t).sets r = false) : p.instr.writes r = false := by
  cases hcall : p.instr.isConstructorCall with
  | true => exact Instr.writes_of_isConstructorCall hcall r
  | false =>
    have hcall' : (p.entered r t).instr.isConstructorCall = false := hcall
    exact (sets_eq_writes hcall').symm.trans h

end Point

namespace State

variable {st st' : State} {i x : Nat}

theorem typeBefore?_of_points (h : st'.points[i]? = st.points[i]?) :
    st'.typeBefore? i x = st.typeBefore? i x := by
  unfold typeBefore?
  rw [h]

theorem typeAfter?_of_points (h : st'.points[i]? = st.points[i]?) :
    st'.typeAfter? (.instr i) x = st.typeAfter? (.instr i) x := by
  unfold typeAfter?
  simp only [h]

end State

/-! ## Carrying a type along a line -/

namespace Subject

variable {s : Subject} {x y m i j : Nat} {w t : RegType} {n : NodeId} {st st' : State}

/-- A type comes in for a register before a point.  It goes on from there as long as it changes
something and passes. -/
inductive Carried (s : Subject) (x : Nat) : Nat → RegType → State → State → Prop where
  | stop {m : Nat} {w : RegType} {st st' : State} (h : Received s x w m st st' false) :
    Carried s x m w st st'
  | last {m : Nat} {w : RegType} {st st' : State} (h : Received s x w m st st' true)
    (hlast : s.graph.successors (.instr m) = [] ∨ st'.typeAfter? (.instr m) x = none) :
    Carried s x m w st st'
  | on {m : Nat} {w w' : RegType} {st st₁ st' : State} (h : Received s x w m st st₁ true)
    (hw : st₁.typeAfter? (.instr m) x = some w') (hrest : Carried s x (m + 1) w' st₁ st') :
    Carried s x m w st st'

/-- The code is straight: a node is followed by the next instruction or by none, and by the next one
if anything after it is reached. -/
structure Linear (s : Subject) : Prop where
  entry : s.graph.entry = [0]
  next : ∀ n, s.graph.successors n = [] ∨ s.graph.successors n = [n.next]
  continues : ∀ {i : Nat}, s.graph.isReachable i = true →
    ∀ j < i, s.graph.isReachable j = true ∧ s.graph.successors (.instr j) = [j + 1]

/-- A body without jumps and ranges has straight code. -/
theorem linear_of_build (hb : s.body.Linear) (h : FlowGraph.build s.body = .ok s.graph) :
    s.Linear := by
  obtain ⟨handlers, hg⟩ := FlowGraph.built_of_build h
  refine ⟨hg.entry_of_linear hb, hg.successors_cases hb, fun hi j hj => ?_⟩
  obtain ⟨hvisited, hnext⟩ := hg.continues_of_linear hb (hg.isReachable_iff.1 hi) j hj
  exact ⟨hg.isReachable_iff.2 hvisited, hnext⟩

/-- Carrying a type on from a node with one successor. -/
theorem carry_next {changed changed' : Worklist} (hn : s.graph.successors n = [n.next])
    (ht : st.typeAfter? n x = some t) (h : s.carry n x changed st = .ok changed' st') :
    ∃ passed, Received s x t n.next st st' passed ∧
      changed' = if passed then changed.insert n.next else changed := by
  unfold Subject.carry at h
  obtain ⟨_, _, hget, h⟩ := bind_ok.1 h
  cases hget
  simp only [ht, hn, List.foldlM_cons, List.foldlM_nil] at h
  obtain ⟨changed₁, st₁, hreceive, h⟩ := bind_ok.1 h
  cases h
  exact receive_ok hreceive

/-- Nothing is carried on from the last node. -/
theorem carry_last {changed changed' : Worklist} (hn : s.graph.successors n = [])
    (h : s.carry n x changed st = .ok changed' st') : changed' = changed ∧ st' = st := by
  cases ht : st.typeAfter? n x with
  | none => exact carry_absent ht h
  | some t =>
    unfold Subject.carry at h
    obtain ⟨_, _, hget, h⟩ := bind_ok.1 h
    cases hget
    simp only [ht, hn, List.foldlM_nil] at h
    cases h
    exact ⟨rfl, rfl⟩

/-- Nothing is left to do for an empty worklist. -/
theorem carryAll_empty {limit left : Nat} {u : Unit}
    (h : s.carryAll x limit left .empty st = .ok u st') : st' = st := by
  cases left <;> (rw [Subject.carryAll] at h; cases h; rfl)

/-- What was received at a point is carried on from there. -/
theorem carried_of_carryAll (hs : s.Linear) {limit : Nat} :
    ∀ {left m : Nat} {w : RegType} {passed : Bool} {st st₁ st' : State} {u : Unit},
      Received s x w m st st₁ passed →
      s.carryAll x limit left (if passed then Worklist.empty.insert m else .empty) st₁ =
        .ok u st' →
      Carried s x m w st st' := by
  intro left
  induction left with
  | zero =>
    intro m w passed st st₁ st' u hreceived h
    cases passed with
    | false =>
      cases carryAll_empty h
      exact .stop hreceived
    | true =>
      rw [Subject.carryAll] at h
      cases h
  | succ left ih =>
    intro m w passed st st₁ st' u hreceived h
    cases passed with
    | false =>
      cases carryAll_empty h
      exact .stop hreceived
    | true =>
      rw [Subject.carryAll] at h
      obtain ⟨changed, st₂, hcarry, hall⟩ := bind_ok.1 h
      cases hw : st₁.typeAfter? (.instr m) x with
      | none =>
        obtain ⟨rfl, rfl⟩ := carry_absent hw hcarry
        cases carryAll_empty hall
        exact .last hreceived (.inr hw)
      | some w' =>
        rcases hs.next (.instr m) with hlast | hnext
        · obtain ⟨rfl, rfl⟩ := carry_last hlast hcarry
          cases carryAll_empty hall
          exact .last hreceived (.inl hlast)
        · obtain ⟨passed', hreceived', rfl⟩ := carry_next hnext hw hcarry
          exact .on hreceived hw (ih hreceived' hall)

/-- A type that is written after a node is carried on to the next point. -/
theorem carried_of_assignOne (hs : s.Linear) {new : Bool}
    (h : s.assignOne n x t st = .ok new st') :
    (st.typeAfter? n x = some t ∧ st' = st) ∨
      ((s.graph.successors n = [] ∨ st.typeAfter? n x = none) ∧ st' = st.setAfter n x t) ∨
      Carried s x n.next t (st.setAfter n x t) st' := by
  obtain ⟨_, ht, rfl⟩ | ⟨_, limit, changed, st₁, hcarry, hall⟩ := assignOne_ok h
  · exact .inl ⟨ht, rfl⟩
  · refine .inr ?_
    cases ht : (st.setAfter n x t).typeAfter? n x with
    | none =>
      obtain ⟨rfl, rfl⟩ := carry_absent ht hcarry
      rw [State.typeAfter?_setAfter, if_pos ⟨rfl, rfl⟩, Option.map_eq_none_iff] at ht
      exact .inl ⟨.inr ht, carryAll_empty hall⟩
    | some t' =>
      have heq : t' = t := by
        rw [State.typeAfter?_setAfter, if_pos ⟨rfl, rfl⟩] at ht
        obtain ⟨_, _, rfl⟩ := Option.map_eq_some_iff.1 ht
        rfl
      subst heq
      rcases hs.next n with hlast | hnext
      · obtain ⟨rfl, rfl⟩ := carry_last hlast hcarry
        exact .inl ⟨.inl hlast, carryAll_empty hall⟩
      · obtain ⟨passed, hreceived, rfl⟩ := carry_next hnext ht hcarry
        exact .inr (carried_of_carryAll hs hreceived hall)

/-- Nothing before a point changed, and at the point only what is after it. -/
structure Beyond (k : Nat) (st st' : State) : Prop where
  points : ∀ j < k, st'.points[j]? = st.points[j]?
  before : ∀ y, st'.typeBefore? k y = st.typeBefore? k y
  settled : ∀ j ≤ k, (j ∈ st'.settled ↔ j ∈ st.settled)
  unsettled : ∀ j ∈ st'.settled, j ∈ st.settled
  frame : st'.frame = st.frame
  instrs : ∀ j, k < j → st'.instrs[j]? = st.instrs[j]?

namespace Beyond

variable {k : Nat} {st₁ st₂ st₃ : State}

theorem refl (k : Nat) (st : State) : Beyond k st st :=
  ⟨fun _ _ => rfl, fun _ => rfl, fun _ _ => Iff.rfl, fun _ => id, rfl, fun _ _ => rfl⟩

theorem trans (h : Beyond k st₁ st₂) (h' : Beyond k st₂ st₃) : Beyond k st₁ st₃ where
  points j hj := (h'.points j hj).trans (h.points j hj)
  before y := (h'.before y).trans (h.before y)
  settled j hj := (h'.settled j hj).trans (h.settled j hj)
  unsettled j hj := h.unsettled j (h'.unsettled j hj)
  frame := h'.frame.trans h.frame
  instrs j hj := (h'.instrs j hj).trans (h.instrs j hj)

theorem memo (k : Nat) (st : State) (m : Memo) : Beyond k st { st with memo := m } :=
  ⟨fun _ _ => rfl, fun _ => rfl, fun _ _ => Iff.rfl, fun _ => id, rfl, fun _ _ => rfl⟩

theorem setInstr (k : Nat) (st : State) (instr : Instr) : Beyond k st (st.setInstr k instr) where
  points j hj := by rw [State.setInstr_points, if_neg (Nat.ne_of_gt hj)]
  before y := State.typeBefore?_setInstr
  settled _ _ := Iff.rfl
  unsettled _ := id
  frame := State.setInstr_frame
  instrs j hj := by
    simp only [State.instrs, List.getElem?_map, Array.getElem?_toList]
    rw [State.setInstr_points, if_neg (Nat.ne_of_lt hj)]

theorem setAfter (k : Nat) (st : State) (x : Nat) (t : RegType) :
    Beyond k st (st.setAfter (.instr k) x t) where
  points j hj := by
    rw [State.setAfter_points, if_neg fun h => Nat.ne_of_gt hj (NodeId.instr.inj h)]
  before y := State.typeBefore?_setAfter
  settled j _ := by rw [State.setAfter_settled]
  unsettled j := by rw [State.setAfter_settled]; exact id
  frame := State.setAfter_frame
  instrs j _ := by rw [State.setAfter_instrs]

end Beyond

namespace Received

variable {passed : Bool} (h : Received s x w m st st' passed)
include h

theorem points_of_ne (hj : j ≠ m) : st'.points[j]? = st.points[j]? := by
  cases h with
  | absent => rfl
  | same => rfl
  | raised hp => rw [State.raise_points hp, if_neg hj]

theorem typeBefore?_of_ne (hy : y ≠ x) : st'.typeBefore? i y = st.typeBefore? i y := by
  cases h with
  | absent => rfl
  | same => rfl
  | raised hp hold => rw [State.typeBefore?_raise hp hold, if_neg fun h => hy h.2]

theorem typeAfter?_of_ne (hy : y ≠ x) : st'.typeAfter? n y = st.typeAfter? n y := by
  cases h with
  | absent => rfl
  | same => cases n <;> rfl
  | raised hp => rw [State.typeAfter?_raise hp, if_neg fun h => hy h.2.1]

theorem frame : st'.frame = st.frame := by
  cases h with
  | absent => rfl
  | same => rfl
  | raised hp => exact State.raise_frame hp

theorem instrs : st'.instrs = st.instrs := by
  cases h with
  | absent => rfl
  | same => rfl
  | raised hp => exact State.raise_instrs hp

/-- Before the point there is the join of what was there and what came in. -/
theorem joined {old : RegType} (hold : st.typeBefore? m x = some old) :
    ∃ new m₁, old.join s.classPath w st.memo = .ok new m₁ ∧ st'.typeBefore? m x = some new := by
  cases h with
  | absent hnone => cases hold.symm.trans hnone
  | same hsame hjoin =>
    cases hold.symm.trans hsame
    exact ⟨old, _, hjoin, hold⟩
  | @raised p old' _ _ _ hp hp' hjoin =>
    have hold' : st.typeBefore? m x = some old' := by
      simp only [State.typeBefore?, hp, Option.bind_some]
      exact hp'
    cases hold.symm.trans hold'
    exact ⟨_, _, hjoin, by rw [State.typeBefore?_raise hp hp', if_pos ⟨rfl, rfl⟩]⟩

theorem beyond {k : Nat} (hk : k < m) : Beyond k st st' := by
  cases h with
  | absent => exact .refl k st
  | same => exact .memo k st _
  | raised hp hold =>
    refine ⟨fun j hj => ?_, fun y => ?_, fun j hj => ?_, fun j hj => ?_, ?_, fun j _ => ?_⟩
    · rw [State.raise_points hp, if_neg (by omega)]
    · rw [State.typeBefore?_raise hp hold, if_neg fun h => by omega]
    · rw [State.mem_raise_settled, and_iff_left (by omega)]
    · exact (State.mem_raise_settled.1 hj).1
    · exact State.raise_frame hp
    · rw [State.raise_instrs hp]

end Received

/-- What passes through a point is not always written there. -/
theorem Received.writes_of_passed {p : Point} (h : Received s x w m st st' true)
    (hp : st.points[m]? = some p) : p.instr.writes x = false := by
  cases h with
  | raised hp' _ _ _ hpassed =>
    cases hp.symm.trans hp'
    exact Point.writes_of_sets (by simpa using hpassed.symm)

/-- A new object that passes through a point came in there. -/
theorem Received.eq_of_passed {w' : RegType} {c : TypeNode} (h : Received s x w m st st' true)
    (hw : st'.typeAfter? (.instr m) x = some w') (hc : w'.newClass? = some c) : w = w' := by
  cases h with
  | @raised p old new _ _ hp _ hjoin hnew hpassed =>
    have hpassed : (p.entered x new).sets x = false := by simpa using hpassed.symm
    rw [State.typeAfter?_raise hp, if_pos ⟨rfl, rfl, hpassed⟩] at hw
    obtain ⟨_, _, rfl⟩ := Option.map_eq_some_iff.1 hw
    exact ((RegType.join_new hjoin hc).resolve_left hnew).2

namespace Carried

/-- Nothing changes before the first point. -/
theorem beyond {k : Nat} (h : Carried s x m w st st') (hk : k < m) : Beyond k st st' := by
  induction h with
  | stop h => exact h.beyond hk
  | last h _ => exact h.beyond hk
  | on h _ _ ih => exact (h.beyond hk).trans (ih (Nat.lt_succ_of_lt hk))

/-- Points before the first one are not touched. -/
theorem points_of_lt (h : Carried s x m w st st') (hj : j < m) :
    st'.points[j]? = st.points[j]? := by
  induction h with
  | stop h => exact h.points_of_ne (Nat.ne_of_lt hj)
  | last h _ => exact h.points_of_ne (Nat.ne_of_lt hj)
  | on h _ _ ih => exact (ih (Nat.lt_succ_of_lt hj)).trans (h.points_of_ne (Nat.ne_of_lt hj))

theorem typeBefore?_of_ne (h : Carried s x m w st st') (hy : y ≠ x) :
    st'.typeBefore? i y = st.typeBefore? i y := by
  induction h with
  | stop h => exact h.typeBefore?_of_ne hy
  | last h _ => exact h.typeBefore?_of_ne hy
  | on h _ _ ih => exact ih.trans (h.typeBefore?_of_ne hy)

theorem typeAfter?_of_ne (h : Carried s x m w st st') (hy : y ≠ x) :
    st'.typeAfter? n y = st.typeAfter? n y := by
  induction h with
  | stop h => exact h.typeAfter?_of_ne hy
  | last h _ => exact h.typeAfter?_of_ne hy
  | on h _ _ ih => exact ih.trans (h.typeAfter?_of_ne hy)

theorem frame (h : Carried s x m w st st') : st'.frame = st.frame := by
  induction h with
  | stop h => exact h.frame
  | last h _ => exact h.frame
  | on h _ _ ih => exact ih.trans h.frame

theorem instrs (h : Carried s x m w st st') : st'.instrs = st.instrs := by
  induction h with
  | stop h => exact h.instrs
  | last h _ => exact h.instrs
  | on h _ _ ih => exact ih.trans h.instrs

/-- Before the first point there is the join of what was there and what came in. -/
theorem joined {old : RegType} (h : Carried s x m w st st')
    (hold : st.typeBefore? m x = some old) :
    ∃ new m₁, old.join s.classPath w st.memo = .ok new m₁ ∧ st'.typeBefore? m x = some new := by
  cases h with
  | stop h => exact h.joined hold
  | last h _ => exact h.joined hold
  | on h _ hrest =>
    obtain ⟨new, m₁, hjoin, hnew⟩ := h.joined hold
    exact ⟨new, m₁, hjoin, ((hrest.beyond (Nat.lt_succ_self m)).before x).trans hnew⟩

/-- Nothing comes in for a register without a type. -/
theorem eq_of_absent (h : Carried s x m w st st') (hnone : st.typeBefore? m x = none) :
    st' = st := by
  have not_raised : ∀ {p : Point} {old : RegType}, st.points[m]? = some p →
      p.before[x]? = some old → False := by
    intro p old hp hold
    simp only [State.typeBefore?, hp, Option.bind_some, hold] at hnone
    cases hnone
  cases h with
  | stop h =>
    cases h with
    | absent => rfl
    | same hold => cases hnone.symm.trans hold
    | raised hp hold => exact (not_raised hp hold).elim
  | last h =>
    cases h with
    | raised hp hold => exact (not_raised hp hold).elim
  | on h =>
    cases h with
    | raised hp hold => exact (not_raised hp hold).elim

/-- What becomes of a register around a point when a type comes in there. -/
inductive Arrived (s : Subject) (i x : Nat) (w : RegType) (st st' : State) : Prop where
  | unchanged (hbefore : st'.typeBefore? i x = st.typeBefore? i x)
    (hafter : st'.typeAfter? (.instr i) x = st.typeAfter? (.instr i) x)
    (hnext : st'.typeBefore? (i + 1) x = st.typeBefore? (i + 1) x)
  | held {p : Point} {old new : RegType} {m m' : Memo} (hp : st.points[i]? = some p)
    (hold : p.before[x]? = some old) (hjoin : old.join s.classPath w m = .ok new m')
    (hnew : new ≠ old) (hbefore : st'.typeBefore? i x = some new)
    (hsets : (p.entered x new).sets x = true)
    (hafter : st'.typeAfter? (.instr i) x = st.typeAfter? (.instr i) x)
    (hnext : st'.typeBefore? (i + 1) x = st.typeBefore? (i + 1) x)
  | passed {p : Point} {old new : RegType} {m m' : Memo} (hp : st.points[i]? = some p)
    (hold : p.before[x]? = some old) (hjoin : old.join s.classPath w m = .ok new m')
    (hnew : new ≠ old) (hbefore : st'.typeBefore? i x = some new)
    (hsets : (p.entered x new).sets x = false)
    (hafter : st'.typeAfter? (.instr i) x = some new)
    (hnext : ∀ old', st.typeBefore? (i + 1) x = some old' → ∃ new' m₁ m₂,
      old'.join s.classPath new m₁ = .ok new' m₂ ∧ st'.typeBefore? (i + 1) x = some new')

/-- A type that is carried to a point arrives there. -/
theorem arrived {a : RegType} (h : Carried s x i w st st')
    (hi : s.graph.successors (.instr i) = [i + 1]) (ha : st.typeAfter? (.instr i) x = some a) :
    Arrived s i x w st st' := by
  have hne : ¬ (i + 1 = i ∧ x = x) := fun h => Nat.succ_ne_self i h.1
  cases h with
  | stop h =>
    cases h with
    | absent => exact .unchanged rfl rfl rfl
    | same => exact .unchanged rfl rfl rfl
    | @raised p _ new _ _ hp hold hjoin hnew hpassed =>
      have hsets : (p.entered x new).sets x = true := by simpa using hpassed.symm
      refine .held hp hold hjoin hnew ?_ hsets ?_ ?_
      · rw [State.typeBefore?_raise hp hold, if_pos ⟨rfl, rfl⟩]
      · rw [State.typeAfter?_raise hp, if_neg]
        rintro ⟨_, _, hfalse⟩
        rw [hsets] at hfalse
        cases hfalse
      · rw [State.typeBefore?_raise hp hold, if_neg hne]
  | last h hlast =>
    cases h with
    | @raised p _ new _ _ hp hold hjoin hnew hpassed =>
      have hsets : (p.entered x new).sets x = false := by simpa using hpassed.symm
      rw [State.typeAfter?_raise hp, if_pos ⟨rfl, rfl, hsets⟩, ha, hi] at hlast
      rcases hlast with hlast | hlast <;> cases hlast
  | on h hw hrest =>
    cases h with
    | @raised p _ new _ _ hp hold hjoin hnew hpassed =>
      have hsets : (p.entered x new).sets x = false := by simpa using hpassed.symm
      have hi' := hrest.points_of_lt (Nat.lt_succ_self i)
      rw [State.typeAfter?_raise hp, if_pos ⟨rfl, rfl, hsets⟩, ha] at hw
      cases hw
      refine .passed hp hold hjoin hnew ?_ hsets ?_ fun old' hold' => ?_
      · rw [State.typeBefore?_of_points hi', State.typeBefore?_raise hp hold, if_pos ⟨rfl, rfl⟩]
      · rw [State.typeAfter?_of_points hi', State.typeAfter?_raise hp,
          if_pos ⟨rfl, rfl, hsets⟩, ha]
        rfl
      · obtain ⟨new', m₂, hjoin', hnew'⟩ :=
          hrest.joined ((State.typeBefore?_raise hp hold).trans ((if_neg hne).trans hold'))
        exact ⟨new', _, m₂, hjoin', hnew'⟩

/-- A type stops before a point, or it comes in there after it passed all points on the way. -/
theorem reach (h : Carried s x m w st st') (hmi : m ≤ i) :
    (st'.points[i]? = st.points[i]? ∧ st'.points[i + 1]? = st.points[i + 1]?) ∨
    ∃ w₁ st₁, Carried s x i w₁ st₁ st' ∧ st₁.points[i]? = st.points[i]? ∧
      st₁.points[i + 1]? = st.points[i + 1]? ∧ st₁.frame = st.frame ∧ st₁.instrs = st.instrs ∧
      (∀ j p, m ≤ j → j < i → st.points[j]? = some p → p.instr.writes x = false) ∧
      ∀ n, w₁.newClass? = some n → w = w₁ := by
  induction h with
  | @stop m w st st' h =>
    rcases Nat.lt_or_eq_of_le hmi with hlt | rfl
    · exact .inl ⟨h.points_of_ne (by omega), h.points_of_ne (by omega)⟩
    · exact .inr ⟨w, st, .stop h, rfl, rfl, rfl, rfl, fun j p hmj hji => by omega, fun _ _ => rfl⟩
  | @last m w st st' h hlast =>
    rcases Nat.lt_or_eq_of_le hmi with hlt | rfl
    · exact .inl ⟨h.points_of_ne (by omega), h.points_of_ne (by omega)⟩
    · exact .inr ⟨w, st, .last h hlast, rfl, rfl, rfl, rfl, fun j p hmj hji => by omega,
        fun _ _ => rfl⟩
  | @on m w w' st st₁ st' h hw hrest ih =>
    rcases Nat.lt_or_eq_of_le hmi with hlt | rfl
    · have hi : st₁.points[i]? = st.points[i]? := h.points_of_ne (by omega)
      have hi' : st₁.points[i + 1]? = st.points[i + 1]? := h.points_of_ne (by omega)
      obtain ⟨hsame, hsame'⟩ | ⟨w₁, st₂, hcarried, hsame, hsame', hframe, hinstrs, hopen, hnew⟩ :=
        ih hlt
      · exact .inl ⟨hsame.trans hi, hsame'.trans hi'⟩
      · refine .inr ⟨w₁, st₂, hcarried, hsame.trans hi, hsame'.trans hi', hframe.trans h.frame,
          hinstrs.trans h.instrs, ?_, ?_⟩
        · intro j p hmj hji hp
          rcases Nat.lt_or_eq_of_le hmj with hlt' | rfl
          · exact hopen j p hlt' hji ((h.points_of_ne (by omega)).trans hp)
          · exact h.writes_of_passed hp
        · intro n hn
          have hw₁ := hnew n hn
          exact (h.eq_of_passed hw (hw₁ ▸ hn)).trans hw₁
    · exact .inr ⟨w, st, .on h hw hrest, rfl, rfl, rfl, rfl, fun j p hmj hji => by omega,
        fun _ _ => rfl⟩

end Carried

/-! ## Passes in order -/

/-- What is carried on from a point leaves it alone. -/
theorem beyond_of_assignOne (hs : s.Linear) {k : Nat} {new : Bool}
    (h : s.assignOne (.instr k) x t st = .ok new st') : Beyond k st st' := by
  obtain ⟨_, rfl⟩ | ⟨_, rfl⟩ | hcarried := carried_of_assignOne hs h
  · exact .refl k st'
  · exact .setAfter k st x t
  · exact (Beyond.setAfter k st x t).trans (hcarried.beyond (Nat.lt_succ_self k))

/-- An assignment behind a point changes nothing before the point. -/
theorem beyond_of_assign (hs : s.Linear) {k : Nat} {u : Unit}
    (h : s.assign (.instr k) x t st = .ok u st') : Beyond k st st' :=
  assign_keeps (I := Beyond k st) (fun _ hI hone => hI.trans (beyond_of_assignOne hs hone))
    (.refl k st) h

/-- What a rule says about a point is written behind it. -/
theorem beyond_of_apply (hs : s.Linear) {k : Nat} {instr : Instr} {e : Effect} {done : Bool}
    (h : s.apply k instr e st = .ok done st') : Beyond k st st' := by
  obtain ⟨_, _, rfl⟩ | ⟨_, _, rfl⟩ | ⟨t, dst, _, _, _, hassign⟩ | ⟨object, n, _, _, hinit⟩ :=
    apply_ok h
  · exact .refl k st'
  · exact .refl k st'
  · exact beyond_of_assign hs hassign
  · obtain ⟨_, hbeyond, _⟩ := initialiseFrom_keeps (I := fun _ st' => Beyond k st st')
      (fun hI _ _ hassign => hI.trans (beyond_of_assign hs hassign)) (fun hI _ _ => hI)
      (.refl k st) hinit
    exact hbeyond

theorem beyond_of_transfer (hs : s.Linear) {k : Nat} {p : Point} {done : Bool}
    (h : s.transfer k p st = .ok done st') : Beyond k st st' := by
  obtain ⟨e, m, _, happly⟩ := transfer_ok h
  exact (Beyond.memo k st m).trans (beyond_of_apply hs happly)

theorem beyond_restore (k : Nat) (st : State) : Beyond k st (restore st k) := by
  unfold restore
  split
  · split
    · exact .setInstr k st _
    · exact .refl k st
  · exact .refl k st

/-- A pass leaves alone what lies behind. -/
theorem beyond_of_pass (hs : s.Linear) {k : Nat} {done : Bool}
    (h : s.pass k st = .ok done st') : Beyond k st st' := by
  refine (beyond_restore k st).trans ?_
  obtain ⟨_, _, rfl⟩ | ⟨p, _, ⟨_, m, _, _, rfl⟩ | ⟨_, instr, m, _, h⟩ | ⟨_, h⟩⟩ :=
    analyse_ok (pass_ok h)
  · exact .refl k _
  · exact .memo k _ m
  · exact ((Beyond.memo k _ m).trans (.setInstr k _ instr)).trans (beyond_of_transfer hs h)
  · exact beyond_of_transfer hs h

/-- What holds between the passes over a line: all points before one are settled, and no other
point was analysed. -/
structure Level (s : Subject) (k : Nat) (agenda : Agenda) (st : State) : Prop where
  done : ∀ j < k, j ∈ st.settled
  ahead : ∀ j ∈ st.settled, j < k
  pending : ∀ j ∈ agenda.pending, j ≤ k
  waiting : ∀ j ∈ agenda.waiting, j = k
  next : s.graph.isReachable k = true → k ∈ agenda.pending ∨ k ∈ agenda.waiting

section Agenda

variable {k : Nat} {done : Bool} {u : Unit} {agenda rest : Agenda} {settled : Worklist}

theorem Agenda.next?_mem (h : agenda.next? settled = some (i, rest)) :
    i ∈ agenda.pending ∧ ∀ j ∈ rest.pending, j ∈ agenda.pending := by
  unfold Agenda.next? at h
  split at h
  · cases h
  · next k ks hdrop =>
    cases h
    have hsub : ∀ j ∈ i :: ks, j ∈ agenda.pending :=
      fun j hj => (List.dropWhile_sublist _).subset (hdrop ▸ hj)
    exact ⟨hsub i List.mem_cons_self, fun j hj => hsub j (List.mem_cons_of_mem i hj)⟩

/-- The point that is taken was pending or waiting. -/
theorem Agenda.take?_some (h : agenda.take? settled = some (i, rest)) :
    i ∉ settled ∧ (i ∈ agenda.pending ∨ i ∈ agenda.waiting) ∧ rest.waiting = agenda.waiting ∧
      ∀ j ∈ rest.pending, j ∈ agenda.pending ∨ j ∈ agenda.waiting := by
  unfold Agenda.take? at h
  split at h
  · next next hnext =>
    cases h
    obtain ⟨hi, hwaiting, _⟩ := Agenda.next?_some hnext
    obtain ⟨hmem, hrest⟩ := Agenda.next?_mem hnext
    exact ⟨hi, .inl hmem, hwaiting, fun j hj => .inl (hrest j hj)⟩
  · split at h
    · obtain ⟨hi, hwaiting, _⟩ := Agenda.next?_some h
      obtain ⟨hmem, hrest⟩ := Agenda.next?_mem h
      exact ⟨hi, .inr hmem, hwaiting, fun j hj => .inr (hrest j hj)⟩
    · cases h

/-- An agenda from which nothing is taken has settled points only. -/
theorem Agenda.take?_none (h : agenda.take? settled = none) (hj : j ∈ agenda.pending) :
    j ∈ settled := by
  unfold Agenda.take? at h
  split at h
  · cases h
  · next hnext => exact Agenda.next?_none hnext hj

namespace Level

/-- The point that comes next is the first one that is not settled. -/
theorem eq_of_take (h : s.Level k agenda st) (htake : agenda.take? st.settled = some (i, rest)) :
    i = k := by
  obtain ⟨hi, hmem, _⟩ := Agenda.take?_some htake
  have hle : i ≤ k := hmem.elim (h.pending i) fun hw => Nat.le_of_eq (h.waiting i hw)
  rcases Nat.lt_or_eq_of_le hle with hlt | heq
  · exact absurd (h.done i hlt) hi
  · exact heq

theorem pending_of_take (h : s.Level k agenda st)
    (htake : agenda.take? st.settled = some (i, rest)) : ∀ j ∈ rest.pending, j ≤ k := by
  obtain ⟨_, _, _, hrest⟩ := Agenda.take?_some htake
  exact fun j hj => (hrest j hj).elim (h.pending j) fun hw => Nat.le_of_eq (h.waiting j hw)

/-- After a point was analysed it is the turn of the next one. -/
theorem pass_done (hs : s.Linear) (h : s.Level k agenda st)
    (htake : agenda.take? st.settled = some (k, rest)) (hpass : s.pass k st = .ok true st') :
    s.Level (k + 1) (rest.after k true (s.graph.successors (.instr k))) (st'.settle k) := by
  have hbeyond := beyond_of_pass hs hpass
  obtain ⟨_, _, hwaiting, _⟩ := Agenda.take?_some htake
  refine ⟨fun j hj => ?_, fun j hj => ?_, fun j hj => ?_, fun j hj => ?_, fun hreach => ?_⟩
  · rcases Nat.lt_succ_iff_lt_or_eq.1 hj with hj | rfl
    · exact Worklist.mem_insert.2 (.inr ((hbeyond.settled j (Nat.le_of_lt hj)).2 (h.done j hj)))
    · exact Worklist.mem_insert.2 (.inl rfl)
  · rcases Worklist.mem_insert.1 hj with rfl | hj
    · exact Nat.lt_succ_self j
    · exact Nat.lt_succ_of_lt (h.ahead j (hbeyond.unsettled j hj))
  · rcases Worklist.mem_insertAll.1 hj with hj | hj
    · rcases hs.next (.instr k) with hlast | hnext
      · rw [hlast] at hj
        cases hj
      · rw [hnext, List.mem_singleton] at hj
        exact Nat.le_of_eq hj
    · exact Nat.le_succ_of_le (h.pending_of_take htake j hj)
  · obtain ⟨hj, hne⟩ := Worklist.mem_erase.1 hj
    exact absurd (h.waiting j (hwaiting ▸ hj)) hne
  · refine .inl (Worklist.mem_insertAll.2 (.inl ?_))
    rw [(hs.continues hreach k (Nat.lt_succ_self k)).2]
    exact List.mem_cons_self

/-- A point that has to wait holds up those after it. -/
theorem pass_waiting (hs : s.Linear) (h : s.Level k agenda st)
    (htake : agenda.take? st.settled = some (k, rest)) (hpass : s.pass k st = .ok false st') :
    s.Level k (rest.after k false (s.graph.successors (.instr k))) st' := by
  have hbeyond := beyond_of_pass hs hpass
  obtain ⟨_, _, hwaiting, _⟩ := Agenda.take?_some htake
  refine ⟨fun j hj => ?_, fun j hj => ?_, fun j hj => ?_, fun j hj => ?_, fun _ => ?_⟩
  · exact (hbeyond.settled j (Nat.le_of_lt hj)).2 (h.done j hj)
  · exact h.ahead j (hbeyond.unsettled j hj)
  · exact h.pending_of_take htake j hj
  · rcases Worklist.mem_insert.1 hj with rfl | hj
    · rfl
    · exact h.waiting j (hwaiting ▸ hj)
  · exact .inr (Worklist.mem_insert.2 (.inl rfl))

end Level

/-- A run over straight code analyses the points in order.  `I` is what holds before the point at
an index is analysed.  If the run does not get past a point, that has to wait, and `W` holds. -/
theorem run_keeps (hs : s.Linear) {I W : Nat → State → Prop}
    (done : ∀ {k st st'}, I k st → s.pass k st = .ok true st' → I (k + 1) (st'.settle k))
    (waiting : ∀ {k st st'}, I k st → s.pass k st = .ok false st' → I k st' ∧ W k st')
    {passes? : Option Nat} (hI : I 0 st) (hst : ∀ j, j ∉ st.settled)
    (h : s.run passes? st = .ok u st') :
    ∃ k, I k st' ∧ (s.graph.isReachable k = true → W k st') := by
  have hstart : ∃ k, I k st ∧ s.Level k ⟨Worklist.empty.insertAll s.graph.entry, .empty, false⟩ st ∧
      (k ∈ Worklist.empty → W k st) := by
    refine ⟨0, hI, ⟨fun j hj => ?_, fun j hj => absurd hj (hst j), fun j hj => ?_, fun j hj => ?_,
      fun _ => ?_⟩, fun h => absurd h Worklist.not_mem_empty⟩
    · cases hj
    · rw [hs.entry] at hj
      simpa using hj
    · exact absurd hj Worklist.not_mem_empty
    · rw [hs.entry]
      simp
  obtain ⟨agenda, ⟨k, hIk, hlevel, hwaits⟩, hend⟩ := runFrom_keeps (I := fun agenda st =>
    ∃ k, I k st ∧ s.Level k agenda st ∧ (k ∈ agenda.waiting → W k st)) (by
      rintro agenda rest i passed st st' ⟨k, hIk, hlevel, _⟩ htake hpass
      obtain rfl := hlevel.eq_of_take htake
      cases passed with
      | true =>
        refine ⟨i + 1, done hIk hpass, hlevel.pass_done hs htake hpass, fun hmem => ?_⟩
        have hmem := (Worklist.mem_erase.1 hmem).1
        rw [(Agenda.take?_some htake).2.2.1] at hmem
        exact absurd (hlevel.waiting _ hmem) (Nat.succ_ne_self i)
      | false =>
        obtain ⟨hIk', hW⟩ := waiting hIk hpass
        exact ⟨i, hIk', hlevel.pass_waiting hs htake hpass, fun _ => hW⟩) hstart h
  refine ⟨k, hIk, fun hreach => hwaits ((hlevel.next hreach).resolve_left fun hpending => ?_)⟩
  exact Nat.lt_irrefl k (hlevel.ahead k (Agenda.take?_none hend hpending))

end Agenda

end Subject

end Analysis

end Dalvik
