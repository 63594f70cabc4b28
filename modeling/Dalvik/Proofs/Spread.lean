import Dalvik.Proofs.Paths

/-!
# How a type spreads

`Subject.assign` writes the type of a register after a node and carries it on.  What it does to a
state is a sequence of small changes: a type is received before a point, the type there rises,
and if the point does not write the register the type after it rises too.  `Received` is one such
change.  `Spread` is a sequence of them, each of which starts at a node that was reached before.

A loop over the successors of a node has a rule of its own (`carry_keeps`), and so has the loop
over the points from which a type is carried on (`carryAll_keeps`).  What only depends on the
changes, and not on which of them are made, is proved from `Spread` by induction.
-/

namespace Dalvik.Analysis

/-! ## Looking at a state -/

namespace State

/-- The type of a register before a point. -/
def typeBefore? (st : State) (i r : Nat) : Option RegType :=
  (st.points[i]?).bind fun p => p.before[r]?

/-- What no step of an analysis changes: the instructions of the body at their addresses, and how
many types are kept. -/
def frame (st : State) : Nat × List (Addr × Instr × Nat × Nat) :=
  (st.entry.size, st.points.toList.map fun p => (p.addr, p.given, p.before.size, p.after.size))

/-- The instructions in their places. -/
def instrs (st : State) : List Instr := st.points.toList.map Point.instr

/-- Steps that leave frame and instructions alone keep a point but for its types. -/
theorem point_of_frame {st st' : State} {i : Nat} {p' : Point} (hframe : st'.frame = st.frame)
    (hinstrs : st'.instrs = st.instrs) (hp' : st'.points[i]? = some p') :
    ∃ p, st.points[i]? = some p ∧ p'.instr = p.instr ∧ p'.addr = p.addr ∧ p'.given = p.given ∧
      p'.after.size = p.after.size := by
  have hat := congrArg (fun f => f.2[i]?) hframe
  simp only [frame, List.getElem?_map, Array.getElem?_toList, hp', Option.map_some] at hat
  obtain ⟨p, hp, hq⟩ := Option.map_eq_some_iff.1 hat.symm
  simp only [Prod.mk.injEq] at hq
  have hinstr := congrArg (·[i]?) hinstrs
  simp only [instrs, List.getElem?_map, Array.getElem?_toList, hp', hp, Option.map_some,
    Option.some.injEq] at hinstr
  exact ⟨p, hp, hinstr, hq.1.symm, hq.2.1.symm, hq.2.2.2.symm⟩

end State

/-- The point after a type came in for a register before it. -/
def Point.entered (p : Point) (r : Nat) (t : RegType) : Point :=
  { p with before := p.before.setIfInBounds r t }

/-- The point after a type came in for a register, and passed through unless the register is
written. -/
def Point.raise (p : Point) (r : Nat) (t : RegType) : Point :=
  if (p.entered r t).sets r then p.entered r t
  else { p.entered r t with after := p.after.setIfInBounds r t }

/-- The state after a type came in for a register of a point, and what was remembered on the
way. -/
def State.raise (st : State) (m : Memo) (k : Nat) (p : Point) (r : Nat) (t : RegType) : State :=
  ({ st with memo := m }.setPoint k (p.raise r t)).unsettle k

/-! ## Small changes -/

namespace Point

variable {p : Point} {r x : Nat} {t : RegType}

theorem typeBefore_ok {r : Reg} : p.typeBefore r = .ok t ↔ p.before[r.index]? = some t := by
  unfold typeBefore
  cases p.before[r.index]? <;> simp

@[simp] theorem raise_addr : (p.raise r t).addr = p.addr := by
  unfold raise
  split <;> rfl

@[simp] theorem raise_given : (p.raise r t).given = p.given := by
  unfold raise
  split <;> rfl

@[simp] theorem raise_instr : (p.raise r t).instr = p.instr := by
  unfold raise
  split <;> rfl

@[simp] theorem raise_before : (p.raise r t).before = p.before.setIfInBounds r t := by
  unfold raise
  split <;> rfl

@[simp] theorem raise_after : (p.raise r t).after =
    if (p.entered r t).sets r then p.after else p.after.setIfInBounds r t := by
  unfold raise
  split <;> rfl

end Point

namespace State

variable {st : State} {m : Memo} {n : NodeId} {i k r x : Nat} {t : RegType} {p : Point}

theorem typeAfter?_memo : ({ st with memo := m } : State).typeAfter? n x = st.typeAfter? n x := by
  cases n <;> rfl

@[simp] theorem raise_entry : (st.raise m k p r t).entry = st.entry := rfl

@[simp] theorem mem_raise_settled : i ∈ (st.raise m k p r t).settled ↔ i ∈ st.settled ∧ i ≠ k :=
  Worklist.mem_erase

/-- Only the point at the index changes. -/
theorem raise_points (hp : st.points[k]? = some p) (i : Nat) :
    (st.raise m k p r t).points[i]? = if i = k then some (p.raise r t) else st.points[i]? := by
  obtain ⟨hk, _⟩ := Array.getElem?_eq_some_iff.1 hp
  show (st.points.setIfInBounds k _)[i]? = _
  rw [Array.getElem?_setIfInBounds]
  by_cases h : i = k
  · subst h
    simp [hk]
  · simp [h, Ne.symm h]

/-- Before the point, the type of the register is the new one. -/
theorem typeBefore?_raise {old : RegType} (hp : st.points[k]? = some p)
    (hold : p.before[r]? = some old) :
    (st.raise m k p r t).typeBefore? i x =
      if i = k ∧ x = r then some t else st.typeBefore? i x := by
  obtain ⟨hr, _⟩ := Array.getElem?_eq_some_iff.1 hold
  unfold typeBefore?
  rw [raise_points hp]
  by_cases hi : i = k
  · subst hi
    simp only [if_true, Option.bind_some, Point.raise_before, hp, true_and]
    rw [Array.getElem?_setIfInBounds]
    by_cases hx : x = r
    · simp [hx, hr]
    · simp [hx, Ne.symm hx]
  · simp [hi]

/-- After the point, the type of the register is the new one unless the register is written. -/
theorem typeAfter?_raise (hp : st.points[k]? = some p) :
    (st.raise m k p r t).typeAfter? n x =
      if n = .instr k ∧ x = r ∧ (p.entered r t).sets r = false then
        (st.typeAfter? n x).map fun _ => t
      else st.typeAfter? n x := by
  cases n with
  | start => simp [typeAfter?]
  | instr i =>
    simp only [typeAfter?, NodeId.instr.injEq]
    rw [raise_points hp]
    by_cases hi : i = k
    · subst hi
      simp only [if_true, Option.bind_some, Point.raise_after, hp, true_and]
      cases hs : (p.entered r t).sets r with
      | true => simp
      | false =>
        simp only [Bool.false_eq_true, if_false, and_true]
        rw [Array.getElem?_setIfInBounds]
        by_cases hx : x = r
        · subst hx
          by_cases hlt : x < p.after.size
          · simp [hlt]
          · simp [hlt]
        · simp [hx, Ne.symm hx]
    · simp [hi]

/-- The list of points after a change of one. -/
theorem map_raise_points {β : Type} {f : Point → β} (hp : st.points[k]? = some p)
    (hf : f (p.raise r t) = f p) :
    (st.raise m k p r t).points.toList.map f = st.points.toList.map f := by
  obtain ⟨hk, hpk⟩ := Array.getElem?_eq_some_iff.1 hp
  show (st.points.setIfInBounds k _).toList.map f = _
  rw [Array.toList_setIfInBounds, List.map_set, hf]
  apply List.ext_getElem?
  intro i
  rw [List.getElem?_set]
  split
  · next h =>
    subst h
    simp [hk, hpk]
  · rfl

@[simp] theorem raise_frame (hp : st.points[k]? = some p) :
    (st.raise m k p r t).frame = st.frame := by
  refine Prod.ext rfl (map_raise_points hp ?_)
  simp only [Point.raise_addr, Point.raise_given, Point.raise_before, Point.raise_after,
    Array.size_setIfInBounds]
  split <;> simp

@[simp] theorem raise_instrs (hp : st.points[k]? = some p) :
    (st.raise m k p r t).instrs = st.instrs :=
  map_raise_points hp Point.raise_instr

@[simp] theorem setAfter_memo : (st.setAfter n r t).memo = st.memo := by
  cases n <;> rfl

@[simp] theorem setAfter_settled : (st.setAfter n r t).settled = st.settled := by
  cases n <;> rfl

/-- Only the point of the node changes. -/
theorem setAfter_points (i : Nat) :
    (st.setAfter n r t).points[i]? =
      if n = .instr i then
        (st.points[i]?).map fun p => { p with after := p.after.setIfInBounds r t }
      else st.points[i]? := by
  cases n with
  | start => simp [setAfter]
  | instr j =>
    simp only [setAfter, Array.getElem?_modify, NodeId.instr.injEq]

@[simp] theorem typeBefore?_setAfter :
    (st.setAfter n r t).typeBefore? i x = st.typeBefore? i x := by
  unfold typeBefore?
  rw [setAfter_points]
  split
  · cases st.points[i]? <;> rfl
  · rfl

/-- After the node, the type of the register is the new one. -/
theorem typeAfter?_setAfter {n' : NodeId} :
    (st.setAfter n r t).typeAfter? n' x =
      if n' = n ∧ x = r then (st.typeAfter? n' x).map fun _ => t else st.typeAfter? n' x := by
  have set_get : ∀ a : Array RegType,
      (a.setIfInBounds r t)[x]? = if x = r then (a[x]?).map fun _ => t else a[x]? := by
    intro a
    rw [Array.getElem?_setIfInBounds]
    by_cases hx : x = r
    · subst hx
      by_cases hlt : x < a.size <;> simp [hlt]
    · simp [hx, Ne.symm hx]
  cases n' with
  | start =>
    cases n with
    | start => simp [typeAfter?, setAfter, set_get]
    | instr i => simp [typeAfter?, setAfter]
  | instr i =>
    simp only [typeAfter?]
    rw [setAfter_points]
    by_cases hn : n = .instr i
    · subst hn
      cases hp : st.points[i]? with
      | none => simp
      | some p => simp [set_get]
    · simp [hn, Ne.symm hn]

theorem map_setAfter_points {β : Type} {f : Point → β}
    (hf : ∀ p a, a.size = p.after.size → f { p with after := a } = f p) :
    (st.setAfter n r t).points.toList.map f = st.points.toList.map f := by
  apply List.ext_getElem?
  intro i
  simp only [List.getElem?_map, Array.getElem?_toList]
  rw [setAfter_points]
  split
  · cases st.points[i]? with
    | none => rfl
    | some p => simp [hf p (p.after.setIfInBounds r t) Array.size_setIfInBounds]
  · rfl

@[simp] theorem setAfter_frame : (st.setAfter n r t).frame = st.frame := by
  refine Prod.ext ?_ (map_setAfter_points fun p a ha => by simp [ha])
  cases n with
  | start => exact Array.size_setIfInBounds
  | instr i => rfl

@[simp] theorem setAfter_instrs : (st.setAfter n r t).instrs = st.instrs :=
  map_setAfter_points fun _ _ _ => rfl

end State

namespace Subject

variable {s : Subject} {r : Nat} {t : RegType} {n : NodeId} {k : Nat} {st st' : State}
  {changed changed' : Worklist}

/-- What becomes of a state when a type is received for a register before a point, and whether the
type passed through the point. -/
inductive Received (s : Subject) (r : Nat) (t : RegType) (k : Nat) (st : State) :
    State → Bool → Prop where
  /-- There is no such point or register. -/
  | absent (hold : st.typeBefore? k r = none) : Received s r t k st st false
  /-- The type adds nothing. -/
  | same {old : RegType} {m : Memo} (hold : st.typeBefore? k r = some old)
    (hjoin : old.join s.classPath t st.memo = .ok old m) :
    Received s r t k st { st with memo := m } false
  /-- The type before the point rises. -/
  | raised {p : Point} {old new : RegType} {m : Memo} {passed : Bool}
    (hp : st.points[k]? = some p) (hold : p.before[r]? = some old)
    (hjoin : old.join s.classPath t st.memo = .ok new m) (hnew : new ≠ old)
    (hpassed : passed = !(p.entered r new).sets r) :
    Received s r t k st (st.raise m k p r new) passed

theorem receive_ok (h : s.receive r t changed k st = .ok changed' st') :
    ∃ passed, Received s r t k st st' passed ∧
      changed' = if passed then changed.insert k else changed := by
  unfold Subject.receive at h
  obtain ⟨_, _, hget, h⟩ := bind_ok.1 h
  cases hget
  cases hp : st.points[k]? with
  | none =>
    simp only [hp] at h
    cases h
    exact ⟨false, .absent (by simp [State.typeBefore?, hp]), rfl⟩
  | some p =>
    simp only [hp] at h
    obtain ⟨answer, st₁, hask, h⟩ := bind_ok.1 h
    obtain ⟨m, hreceive, rfl⟩ := Step.ofRule_ok.1 hask
    rw [Rule.ask_ok, Point.receive] at hreceive
    cases hold : p.before[r]? with
    | none =>
      simp only [hold] at hreceive
      cases hreceive
      cases h
      exact ⟨false, .absent (by simp [State.typeBefore?, hp, hold]), rfl⟩
    | some old =>
      simp only [hold] at hreceive
      obtain ⟨new, m₁, hjoin, hreceive⟩ := bind_ok.1 hreceive
      by_cases hnew : new = old
      · rw [if_pos hnew] at hreceive
        cases hreceive
        cases h
        subst hnew
        exact ⟨false, .same (by simp [State.typeBefore?, hp, hold]) hjoin, rfl⟩
      · rw [if_neg hnew] at hreceive
        have hraised := Received.raised hp hold hjoin hnew rfl
        refine ⟨!(p.entered r new).sets r, ?_⟩
        unfold State.raise Point.raise at hraised
        cases hs : (p.entered r new).sets r with
        | true =>
          rw [hs, if_pos rfl] at hraised
          rw [if_pos (show Point.sets { p with before := _ } r = true from hs)] at hreceive
          cases hreceive
          cases h
          exact ⟨hraised, rfl⟩
        | false =>
          rw [hs, if_neg Bool.false_ne_true] at hraised
          rw [if_neg (show ¬ Point.sets { p with before := _ } r = true from
            ne_true_of_eq_false hs)] at hreceive
          cases hreceive
          cases h
          exact ⟨hraised, rfl⟩

/-! ## Loops -/

/-- A type that is not there is not carried on. -/
theorem carry_absent (ht : st.typeAfter? n r = none)
    (h : s.carry n r changed st = .ok changed' st') : changed' = changed ∧ st' = st := by
  unfold Subject.carry at h
  obtain ⟨_, _, hget, h⟩ := bind_ok.1 h
  cases hget
  simp only [ht] at h
  cases h
  exact ⟨rfl, rfl⟩

/-- What each change keeps, carrying a type on from one node keeps.  `I` may speak of the
successors that are left. -/
theorem carry_keeps {I : List Nat → Worklist → State → Prop}
    (step : ∀ {k ks changed st st' passed}, I (k :: ks) changed st →
      Received s r t k st st' passed → I ks (if passed then changed.insert k else changed) st')
    (ht : st.typeAfter? n r = some t) (h : s.carry n r changed st = .ok changed' st')
    (hI : I (s.graph.successors n) changed st) : I [] changed' st' := by
  unfold Subject.carry at h
  obtain ⟨_, _, hget, h⟩ := bind_ok.1 h
  cases hget
  simp only [ht] at h
  refine foldlM_keeps (I := I) ?_ hI h
  intro k ks changed changed' st st' hI h
  obtain ⟨passed, hreceived, rfl⟩ := receive_ok h
  exact step hI hreceived

/-- What carrying on from the lowest index keeps, carrying on from all of them keeps. -/
theorem carryAll_keeps {I : Worklist → State → Prop}
    (step : ∀ {i rest changed' st st'}, I ⟨i :: rest⟩ st →
      s.carry (.instr i) r ⟨rest⟩ st = .ok changed' st' → I changed' st') :
    ∀ {left limit : Nat} {changed : Worklist} {st st' : State} {u : Unit}, I changed st →
      s.carryAll r limit left changed st = .ok u st' → I .empty st' := by
  intro left
  induction left with
  | zero =>
    intro limit changed st st' u hI h
    obtain ⟨_ | ⟨i, rest⟩⟩ := changed
    · rw [Subject.carryAll] at h
      cases h
      exact hI
    · rw [Subject.carryAll] at h
      cases h
  | succ left ih =>
    intro limit changed st st' u hI h
    obtain ⟨_ | ⟨i, rest⟩⟩ := changed
    · rw [Subject.carryAll] at h
      cases h
      exact hI
    · rw [Subject.carryAll] at h
      obtain ⟨changed', st₁, hcarry, h⟩ := bind_ok.1 h
      exact ih (step hI hcarry) h

/-! ## Assignments -/

/-- A type is written and carried on unless it was there. -/
theorem assignOne_ok {new : Bool} (h : s.assignOne n r t st = .ok new st') :
    (new = false ∧ st.typeAfter? n r = some t ∧ st' = st) ∨
      (new = true ∧ ∃ limit changed st₁, s.carry n r .empty (st.setAfter n r t) = .ok changed st₁ ∧
        s.carryAll r limit limit changed st₁ = .ok () st') := by
  unfold Subject.assignOne at h
  obtain ⟨_, _, hget, h⟩ := bind_ok.1 h
  cases hget
  by_cases ht : st.typeAfter? n r = some t
  · rw [if_pos ht] at h
    cases h
    exact .inl ⟨rfl, ht, rfl⟩
  · rw [if_neg ht] at h
    obtain ⟨_, _, hset, h⟩ := bind_ok.1 h
    cases hset
    obtain ⟨changed, st₁, hcarry, h⟩ := bind_ok.1 h
    obtain ⟨_, st₂, hall, h⟩ := bind_ok.1 h
    cases h
    exact .inr ⟨rfl, _, changed, st₁, hcarry, hall⟩

/-- A type is assigned to a register, and the other half of a wide value to the next one if the
first is new. -/
theorem assign_cases {u : Unit} (h : s.assign n r t st = .ok u st') :
    r < s.body.registers ∧ ∃ new st₁, s.assignOne n r t st = .ok new st₁ ∧
      ((new = false ∨ t.high? = none) ∧ st' = st₁ ∨
        ∃ high new', new = true ∧ t.high? = some high ∧ r + 1 < s.body.registers ∧
          s.assignOne n (r + 1) high st₁ = .ok new' st') := by
  unfold Subject.assign at h
  split at h
  · cases h
  · next hr =>
    refine ⟨Nat.lt_of_not_le hr, ?_⟩
    obtain ⟨new, st₁, hone, h⟩ := bind_ok.1 h
    refine ⟨new, st₁, hone, ?_⟩
    cases new with
    | false =>
      cases h
      exact .inl ⟨.inl rfl, rfl⟩
    | true =>
      simp only [if_true] at h
      cases hhigh : t.high? with
      | none =>
        simp only [hhigh] at h
        cases h
        exact .inl ⟨.inr rfl, rfl⟩
      | some high =>
        simp only [hhigh] at h
        split at h
        · cases h
        · next hr' =>
          obtain ⟨new', h⟩ := discard_ok h
          exact .inr ⟨high, new', rfl, rfl, Nat.lt_of_not_le hr', h⟩

theorem assign_ok {u : Unit} (h : s.assign n r t st = .ok u st') :
    r < s.body.registers ∧ ∃ new st₁, s.assignOne n r t st = .ok new st₁ ∧
      (st' = st₁ ∨ ∃ high new', new = true ∧ t.high? = some high ∧ r + 1 < s.body.registers ∧
        s.assignOne n (r + 1) high st₁ = .ok new' st') := by
  obtain ⟨hr, new, st₁, hone, hrest⟩ := assign_cases h
  exact ⟨hr, new, st₁, hone, hrest.imp_left And.right⟩

/-! ## Sequences of changes -/

/-- A sequence of changes by which types of a register spread from a node.  `sources` has the
nodes from which they may go on, and `P` holds of all the types that are received. -/
inductive Spread (s : Subject) (P : RegType → Prop) (r : Nat) (n : NodeId) (st : State) :
    List NodeId → State → Prop where
  | start : Spread s P r n st [n] st
  | step {sources : List NodeId} {source : NodeId} {k : Nat} {t : RegType} {st₁ st₂ : State}
    {passed : Bool} (h : Spread s P r n st sources st₁) (hsource : source ∈ sources)
    (hk : k ∈ s.graph.successors source) (ht : P t) (hk : Received s r t k st₁ st₂ passed) :
    Spread s P r n st (if passed then .instr k :: sources else sources) st₂

/-- Types of which a property holds no matter what they are joined with. -/
def Absorbing (cp : ClassPath) (P : RegType → Prop) : Prop :=
  ∀ {old t new : RegType} {m m' : Memo}, P t → old.join cp t m = .ok new m' → P new

namespace Spread

variable {P : RegType → Prop} {sources : List NodeId} {i x : Nat}

/-- No change touches what a step leaves alone. -/
theorem frame (h : Spread s P r n st sources st') : st'.frame = st.frame := by
  induction h with
  | start => rfl
  | step _ _ _ _ hreceived ih =>
    rw [← ih]
    cases hreceived with
    | absent => rfl
    | same => rfl
    | raised hp => exact State.raise_frame hp

/-- No change replaces an instruction. -/
theorem instrs (h : Spread s P r n st sources st') : st'.instrs = st.instrs := by
  induction h with
  | start => rfl
  | step _ _ _ _ hreceived ih =>
    rw [← ih]
    cases hreceived with
    | absent => rfl
    | same => rfl
    | raised hp => exact State.raise_instrs hp

/-- What joins keep of the memory, a sequence of changes keeps. -/
theorem memo {I : Memo → Prop}
    (hI : ∀ {old t new : RegType} {m m' : Memo}, I m → old.join s.classPath t m = .ok new m' → I m')
    (h : Spread s P r n st sources st') (hst : I st.memo) : I st'.memo := by
  induction h with
  | start => exact hst
  | step _ _ _ _ hreceived ih =>
    cases hreceived with
    | absent => exact ih
    | same _ hjoin => exact hI ih hjoin
    | raised _ _ hjoin => exact hI ih hjoin

/-- Other registers keep their types. -/
theorem typeBefore?_of_ne (hx : x ≠ r) (h : Spread s P r n st sources st') :
    st'.typeBefore? i x = st.typeBefore? i x := by
  induction h with
  | start => rfl
  | step _ _ _ _ hreceived ih =>
    rw [← ih]
    cases hreceived with
    | absent => rfl
    | same => rfl
    | raised hp hold =>
      rw [State.typeBefore?_raise hp hold, if_neg fun h => hx h.2]

/-- Other registers keep their types. -/
theorem typeAfter?_of_ne {n' : NodeId} (hx : x ≠ r) (h : Spread s P r n st sources st') :
    st'.typeAfter? n' x = st.typeAfter? n' x := by
  induction h with
  | start => rfl
  | step _ _ _ _ hreceived ih =>
    rw [← ih]
    cases hreceived with
    | absent => rfl
    | same => cases n' <;> rfl
    | raised hp =>
      rw [State.typeAfter?_raise hp, if_neg fun h => hx h.2.1]

/-- No change settles a point. -/
theorem settled_of_settled (h : Spread s P r n st sources st') (hi : i ∈ st'.settled) :
    i ∈ st.settled := by
  induction h with
  | start => exact hi
  | step _ _ _ _ hreceived ih =>
    cases hreceived with
    | absent => exact ih hi
    | same => exact ih hi
    | raised => exact ih (State.mem_raise_settled.1 hi).1

/-- A point that is still settled is as it was. -/
theorem points_of_settled (h : Spread s P r n st sources st') (hi : i ∈ st'.settled) :
    st'.points[i]? = st.points[i]? := by
  induction h with
  | start => rfl
  | step _ _ _ _ hreceived ih =>
    cases hreceived with
    | absent => exact ih hi
    | same => exact ih hi
    | raised hp =>
      obtain ⟨hi, hne⟩ := State.mem_raise_settled.1 hi
      rw [State.raise_points hp, if_neg hne]
      exact ih hi

/-- A walk over points that are not settled stays one, as no change settles a point. -/
theorem path_mono {st₁ st₂ : State} {passed : Bool} (hreceived : Received s r t k st₁ st₂ passed)
    (h : s.graph.Path (· ∉ st₁.settled) n i) : s.graph.Path (· ∉ st₂.settled) n i := by
  refine h.mono fun j hj => ?_
  cases hreceived with
  | absent => exact hj
  | same => exact hj
  | raised => exact fun hmem => hj (State.mem_raise_settled.1 hmem).1

/-- The next point of a walk over points that are not settled. -/
theorem path_next {source : NodeId} (hk : k ∈ s.graph.successors source)
    (hopen : k ∉ st.settled)
    (hsource : source = n ∨ ∃ i, source = .instr i ∧ s.graph.Path (· ∉ st.settled) n i) :
    s.graph.Path (· ∉ st.settled) n k := by
  rcases hsource with rfl | ⟨i, rfl, hpath⟩
  · exact .edge hk hopen
  · exact .step hpath hk hopen

/-- Every source is the node, or is reached from it over points that are not settled. -/
theorem source_path (h : Spread s P r n st sources st') :
    ∀ source ∈ sources,
      source = n ∨ ∃ i, source = .instr i ∧ s.graph.Path (· ∉ st'.settled) n i := by
  induction h with
  | start => exact fun source hs => .inl (List.mem_singleton.1 hs)
  | @step sources source k t st₁ st₂ passed _ hsource hk _ hreceived ih =>
    have old : ∀ source ∈ sources,
        source = n ∨ ∃ i, source = .instr i ∧ s.graph.Path (· ∉ st₂.settled) n i := by
      intro source hs
      rcases ih source hs with hn | ⟨i, hi, hpath⟩
      · exact .inl hn
      · exact .inr ⟨i, hi, path_mono hreceived hpath⟩
    cases passed with
    | false => exact old
    | true =>
      intro source' hs
      rcases List.mem_cons.1 hs with rfl | hs
      · refine .inr ⟨k, rfl, path_next hk ?_ (old source hsource)⟩
        cases hreceived with
        | raised => exact fun hmem => (State.mem_raise_settled.1 hmem).2 rfl
      · exact old source' hs

/-- The point whose type rises is reached from the node over points that are not settled. -/
theorem path_of_raised {source : NodeId} {m : Memo} {p : Point} {new : RegType}
    (h : Spread s P r n st sources st') (hsource : source ∈ sources)
    (hk : k ∈ s.graph.successors source) :
    s.graph.Path (· ∉ (st'.raise m k p r new).settled) n k := by
  refine path_next hk (fun hmem => (State.mem_raise_settled.1 hmem).2 rfl) ?_
  rcases h.source_path source hsource with hn | ⟨i, hi, hpath⟩
  · exact .inl hn
  · exact .inr ⟨i, hi, hpath.mono fun j hj hmem => hj (State.mem_raise_settled.1 hmem).1⟩

/-- A point that is not settled any more is reached from the node over such points. -/
theorem path_of_opened (h : Spread s P r n st sources st') (hi : i ∈ st.settled)
    (hi' : i ∉ st'.settled) : s.graph.Path (· ∉ st'.settled) n i := by
  induction h with
  | start => exact absurd hi hi'
  | @step sources source k t st₁ st₂ passed h hsource hk ht hreceived ih =>
    by_cases hi₁ : i ∈ st₁.settled
    · cases hreceived with
      | absent => exact ih hi'
      | same => exact ih hi'
      | raised =>
        by_cases hik : i = k
        · subst hik
          exact h.path_of_raised hsource hk
        · exact absurd (State.mem_raise_settled.2 ⟨hi₁, hik⟩) hi'
    · exact path_mono hreceived (ih hi₁)

/-- A point before which a type rises is reached from the node. -/
theorem path_of_risen (h : Spread s P r n st sources st')
    (hi : st'.typeBefore? i x ≠ st.typeBefore? i x) : s.graph.Path (· ∉ st'.settled) n i := by
  induction h with
  | start => exact absurd rfl hi
  | @step sources source k t st₁ st₂ passed h hsource hk ht hreceived ih =>
    cases hreceived with
    | absent => exact ih hi
    | same => exact ih hi
    | @raised p old new m _ hp hold hjoin hnew hpassed =>
      rw [State.typeBefore?_raise hp hold] at hi
      by_cases hik : i = k ∧ x = r
      · obtain ⟨rfl, rfl⟩ := hik
        exact h.path_of_raised hsource hk
      · rw [if_neg hik] at hi
        exact path_mono (.raised hp hold hjoin hnew hpassed) (ih hi)

/-- A register keeps its types around a point, or its type before the point has the property of
those that are received. -/
theorem types_around (hP : Absorbing s.classPath P) (h : Spread s P r n st sources st')
    (i x : Nat) :
    (st'.typeBefore? i x = st.typeBefore? i x ∧
      st'.typeAfter? (.instr i) x = st.typeAfter? (.instr i) x) ∨
    ∃ t, st'.typeBefore? i x = some t ∧ P t := by
  induction h with
  | start => exact .inl ⟨rfl, rfl⟩
  | @step sources source k u st₁ st₂ passed _ _ _ hu hreceived ih =>
    cases hreceived with
    | absent => exact ih
    | same => exact ih
    | @raised p old new m _ hp hold hjoin hnew hpassed =>
      rw [State.typeBefore?_raise hp hold]
      by_cases hik : i = k ∧ x = r
      · exact .inr ⟨new, if_pos hik, hP hu hjoin⟩
      · rw [if_neg hik, State.typeAfter?_raise hp, if_neg]
        · exact ih
        · rintro ⟨hn, hx, _⟩
          exact hik ⟨NodeId.instr.inj hn, hx⟩

/-- The type of a register stays that after an instruction that always writes it. -/
theorem typeAfter?_of_sets {instr : Instr} (h : Spread s P r n st sources st')
    (hi : st.instrs[i]? = some instr) (hsets : ∀ p : Point, p.instr = instr → p.sets x = true) :
    st'.typeAfter? (.instr i) x = st.typeAfter? (.instr i) x := by
  induction h with
  | start => rfl
  | @step sources source k u st₁ st₂ passed h _ _ _ hreceived ih =>
    rw [← ih]
    cases hreceived with
    | absent => rfl
    | same => rfl
    | @raised p old new m _ hp hold hjoin hnew hpassed =>
      rw [State.typeAfter?_raise hp, if_neg]
      rintro ⟨hn, rfl, hfalse⟩
      obtain rfl := NodeId.instr.inj hn
      have hinstr : p.instr = instr := by
        rw [← h.instrs] at hi
        simpa [State.instrs, hp] using hi
      rw [hsets (p.entered x new) hinstr] at hfalse
      cases hfalse

/-- The property of the types that are received holds of those after the sources. -/
theorem type_of_source (hP : Absorbing s.classPath P) (h : Spread s P r n st sources st')
    (hn : ∀ t, st.typeAfter? n r = some t → P t) :
    ∀ source ∈ sources, ∀ t, st'.typeAfter? source r = some t → P t := by
  induction h with
  | start =>
    intro source hs
    rw [List.mem_singleton.1 hs]
    exact hn
  | @step sources source k t st₁ st₂ passed h hsource hk ht hreceived ih =>
    cases hreceived with
    | absent => exact ih
    | same =>
      intro source hs t
      cases source <;> exact ih _ hs t
    | @raised p old new m _ hp hold hjoin hnew hpassed =>
      intro source' hs u hu
      rw [State.typeAfter?_raise hp] at hu
      split at hu
      · obtain ⟨_, _, rfl⟩ := Option.map_eq_some_iff.1 hu
        exact hP ht hjoin
      · next hne =>
        cases hsets : (p.entered r new).sets r with
        | true =>
          rw [hpassed, hsets] at hs
          exact ih source' hs u hu
        | false =>
          rw [hpassed, hsets] at hs
          rcases List.mem_cons.1 hs with rfl | hs
          · exact absurd ⟨rfl, rfl, hsets⟩ hne
          · exact ih source' hs u hu

/-- Carrying a type on from a source is a sequence of changes. -/
theorem carry {source : NodeId} (hP : Absorbing s.classPath P)
    (hn : ∀ t, st.typeAfter? n r = some t → P t) {st₁ : State}
    (h : Spread s P r n st sources st₁) (hsource : source ∈ sources)
    (hchanged : ∀ i ∈ changed, .instr i ∈ sources)
    (hcarry : s.carry source r changed st₁ = .ok changed' st') :
    ∃ sources', Spread s P r n st sources' st' ∧ ∀ i ∈ changed', .instr i ∈ sources' := by
  cases ht : st₁.typeAfter? source r with
  | none =>
    obtain ⟨rfl, rfl⟩ := carry_absent ht hcarry
    exact ⟨sources, h, hchanged⟩
  | some t =>
    have hPt := h.type_of_source hP hn source hsource t ht
    have done := carry_keeps (I := fun ks changed st₁ => (∀ k ∈ ks, k ∈ s.graph.successors source) ∧
      ∃ sources, Spread s P r n st sources st₁ ∧ source ∈ sources ∧
        ∀ i ∈ changed, .instr i ∈ sources) ?_ ht hcarry
      ⟨fun _ hk => hk, sources, h, hsource, hchanged⟩
    · obtain ⟨_, sources', h', _, hchanged'⟩ := done
      exact ⟨sources', h', hchanged'⟩
    · rintro k ks changed st₁ st₂ passed ⟨hks, sources, h, hsource, hchanged⟩ hreceived
      refine ⟨fun j hj => hks j (List.mem_cons_of_mem k hj), _,
        h.step hsource (hks k List.mem_cons_self) hPt hreceived, ?_⟩
      cases passed with
      | false => exact ⟨hsource, hchanged⟩
      | true =>
        refine ⟨List.mem_cons_of_mem _ hsource, fun i hi => ?_⟩
        rcases Worklist.mem_insert.1 hi with rfl | hi
        · exact List.mem_cons_self
        · exact List.mem_cons_of_mem _ (hchanged i hi)

end Spread

/-- A new type of a register spreads from the node after which it is written. -/
theorem spread_of_assignOne {P : RegType → Prop} (hP : Absorbing s.classPath P) (ht : P t)
    (h : s.assignOne n r t st = .ok true st') :
    ∃ sources, Spread s P r n (st.setAfter n r t) sources st' := by
  obtain ⟨hfalse, _⟩ | ⟨_, limit, changed, st₁, hcarry, hall⟩ := assignOne_ok h
  · cases hfalse
  have hn : ∀ u, (st.setAfter n r t).typeAfter? n r = some u → P u := by
    intro u hu
    rw [State.typeAfter?_setAfter, if_pos ⟨rfl, rfl⟩] at hu
    obtain ⟨_, _, rfl⟩ := Option.map_eq_some_iff.1 hu
    exact ht
  have first := Spread.carry hP hn .start List.mem_cons_self (by simp) hcarry
  have done := carryAll_keeps
    (I := fun changed st₁ => ∃ sources, Spread s P r n (st.setAfter n r t) sources st₁ ∧
      ∀ i ∈ changed, .instr i ∈ sources) ?_ first hall
  · obtain ⟨sources, hspread, _⟩ := done
    exact ⟨sources, hspread⟩
  · rintro i rest changed' st₁ st₂ ⟨sources, hspread, hchanged⟩ hcarry
    exact hspread.carry hP hn (hchanged i List.mem_cons_self)
      (fun j hj => hchanged j (List.mem_cons_of_mem i hj)) hcarry

/-! ## What assignments leave alone -/

/-- What the assignments to single registers keep, an assignment keeps. -/
theorem assign_keeps {I : State → Prop} {u : Unit}
    (one : ∀ {x t' new st st'}, t' = t ∨ t.high? = some t' → I st →
      s.assignOne n x t' st = .ok new st' → I st')
    (hI : I st) (h : s.assign n r t st = .ok u st') : I st' := by
  obtain ⟨_, new, st₁, hone, rfl | ⟨high, new', _, hhigh, _, hone'⟩⟩ := assign_ok h
  · exact one (.inl rfl) hI hone
  · exact one (.inr hhigh) (one (.inl rfl) hI hone) hone'

theorem frame_of_assign {u : Unit} (h : s.assign n r t st = .ok u st') :
    st'.frame = st.frame ∧ st'.instrs = st.instrs := by
  refine assign_keeps (I := fun st' => st'.frame = st.frame ∧ st'.instrs = st.instrs) ?_
    ⟨rfl, rfl⟩ h
  intro x t' new st₁ st₂ _ hI hone
  cases new with
  | false =>
    obtain ⟨_, _, rfl⟩ | ⟨htrue, _⟩ := assignOne_ok hone
    · exact hI
    · cases htrue
  | true =>
    obtain ⟨_, hspread⟩ :=
      spread_of_assignOne (P := fun _ => True) (fun _ _ => trivial) trivial hone
    rw [hspread.frame, hspread.instrs, State.setAfter_frame, State.setAfter_instrs]
    exact hI

end Subject

end Dalvik.Analysis
