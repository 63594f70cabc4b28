import Dalvik.Proofs.Below

/-!
# Types along edges

The types of an analysed method rise along every edge of its flow graph.  Each type is written
after a node, and carried on until no type before a point rises any more.  While that goes on
there are edges over which a register was not carried yet.  `Subject.Sound` says that types rise
along all edges but those, and that all types are proper.

Carrying a type over one edge closes that edge and may open those of the point it leads to
(`Sound.received`).  When no point is left to carry on from, all edges are closed.  Rules only
write proper types (`writes_of_effect`), so a whole analysis keeps all edges closed between
assignments (`sound_invariant`).
-/

namespace Dalvik

namespace RegType

variable {cls ty : Ty} {t : RegType}

/-! ## Proper types -/

theorem named_of_ofTy {n : TypeNode} (h : TypeNode.ofTy ty = .ok n) : n.Named :=
  TypeNode.named_of_ofDescriptor h

theorem Number.proper {wide : Prop} (h : t.Number wide) : t.Proper cls := by
  cases h <;> trivial

theorem proper_of_ofTy (h : ofTy ty = .ok t) : t.Proper cls := by
  obtain ⟨n, hn, _, rfl⟩ | hnumber := of_ofTy h
  · exact named_of_ofTy hn
  · exact hnumber.proper

theorem proper_of_high? {high : RegType} (h : t.high? = some high) : high.Proper cls := by
  cases t with
  | half x =>
    obtain ⟨y, _, rfl⟩ := Option.map_eq_some_iff.1 h
    trivial
  | _ => cases h

end RegType

namespace Analysis

namespace Subject

variable {s : Subject}

theorem proper_of_exceptionType {addr : Addr} {t : RegType} {m m' : Memo}
    (hm : s.classPath.SoundInterfaces m) (h : s.exceptionType addr m = .ok t m') :
    t.Proper s.cls.ty := by
  refine of_exceptionType (Q := RegType.Proper s.cls.ty) trivial
    (fun n => TypeNode.named_of_ofDescriptor)
    (fun x _ ty n _ hn found u m₁ m₂ hasked hfound hjoin => ?_) h
  have hm₁ := hasked.keeps s.classPath.soundInterfaces_keptBy hm
  exact (RegType.below_of_join hjoin hm₁ (RegType.named_of_ofTy hn) hfound).2.2

/-- Rules write proper types if they read proper types. -/
theorem writes_of_effect {i : Nat} {p : Point} {previous? : Option Instr} {e : Effect} {m m' : Memo}
    (hp : ∀ r t, p.typeBefore r = .ok t → t.Proper s.cls.ty) (hm : s.classPath.SoundInterfaces m)
    (h : s.effect i p previous? m = .ok e m') : e.Writes (RegType.Proper s.cls.ty) := by
  cases said_of_effect h with
  | nothing => trivial
  | waiting => trivial
  | initialise _ _ _ ht hn =>
    have hproper := hp _ _ ht
    obtain ⟨site, rfl⟩ | rfl := hn
    · exact hproper
    · exact RegType.named_of_ofTy hproper
  | made _ hn => exact RegType.named_of_ofTy hn
  | moved _ ht => exact hp _ _ ht
  | caught _ ht => exact proper_of_exceptionType hm ht
  | number ht => exact ht.proper
  | reference _ hn => exact TypeNode.named_of_ofDescriptor hn

/-! ## Edges -/

/-- All types before and after points are proper. -/
structure ProperTypes (s : Subject) (st : State) : Prop where
  before : ∀ {i r t}, st.typeBefore? i r = some t → t.Proper s.cls.ty
  after : ∀ {n r t}, st.typeAfter? n r = some t → t.Proper s.cls.ty

/-- The type of a register does not fall over an edge. -/
def Rises (s : Subject) (st : State) (n : NodeId) (k r : Nat) : Prop :=
  ∀ t u, st.typeAfter? n r = some t → st.typeBefore? k r = some u → t.Below s.classPath true u

/-- Types rise along all edges but some, over which a register still has to be carried. -/
structure Sound (s : Subject) (todo : NodeId → Nat → Nat → Prop) (st : State) : Prop where
  memo : s.classPath.SoundInterfaces st.memo
  proper : s.ProperTypes st
  rises : ∀ {n k r}, k ∈ s.graph.successors n → todo n k r ∨ s.Rises st n k r

/-- The edges over which a register still has to be carried: all edges from the points that are
listed, and those from one node to the successors that are left. -/
def Awaits (r : Nat) (changed : Worklist) (cur : NodeId) (left : List Nat) (n : NodeId)
    (k x : Nat) : Prop :=
  x = r ∧ ((∃ i ∈ changed, n = .instr i) ∨ (n = cur ∧ k ∈ left))

variable {r k : Nat} {t : RegType} {n : NodeId} {st st' : State} {passed : Bool}
  {changed changed' : Worklist} {cur : NodeId} {left : List Nat}

/-- Only the point itself gets another type after it, and only if the type passed through. -/
theorem Received.typeAfter? {n : NodeId} {x : Nat} (h : Received s r t k st st' passed) :
    st'.typeAfter? n x = st.typeAfter? n x ∨ (passed = true ∧ n = .instr k ∧ x = r) := by
  cases h with
  | absent => exact .inl rfl
  | same => exact .inl State.typeAfter?_memo
  | raised hp _ _ _ hpassed =>
    rw [State.typeAfter?_raise hp]
    split
    · next hn => exact .inr ⟨by rw [hpassed, hn.2.2]; rfl, hn.1, hn.2.1⟩
    · exact .inl rfl

/-- Types before points rise. -/
theorem Received.typeBefore? {i x : Nat} {u : RegType} (h : Received s r t k st st' passed)
    (hm : s.classPath.SoundInterfaces st.memo) (hst : s.ProperTypes st) (ht : t.Proper s.cls.ty)
    (hu : st'.typeBefore? i x = some u) :
    ∃ old, st.typeBefore? i x = some old ∧ old.Below s.classPath true u ∧
      (i = k → x = r → t.Below s.classPath true u) := by
  cases h with
  | absent hold =>
    refine ⟨u, hu, .refl u, ?_⟩
    rintro rfl rfl
    rw [hold] at hu
    cases hu
  | @same old m hold hjoin =>
    refine ⟨u, hu, .refl u, ?_⟩
    rintro rfl rfl
    obtain rfl : old = u := Option.some.inj (hold.symm.trans hu)
    exact (RegType.below_of_join hjoin hm (hst.before hold) ht).2.1
  | @raised p old new m _ hp hold hjoin hnew hpassed =>
    have hbefore : st.typeBefore? k r = some old := by simp [State.typeBefore?, hp, hold]
    obtain ⟨hold', ht', _⟩ := RegType.below_of_join hjoin hm (hst.before hbefore) ht
    rw [State.typeBefore?_raise hp hold] at hu
    split at hu
    · next hik =>
      obtain ⟨rfl, rfl⟩ := hik
      cases hu
      exact ⟨old, hbefore, hold', fun _ _ => ht'⟩
    · next hik => exact ⟨u, hu, .refl u, fun hi hx => absurd ⟨hi, hx⟩ hik⟩

/-- What is received is proper again. -/
theorem Received.proper (h : Received s r t k st st' passed)
    (hm : s.classPath.SoundInterfaces st.memo) (hst : s.ProperTypes st) (ht : t.Proper s.cls.ty) :
    s.classPath.SoundInterfaces st'.memo ∧ s.ProperTypes st' := by
  have keeps : ∀ {old new : RegType} {m : Memo}, old.join s.classPath t st.memo = .ok new m →
      s.classPath.SoundInterfaces m := by
    intro old new m hjoin
    exact Triple.ok (s.classPath.soundInterfaces_keptBy.join old t) hm hjoin
  cases h with
  | absent => exact ⟨hm, hst⟩
  | same _ hjoin =>
    exact ⟨keeps hjoin, hst.before, fun hu => hst.after (State.typeAfter?_memo ▸ hu)⟩
  | @raised p old new m _ hp hold hjoin hnew hpassed =>
    have hbefore : st.typeBefore? k r = some old := by simp [State.typeBefore?, hp, hold]
    have hproper := (RegType.below_of_join hjoin hm (hst.before hbefore) ht).2.2
    refine ⟨keeps hjoin, fun {i x u} hu => ?_, fun {n x u} hu => ?_⟩
    · rw [State.typeBefore?_raise hp hold] at hu
      split at hu
      · cases hu
        exact hproper
      · exact hst.before hu
    · rw [State.typeAfter?_raise hp] at hu
      split at hu
      · obtain ⟨_, _, rfl⟩ := Option.map_eq_some_iff.1 hu
        exact hproper
      · exact hst.after hu

theorem Sound.mono {todo todo' : NodeId → Nat → Nat → Prop} (h : s.Sound todo st)
    (htodo : ∀ {n k x}, k ∈ s.graph.successors n → todo n k x → todo' n k x ∨ s.Rises st n k x) :
    s.Sound todo' st :=
  ⟨h.memo, h.proper, fun hk => (h.rises hk).elim (htodo hk) .inr⟩

/-- A type that is received closes one edge.  If it passes through the point, the edges from there
are open again.  The type after the node it comes from is still the one that is carried, unless
the edges from that node are open again. -/
theorem Sound.received (h : s.Sound (Awaits r changed cur (k :: left)) st)
    (hcur : (∃ i ∈ changed, cur = .instr i) ∨ st.typeAfter? cur r = some t)
    (ht : t.Proper s.cls.ty) (hreceived : Received s r t k st st' passed)
    (hchanged : changed' = if passed then changed.insert k else changed) :
    s.Sound (Awaits r changed' cur left) st' ∧
      ((∃ i ∈ changed', cur = .instr i) ∨ st'.typeAfter? cur r = some t) := by
  have hmem : ∀ {i}, i ∈ changed → i ∈ changed' := by
    intro i hi
    rw [hchanged]
    split
    · exact Worklist.mem_insert.2 (.inr hi)
    · exact hi
  -- A node after which the type changed is listed.
  have hafter : ∀ n x, (x = r ∧ ∃ i ∈ changed', n = .instr i) ∨
      st'.typeAfter? n x = st.typeAfter? n x := by
    intro n x
    rcases hreceived.typeAfter? with hsame | ⟨hpassed, hn, hx⟩
    · exact .inr hsame
    · refine .inl ⟨hx, k, ?_, hn⟩
      rw [hchanged, hpassed]
      exact Worklist.mem_insert.2 (.inl rfl)
  obtain ⟨hmemo, hproper⟩ := hreceived.proper h.memo h.proper ht
  refine ⟨⟨hmemo, hproper, fun {n k' x} hk => ?_⟩, ?_⟩
  · rcases hafter n x with ⟨hx, hlisted⟩ | hsame
    · exact .inl ⟨hx, .inl hlisted⟩
    rcases h.rises hk with ⟨hx, ⟨i, hi, hn⟩ | ⟨hn, hleft⟩⟩ | hrises
    · exact .inl ⟨hx, .inl ⟨i, hmem hi, hn⟩⟩
    · rcases List.mem_cons.1 hleft with rfl | hleft
      · rcases hcur with ⟨i, hi, hcur⟩ | hcur
        · exact .inl ⟨hx, .inl ⟨i, hmem hi, hn.trans hcur⟩⟩
        · refine .inr fun t' u ht' hu => ?_
          rw [hsame, hn, hx, hcur] at ht'
          cases ht'
          obtain ⟨_, _, _, hbelow⟩ := hreceived.typeBefore? h.memo h.proper ht hu
          exact hbelow rfl hx
      · exact .inl ⟨hx, .inr ⟨hn, hleft⟩⟩
    · refine .inr fun t' u ht' hu => ?_
      obtain ⟨old, hold, hbelow, _⟩ := hreceived.typeBefore? h.memo h.proper ht hu
      exact .trans (hrises t' old (hsame ▸ ht') hold) hbelow
  · rcases hcur with ⟨i, hi, hcur⟩ | hcur
    · exact .inl ⟨i, hmem hi, hcur⟩
    · rcases hafter cur r with ⟨_, hlisted⟩ | hsame
      · exact .inl hlisted
      · exact .inr (hsame.trans hcur)

/-- Carrying a register on from a node closes the edges from it. -/
theorem Sound.carry (h : s.Sound (Awaits r changed cur (s.graph.successors cur)) st)
    (hcarry : s.carry cur r changed st = .ok changed' st') :
    s.Sound (Awaits r changed' cur []) st' := by
  cases ht : st.typeAfter? cur r with
  | none =>
    obtain ⟨rfl, rfl⟩ := carry_absent ht hcarry
    refine h.mono fun {n k x} _ htodo => ?_
    obtain ⟨hx, hlisted | ⟨hn, _⟩⟩ := htodo
    · exact .inl ⟨hx, .inl hlisted⟩
    · refine .inr fun t u hafter _ => ?_
      rw [hn, hx, ht] at hafter
      cases hafter
  | some t =>
    have hproper := h.proper.after ht
    refine (carry_keeps (I := fun left changed st => s.Sound (Awaits r changed cur left) st ∧
      ((∃ i ∈ changed, cur = .instr i) ∨ st.typeAfter? cur r = some t)) ?_ ht hcarry
      ⟨h, .inr ht⟩).1
    rintro k left changed st st' passed ⟨hsound, hcur⟩ hreceived
    exact hsound.received hcur hproper hreceived rfl

theorem Sound.carryAll {limit : Nat} {u : Unit} (h : s.Sound (Awaits r changed cur []) st)
    (hall : s.carryAll r limit limit changed st = .ok u st') :
    s.Sound (Awaits r .empty cur []) st' := by
  refine carryAll_keeps (I := fun changed st => s.Sound (Awaits r changed cur []) st) ?_ h hall
  intro i rest changed' st st' h hcarry
  have hfirst : s.Sound (Awaits r ⟨rest⟩ (.instr i) (s.graph.successors (.instr i))) st := by
    refine h.mono ?_
    rintro n k x hk ⟨hx, ⟨j, hj, hn⟩ | ⟨_, hnil⟩⟩
    · rcases List.mem_cons.1 hj with rfl | hj
      · exact .inl ⟨hx, .inr ⟨hn, hn ▸ hk⟩⟩
      · exact .inl ⟨hx, .inl ⟨j, hj, hn⟩⟩
    · cases hnil
  refine (hfirst.carry hcarry).mono ?_
  rintro n k x _ ⟨hx, hlisted | ⟨_, hnil⟩⟩
  · exact .inl ⟨hx, .inl hlisted⟩
  · cases hnil

/-! ## Analyses -/

/-- Types rise along all edges. -/
abbrev AllSound (s : Subject) (st : State) : Prop := s.Sound (fun _ _ _ => False) st

theorem AllSound.assignOne {new : Bool} (h : s.AllSound st) (ht : t.Proper s.cls.ty)
    (hone : s.assignOne n r t st = .ok new st') : s.AllSound st' := by
  obtain ⟨_, _, rfl⟩ | ⟨_, limit, changed, st₁, hcarry, hall⟩ := assignOne_ok hone
  · exact h
  have hset : s.Sound (Awaits r .empty n (s.graph.successors n)) (st.setAfter n r t) := by
    refine ⟨by simpa using h.memo, ⟨fun {i x u} hu => ?_, fun {n' x u} hu => ?_⟩,
      fun {n' k x} hk => ?_⟩
    · exact h.proper.before (by simpa using hu)
    · rw [State.typeAfter?_setAfter] at hu
      split at hu
      · obtain ⟨_, _, rfl⟩ := Option.map_eq_some_iff.1 hu
        exact ht
      · exact h.proper.after hu
    · by_cases hn : n' = n ∧ x = r
      · exact .inl ⟨hn.2, .inr ⟨hn.1, hn.1 ▸ hk⟩⟩
      · refine .inr fun t' u hafter hbefore => ?_
        rw [State.typeAfter?_setAfter, if_neg hn] at hafter
        rw [State.typeBefore?_setAfter] at hbefore
        exact (h.rises hk).elim False.elim fun hrises => hrises t' u hafter hbefore
  refine ((hset.carry hcarry).carryAll hall).mono ?_
  rintro n' k x _ ⟨_, ⟨i, hi, _⟩ | ⟨_, hnil⟩⟩
  · exact absurd hi Worklist.not_mem_empty
  · cases hnil

theorem AllSound.assign {u : Unit} (h : s.AllSound st) (ht : t.Proper s.cls.ty)
    (hassign : s.assign n r t st = .ok u st') : s.AllSound st' := by
  refine assign_keeps (I := s.AllSound) ?_ h hassign
  rintro x t' new st st' (rfl | hhigh) h hone
  · exact h.assignOne ht hone
  · exact h.assignOne (RegType.proper_of_high? hhigh) hone

/-- Only the types and the memory count. -/
theorem AllSound.congr (h : s.AllSound st) (hm : s.classPath.SoundInterfaces st'.memo)
    (hbefore : ∀ i x, st'.typeBefore? i x = st.typeBefore? i x)
    (hafter : ∀ n x, st'.typeAfter? n x = st.typeAfter? n x) : s.AllSound st' := by
  refine ⟨hm, ⟨fun {i x u} hu => ?_, fun {n x u} hu => ?_⟩, fun {n k x} hk => .inr ?_⟩
  · exact h.proper.before (hbefore i x ▸ hu)
  · exact h.proper.after (hafter n x ▸ hu)
  · intro t u ht hu
    exact (h.rises hk).elim False.elim fun hrises =>
      hrises t u (hafter n x ▸ ht) (hbefore k x ▸ hu)

theorem AllSound.setInstr {m : Memo} {i : Nat} {instr : Instr} (h : s.AllSound st)
    (hm : s.classPath.SoundInterfaces m) :
    s.AllSound (({ st with memo := m } : State).setInstr i instr) := by
  refine h.congr hm (fun i x => ?_) fun n x => ?_
  · rw [State.typeBefore?_setInstr]
    rfl
  · rw [State.typeAfter?_setInstr, State.typeAfter?_memo]

/-- Every step of an analysis keeps all edges closed. -/
theorem sound_invariant (s : Subject) : s.Invariant (RegType.Proper s.cls.ty) s.AllSound where
  assign h ht hassign := h.assign ht hassign
  effect := by
    intro i p e m st h hp heffect
    have hbefore : ∀ r t, p.typeBefore r = .ok t → t.Proper s.cls.ty := by
      intro r t ht
      have hr := Point.typeBefore_ok.1 ht
      exact h.proper.before (i := i) (r := r.index) (by simp [State.typeBefore?, hp, hr])
    have hm := Triple.ok (asks_effect s.classPath.soundInterfaces_keptBy i p _) h.memo heffect
    exact ⟨h.congr hm (fun _ _ => rfl) (fun _ _ => State.typeAfter?_memo),
      writes_of_effect hbefore h.memo heffect⟩
  wait := by
    intro i p m st h hp hform
    have hm := Triple.ok (asks_standardForm? s.classPath.soundInterfaces_keptBy p) h.memo hform
    exact h.congr hm (fun _ _ => rfl) fun _ _ => State.typeAfter?_memo
  standard := by
    intro i p instr m st h hp _ hform
    have hm := Triple.ok (asks_standardForm? s.classPath.soundInterfaces_keptBy p) h.memo hform
    exact h.setInstr hm
  restore := by
    intro i st h
    unfold restore
    split
    · split
      · exact h.setInstr h.memo
      · exact h
    · exact h
  settle h := h.congr h.memo (fun _ _ => rfl) (fun n _ => by cases n <;> rfl)
  final h _ _ _ := h.setInstr h.memo
  param ht := RegType.proper_of_ofTy ht
  receiver hn := ⟨hn, RegType.named_of_ofTy hn⟩
  uninit := trivial

end Subject

theorem allSound_initial {s : Subject} {m : Memo} (hm : s.classPath.SoundInterfaces m) :
    s.AllSound (.initial s.body m) := by
  have unknown : ∀ {r : Nat} {t : RegType},
      (Array.replicate s.body.registers RegType.unknown)[r]? = some t → t = .unknown := by
    intro r t ht
    obtain ⟨hr, rfl⟩ := Array.getElem?_eq_some_iff.1 ht
    simp
  have hafter : ∀ {n r t}, (State.initial s.body m).typeAfter? n r = some t → t = .unknown := by
    intro n r t ht
    cases n with
    | start => exact unknown ht
    | instr i =>
      obtain ⟨p, hp, ht⟩ := Option.bind_eq_some_iff.1 ht
      simp only [State.initial, List.getElem?_toArray, List.getElem?_map] at hp
      obtain ⟨l, _, rfl⟩ := Option.map_eq_some_iff.1 hp
      exact unknown ht
  have hbefore : ∀ {i r t}, (State.initial s.body m).typeBefore? i r = some t → t = .unknown := by
    intro i r t ht
    obtain ⟨p, hp, ht⟩ := Option.bind_eq_some_iff.1 ht
    simp only [State.initial, List.getElem?_toArray, List.getElem?_map] at hp
    obtain ⟨l, _, rfl⟩ := Option.map_eq_some_iff.1 hp
    exact unknown ht
  refine ⟨hm, ⟨fun ht => ?_, fun ht => ?_⟩, fun _ => .inr fun t u ht _ => ?_⟩
  · rw [hbefore ht]
    trivial
  · rw [hafter ht]
    trivial
  · rw [hafter ht]
    exact .unknown u

/-- After every node of an analysed method, the type of every register is below its type before
each successor. -/
theorem types_rise_along_edges {cp : ClassPath} {options : Options} {cls : ClassDef}
    {method : MethodDef} {m m' : Memo} {a : Analysed} {n : NodeId} {k r : Nat}
    (hm : cp.Asked .empty m) (h : analyseMethod cp options cls method m = .ok a m')
    (hk : k ∈ a.subject.graph.successors n) (hr : r < a.subject.body.registers) :
    ∃ t u, a.typeAfter? n r = some t ∧ a.typeBefore? k r = some u ∧ t.Below cp true u := by
  obtain ⟨hgraph, hcp⟩ := graph_of_analysed h
  have hsound : a.subject.AllSound (.initial a.subject.body m) := by
    apply allSound_initial
    rw [hcp]
    exact ClassPath.soundInterfaces_of_asked hm
  obtain ⟨settled, hfinal⟩ := Subject.Invariant.analysed h (Subject.sound_invariant _) hsound
  obtain ⟨t, ht⟩ := exists_typeAfter? h hk hr
  obtain ⟨u, hu⟩ := exists_typeBefore? h (FlowGraph.successors_lt_of_build hgraph k hk) hr
  refine ⟨t, u, ht, hu, ?_⟩
  rw [← hcp]
  rcases hfinal.rises (r := r) hk with hopen | hrises
  · exact hopen.elim
  · exact hrises t u (by cases n <;> exact ht) hu

/-- A class below the arrays over another class. -/
def arrayChild (name : String) : ClassDef where
  ty := .cls name
  superclass? := some (.array 1 (.cls "F"))

/-- Two such classes. -/
def arrayChildren : ClassPath := .ofClasses [arrayChild "A", arrayChild "B"] 15

/-- A method that takes either of two arrays. -/
def eitherArray : MethodDef :=
  ⟨"m", [.array 1 (.cls "A"), .array 1 (.cls "B"), .int], .void, .ofList [.static],
    some (.assemble 3 [.branchZero .eq ⟨2⟩ 3, .move .object .near ⟨0⟩ ⟨1⟩, .returnVoid] [])⟩

theorem eitherArray_run :
    ∃ a m', analyseMethod arrayChildren {} (arrayChild "A") eitherArray .empty = .ok a m' ∧
      2 ∈ a.subject.graph.successors (.instr 1) ∧ a.subject.body.registers = 3 ∧
      a.typeAfter? (.instr 1) 0 = some (.reference (.array 1 "LB;")) ∧
      a.typeBefore? 2 0 = some (.reference (.array 2 "LF;")) := by
  decide +kernel

/-- The arrays over the two classes are both below the arrays of arrays over a third. -/
theorem eitherArray_rises :
    ∃ a m', analyseMethod arrayChildren {} (arrayChild "A") eitherArray .empty = .ok a m' ∧
      2 ∈ a.subject.graph.successors (.instr 1) ∧
      RegType.Below arrayChildren true (.reference (.array 1 "LB;"))
        (.reference (.array 2 "LF;")) := by
  obtain ⟨a, m', h, hk, hregs, ht, hu⟩ := eitherArray_run
  obtain ⟨t, u, ht', hu', hbelow⟩ :=
    types_rise_along_edges (r := 0) .refl h hk (by rw [hregs]; decide)
  rw [ht] at ht'
  rw [hu] at hu'
  cases ht'
  cases hu'
  exact ⟨a, m', h, hk, hbelow⟩

/-- In the order that is not deep, nodes of at most one dimension are only below such nodes. -/
theorem arrayChildren_dims_le {x y : TypeNode} (h : arrayChildren.Below false x y)
    (hx : x.dims ≤ 1) : y.dims ≤ 1 := by
  have hflat : (arrayChildren.defs.all fun p =>
      (p.2.superclass?.toList ++ p.2.interfaces).all fun t =>
        (TypeNode.ofTy t).toOption.all fun n => decide (n.dims ≤ 1)) = true := by decide +kernel
  have hdims : ∀ {d : String} {c : ClassDef} {t : Ty} {n : TypeNode},
      arrayChildren.def? d = some c → t ∈ c.superclass?.toList ++ c.interfaces →
      TypeNode.ofTy t = .ok n → n.dims ≤ 1 := by
    intro d c t n hd ht hn
    obtain ⟨before, rest, hdefs, _⟩ := List.lookup_eq_some_iff.1 hd
    have hall := List.all_eq_true.1 hflat (d, c) (by simp [hdefs])
    have hone := List.all_eq_true.1 hall t ht
    rw [hn] at hone
    exact of_decide_eq_true hone
  exact h.dims_le (fun hd hs => hdims hd (by simp [hs])) (fun hd ht => hdims hd (by simp [ht])) hx

/-- In that order the arrays over the two classes are not below the arrays of arrays. -/
theorem eitherArray_not_below :
    ∃ a m' t u, analyseMethod arrayChildren {} (arrayChild "A") eitherArray .empty = .ok a m' ∧
      2 ∈ a.subject.graph.successors (.instr 1) ∧ a.typeAfter? (.instr 1) 0 = some t ∧
      a.typeBefore? 2 0 = some u ∧ ¬ t.Below arrayChildren false u := by
  obtain ⟨a, m', h, hk, _, ht, hu⟩ := eitherArray_run
  refine ⟨a, m', _, _, h, hk, ht, hu, fun hbelow => ?_⟩
  obtain hu | ⟨n, hu, hn⟩ := hbelow.dims_le arrayChildren_dims_le (.inr ⟨_, rfl, Nat.le_refl 1⟩)
  · cases hu
  · cases hu
    exact absurd hn (by decide)

end Analysis

end Dalvik
