import Dalvik.Proofs.Linear

/-!
# Copies of new objects

A constructor call turns the new object in its receiver into an object of its class, and so every
copy of it.  Which registers hold a copy is only known once they come to the call.  Until then a
new object goes past the call unless it is the one that is known to be in the receiver.

In straight code the registers come to a call in the order in which they were last written.  So a
copy goes past the call too early if it was written before the receiver was (`Body.Older`).
`Subject.Awaiting` says so of the types around a call that was not analysed yet.
-/

namespace Dalvik

namespace Body

variable {b : Body} {i j x o : Nat}

/-- The instruction at an index writes a register, whatever the registers hold. -/
def Writes (b : Body) (j x : Nat) : Prop := ∃ l, b.lines[j]? = some l ∧ l.instr.writes x = true

/-- Before an instruction, the first register was last written before the second one. -/
def Older (b : Body) (i x o : Nat) : Prop :=
  ∃ j < i, b.Writes j o ∧ ∀ k < i, j ≤ k → ¬ b.Writes k x

instance decidableWrites : Decidable (b.Writes j x) :=
  decidable_of_iff ((b.lines[j]?).any fun l => l.instr.writes x) (Option.any_eq_true _ _)

instance decidableOlder : Decidable (b.Older i x o) :=
  inferInstanceAs (Decidable (∃ j < i, b.Writes j o ∧ ∀ k < i, j ≤ k → ¬ b.Writes k x))

theorem not_older_self : ¬ b.Older i o o := by
  rintro ⟨j, hj, hwrites, hnever⟩
  exact hnever j hj (Nat.le_refl j) hwrites

end Body

namespace Analysis

/-! ## Registers of a call -/

namespace Point

variable {p : Point} {r q : Nat} {t : RegType} {object : Reg}

theorem sets_of_call (hcall : p.instr.isConstructorCall = true)
    (hobject : p.instr.receiver? = some object) :
    p.sets r = (r == object.index || p.sameNewObject r object.index) := by
  simp [sets, hcall, hobject]

theorem sameNewObject_iff :
    p.sameNewObject r q = true ↔
      ∃ t c, t.newClass? = some c ∧ p.before[r]? = some t ∧ p.before[q]? = some t := by
  unfold sameNewObject
  cases hr : p.before[r]? with
  | none => simp
  | some a =>
    cases hq : p.before[q]? with
    | none => simp
    | some b =>
      constructor
      · intro h
        cases a with
        | uninitRef n site => exact ⟨_, n, rfl, rfl, congrArg some (beq_iff_eq.1 h).symm⟩
        | uninitThis n => exact ⟨_, n, rfl, rfl, congrArg some (beq_iff_eq.1 h).symm⟩
        | _ => cases h
      · rintro ⟨t, c, hc, ha, hb⟩
        cases ha
        cases hb
        cases a with
        | uninitRef | uninitThis => exact beq_self_eq_true _
        | _ => cases hc

end Point

namespace Subject

variable {s : Subject} {i o k x y : Nat} {n : NodeId} {t u w : RegType} {st st' : State}

/-- After a point and before the next one, a register has a type. -/
structure Past (i : Nat) (st : State) (x : Nat) (t : RegType) : Prop where
  after : st.typeAfter? (.instr i) x = some t
  next : st.typeBefore? (i + 1) x = some t

/-- The instruction is a constructor call with a receiver, or may become one. -/
def MayCall (instr : Instr) (o : Nat) : Prop :=
  (instr.isConstructorCall = true ∧ instr.receiver? = some ⟨o⟩) ∨
    (instr.isConstructorCall = false ∧ instr.destination? = none)

/-- The instruction of a line may call a constructor.  The code goes on up to it and after it. -/
structure CallAt (s : Subject) (i o : Nat) (l : Line) : Prop where
  line : s.body.lines[i]? = some l
  call : MayCall l.instr o
  next : s.graph.successors (.instr i) = [i + 1]
  lt : i + 1 < s.body.lines.length
  continues : ∀ (j : Nat) (l' : Line), j ≤ i → s.body.lines[j]? = some l' →
    l'.instr.canContinue = true

/-- A copy of the new object in the receiver goes past the call before the call is analysed. -/
def Escapes (s : Subject) (i o x : Nat) : Prop :=
  (∃ l, s.body.lines[i]? = some l ∧ l.instr.isConstructorCall = false) ∨ s.body.Older i x o

/-- What holds of the points around a call before it is analysed, if the points before an index
were analysed. -/
structure Awaiting (s : Subject) (i o k : Nat) (st : State) : Prop where
  frame : st.frame = (State.initial s.body .empty).frame
  given : ∀ j, k ≤ j → st.instrs[j]? = s.body.instrs[j]?
  /-- What did not come to the call is not past it. -/
  fresh : ∀ x, st.typeBefore? i x = some .unknown → Past i st x .unknown
  /-- A new object goes past the call as long as nothing is known of the receiver. -/
  alone : ∀ x u c, u.newClass? = some c → st.typeBefore? i x = some u →
    st.typeBefore? i o = some .unknown → Past i st x u
  /-- A copy of the receiver went past the call, or it did not come any further. -/
  shared : ∀ x u c, u.newClass? = some c → st.typeBefore? i x = some u →
    st.typeBefore? i o = some u →
    (s.Escapes i o x ∧ Past i st x u) ∨ (¬ s.Escapes i o x ∧ Past i st x .unknown)
  /-- Nothing comes through an instruction that writes the register and was not analysed. -/
  blocked : ∀ x j, k ≤ j → j < i → s.body.Writes j x → ∀ t, st.typeBefore? i x = some t →
    t = .unknown

/-- Around a point all registers but one are as they were. -/
structure Apart (i x : Nat) (st st' : State) : Prop where
  frame : st'.frame = st.frame
  instrs : st'.instrs = st.instrs
  before : ∀ y, y ≠ x → st'.typeBefore? i y = st.typeBefore? i y
  past : ∀ y t, y ≠ x → Past i st y t → Past i st' y t

theorem Carried.apart (h : Carried s x k w st st') (i : Nat) : Apart i x st st' where
  frame := h.frame
  instrs := h.instrs
  before _ hy := h.typeBefore?_of_ne hy
  past _ _ hy hp :=
    ⟨(h.typeAfter?_of_ne hy).trans hp.after, (h.typeBefore?_of_ne hy).trans hp.next⟩

/-- What becomes of a new object that comes to the call, and of its copies there. -/
structure Comes (s : Subject) (i o x : Nat) (u : RegType) (st st' : State) : Prop where
  alone : x ≠ o → st.typeBefore? i o = some .unknown → Past i st' x u
  shared : x = o ∨ st.typeBefore? i o = some u →
    (s.Escapes i o x ∧ Past i st' x u) ∨ (¬ s.Escapes i o x ∧ Past i st' x .unknown)
  others : x = o → st.typeBefore? i o = some .unknown ∧
    ∀ y, y ≠ o → st.typeBefore? i y = some u → s.Escapes i o y

/-- A new object comes to the call in the order in which the registers were written. -/
structure InOrder (s : Subject) (i o x : Nat) (t : RegType) (st : State) : Prop where
  copy : x ≠ o → st.typeBefore? i o = some t → ¬ s.body.Older i x o
  receiver : x = o → ∀ y, y ≠ o → st.typeBefore? i y = some t → s.body.Older i y o

section Awaiting

variable {k' : Nat}

theorem InOrder.congr (h : s.InOrder i o x t st)
    (hbefore : ∀ y, st'.typeBefore? i y = st.typeBefore? i y) : s.InOrder i o x t st' where
  copy hx ho := h.copy hx (hbefore o ▸ ho)
  receiver hx y hy ht := h.receiver hx y hy (hbefore y ▸ ht)

theorem instr_of_given (h : st.instrs[i]? = s.body.instrs[i]?) {p : Point} {l : Line}
    (hp : st.points[i]? = some p) (hl : s.body.lines[i]? = some l) : p.instr = l.instr := by
  simpa [State.instrs, Body.instrs, hp, hl] using h

/-- A point belongs to a line. -/
theorem line_of_frame_initial (h : st.frame = (State.initial s.body .empty).frame) {p : Point}
    (hp : st.points[i]? = some p) : ∃ l, s.body.lines[i]? = some l ∧ p.given = l.instr := by
  have hat := congrArg (fun f => f.2[i]?) h
  simp only [State.frame, State.initial, List.getElem?_map, Array.getElem?_toList, hp,
    Option.map_some] at hat
  obtain ⟨q, hq, hpq⟩ := Option.map_eq_some_iff.1 hat.symm
  obtain ⟨l, hl, rfl⟩ := Option.map_eq_some_iff.1 hq
  simp only [Prod.mk.injEq, Point.ofLine] at hpq
  exact ⟨l, hl, hpq.2.1.symm⟩

/-- The point of a line has types for all registers. -/
theorem point_of_frame_initial (h : st.frame = (State.initial s.body .empty).frame) {l : Line}
    (hl : s.body.lines[i]? = some l) :
    ∃ p, st.points[i]? = some p ∧ p.given = l.instr ∧ p.before.size = s.body.registers ∧
      p.after.size = s.body.registers := by
  have hat := congrArg (fun f => f.2[i]?) h
  simp only [State.frame, State.initial, List.getElem?_map, Array.getElem?_toList, hl,
    Option.map_some] at hat
  obtain ⟨p, hp, hq⟩ := Option.map_eq_some_iff.1 hat
  simp only [Prod.mk.injEq, Point.ofLine, Array.size_replicate] at hq
  exact ⟨p, hp, hq.2.1, hq.2.2.1, hq.2.2.2⟩

/-- A register with a type before a point has one after it. -/
theorem exists_after (h : st.frame = (State.initial s.body .empty).frame) {l : Line}
    (hl : s.body.lines[i]? = some l) (ht : st.typeBefore? i x = some t) :
    ∃ a, st.typeAfter? (.instr i) x = some a := by
  obtain ⟨p, hp, _, hbefore, hafter⟩ := point_of_frame_initial h hl
  simp only [State.typeBefore?, hp, Option.bind_some] at ht
  obtain ⟨hx, _⟩ := Array.getElem?_eq_some_iff.1 ht
  refine ⟨p.after[x], ?_⟩
  simp [State.typeAfter?, hp, hafter, ← hbefore, hx]

/-- Changes elsewhere do not matter. -/
theorem Awaiting.congr (h : s.Awaiting i o k st) (hk : k ≤ k') (hframe : st'.frame = st.frame)
    (hinstrs : ∀ j, k' ≤ j → st'.instrs[j]? = st.instrs[j]?)
    (hbefore : ∀ x, st'.typeBefore? i x = st.typeBefore? i x)
    (hpast : ∀ x t, Past i st x t → Past i st' x t) : s.Awaiting i o k' st' where
  frame := hframe.trans h.frame
  given j hj := (hinstrs j hj).trans (h.given j (Nat.le_trans hk hj))
  fresh x hx := hpast x _ (h.fresh x (hbefore x ▸ hx))
  alone x u c hu hx ho := hpast x u (h.alone x u c hu (hbefore x ▸ hx) (hbefore o ▸ ho))
  shared x u c hu hx ho := by
    rcases h.shared x u c hu (hbefore x ▸ hx) (hbefore o ▸ ho) with ⟨he, hp⟩ | ⟨he, hp⟩
    · exact .inl ⟨he, hpast x _ hp⟩
    · exact .inr ⟨he, hpast x _ hp⟩
  blocked x j hj hji hw t ht := h.blocked x j (Nat.le_trans hk hj) hji hw t (hbefore x ▸ ht)

theorem Awaiting.of_points (h : s.Awaiting i o k st) (hframe : st'.frame = st.frame)
    (hinstrs : st'.instrs = st.instrs) (hi : st'.points[i]? = st.points[i]?)
    (hi' : st'.points[i + 1]? = st.points[i + 1]?) : s.Awaiting i o k st' := by
  refine h.congr (Nat.le_refl k) hframe (fun j _ => by rw [hinstrs])
    (fun x => State.typeBefore?_of_points hi) fun x t hp => ?_
  exact ⟨(State.typeAfter?_of_points hi).trans hp.after,
    (State.typeBefore?_of_points hi').trans hp.next⟩

/-- A register of which nothing was known, or less, has a type before the call now. -/
theorem Awaiting.raise (h : s.Awaiting i o k st) (hapart : Apart i x st st')
    (hopen : ∀ j, k ≤ j → j < i → ¬ s.body.Writes j x)
    (hx : st'.typeBefore? i x = some t) (hunknown : t ≠ .unknown)
    (hnew : ∀ c, t.newClass? = some c → s.Comes i o x t st st') : s.Awaiting i o k st' where
  frame := hapart.frame.trans h.frame
  given j hj := by
    rw [hapart.instrs]
    exact h.given j hj
  fresh y hy := by
    by_cases hyx : y = x
    · subst hyx
      cases hx.symm.trans hy
      exact absurd rfl hunknown
    · exact hapart.past y _ hyx (h.fresh y (hapart.before y hyx ▸ hy))
  alone y u c hu hy ho := by
    by_cases hox : o = x
    · subst hox
      cases hx.symm.trans ho
      exact absurd rfl hunknown
    · rw [hapart.before o hox] at ho
      by_cases hyx : y = x
      · subst hyx
        cases hx.symm.trans hy
        exact (hnew c hu).alone (Ne.symm hox) ho
      · exact hapart.past y _ hyx (h.alone y u c hu (hapart.before y hyx ▸ hy) ho)
  shared y u c hu hy ho := by
    by_cases hyx : y = x
    · subst hyx
      cases hx.symm.trans hy
      refine (hnew c hu).shared ?_
      by_cases hyo : y = o
      · exact .inl hyo
      · exact .inr (hapart.before o (Ne.symm hyo) ▸ ho)
    · rw [hapart.before y hyx] at hy
      by_cases hox : o = x
      · -- The receiver comes last: the copies went past the call while it was unknown.
        subst hox
        cases hx.symm.trans ho
        obtain ⟨hold, hescapes⟩ := (hnew c hu).others rfl
        exact .inl ⟨hescapes y hyx hy, hapart.past y _ hyx (h.alone y _ c hu hy hold)⟩
      · rcases h.shared y u c hu hy (hapart.before o hox ▸ ho) with ⟨he, hp⟩ | ⟨he, hp⟩
        · exact .inl ⟨he, hapart.past y _ hyx hp⟩
        · exact .inr ⟨he, hapart.past y _ hyx hp⟩
  blocked y j hj hji hw t' ht' := by
    by_cases hyx : y = x
    · subst hyx
      exact absurd hw (hopen j hj hji)
    · exact h.blocked y j hj hji hw t' (hapart.before y hyx ▸ ht')

/-- When a new object comes in at an instruction that may call a constructor, it stays there if it
is in the receiver or is the one in the receiver.  Else it goes on. -/
theorem sets_of_mayCall {p : Point} {c : TypeNode} {old : RegType} (hmay : MayCall p.instr o)
    (hold : p.before[x]? = some old) (hu : u.newClass? = some c) :
    (p.entered x u).sets x = true ↔
      p.instr.isConstructorCall = true ∧ (x = o ∨ p.before[o]? = some u) := by
  rcases hmay with ⟨hcall, hobject⟩ | ⟨hcall, hdst⟩
  · have hin : (p.entered x u).before[x]? = some u := by
      obtain ⟨hlt, _⟩ := Array.getElem?_eq_some_iff.1 hold
      simp [Point.entered, hlt]
    have hsets : (p.entered x u).sets x =
        (x == o || (p.entered x u).sameNewObject x o) := Point.sets_of_call hcall hobject
    rw [hsets, Bool.or_eq_true, beq_iff_eq, Point.sameNewObject_iff, and_iff_right hcall]
    by_cases hxo : x = o
    · simp [hxo]
    · have hreceiver : (p.entered x u).before[o]? = p.before[o]? := by
        simp [Point.entered, hxo]
      rw [hin, hreceiver]
      refine or_congr_right ⟨?_, fun h => ⟨u, c, hu, rfl, h⟩⟩
      rintro ⟨t, _, _, ht, h⟩
      cases ht
      exact h
  · have hwrites : (p.entered x u).sets x = false := by
      rw [Point.sets_eq_writes (show (p.entered x u).instr.isConstructorCall = false from hcall)]
      show p.instr.writes x = false
      simp [Instr.writes, hdst]
    simp [hwrites, hcall]

/-- What comes in at the call while it is not analysed.  A new object that is the one in the
receiver stays there if it is not older than the receiver. -/
theorem Awaiting.arrive {l : Line} (h : s.Awaiting i o k st) (hki : k ≤ i)
    (hat : s.CallAt i o l) (hopen : ∀ j, k ≤ j → j < i → ¬ s.body.Writes j x)
    (horder : ∀ c, w.newClass? = some c → s.InOrder i o x w st)
    (hc : Carried s x i w st st') : s.Awaiting i o k st' := by
  have hapart := hc.apart i
  have hinstr : ∀ {p : Point}, st.points[i]? = some p → p.instr = l.instr :=
    fun hp => instr_of_given (h.given i hki) hp hat.line
  have hmay : ∀ {p : Point}, st.points[i]? = some p → MayCall p.instr o :=
    fun hp => hinstr hp ▸ hat.call
  cases ht : st.typeBefore? i x with
  | none =>
    cases hc.eq_of_absent ht
    exact h
  | some t =>
  obtain ⟨a, ha⟩ := exists_after h.frame hat.line ht
  cases hc.arrived hat.next ha with
  | unchanged hsame hafter hnext =>
    refine h.congr (Nat.le_refl k) hc.frame (fun j _ => by rw [hc.instrs]) (fun y => ?_)
      (fun y t hp => ?_)
    · by_cases hy : y = x
      · exact hy ▸ hsame
      · exact hapart.before y hy
    · by_cases hy : y = x
      · subst hy
        exact ⟨hafter.trans hp.after, hnext.trans hp.next⟩
      · exact hapart.past y t hy hp
  | @held p old new m m' hp hold hjoin hnew hx hsets hafter hnext =>
    refine h.raise hapart hopen hx (RegType.ne_unknown_of_join hjoin hnew) fun c hclass => ?_
    obtain ⟨rfl, rfl⟩ := (RegType.join_new hjoin hclass).resolve_left hnew
    obtain ⟨hcall, hcopy⟩ := (sets_of_mayCall (hmay hp) hold hclass).1 hsets
    have hcopy : x = o ∨ st.typeBefore? i o = some w := by
      simpa [State.typeBefore?, hp] using hcopy
    have hold' : st.typeBefore? i x = some .unknown := by simp [State.typeBefore?, hp, hold]
    have hfresh := h.fresh x hold'
    have hstays : ¬ s.Escapes i o x := by
      rintro (⟨l', hl', hnot⟩ | holder)
      · cases hat.line.symm.trans hl'
        rw [hinstr hp, hnot] at hcall
        cases hcall
      · by_cases hxo : x = o
        · exact Body.not_older_self (hxo ▸ holder)
        · exact (horder c hclass).copy hxo (hcopy.resolve_left hxo) holder
    refine ⟨fun hxo ho => ?_, fun _ => .inr ⟨hstays, ?_⟩, fun hxo => ⟨hxo ▸ hold', ?_⟩⟩
    · cases ho.symm.trans (hcopy.resolve_left hxo)
      cases hclass
    · exact ⟨hafter.trans hfresh.after, hnext.trans hfresh.next⟩
    · exact fun y hy ht => .inr ((horder c hclass).receiver hxo y hy ht)
  | @passed p old new m m' hp hold hjoin hnew hx hsets hafter hnext =>
    refine h.raise hapart hopen hx (RegType.ne_unknown_of_join hjoin hnew) fun c hclass => ?_
    obtain ⟨rfl, rfl⟩ := (RegType.join_new hjoin hclass).resolve_left hnew
    have hold' : st.typeBefore? i x = some .unknown := by simp [State.typeBefore?, hp, hold]
    obtain ⟨new', _, _, hjoin', hnext'⟩ := hnext .unknown (h.fresh x hold').next
    cases RegType.unknown_join hjoin'
    refine ⟨fun _ _ => ⟨hafter, hnext'⟩, fun hcopy => .inl ⟨.inl ⟨l, hat.line, ?_⟩, hafter, hnext'⟩,
      fun hxo => ⟨hxo ▸ hold', ?_⟩⟩
    · refine Bool.eq_false_iff.2 fun hcall => ?_
      have hcopy : x = o ∨ p.before[o]? = some w := by simpa [State.typeBefore?, hp] using hcopy
      rw [← hinstr hp] at hcall
      rw [(sets_of_mayCall (hmay hp) hold hclass).2 ⟨hcall, hcopy⟩] at hsets
      cases hsets
    · exact fun y hy ht => .inr ((horder c hclass).receiver hxo y hy ht)

/-- A type is written after a node before the call. -/
theorem Awaiting.assignOne {l : Line} {new : Bool} (hs : s.Linear) (h : s.Awaiting i o k st)
    (hki : k ≤ i) (hn : n.next ≤ k) (hat : s.CallAt i o l)
    (horder : ∀ c, t.newClass? = some c → s.InOrder i o x t st)
    (hone : s.assignOne n x t st = .ok new st') : s.Awaiting i o k st' := by
  have hset : s.Awaiting i o k (st.setAfter n x t) := by
    have hne : ∀ j, i ≤ j → n ≠ .instr j := by
      rintro j hj rfl
      exact Nat.not_succ_le_self j (Nat.le_trans hn (Nat.le_trans hki hj))
    refine h.of_points State.setAfter_frame State.setAfter_instrs ?_ ?_
    · rw [State.setAfter_points, if_neg (hne i (Nat.le_refl i))]
    · rw [State.setAfter_points, if_neg (hne (i + 1) (Nat.le_succ i))]
  obtain ⟨_, rfl⟩ | ⟨_, rfl⟩ | hcarried := carried_of_assignOne hs hone
  · exact h
  · exact hset
  · obtain ⟨hsame, hsame'⟩ | ⟨w, st₁, hc, hsame, hsame', hframe, hinstrs, hpassed, hnew⟩ :=
      hcarried.reach (Nat.le_trans hn hki)
    · exact hset.of_points hcarried.frame hcarried.instrs hsame hsame'
    · refine (hset.of_points hframe hinstrs hsame hsame').arrive hki hat ?_ ?_ hc
      · rintro j hj hji ⟨l', hl', hwrites⟩
        obtain ⟨p, hp, _⟩ := point_of_frame_initial hset.frame hl'
        rw [← instr_of_given (hset.given j hj) hp hl',
          hpassed j p (Nat.le_trans hn hj) hji hp] at hwrites
        cases hwrites
      · intro c hc
        cases hnew c hc
        exact (horder c hc).congr fun y =>
          (State.typeBefore?_of_points hsame).trans State.typeBefore?_setAfter

theorem Awaiting.assign {l : Line} {u : Unit} (hs : s.Linear) (h : s.Awaiting i o k st)
    (hki : k ≤ i) (hn : n.next ≤ k) (hat : s.CallAt i o l)
    (horder : ∀ c, t.newClass? = some c → s.InOrder i o x t st)
    (hassign : s.assign n x t st = .ok u st') : s.Awaiting i o k st' := by
  obtain ⟨_, new, st₁, hone, rfl | ⟨high, new', _, hhigh, _, hone'⟩⟩ := assign_ok hassign
  · exact h.assignOne hs hki hn hat horder hone
  · refine (h.assignOne hs hki hn hat horder hone).assignOne hs hki hn hat
      (fun c hc => ?_) hone'
    -- The upper half of a pair is not an object.
    cases t with
    | half lo => cases lo <;> cases hhigh <;> cases hc
    | _ => cases hhigh

end Awaiting

end Subject

end Analysis

end Dalvik
