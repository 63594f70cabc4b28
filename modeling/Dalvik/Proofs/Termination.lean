import Dalvik.Proofs.Carrying
import Dalvik.Proofs.Linear
import Mathlib.Data.DFinsupp.WellFounded
import Mathlib.Data.Finite.Prod
import Mathlib.Data.Prod.Lex

/-!
# Analyses come to an end

In a founded class path no part of an analysis brings a type down (`Subject.Ascends`).  A pass that
changes no type settles a point or has to wait, and the waiting points are tried again only after
progress.  So after each pass there is less to do: `Subject.Closer` compares the types before all
points, then the points that are not settled, then the agenda.

This order is well-founded, and a run ends by induction on it (`Subject.run_ends`); the passes are
not counted.  With the run an analysis ends too (`analysis_terminates`).
-/

namespace Dalvik

namespace Analysis

namespace Subject

variable {s : Subject} {st st' : State} {i : Nat}

/-! ## Passes -/

theorem rising_setInstr (s : Subject) (st : State) (i : Nat) (instr : Instr) :
    s.Rising st (st.setInstr i instr) :=
  .of_eq State.setInstr_frame .refl (fun _ _ => State.typeBefore?_setInstr) rfl

theorem rising_settle (s : Subject) (st : State) (i : Nat) : s.Rising st (st.settle i) :=
  ⟨rfl, .refl, fun _ _ => .inl rfl, fun _ hj => .inl (Worklist.mem_insert.2 (.inr hj))⟩

theorem rising_restore (s : Subject) (st : State) (i : Nat) : s.Rising st (restore st i) := by
  unfold restore
  split
  · split
    · exact rising_setInstr s st i _
    · exact .refl s st
  · exact .refl s st

/-- A failure that is located is the same kind of failure. -/
theorem stalled_locate (e : AnalysisError) : (s.locate st i e).stalled = e.stalled := by
  unfold locate
  split <;> rfl

section Founded

variable (hcp : s.classPath.Founded)
include hcp

/-- The copies of an object rise one by one. -/
theorem ascends_initialiseFrom {object : Reg} {n : TypeNode} (rs : List Nat) (hst : s.Fits st) :
    s.Ascends (s.initialiseFrom i object n rs) st := by
  induction rs generalizing st with
  | nil => exact .pure s _ st
  | cons r rest ih =>
    refine Ascends.get_bind ?_
    split
    · exact .pure s _ st
    · split
      · have hassign : s.Ascends (s.assign (.instr i) r (.reference n)) st := ascends_assign hcp hst
        exact hassign.bind fun _ st₁ h => ih (hst.rising (hassign.ok h))
      · exact ih hst

/-- What a rule says lets types rise. -/
theorem ascends_apply {instr : Instr} (e : Effect) (hst : s.Fits st) :
    s.Ascends (s.apply i instr e) st := by
  cases e with
  | waiting => exact .pure s _ st
  | nothing => exact .pure s _ st
  | write t =>
    simp only [Subject.apply]
    split
    · exact .throw s st rfl
    · exact (ascends_assign hcp hst).bind fun _ st₁ _ => .pure s _ st₁
  | initialise object n =>
    exact (ascends_initialiseFrom hcp _ hst).bind fun _ st₁ _ => .pure s _ st₁

theorem ascends_transfer {p : Point} (hst : s.Fits st) : s.Ascends (s.transfer i p) st := by
  refine Ascends.get_bind ?_
  have hrule : s.Ascends (Step.ofRule (s.effect i p (previous? st i))) st :=
    .ofRule (asks_effect (s.classPath.asked_keptBy st.memo) i p _)
  exact hrule.bind fun e st₁ h => ascends_apply hcp e (hst.rising (hrule.ok h))

/-- An attempt at a point lets types rise. -/
theorem ascends_analyse (hst : s.Fits st) : s.Ascends (s.analyse i) st := by
  refine Ascends.get_bind ?_
  split
  · exact .pure s _ st
  · next p _ =>
    split
    · have hrule : s.Ascends (Step.ofRule (s.standardForm? p)) st :=
        .ofRule (asks_standardForm? (s.classPath.asked_keptBy st.memo) p)
      refine hrule.bind fun form? st₁ h => ?_
      have hst₁ := hst.rising (hrule.ok h)
      split
      · exact .pure s _ st₁
      · next standard =>
        have hset := rising_setInstr s st₁ i standard
        exact .after hset (ascends_transfer hcp (hst₁.rising hset)) rfl
    · exact ascends_transfer hcp hst

/-- So does a pass. -/
theorem ascends_pass (hst : s.Fits st) : s.Ascends (s.pass i) st := by
  have hrestore := rising_restore s st i
  have hanalyse : s.Ascends (s.analyse i) (restore st i) :=
    ascends_analyse hcp (hst.rising hrestore)
  unfold Ascends Subject.pass
  cases h : s.analyse i (restore st i) with
  | ok done st₁ => exact hrestore.trans (hanalyse.ok h)
  | error e st₁ =>
    obtain ⟨hrising, he⟩ := hanalyse.error h
    exact ⟨hrestore.trans hrising, stalled_locate e ▸ he⟩

/-! ## Before and after a run -/

/-- The parameters come in one by one. -/
theorem ascends_enterParams {params : List Ty} {r : Nat} (hst : s.Fits st) :
    s.Ascends (s.enterParams r params) st := by
  induction params generalizing r st with
  | nil => exact .pure s _ st
  | cons ty rest ih =>
    have hrule : s.Ascends (Step.ofRule (Rule.known (RegType.ofTy ty))) st :=
      .ofRule (.known _)
    refine hrule.bind fun t st₁ h => ?_
    have hst₁ := hst.rising (hrule.ok h)
    have hassign : s.Ascends (s.assign .start r t) st₁ := ascends_assign hcp hst₁
    exact hassign.bind fun _ st₂ h => ih (hst₁.rising (hassign.ok h))

theorem ascends_enterReceiver {r : Nat} (hst : s.Fits st) :
    s.Ascends (s.enterReceiver r) st := by
  have hrule : s.Ascends (Step.ofRule (Rule.known (TypeNode.ofTy s.cls.ty))) st :=
    .ofRule (.known _)
  exact hrule.bind fun n st₁ h => ascends_assign hcp (hst.rising (hrule.ok h))

/-- The types at the start come in before all passes. -/
theorem ascends_enter {isStatic : Bool} {locals : Nat} (hst : s.Fits st) :
    s.Ascends (s.enter isStatic locals) st := by
  have uninit (st : State) (hst : s.Fits st) :
      s.Ascends ((List.range locals).forM fun r => s.assign .start r .uninit) st :=
    .forM (fun _ _ hst => ascends_assign hcp hst) _ hst
  have params (r : Nat) (st : State) (hst : s.Fits st) :
      s.Ascends (do
        s.enterParams r s.method.params
        (List.range locals).forM fun r => s.assign .start r .uninit) st := by
    have hparams : s.Ascends (s.enterParams r s.method.params) st := ascends_enterParams hcp hst
    exact hparams.bind fun _ st₁ h => uninit st₁ (hst.rising (hparams.ok h))
  unfold Subject.enter
  cases isStatic with
  | true => exact params locals st hst
  | false =>
    have hreceiver : s.Ascends (s.enterReceiver locals) st := ascends_enterReceiver hcp hst
    exact hreceiver.bind fun _ st₁ h => params _ st₁ (hst.rising (hreceiver.ok h))

omit hcp in
theorem ascends_finishFrom (is : List Nat) : s.Ascends (s.finishFrom is) st := by
  induction is generalizing st with
  | nil => exact .pure s _ st
  | cons i rest ih =>
    refine Ascends.get_bind ?_
    split
    · exact .pure s _ st
    · next p _ =>
      split
      · split
        · exact .set_bind (rising_setInstr s st i _) ih
        · next e he =>
          exact .throw s st (stalled_locate e ▸ (ends_finalForm p.instr).not_stalled he)
      · exact ih

end Founded

/-! ## What is left to do -/

/-- The keys of the types before all points. -/
noncomputable def profile (s : Subject) (st : State) :
    Fin s.body.lines.length × Fin s.body.registers → ℕ ×ₗ ℕ ×ₗ ℕ := fun slot =>
  (st.typeBefore? slot.1 slot.2).elim (toLex (0, toLex (0, 0))) fun t =>
    toLex ((t.key s.classPath).1, toLex (t.key s.classPath).2)

/-- The points that are not settled. -/
def unsettled (s : Subject) (st : State) : Finset Nat :=
  (Finset.range s.body.lines.length).filter fun i => st.settled.contains i = false

/-- The points left to settle are those of the body. -/
theorem mem_unsettled : i ∈ s.unsettled st ↔ i < s.body.lines.length ∧ i ∉ st.settled := by
  rw [unsettled, Finset.mem_filter, Finset.mem_range, ← Worklist.contains_iff, Bool.not_eq_true]

/-- What is left to do in a run. -/
noncomputable def rest (s : Subject) (agenda : Agenda) (st : State) :
    (Fin s.body.lines.length × Fin s.body.registers → ℕ ×ₗ ℕ ×ₗ ℕ) × Nat × Nat × Nat :=
  (s.profile st, (s.unsettled st).card, if agenda.progress then 1 else 0,
    agenda.pending.items.length)

/-- Less is left to do.  First the types before points are compared, then the points that are not
settled, then those on the agenda. -/
def Closer (s : Subject) (next last : Agenda × State) : Prop :=
  Prod.Lex (· < ·) (Prod.Lex (· < ·) (Prod.Lex (· < ·) (· < ·)))
    (s.rest next.1 next.2) (s.rest last.1 last.2)

/-- There is always less left to do, in the lexicographic order of finite parts. -/
theorem wellFounded_closer (s : Subject) : WellFounded s.Closer :=
  InvImage.wf (fun left : Agenda × State => s.rest left.1 left.2)
    (Prod.lex ⟨_, wellFounded_lt⟩ (Prod.lex Nat.lt_wfRel (Prod.lex Nat.lt_wfRel Nat.lt_wfRel))).wf

/-- A type stands before a point of the body, in one of its registers. -/
theorem Fits.bounds {t : RegType} {r : Nat} (hst : s.Fits st) (h : st.typeBefore? i r = some t) :
    i < s.body.lines.length ∧ r < s.body.registers := by
  obtain ⟨p, hp, ht⟩ := Option.bind_eq_some_iff.1 h
  have hi : i < s.body.lines.length := hst.size ▸ (Array.getElem?_eq_some_iff.1 hp).1
  refine ⟨hi, ?_⟩
  have hat := congrArg (fun f => f.2[i]?) hst.frame
  simp only [State.frame, State.initial, List.getElem?_map, Array.getElem?_toList, hp,
    Option.map_some, List.getElem?_eq_getElem hi, Option.some.injEq, Prod.mk.injEq, Point.ofLine,
    Array.size_replicate] at hat
  exact hat.2.2.1 ▸ (Array.getElem?_eq_some_iff.1 ht).1

theorem profile_eq {t : RegType} (slot : Fin s.body.lines.length × Fin s.body.registers)
    (h : st.typeBefore? slot.1 slot.2 = some t) :
    s.profile st slot = toLex ((t.key s.classPath).1, toLex (t.key s.classPath).2) := by
  rw [profile, h, Option.elim_some]

/-- The profile sinks as types rise. -/
theorem profile_le (h : s.Rising st st') : s.profile st' ≤ s.profile st := by
  intro slot
  obtain heq | ⟨old, new, hold, hnew, hover⟩ := h.types slot.1 slot.2
  · rw [profile, profile, heq]
  · rw [profile_eq slot hold, profile_eq slot hnew]
    exact le_of_lt hover

/-- A type that climbs changes the profile. -/
theorem profile_lt {r : Nat} (hst : s.Fits st) (h : s.Rising st st')
    (hne : st'.typeBefore? i r ≠ st.typeBefore? i r) : s.profile st' < s.profile st := by
  obtain heq | ⟨old, new, hold, hnew, hover⟩ := h.types i r
  · exact absurd heq hne
  · obtain ⟨hi, hr⟩ := hst.bounds hold
    refine Pi.lt_def.2 ⟨profile_le h, (⟨i, hi⟩, ⟨r, hr⟩), ?_⟩
    rw [profile_eq _ hnew, profile_eq _ hold]
    exact hover

/-! ## One pass -/

/-- A pass that has to wait changes no type and settles or opens no point. -/
theorem same_of_waiting (h : s.pass i st = .ok false st') :
    (∀ j r, st'.typeBefore? j r = st.typeBefore? j r) ∧ st'.settled = st.settled := by
  have hrestore : (∀ j r, (restore st i).typeBefore? j r = st.typeBefore? j r) ∧
      (restore st i).settled = st.settled := by
    unfold restore
    split
    · split
      · exact ⟨fun _ _ => State.typeBefore?_setInstr, rfl⟩
      · exact ⟨fun _ _ => rfl, rfl⟩
    · exact ⟨fun _ _ => rfl, rfl⟩
  have transfer {p : Point} {st₁ : State} (h : s.transfer i p st₁ = .ok false st') :
      ∃ m, st' = { st₁ with memo := m } := by
    obtain ⟨e, m, _, happly⟩ := transfer_ok h
    obtain ⟨_, _, rfl⟩ | ⟨_, hfalse, _⟩ | ⟨_, _, _, _, hfalse, _⟩ | ⟨_, _, _, hfalse, _⟩ :=
      apply_ok happly
    · exact ⟨m, rfl⟩
    all_goals cases hfalse
  obtain ⟨_, hfalse, _⟩ | ⟨p, _, ⟨_, m, _, _, rfl⟩ | ⟨_, standard, m, _, h⟩ | ⟨_, h⟩⟩ :=
    analyse_ok (pass_ok h)
  · cases hfalse
  · exact hrestore
  · obtain ⟨m', rfl⟩ := transfer h
    refine ⟨fun j r => ?_, hrestore.2⟩
    exact (State.typeBefore?_setInstr (i := i) (j := j) (r := r)).trans (hrestore.1 j r)
  · obtain ⟨m, rfl⟩ := transfer h
    exact hrestore

/-- Taking a point shortens the agenda, or takes back the waiting points for the last time. -/
theorem take?_shorter {agenda rest : Agenda} {settled : Worklist}
    (h : agenda.take? settled = some (i, rest)) :
    (rest.progress = agenda.progress ∧
        rest.pending.items.length < agenda.pending.items.length) ∨
      (agenda.progress = true ∧ rest.progress = false) := by
  unfold Agenda.take? at h
  split at h
  · next next hnext =>
    cases h
    unfold Agenda.next? at hnext
    split at hnext
    · cases hnext
    · next k ks hdrop =>
      cases hnext
      refine .inl ⟨rfl, ?_⟩
      have hlength : (agenda.pending.items.dropWhile settled.contains).length ≤
        agenda.pending.items.length := (List.dropWhile_sublist _).length_le
      rw [hdrop] at hlength
      exact hlength
  · split at h
    · next hprogress =>
      unfold Agenda.next? at h
      split at h
      · cases h
      · cases h
        exact .inr ⟨hprogress, rfl⟩
    · cases h

/-- The agenda has points of the body only. -/
def OnBody (s : Subject) (agenda : Agenda) : Prop :=
  ∀ i, i ∈ agenda.pending ∨ i ∈ agenda.waiting → i < s.body.lines.length

theorem OnBody.entry (hgraph : ∀ n, ∀ k ∈ s.graph.successors n, k < s.body.lines.length) :
    s.OnBody ⟨Worklist.empty.insertAll s.graph.entry, .empty, false⟩ := by
  rintro i (hi | hi)
  · rcases Worklist.mem_insertAll.1 hi with hi | hi
    · exact hgraph .start i hi
    · exact absurd hi Worklist.not_mem_empty
  · exact absurd hi Worklist.not_mem_empty

/-- The points that are queued behind a pass are points of the body. -/
theorem OnBody.after {agenda rest : Agenda} {settled : Worklist} {done : Bool}
    (hgraph : ∀ n, ∀ k ∈ s.graph.successors n, k < s.body.lines.length) (h : s.OnBody agenda)
    (htake : agenda.take? settled = some (i, rest)) :
    s.OnBody (rest.after i done (s.graph.successors (.instr i))) := by
  obtain ⟨_, hi, hwaiting, hrest⟩ := Agenda.take?_some htake
  intro j hj
  unfold Agenda.after at hj
  cases done with
  | true =>
    simp only [if_true] at hj
    rcases hj with hj | hj
    · rcases Worklist.mem_insertAll.1 hj with hj | hj
      · exact hgraph _ j hj
      · exact h j (hrest j hj)
    · exact h j (.inr (hwaiting ▸ (Worklist.mem_erase.1 hj).1))
  | false =>
    simp only [Bool.false_eq_true, if_false] at hj
    rcases hj with hj | hj
    · exact h j (hrest j hj)
    · rcases Worklist.mem_insert.1 hj with rfl | hj
      · exact h j hi
      · exact h j (.inr (hwaiting ▸ hj))

/-- A point that was analysed without a change is one more that is settled. -/
theorem unsettled_lt (h : s.Rising st st')
    (hsame : ∀ j r, st'.typeBefore? j r = st.typeBefore? j r) (hi : i < s.body.lines.length)
    (hopen : i ∉ st.settled) :
    (s.unsettled (st'.settle i)).card < (s.unsettled st).card := by
  refine Finset.card_lt_card ⟨fun j hj => ?_, fun hsub => ?_⟩
  · obtain ⟨hlt, hj⟩ := mem_unsettled.1 hj
    refine mem_unsettled.2 ⟨hlt, fun hmem => ?_⟩
    rcases h.settled j hmem with hj' | ⟨r, hne⟩
    · exact hj (Worklist.mem_insert.2 (.inr hj'))
    · exact hne (hsame j r)
  · exact (mem_unsettled.1 (hsub (mem_unsettled.2 ⟨hi, hopen⟩))).2
      (Worklist.mem_insert.2 (.inl rfl))

/-- The profile depends on the types before points only. -/
theorem profile_congr (h : ∀ j r, st'.typeBefore? j r = st.typeBefore? j r) :
    s.profile st' = s.profile st := by
  funext slot
  rw [profile, profile, h]

/-- After a pass there is less to do. -/
theorem closer_of_pass {agenda rest : Agenda} {done : Bool} (hcp : s.classPath.Founded)
    (hst : s.Fits st) (hagenda : s.OnBody agenda)
    (htake : agenda.take? st.settled = some (i, rest)) (h : s.pass i st = .ok done st') :
    s.Closer (rest.after i done (s.graph.successors (.instr i)),
      if done then st'.settle i else st') (agenda, st) := by
  unfold Closer Subject.rest
  cases done with
  | false =>
    obtain ⟨htypes, hsettled⟩ := same_of_waiting h
    have hunsettled : s.unsettled st' = s.unsettled st := by rw [unsettled, unsettled, hsettled]
    simp only [Bool.false_eq_true, if_false, profile_congr htypes, hunsettled, Agenda.after]
    refine .right _ (.right _ ?_)
    rcases take?_shorter htake with ⟨hprogress, hlength⟩ | ⟨hprogress, hrest⟩
    · rw [hprogress]
      exact .right _ hlength
    · rw [hprogress, hrest]
      exact .left _ _ Nat.one_pos
  | true =>
    have hrising := (ascends_pass hcp hst).ok h
    simp only [if_true]
    by_cases hsame : ∀ j r, st'.typeBefore? j r = st.typeBefore? j r
    · rw [show s.profile (st'.settle i) = s.profile st from profile_congr hsame]
      obtain ⟨hopen, hi, _⟩ := Agenda.take?_some htake
      exact .right _ (.left _ _ (unsettled_lt hrising hsame (hagenda i hi) hopen))
    · obtain ⟨j, hj⟩ := Classical.not_forall.1 hsame
      obtain ⟨r, hne⟩ := Classical.not_forall.1 hj
      exact .left _ _ (profile_lt hst (hrising.trans (rising_settle s st' i)) hne)

/-! ## A whole run -/

/-- With enough passes a run does not stall. -/
theorem run_ends (hcp : s.classPath.Founded)
    (hgraph : ∀ n, ∀ k ∈ s.graph.successors n, k < s.body.lines.length) :
    ∀ left : Agenda × State, s.Fits left.2 → s.OnBody left.1 →
      ∃ bound, ∀ passes, bound ≤ passes → ∀ limit,
        s.Ascends (s.runFrom limit passes left.1) left.2 := by
  intro left
  induction left using (wellFounded_closer s).induction with
  | _ left ih =>
  obtain ⟨agenda, st⟩ := left
  intro hst hagenda
  cases htake : agenda.take? st.settled with
  | none =>
    refine ⟨0, fun passes _ limit => ?_⟩
    unfold Subject.runFrom
    refine Ascends.get_bind ?_
    simp only [htake]
    exact .pure s _ st
  | some next =>
    obtain ⟨i, rest⟩ := next
    have hpass : s.Ascends (s.pass i) st := ascends_pass hcp hst
    -- what is left after the pass needs so many passes
    have hnext : ∃ bound, ∀ done st₁, s.pass i st = .ok done st₁ → ∀ passes, bound ≤ passes →
        ∀ limit, s.Ascends
          (s.runFrom limit passes (rest.after i done (s.graph.successors (.instr i))))
          (if done then st₁.settle i else st₁) := by
      cases h : s.pass i st with
      | error e st₁ =>
        refine ⟨0, ?_⟩
        rintro _ _ ⟨⟩
      | ok done st₁ =>
        have hst₁ : s.Fits (if done then st₁.settle i else st₁) := by
          have hst₁ := hst.rising (hpass.ok h)
          cases done with
          | true => exact hst₁.rising (rising_settle s st₁ i)
          | false => exact hst₁
        obtain ⟨bound, hbound⟩ :=
          ih _ (closer_of_pass hcp hst hagenda htake h) hst₁ (hagenda.after hgraph htake)
        refine ⟨bound, ?_⟩
        rintro _ _ ⟨⟩
        exact hbound
    obtain ⟨bound, hbound⟩ := hnext
    refine ⟨bound + 1, fun passes hle limit => ?_⟩
    cases passes with
    | zero => cases hle
    | succ passes =>
      unfold Subject.runFrom
      refine Ascends.get_bind ?_
      simp only [htake]
      refine hpass.bind fun done st₁ h => ?_
      have hrun := hbound done st₁ h passes (Nat.le_of_succ_le_succ hle) limit
      cases done with
      | true => exact .after (rising_settle s st₁ i) hrun rfl
      | false => exact hrun

/-- With enough passes the steps of an analysis do not stall. -/
theorem steps_end (isStatic : Bool) (locals : Nat) (hcp : s.classPath.Founded)
    (hgraph : FlowGraph.build s.body = .ok s.graph) (hst : s.Fits st) :
    ∃ bound, ∀ passes, bound ≤ passes → s.Ascends (do
      s.enter isStatic locals
      s.run (some passes)
      s.finish) st := by
  have henter : s.Ascends (s.enter isStatic locals) st := ascends_enter hcp hst
  have hsuccessors : ∀ n, ∀ k ∈ s.graph.successors n, k < s.body.lines.length :=
    fun n k hk => FlowGraph.successors_lt_of_build hgraph k hk
  have hrun : ∃ bound, ∀ u st₁, s.enter isStatic locals st = .ok u st₁ →
      ∀ passes, bound ≤ passes → s.Ascends (s.run (some passes)) st₁ := by
    cases h : s.enter isStatic locals st with
    | error e st₁ =>
      refine ⟨0, ?_⟩
      rintro _ _ ⟨⟩
    | ok u st₁ =>
      obtain ⟨bound, hbound⟩ :=
        run_ends hcp hsuccessors (_, st₁) (hst.rising (henter.ok h)) (.entry hsuccessors)
      refine ⟨bound, ?_⟩
      rintro _ _ ⟨⟩ passes hle
      exact hbound passes hle passes
  obtain ⟨bound, hbound⟩ := hrun
  exact ⟨bound, fun passes hle => henter.bind fun u st₁ h =>
    (hbound u st₁ h passes hle).bind fun _ _ _ => ascends_finishFrom _⟩

end Subject

theorem ends_subjectOf (cp : ClassPath) (options : Options) (cls : ClassDef)
    (method : MethodDef) : Ends (fun _ => True) (subjectOf cp options cls method) := by
  unfold subjectOf
  split
  · rfl
  · simp only
    generalize ((method.ref cls.ty).paramRegisters + if method.isStatic then 0 else 1) = n
    split
    · rfl
    · split
      · rfl
      · trivial

/-- With enough passes an analysis does not stall. -/
theorem analyseMethod_ends {cp : ClassPath} {m : Memo} (hcp : cp.Founded)
    (hm : cp.Asked .empty m) (options : Options) (cls : ClassDef) (method : MethodDef) :
    ∃ bound, ∀ passes, bound ≤ passes → ∀ e m',
      analyseMethod cp { options with passes? := some passes } cls method m = .error e m' →
      e.stalled = false := by
  have hsubject (passes : Nat) : subjectOf cp { options with passes? := some passes } cls method =
    subjectOf cp options cls method := rfl
  cases hs : subjectOf cp options cls method with
  | error e =>
    refine ⟨0, fun passes _ e' m' h => ?_⟩
    unfold analyseMethod at h
    rw [hsubject, hs] at h
    cases h
    exact (ends_subjectOf cp options cls method).not_stalled hs
  | ok found =>
    obtain ⟨s, params⟩ := found
    obtain ⟨body, graph, _, hgraph, rfl⟩ := subjectOf_ok hs
    have hfits : Subject.Fits ⟨cp, options.inline?, cls, method.ref cls.ty, body, graph⟩
      (.initial body m) := ⟨rfl, hm⟩
    obtain ⟨bound, hbound⟩ :=
      Subject.steps_end method.isStatic (body.registers - params) hcp hgraph hfits
    refine ⟨bound, fun passes hle e m' h => ?_⟩
    unfold analyseMethod at h
    rw [hsubject, hs] at h
    obtain h | ⟨⟨s, params⟩, m₁, hlift, h⟩ := bind_error.1 h
    · cases h
    cases hlift
    simp only at h
    split at h
    · cases h
    · next e₁ st₁ hsteps =>
      cases h
      exact ((hbound passes hle).error hsteps).2

/-! ## Types change finitely often -/

/-- A step of an analysis: an assignment or a pass, no matter how it ends, or the note that a point
was analysed. -/
inductive Subject.Moves (s : Subject) (st : State) : State → Prop where
  | assign {n : NodeId} {r : Nat} {t : RegType} {st' : State}
    (h : Leaves (s.assign n r t) st st') : Moves s st st'
  | pass {i : Nat} {st' : State} (h : Leaves (s.pass i) st st') : Moves s st st'
  | settle (i : Nat) : Moves s st (st.settle i)

/-- A step that lets types rise does so if it fails as well. -/
theorem Subject.Ascends.leaves {α : Type} {s : Subject} {x : Step α} {st st' : State}
    (h : s.Ascends x st) (hx : Leaves x st st') : s.Rising st st' := by
  obtain ⟨a, hx⟩ | ⟨e, hx⟩ := hx
  · exact h.ok hx
  · exact (h.error hx).1

theorem Subject.Moves.rising {s : Subject} {st st' : State} (hcp : s.classPath.Founded)
    (hst : s.Fits st) (h : s.Moves st st') : s.Rising st st' := by
  cases h with
  | assign h => exact (ascends_assign hcp hst).leaves h
  | pass h => exact (ascends_pass hcp hst).leaves h
  | settle i => exact rising_settle s st i

/-- What only changes by going down a well-founded relation changes finitely often. -/
theorem eventually_constant {α : Type} {R : α → α → Prop} (hR : WellFounded R)
    {f : Nat → Option α} (hf : ∀ n, f (n + 1) = f n ∨
      ∃ old new, f n = some old ∧ f (n + 1) = some new ∧ R new old) :
    ∃ last, ∀ n, last ≤ n → f n = f last := by
  -- from an index on, where it does not change any more or goes down once more
  have goes_on : ∀ a k, f k = some a → ∃ last, ∀ n, last ≤ n → f n = f last := by
    intro a
    induction a using hR.induction with
    | _ a ih =>
    intro k hk
    by_cases hchange : ∃ n, f n = some a ∧ f (n + 1) ≠ f n
    · obtain ⟨n, hn, hne⟩ := hchange
      obtain heq | ⟨old, new, hold, hnew, hdown⟩ := hf n
      · exact absurd heq hne
      · cases hold.symm.trans hn
        exact ih new hdown (n + 1) hnew
    · refine ⟨k, fun n hle => ?_⟩
      induction hle with
      | refl => rfl
      | step _ ih =>
        refine Eq.trans ?_ ih
        exact Classical.not_not.1 fun hne => hchange ⟨_, ih.trans hk, hne⟩
  cases h0 : f 0 with
  | some a => exact goes_on a 0 h0
  | none =>
    refine ⟨0, fun n _ => ?_⟩
    induction n with
    | zero => rfl
    | succ n ih =>
      obtain heq | ⟨old, _, hold, _⟩ := hf n
      · exact heq.trans (ih (Nat.zero_le n))
      · rw [ih (Nat.zero_le n), h0] at hold
        cases hold

/-- Analyses of methods come to an end if no class is above itself.  Types before points only climb,
in a well-founded order, and so they change finitely often in any sequence of steps.  An assignment
never carries types on without end, and some number of passes is enough for a whole analysis. -/
theorem analysis_terminates {cp : ClassPath} (hcp : cp.Founded) :
    WellFounded (RegType.Over cp) ∧
      (∀ (s : Subject) (run : Nat → State), s.classPath = cp → s.Fits (run 0) →
        (∀ k, s.Moves (run k) (run (k + 1))) → ∀ i r,
          (∀ k, (run (k + 1)).typeBefore? i r = (run k).typeBefore? i r ∨
            ∃ old new, (run k).typeBefore? i r = some old ∧
              (run (k + 1)).typeBefore? i r = some new ∧ new.Over cp old) ∧
          ∃ last, ∀ k, last ≤ k → (run k).typeBefore? i r = (run last).typeBefore? i r) ∧
      (∀ (s : Subject) (st : State) n r t e st', s.classPath = cp → s.Fits st →
        s.assign n r t st = .error e st' → e.stalled = false) ∧
      ∀ (options : Options) (cls : ClassDef) (method : MethodDef) (m : Memo), cp.Asked .empty m →
        ∃ bound, ∀ passes, bound ≤ passes → ∀ e m',
          analyseMethod cp { options with passes? := some passes } cls method m = .error e m' →
          e.stalled = false := by
  refine ⟨RegType.wellFounded_over cp, ?_, ?_, ?_⟩
  · rintro s run rfl hst hmoves i r
    have hfits : ∀ k, s.Fits (run k) := by
      intro k
      induction k with
      | zero => exact hst
      | succ k ih => exact ih.rising ((hmoves k).rising hcp ih)
    have htypes := fun k => ((hmoves k).rising hcp (hfits k)).types i r
    exact ⟨htypes, eventually_constant (RegType.wellFounded_over _) htypes⟩
  · rintro s st n r t e st' rfl hst h
    exact ((Subject.ascends_assign hcp hst).error h).2
  · exact fun options cls method m hm => analyseMethod_ends hcp hm options cls method

/-- Two classes below an array of a class whose superclass is missing. -/
def layered : ClassPath := .ofClasses
  [{ ty := .cls "A", superclass? := some (.array 1 (.cls "C")) },
    { ty := .cls "B", superclass? := some (.array 1 (.cls "C")), interfaces := [.cls "I"] },
    { ty := .cls "C", superclass? := some (.cls "Missing") },
    { ty := .cls "I", flags := .ofList [.interface] }] defaultLevel

/-- A method that joins an array of one class with an array of the other in a loop. -/
def layeredMethod : MethodDef :=
  ⟨"m", [.array 1 (.cls "A"), .array 1 (.cls "B")], .void, .ofList [.static],
    some (.assemble 2 [.move .object .near ⟨0⟩ ⟨1⟩, .goto .eight (-1)] [])⟩

theorem founded_layered : layered.Founded :=
  ClassPath.founded_of_rank
    (ClassPath.layerRank [["LA;", "LB;"], ["LC;", classClass, stringClass, throwableClass]])
    (by decide +kernel) (by decide +kernel)

/-- The dimensions grow in the loop, and the analysis ends. -/
theorem analysis_terminates_layered :
    layered.Founded ∧ layered.Asked .empty .empty ∧
      (∃ a m', analyseMethod layered { passes? := some 9 } emptyClass layeredMethod .empty =
        .ok a m' ∧ a.typeBefore? 0 0 = some (.reference (.array 2 "LC;"))) ∧
      ∃ bound, ∀ passes, bound ≤ passes → ∀ e m',
        analyseMethod layered { passes? := some passes } emptyClass layeredMethod .empty =
          .error e m' → e.stalled = false :=
  ⟨founded_layered, .refl, by decide +kernel,
    (analysis_terminates founded_layered).2.2.2 {} emptyClass layeredMethod .empty .refl⟩

end Analysis

end Dalvik
