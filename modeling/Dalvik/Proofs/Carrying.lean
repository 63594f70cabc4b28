import Dalvik.Proofs.Climbing
import Mathlib.Algebra.Group.Action.Defs
import Mathlib.Algebra.GroupWithZero.Nat
import Mathlib.Algebra.Order.BigOperators.Group.List
import Mathlib.Algebra.Order.Group.Nat

/-!
# Carrying a type on

A type that is carried on from a point is taken from a worklist, and a point comes back to the
worklist when the type before it climbs.  So the loop takes at most as many points as the types of
the register can climb, and these are bounded by `Subject.budget`.

`Subject.Rising` says what becomes of a state: types before points climb, and a settled point stays
settled while the types before it stay.  `Subject.Ascends` says of a step that it does so, no matter
how it ends, and that it does not stall.
-/

namespace Dalvik.Analysis

/-! ## Rising states -/

theorem State.typeBefore?_of_point {st : State} {p : Point} {k r : Nat} {t : RegType}
    (hp : st.points[k]? = some p) (ht : p.before[r]? = some t) : st.typeBefore? k r = some t := by
  rw [State.typeBefore?, hp, Option.bind_some, ht]

namespace Subject

/-- A state of the analysis of a method. -/
structure Fits (s : Subject) (st : State) : Prop where
  frame : st.frame = (State.initial s.body .empty).frame
  asked : s.classPath.Asked .empty st.memo

/-- How the states of an analysis go on. -/
structure Rising (s : Subject) (st st' : State) : Prop where
  frame : st'.frame = st.frame
  asked : s.classPath.Asked st.memo st'.memo
  /-- A type before a point stays or climbs. -/
  types : ∀ i r, st'.typeBefore? i r = st.typeBefore? i r ∨
    ∃ old new, st.typeBefore? i r = some old ∧ st'.typeBefore? i r = some new ∧
      new.Over s.classPath old
  /-- A point stays settled unless a type before it climbs. -/
  settled : ∀ i ∈ st.settled, i ∈ st'.settled ∨ ∃ r, st'.typeBefore? i r ≠ st.typeBefore? i r

/-- From a state, a step takes types up, and if it fails then not because of a limit. -/
def Ascends {α : Type} (s : Subject) (x : Step α) (st : State) : Prop :=
  match x st with
  | .ok _ st' => s.Rising st st'
  | .error e st' => s.Rising st st' ∧ e.stalled = false

variable {s : Subject} {st st₁ st₂ st' : State}

/-- What goes on from a state of the analysis of a method is one. -/
theorem Fits.rising (h : s.Fits st) (hrising : s.Rising st st') : s.Fits st' :=
  ⟨hrising.frame.trans h.frame, h.asked.trans hrising.asked⟩

theorem Fits.size (h : s.Fits st) : st.points.size = s.body.lines.length := by
  have hlength := congrArg (fun f => f.2.length) h.frame
  simpa [State.frame, State.initial] using hlength

namespace Rising

/-- A step that changes no type before a point and settles or opens none. -/
theorem of_eq (hframe : st'.frame = st.frame) (hasked : s.classPath.Asked st.memo st'.memo)
    (htypes : ∀ i r, st'.typeBefore? i r = st.typeBefore? i r)
    (hsettled : st'.settled = st.settled) : s.Rising st st' :=
  ⟨hframe, hasked, fun i r => .inl (htypes i r), fun _ hi => .inl (hsettled ▸ hi)⟩

/-- A state goes on to itself. -/
theorem refl (s : Subject) (st : State) : s.Rising st st :=
  of_eq rfl .refl (fun _ _ => rfl) rfl

/-- Questions change no types. -/
theorem of_memo {m : Memo} (h : s.classPath.Asked st.memo m) :
    s.Rising st { st with memo := m } :=
  of_eq rfl h (fun _ _ => rfl) rfl

/-- A type that has climbed does not come back. -/
theorem changed (h₁ : s.Rising st st₁) (h₂ : s.Rising st₁ st₂) {i r : Nat}
    (hne : st₁.typeBefore? i r ≠ st.typeBefore? i r) :
    ∃ old new, st.typeBefore? i r = some old ∧ st₂.typeBefore? i r = some new ∧
      new.Over s.classPath old := by
  obtain heq | ⟨old, mid, hold, hmid, hover⟩ := h₁.types i r
  · exact absurd heq hne
  · obtain heq | ⟨mid', new, hmid', hnew, hover'⟩ := h₂.types i r
    · exact ⟨old, mid, hold, heq.trans hmid, hover⟩
    · cases hmid.symm.trans hmid'
      exact ⟨old, new, hold, hnew, hover'.trans hover⟩

/-- A type that changed once does not come back, since types only climb. -/
theorem changed_ne (h₁ : s.Rising st st₁) (h₂ : s.Rising st₁ st₂) {i r : Nat}
    (hne : st₁.typeBefore? i r ≠ st.typeBefore? i r) :
    st₂.typeBefore? i r ≠ st.typeBefore? i r := by
  obtain ⟨old, new, hold, hnew, hover⟩ := h₁.changed h₂ hne
  rw [hold, hnew]
  exact fun h => hover.ne (Option.some.inj h)

/-- States go on one after the other. -/
theorem trans (h₁ : s.Rising st st₁) (h₂ : s.Rising st₁ st₂) : s.Rising st st₂ where
  frame := h₂.frame.trans h₁.frame
  asked := h₁.asked.trans h₂.asked
  types := by
    intro i r
    by_cases hne : st₁.typeBefore? i r = st.typeBefore? i r
    · exact hne ▸ h₂.types i r
    · exact .inr (h₁.changed h₂ hne)
  settled := by
    intro i hi
    rcases h₁.settled i hi with hi | ⟨r, hne⟩
    · rcases h₂.settled i hi with hi | ⟨r, hne⟩
      · exact .inl hi
      · by_cases hne₁ : st₁.typeBefore? i r = st.typeBefore? i r
        · exact .inr ⟨r, hne₁ ▸ hne⟩
        · exact .inr ⟨r, h₁.changed_ne h₂ hne₁⟩
    · exact .inr ⟨r, h₁.changed_ne h₂ hne⟩

/-- A type is received before a point. -/
theorem of_received {r k : Nat} {t : RegType} {passed : Bool} (hcp : s.classPath.Founded)
    (hst : s.Fits st) (h : Received s r t k st st' passed) : s.Rising st st' := by
  have hasked := s.classPath.asked_keptBy st.memo
  cases h with
  | absent => exact refl s st
  | same _ hjoin => exact of_memo (Triple.ok (hasked.join _ _) .refl hjoin)
  | @raised p old new m _ hp hold hjoin hnew _ =>
    have hover := RegType.over_of_join hcp hjoin hst.asked hnew
    have hk := State.typeBefore?_of_point hp hold
    refine ⟨State.raise_frame hp, Triple.ok (hasked.join _ _) .refl hjoin, fun i x => ?_, ?_⟩
    · rw [State.typeBefore?_raise hp hold]
      by_cases hik : i = k ∧ x = r
      · obtain ⟨rfl, rfl⟩ := hik
        exact .inr ⟨old, new, hk, if_pos ⟨rfl, rfl⟩, hover⟩
      · exact .inl (if_neg hik)
    · intro i hi
      by_cases hik : i = k
      · subst hik
        refine .inr ⟨r, ?_⟩
        rw [State.typeBefore?_raise hp hold, if_pos ⟨rfl, rfl⟩, hk]
        exact fun h => hnew (Option.some.inj h)
      · exact .inl (State.mem_raise_settled.2 ⟨hi, hik⟩)

end Rising

/-! ## Ascending steps -/

namespace Ascends

variable {α β : Type} {x : Step α} {f : α → Step β} {e : AnalysisError}

/-- A step that succeeds takes types up. -/
theorem ok (h : s.Ascends x st) {a : α} (hx : x st = .ok a st') : s.Rising st st' := by
  unfold Ascends at h
  rwa [hx] at h

/-- A step that fails took types up, and no limit was reached. -/
theorem error (h : s.Ascends x st) (hx : x st = .error e st') :
    s.Rising st st' ∧ e.stalled = false := by
  unfold Ascends at h
  rwa [hx] at h

theorem pure (s : Subject) (a : α) (st : State) : s.Ascends (Pure.pure a) st := .refl s st

theorem throw (s : Subject) (st : State) (he : e.stalled = false) :
    s.Ascends (MonadExcept.throw e : Step α) st := ⟨.refl s st, he⟩

/-- A step that follows a state that was reached ascends from the first state. -/
theorem after (hrising : s.Rising st st₁) {y : Step α} (hy : s.Ascends y st₁)
    (heq : x st = y st₁) : s.Ascends x st := by
  unfold Ascends at hy ⊢
  rw [heq]
  cases hys : y st₁ with
  | ok a st₂ =>
    rw [hys] at hy
    exact hrising.trans hy
  | error e st₂ =>
    rw [hys] at hy
    exact ⟨hrising.trans hy.1, hy.2⟩

/-- Steps that take types up do so one after the other. -/
theorem bind (hx : s.Ascends x st) (hf : ∀ a st₁, x st = .ok a st₁ → s.Ascends (f a) st₁) :
    s.Ascends (x >>= f) st := by
  cases hxs : x st with
  | ok a st₁ => exact after (hx.ok hxs) (hf a st₁ hxs) (by rw [bind_apply, hxs])
  | error e st₁ =>
    unfold Ascends at hx ⊢
    rw [bind_apply, hxs]
    rwa [hxs] at hx

/-- A rule changes no types. -/
theorem ofRule {r : Rule α} (hasks : Asks (s.classPath.Asked st.memo) r) :
    s.Ascends (Step.ofRule r) st := by
  have hasks := hasks st.memo .refl
  unfold Ascends Step.ofRule
  cases hr : r st.memo with
  | ok a m =>
    rw [hr] at hasks
    exact .of_memo hasks
  | error e m =>
    rw [hr] at hasks
    exact ⟨.of_memo hasks.1, hasks.2⟩

theorem get_bind {f : State → Step β} (hf : s.Ascends (f st) st) : s.Ascends (get >>= f) st := hf

theorem set_bind {f : PUnit → Step β} (hset : s.Rising st st₁) (hf : s.Ascends (f ⟨⟩) st₁) :
    s.Ascends (set st₁ >>= f) st :=
  after hset hf rfl

theorem foldlM {γ : Type} {f : β → γ → Step β} (hf : ∀ b c st, s.Fits st → s.Ascends (f b c) st)
    (cs : List γ) (b : β) (hst : s.Fits st) : s.Ascends (cs.foldlM f b) st := by
  induction cs generalizing b st with
  | nil => exact pure s b st
  | cons c cs ih =>
    rw [List.foldlM_cons]
    have hfirst := hf b c st hst
    exact hfirst.bind fun b' st₁ hfirst' => ih b' (hst.rising (hfirst.ok hfirst'))

theorem forM {γ : Type} {f : γ → Step PUnit} (hf : ∀ c st, s.Fits st → s.Ascends (f c) st)
    (cs : List γ) (hst : s.Fits st) : s.Ascends (cs.forM f) st := by
  induction cs generalizing st with
  | nil => exact pure s _ st
  | cons c cs ih =>
    rw [List.forM_eq_forM, List.forM_cons]
    have hfirst := hf c st hst
    exact hfirst.bind fun _ st₁ hfirst' => ih (hst.rising (hfirst.ok hfirst'))

end Ascends

section Loop

variable {r k bound : Nat} {t : RegType} {n : NodeId} {changed changed' : Worklist}

/-- A type that cannot be received leaves a state as it is. -/
theorem receive_error {e : AnalysisError} (h : s.receive r t changed k st = .error e st') :
    ∃ m, s.classPath.Asked st.memo m ∧ st' = { st with memo := m } ∧ e.stalled = false := by
  unfold Subject.receive at h
  obtain h | ⟨_, _, hget, h⟩ := bind_error.1 h
  · cases h
  cases hget
  cases hp : st.points[k]? with
  | none =>
    simp only [hp] at h
    cases h
  | some p =>
    simp only [hp] at h
    obtain h | ⟨answer, st₁, _, h⟩ := bind_error.1 h
    · obtain ⟨m, hm, rfl⟩ := Step.ofRule_error h
      obtain ⟨e', rfl, hreceive⟩ := Rule.ask_error hm
      have hkeeps := (s.classPath.asked_keptBy st.memo).receive p r t
      exact ⟨m, Triple.error hkeeps .refl hreceive, rfl, rfl⟩
    · cases answer with
      | none => cases h
      | some q =>
        obtain h | ⟨_, _, _, h⟩ := bind_error.1 h
        · cases h
        · cases h

/-- A type that is received takes the type before a point up. -/
theorem ascends_receive (hcp : s.classPath.Founded) (hst : s.Fits st) :
    s.Ascends (s.receive r t changed k) st := by
  unfold Ascends
  cases h : s.receive r t changed k st with
  | ok changed' st' =>
    obtain ⟨passed, hreceived, _⟩ := receive_ok h
    exact .of_received hcp hst hreceived
  | error e st' =>
    obtain ⟨m, hm, rfl, he⟩ := receive_error h
    exact ⟨.of_memo hm, he⟩

/-- Carrying a type on to all successors takes types up. -/
theorem ascends_carry (hcp : s.classPath.Founded) (hst : s.Fits st) :
    s.Ascends (s.carry n r changed) st := by
  refine Ascends.get_bind ?_
  cases st.typeAfter? n r with
  | none => exact .pure s _ st
  | some t => exact .foldlM (fun changed k st hst => ascends_receive hcp hst) _ _ hst

/-! ## The load of a register -/

/-- How often the types of a register can climb, over all points. -/
noncomputable def load (s : Subject) (bound r : Nat) (st : State) : Nat :=
  (st.points.toList.map fun p =>
    ((p.before[r]?).map (RegType.weight s.classPath bound)).getD 0).sum

/-- The types of a register are within a bound wherever they can be carried on. -/
structure Held (s : Subject) (bound r : Nat) (changed : Worklist) (st : State) : Prop where
  before : ∀ {i t}, st.typeBefore? i r = some t → t.Within s.classPath bound
  after : ∀ {i t}, i ∈ changed → st.typeAfter? (.instr i) r = some t → t.Within s.classPath bound

/-- A type that is received keeps the types within the bound. -/
theorem Held.received {passed : Bool} (hcp : s.classPath.Founded)
    (hbound : s.classPath.growth ≤ bound) (hst : s.Fits st) (ht : t.Within s.classPath bound)
    (h : s.Held bound r changed st) (hreceived : Received s r t k st st' passed) :
    s.Held bound r (if passed then changed.insert k else changed) st' := by
  cases hreceived with
  | absent => exact h
  | same =>
    exact ⟨h.before, fun hi hu => h.after hi (State.typeAfter?_memo ▸ hu)⟩
  | @raised p old new m _ hp hold hjoin hnew hpassed =>
    have hk := State.typeBefore?_of_point hp hold
    have hwithin : new.Within s.classPath bound :=
      RegType.within_of_join hcp hbound (h.before hk) ht hjoin hst.asked
    constructor
    · intro i u hu
      rw [State.typeBefore?_raise hp hold] at hu
      split at hu
      · cases hu
        exact hwithin
      · exact h.before hu
    · intro i u hi hu
      rw [State.typeAfter?_raise hp] at hu
      split at hu
      · obtain ⟨_, _, rfl⟩ := Option.map_eq_some_iff.1 hu
        exact hwithin
      · next hne =>
        cases hsets : (p.entered r new).sets r with
        | true =>
          rw [hpassed, hsets] at hi
          exact h.after hi hu
        | false =>
          rw [hpassed, hsets] at hi
          rcases Worklist.mem_insert.1 hi with rfl | hi
          · exact absurd ⟨rfl, rfl, hsets⟩ hne
          · exact h.after hi hu

theorem sum_set_lt {l : List Nat} {k x y : Nat} (hx : l[k]? = some x) (hy : y < x) :
    (l.set k y).sum < l.sum := by
  induction l generalizing k with
  | nil => cases hx
  | cons a l ih =>
    cases k with
    | zero =>
      cases hx
      exact Nat.add_lt_add_right hy _
    | succ k => exact Nat.add_lt_add_left (ih hx) _

theorem length_insert_le (w : Worklist) (i : Nat) :
    (w.insert i).items.length ≤ w.items.length + 1 := by
  obtain ⟨items⟩ := w
  show (Worklist.insertItem i items).length ≤ items.length + 1
  induction items with
  | nil => exact Nat.le_refl _
  | cons j items ih =>
    unfold Worklist.insertItem
    split
    · exact Nat.le_refl _
    · split
      · exact Nat.le_succ _
      · exact Nat.succ_le_succ ih

/-- A point that comes to the worklist is paid for by the type that climbs. -/
theorem load_received {passed : Bool} (hcp : s.classPath.Founded)
    (hbound : s.classPath.growth ≤ bound) (hst : s.Fits st) (ht : t.Within s.classPath bound)
    (h : s.Held bound r changed st) (hreceived : Received s r t k st st' passed) :
    (if passed then changed.insert k else changed).items.length + s.load bound r st' ≤
      changed.items.length + s.load bound r st := by
  cases hreceived with
  | absent => exact Nat.le_refl _
  | same => exact Nat.le_refl _
  | @raised p old new m _ hp hold hjoin hnew hpassed =>
    have hk := State.typeBefore?_of_point hp hold
    have hlt : s.load bound r (st.raise m k p r new) < s.load bound r st := by
      have hover := RegType.over_of_join hcp hjoin hst.asked hnew
      have hwithin := RegType.within_of_join hcp hbound (h.before hk) ht hjoin hst.asked
      obtain ⟨hr, _⟩ := Array.getElem?_eq_some_iff.1 hold
      unfold load
      show ((st.points.setIfInBounds k (p.raise r new)).toList.map _).sum < _
      rw [Array.toList_setIfInBounds, List.map_set]
      refine sum_set_lt (x := old.weight s.classPath bound) (by simp [hp, hold]) ?_
      simpa [hr] using RegType.weight_lt_of_over hwithin hover
    have hlength := length_insert_le changed k
    split <;> omega

/-- Carrying a type on keeps types within the bound.  What is still to be carried on and what types
can still climb do not grow together. -/
theorem carry_held (hcp : s.classPath.Founded) (hbound : s.classPath.growth ≤ bound)
    (hst : s.Fits st) (hheld : s.Held bound r changed st)
    (ht : ∀ t, st.typeAfter? n r = some t → t.Within s.classPath bound)
    (h : s.carry n r changed st = .ok changed' st') :
    s.Held bound r changed' st' ∧ changed'.items.length + s.load bound r st' ≤
      changed.items.length + s.load bound r st := by
  cases hafter : st.typeAfter? n r with
  | none =>
    obtain ⟨rfl, rfl⟩ := carry_absent hafter h
    exact ⟨hheld, Nat.le_refl _⟩
  | some t =>
    have hwithin := ht t hafter
    refine (carry_keeps (I := fun _ changed₁ st₁ => s.Fits st₁ ∧ s.Held bound r changed₁ st₁ ∧
      changed₁.items.length + s.load bound r st₁ ≤ changed.items.length + s.load bound r st)
      ?_ hafter h ⟨hst, hheld, Nat.le_refl _⟩).2
    rintro k ks changed₁ st₁ st₂ passed ⟨hst₁, hheld₁, hload⟩ hreceived
    exact ⟨hst₁.rising (.of_received hcp hst₁ hreceived),
      hheld₁.received hcp hbound hst₁ hwithin hreceived,
      Nat.le_trans (load_received hcp hbound hst₁ hwithin hheld₁ hreceived) hload⟩

/-- The loop ends in the number of rounds that the worklist and the types allow. -/
theorem ascends_carryAll {limit left : Nat} (hcp : s.classPath.Founded)
    (hbound : s.classPath.growth ≤ bound) (hst : s.Fits st) (hheld : s.Held bound r changed st)
    (hload : changed.items.length + s.load bound r st ≤ left) :
    s.Ascends (s.carryAll r limit left changed) st := by
  induction left generalizing changed st with
  | zero =>
    obtain ⟨_ | ⟨i, rest⟩⟩ := changed
    · exact .pure s _ st
    · rw [List.length_cons] at hload
      omega
  | succ left ih =>
    obtain ⟨_ | ⟨i, rest⟩⟩ := changed
    · exact .pure s _ st
    · have hrest : s.Held bound r ⟨rest⟩ st :=
        ⟨hheld.before, fun hi => hheld.after (List.mem_cons_of_mem i hi)⟩
      have hcarry : s.Ascends (s.carry (.instr i) r ⟨rest⟩) st := ascends_carry hcp hst
      refine hcarry.bind fun changed' st₁ h => ?_
      obtain ⟨hheld₁, hload₁⟩ := carry_held hcp hbound hst hrest
        (fun t ht => hheld.after List.mem_cons_self ht) h
      simp only [List.length_cons] at hload hload₁
      exact ih (hst.rising (hcarry.ok h)) hheld₁ (by omega)

/-! ## Assignments -/

theorem le_foldl_max {α : Type} (f : α → Nat) : ∀ (as : List α) (n : Nat),
    n ≤ as.foldl (fun n a => max n (f a)) n ∧ ∀ a ∈ as, f a ≤ as.foldl (fun n a => max n (f a)) n
  | [], n => ⟨Nat.le_refl n, List.forall_mem_nil _⟩
  | a :: as, n => by
    obtain ⟨hinit, hmem⟩ := le_foldl_max f as (max n (f a))
    rw [List.foldl_cons]
    exact ⟨Nat.le_trans (Nat.le_max_left _ _) hinit,
      List.forall_mem_cons.2 ⟨Nat.le_trans (Nat.le_max_right _ _) hinit, hmem⟩⟩

/-- No array in a register has more dimensions than the register has before all points. -/
theorem dims_le_depth {i : Nat} (h : st.typeBefore? i r = some t) : t.dims ≤ st.depth r := by
  obtain ⟨p, hp, ht⟩ := Option.bind_eq_some_iff.1 h
  have hle := (le_foldl_max (fun p : Point => ((p.before[r]?).map RegType.dims).getD 0)
    st.points.toList 0).2 p (Array.mem_toList_iff.2 (Array.mem_of_getElem? hp))
  rw [Array.foldl_toList] at hle
  unfold State.depth
  simpa only [ht, Option.map_some, Option.getD_some] using hle

/-- What the types of a register at one point can climb is within the budget of the point. -/
theorem weight_le_budget (classes depth lines growth : Nat) :
    3 * classes + (depth + growth * (classes + 2)) + 18 ≤
      (depth + (lines + 1) * growth + 1) * (4 * (classes + 16)) := by
  have hgrowth : growth ≤ (lines + 1) * growth := Nat.le_mul_of_pos_left _ (Nat.succ_pos _)
  calc 3 * classes + (depth + growth * (classes + 2)) + 18
      ≤ (depth + growth + 1) * (4 * (classes + 16)) := by
        simp only [Nat.mul_add, Nat.add_mul, Nat.mul_left_comm _ 4, Nat.one_mul]
        omega
    _ ≤ (depth + (lines + 1) * growth + 1) * (4 * (classes + 16)) :=
        Nat.mul_le_mul_right _ (by omega)

/-- The types of a register before all points can climb no more often than the budget says. -/
theorem load_le_budget {depth : Nat} (hst : s.Fits st)
    (hheld : s.Held (depth + s.classPath.growth) r changed st) :
    s.load (depth + s.classPath.growth) r st ≤ s.budget depth := by
  have hpoint : ∀ p ∈ st.points.toList,
      ((p.before[r]?).map (RegType.weight s.classPath (depth + s.classPath.growth))).getD 0 ≤
        (s.reach depth + 1) * (4 * (s.classPath.defs.length + 16)) := by
    intro p hp
    obtain ⟨i, hi⟩ := List.mem_iff_getElem?.1 hp
    cases ht : p.before[r]? with
    | none => exact Nat.zero_le _
    | some t =>
      have hwithin := hheld.before
        (State.typeBefore?_of_point (Array.getElem?_toList.symm.trans hi) ht)
      exact Nat.le_trans (RegType.weight_le hwithin) (weight_le_budget _ depth _ _)
  calc s.load (depth + s.classPath.growth) r st
      ≤ s.body.lines.length * ((s.reach depth + 1) * (4 * (s.classPath.defs.length + 16))) := by
        have hsum := List.sum_le_card_nsmul _ _ (List.forall_mem_map.2 hpoint)
        rwa [List.length_map, Array.length_toList, hst.size, smul_eq_mul] at hsum
    _ ≤ s.budget depth := by
        unfold budget
        rw [Nat.mul_assoc]
        exact Nat.mul_le_mul_right _ (Nat.le_succ _)

/-- Assigning one register takes types up, and comes to an end. -/
theorem ascends_assignOne (hcp : s.classPath.Founded) (hst : s.Fits st) :
    s.Ascends (s.assignOne n r t) st := by
  refine Ascends.get_bind ?_
  split
  · exact .pure s _ st
  · have hset : s.Rising st (st.setAfter n r t) :=
      .of_eq State.setAfter_frame (State.setAfter_memo ▸ .refl)
        (fun _ _ => State.typeBefore?_setAfter) State.setAfter_settled
    have hst₁ := hst.rising hset
    have hbound := Nat.le_add_left s.classPath.growth (max t.dims (st.depth r))
    -- at first only the new type is carried on
    have hheld : s.Held (max t.dims (st.depth r) + s.classPath.growth) r .empty
        (st.setAfter n r t) := by
      refine ⟨fun hu => RegType.within_of_dims ?_, fun hi => absurd hi Worklist.not_mem_empty⟩
      rw [State.typeBefore?_setAfter] at hu
      exact Nat.le_trans (dims_le_depth hu) (Nat.le_max_right _ _)
    have hafter : ∀ u, (st.setAfter n r t).typeAfter? n r = some u →
        u.Within s.classPath (max t.dims (st.depth r) + s.classPath.growth) := by
      intro u hu
      rw [State.typeAfter?_setAfter, if_pos ⟨rfl, rfl⟩] at hu
      obtain ⟨_, _, rfl⟩ := Option.map_eq_some_iff.1 hu
      exact RegType.within_of_dims (Nat.le_max_left _ _)
    have hcarry : s.Ascends (s.carry n r .empty) (st.setAfter n r t) := ascends_carry hcp hst₁
    refine .set_bind hset (hcarry.bind fun changed st₂ h => ?_)
    obtain ⟨hheld₂, hload⟩ := carry_held hcp hbound hst₁ hheld hafter h
    have hbudget := load_le_budget hst₁ hheld
    refine (ascends_carryAll hcp hbound (hst₁.rising (hcarry.ok h)) hheld₂ ?_).bind
      fun _ st₃ _ => .pure s _ st₃
    exact Nat.le_trans hload (Nat.le_trans (Nat.le_of_eq (Nat.zero_add _)) hbudget)

/-- Assigning a register, and the next one for a wide value, takes types up and comes to an end. -/
theorem ascends_assign (hcp : s.classPath.Founded) (hst : s.Fits st) :
    s.Ascends (s.assign n r t) st := by
  unfold Subject.assign
  split
  · exact .throw s st rfl
  · have hone : s.Ascends (s.assignOne n r t) st := ascends_assignOne hcp hst
    refine hone.bind fun new st₁ h => ?_
    have hst₁ := hst.rising (hone.ok h)
    split
    · split
      · exact .pure s _ st₁
      · split
        · exact .throw s st₁ rfl
        · rw [discard_eq]
          exact (ascends_assignOne hcp hst₁).bind fun _ st₂ _ => .pure s _ st₂
    · exact .pure s _ st₁

end Loop

end Subject

end Dalvik.Analysis
