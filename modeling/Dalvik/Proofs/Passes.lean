import Dalvik.Proofs.Noting
import Dalvik.Proofs.Settled
import Dalvik.Proofs.Termination
import Mathlib.Algebra.Order.BigOperators.Group.Finset

/-!
# What passes are paid for with

A point is analysed once, and again only when a type before it changed.  So in code without odexed
instructions each pass over a point but the first is paid for by a change, and a run whose
registers change seldom enough keeps to the usual limit of passes.

The argument is about the log of an analysis that notes both.  A change is noted where a type is
received before a point and the type there is another one afterwards.  A point may have been
analysed once more than types before it changed.  If it is not settled it has been analysed at most
as often as they changed, since a change took it back.  This is `Paid.credit`, and every step keeps
it.  A point that waits is the exception: it is tried again without a change.  Nothing waits in
plain code.

A type is carried on from a point when it changed there, so the loop that carries types on is paid
for by changes too (`Charged`).
-/

namespace Dalvik.Analysis

/-! ## Events -/

/-- What happens in an analysis. -/
inductive Event where
  /-- The point at an index is analysed. -/
  | analysed (i : Nat)
  /-- The type of a register before the point at an index changes. -/
  | changed (i r : Nat)
  deriving DecidableEq, Repr

/-- The events of a step that leads from one state to another. -/
def eventsOf : Notes Event
  | .pass i, _, _ => [.analysed i]
  | .receive i r, before, after =>
    if after.typeBefore? i r ≠ before.typeBefore? i r then [.changed i r] else []
  | .step, _, _ | .rule _ _, _, _ => []

/-- A type that comes in and changes nothing is no event. -/
theorem eventsOf_same {before after : State} {i r : Nat}
    (h : after.typeBefore? i r = before.typeBefore? i r) :
    eventsOf (.receive i r) before after = [] :=
  if_neg (not_not.2 h)

/-- A type that changes a register is one event. -/
theorem eventsOf_change {before after : State} {i r : Nat}
    (h : after.typeBefore? i r ≠ before.typeBefore? i r) :
    eventsOf (.receive i r) before after = [.changed i r] :=
  if_pos h

/-- Analyses a method of a class, and tells what happened. -/
def recordMethod (cp : ClassPath) (options : Options) (cls : ClassDef) (method : MethodDef)
    (m : Memo) : EStateM.Result AnalysisError Memo Analysed × List Event :=
  noteMethod eventsOf cp options cls method m

/-! ## Counting events -/

namespace Event

/-- The point that is analysed. -/
def point? : Event → Option Nat
  | analysed i => some i
  | changed _ _ => none

/-- The register that changes before a point. -/
def register? (i : Nat) : Event → Option Nat
  | analysed _ => none
  | changed j r => if j = i then some r else none

/-- The point before which a register changes. -/
def place? (r : Nat) : Event → Option Nat
  | analysed _ => none
  | changed i x => if x = r then some i else none

/-- The event happens at a point of the body, to one of its registers. -/
def Inside (b : Body) : Event → Prop
  | analysed i => i < b.lines.length
  | changed i r => i < b.lines.length ∧ r < b.registers

namespace Inside

variable {b : Body} {e : Event} {i r : Nat}

theorem point (h : e.Inside b) (hi : e.point? = some i) : i < b.lines.length := by
  cases e with
  | analysed j => exact Option.some.inj hi ▸ h
  | changed j x => cases hi

theorem register (h : e.Inside b) (hr : e.register? i = some r) : r < b.registers := by
  cases e with
  | analysed j => cases hr
  | changed j x =>
    simp only [register?, Option.ite_none_right_eq_some, Option.some.injEq] at hr
    exact hr.2 ▸ h.2

theorem place (h : e.Inside b) (hi : e.place? r = some i) : i < b.lines.length := by
  cases e with
  | analysed j => cases hi
  | changed j x =>
    simp only [place?, Option.ite_none_right_eq_some, Option.some.injEq] at hi
    exact hi.2 ▸ h.1

end Inside

end Event

/-- How often points were analysed. -/
def totalPasses (log : List Event) : Nat := (log.filterMap Event.point?).length

/-- How often a point was analysed. -/
def passesAt (log : List Event) (i : Nat) : Nat := log.count (.analysed i)

/-- How often one of the types before a point changed. -/
def changesAt (log : List Event) (i : Nat) : Nat := (log.filterMap (Event.register? i)).length

/-- How often a register changed, before any point. -/
def changesOf (log : List Event) (r : Nat) : Nat := (log.filterMap (Event.place? r)).length

section Counting

variable {log : List Event} {i j r x : Nat}

@[simp] theorem totalPasses_analysed : totalPasses (.analysed i :: log) = totalPasses log + 1 := rfl

@[simp] theorem totalPasses_changed : totalPasses (.changed i r :: log) = totalPasses log := rfl

@[simp] theorem passesAt_analysed :
    passesAt (.analysed j :: log) i = passesAt log i + if j = i then 1 else 0 := by
  simp [passesAt, List.count_cons]

@[simp] theorem passesAt_changed : passesAt (.changed j r :: log) i = passesAt log i := by
  simp [passesAt]

@[simp] theorem changesAt_analysed : changesAt (.analysed j :: log) i = changesAt log i := rfl

@[simp] theorem changesAt_changed :
    changesAt (.changed j r :: log) i = changesAt log i + if j = i then 1 else 0 := by
  by_cases h : j = i <;> simp [changesAt, Event.register?, h]

@[simp] theorem changesOf_changed :
    changesOf (.changed i x :: log) r = changesOf log r + if x = r then 1 else 0 := by
  by_cases h : x = r <;> simp [changesOf, Event.place?, h]

/-- The passes over a point are counted by their points. -/
theorem countP_point : log.countP (fun e => e.point? == some i) = passesAt log i := by
  refine List.countP_congr fun e _ => ?_
  cases e <;> simp [Event.point?]

/-- The changes at a point are counted by their registers. -/
theorem countP_register :
    log.countP (fun e => e.register? i == some r) = log.count (.changed i r) := by
  refine List.countP_congr fun e _ => ?_
  cases e <;> simp [Event.register?]

/-- The changes of a register are counted by their points. -/
theorem countP_place :
    log.countP (fun e => e.place? r == some i) = log.count (.changed i r) := by
  refine List.countP_congr fun e _ => ?_
  cases e <;> simp [Event.place?, and_comm]

/-- There are not more numbers below a bound than the bound allows, if none is listed often. -/
theorem length_le_of_count {l : List Nat} {n k : Nat} (hn : ∀ x ∈ l, x < n)
    (hk : ∀ x, l.count x ≤ k) : l.length ≤ n * k := by
  have hsum : ∑ x ∈ Finset.range n, l.count x = l.length := by
    have hcard : ∑ x ∈ Finset.range n, (l : Multiset Nat).count x = (l : Multiset Nat).card :=
      Multiset.sum_count_eq_card (by simpa using hn)
    simpa only [Multiset.coe_count, Multiset.coe_card] using hcard
  calc l.length = ∑ x ∈ Finset.range n, l.count x := hsum.symm
    _ ≤ (Finset.range n).card • k := Finset.sum_le_card_nsmul _ _ _ fun x _ => hk x
    _ = n * k := by simp

/-- What events tell is limited, if each answer is below a bound and not given often. -/
theorem length_filterMap_le {f : Event → Option Nat} {n k : Nat}
    (hn : ∀ e ∈ log, ∀ x, f e = some x → x < n)
    (hk : ∀ x, log.countP (fun e => f e == some x) ≤ k) : (log.filterMap f).length ≤ n * k := by
  refine length_le_of_count (fun x hx => ?_) fun x => ?_
  · obtain ⟨e, he, hfe⟩ := List.mem_filterMap.1 hx
    exact hn e he x hfe
  · rw [List.count_filterMap]
    exact hk x

end Counting

/-- A run may make as many passes as its limit says. -/
theorem passLimit_le_passBound (given? : Option Nat) (instrs registers : Nat) :
    passLimit given? instrs registers ≤ passBound given? instrs registers := by
  cases given? with
  | some n => exact Nat.le_refl n
  | none =>
    have hclimbs : min maxCount (instrs * (registers + 1)) * latticeHeight ≤
        instrs * (registers + 1) * latticeHeight :=
      Nat.mul_le_mul_right _ (Nat.min_le_right _ _)
    exact max_le_max_left minPasses ((Nat.min_le_right _ _).trans hclimbs)

/-! ## Accounts -/

/-- At every point of time so far, each pass but the first over a point was paid for by a
change. -/
structure Accounted (b : Body) (log : List Event) : Prop where
  inside : ∀ e ∈ log, e.Inside b
  paid : ∀ before, before <:+ log → ∀ i, passesAt before i ≤ 1 + changesAt before i

/-- A limit was reached: a type was carried on more often than registers change, or so many points
were analysed. -/
def Crowded (b : Body) (limit : Nat) (log : List Event) : Prop :=
  (∃ r, b.lines.length * latticeHeight < changesOf log r) ∨ limit ≤ totalPasses log

namespace Accounted

variable {b : Body} {log : List Event} {e : Event} {i r : Nat}

theorem nil (b : Body) : Accounted b [] where
  inside := by simp
  paid before h i := by
    rw [List.suffix_nil.1 h]
    exact Nat.zero_le _

theorem cons (h : Accounted b log) (he : e.Inside b)
    (hpaid : ∀ i, passesAt (e :: log) i ≤ 1 + changesAt (e :: log) i) :
    Accounted b (e :: log) where
  inside := List.forall_mem_cons.2 ⟨he, h.inside⟩
  paid before hbefore := by
    rcases List.suffix_cons_iff.1 hbefore with rfl | hbefore
    · exact hpaid
    · exact h.paid before hbefore

variable (h : Accounted b log) (hfew : ∀ i r, log.count (.changed i r) ≤ latticeHeight)
include h hfew

/-- A register changes at each point as often as the lattice is high, at most. -/
theorem changesOf_le : changesOf log r ≤ b.lines.length * latticeHeight :=
  length_filterMap_le (fun e he _ => (h.inside e he).place) fun i => countP_place ▸ hfew i r

/-- At a point each register changes as often as the lattice is high, at most. -/
theorem changesAt_le : changesAt log i ≤ b.registers * latticeHeight :=
  length_filterMap_le (fun e he _ => (h.inside e he).register) fun r => countP_register ▸ hfew i r

/-- Each point is analysed once, and once more for each change. -/
theorem totalPasses_le :
    totalPasses log ≤ b.lines.length * (1 + b.registers * latticeHeight) := by
  refine length_filterMap_le (fun e he _ => (h.inside e he).point) fun i => ?_
  calc log.countP (fun e => e.point? == some i) = passesAt log i := countP_point
    _ ≤ 1 + changesAt log i := h.paid log (List.suffix_refl log) i
    _ ≤ 1 + b.registers * latticeHeight := Nat.add_le_add_left (h.changesAt_le hfew) 1

/-- The usual limit leaves a pass over. -/
theorem totalPasses_lt_passBound :
    totalPasses log < passBound none b.lines.length b.registers := by
  have htotal := h.totalPasses_le hfew
  generalize b.lines.length = n, b.registers = registers at htotal ⊢
  simp only [passBound, minPasses, latticeHeight, Nat.mul_add, Nat.mul_one,
    ← Nat.mul_assoc] at htotal ⊢
  rcases Nat.eq_zero_or_pos n with rfl | hn
  · simp only [Nat.zero_mul] at htotal ⊢
    omega
  · generalize n * registers = slots at htotal ⊢
    omega

/-- Types are not carried on so often that a limit is reached. -/
theorem limit_le {limit : Nat} (hcrowded : Crowded b limit log) : limit ≤ totalPasses log := by
  rcases hcrowded with ⟨r, hr⟩ | hlimit
  · exact absurd hr (Nat.not_lt.2 (h.changesOf_le hfew))
  · exact hlimit

end Accounted

/-- The records of an analysis of plain code, while a point is analysed or none is, after a number
of passes. -/
structure Paid (s : Subject) (current? : Option Nat) (count : Nat) (now : Record Event) : Prop where
  frame : now.state.frame = (State.initial s.body .empty).frame
  instrs : now.state.instrs = (State.initial s.body .empty).instrs
  accounted : Accounted s.body now.log
  total : totalPasses now.log = count
  /-- The next pass over a point is paid for, unless it is settled or under analysis. -/
  credit : ∀ i ∉ now.state.settled, current? ≠ some i → passesAt now.log i ≤ changesAt now.log i

/-- What holds of a recorded step that fails. -/
def Failed (s : Subject) (limit : Nat) (e : AnalysisError) (now : Record Event) : Prop :=
  Accounted s.body now.log ∧ (e.stalled = true → Crowded s.body limit now.log)

/-- A failure that is no stall leaves the accounts in order. -/
theorem Accounted.failed {s : Subject} {limit : Nat} {e : AnalysisError} {now : Record Event}
    (h : Accounted s.body now.log) (he : e.stalled = false) : Failed s limit e now :=
  ⟨h, fun hstalled => absurd (he.symm.trans hstalled) Bool.false_ne_true⟩

/-- A recorded step that keeps the accounts, and stalls only if a limit was reached. -/
def Pays {α : Type} (s : Subject) (limit : Nat) (current? : Option Nat) (count : Nat)
    (y : Recorded Event α) : Prop :=
  Triple (Paid s current? count) y (fun _ => Paid s current? count) (Failed s limit)

namespace Paid

variable {s : Subject} {current? : Option Nat} {count : Nat} {now : Record Event} {st : State}
variable {i r : Nat}

/-- Steps that leave the frame, the instructions and the settled points alone keep the accounts. -/
theorem congr (h : Paid s current? count now) (hframe : st.frame = now.state.frame)
    (hinstrs : st.instrs = now.state.instrs) (hsettled : st.settled = now.state.settled) :
    Paid s current? count ⟨st, now.log⟩ where
  frame := hframe.trans h.frame
  instrs := hinstrs.trans h.instrs
  accounted := h.accounted
  total := h.total
  credit i hi := h.credit i (hsettled ▸ hi)

theorem memo (h : Paid s current? count now) (m : Memo) :
    Paid s current? count ⟨{ now.state with memo := m }, now.log⟩ :=
  h.congr rfl rfl rfl

theorem failed (h : Paid s current? count now) {limit : Nat} {e : AnalysisError}
    (he : e.stalled = false) : Failed s limit e now :=
  h.accounted.failed he

theorem bounds (h : Paid s current? count now) {t : RegType}
    (ht : now.state.typeBefore? i r = some t) :
    i < s.body.lines.length ∧ r < s.body.registers := by
  have hfits : s.Fits { now.state with memo := .empty } := ⟨h.frame, .refl⟩
  exact hfits.bounds ht

/-- A change takes its point back, and pays for the next pass over it. -/
theorem raise (h : Paid s current? count now) {m : Memo} {p : Point} {old new : RegType}
    (hp : now.state.points[i]? = some p) (hold : p.before[r]? = some old) :
    Paid s current? count ⟨now.state.raise m i p r new, .changed i r :: now.log⟩ where
  frame := (State.raise_frame hp).trans h.frame
  instrs := (State.raise_instrs hp).trans h.instrs
  accounted := by
    refine h.accounted.cons (h.bounds (State.typeBefore?_of_point hp hold)) fun j => ?_
    have hpaid := h.accounted.paid now.log (List.suffix_refl _) j
    simp only [passesAt_changed, changesAt_changed]
    omega
  total := by simpa using h.total
  credit j hj hcurrent := by
    simp only [passesAt_changed, changesAt_changed]
    by_cases hij : i = j
    · have hpaid := h.accounted.paid now.log (List.suffix_refl _) j
      rw [if_pos hij]
      omega
    · have hsettled : j ∉ now.state.settled :=
        fun hmem => hj (State.mem_raise_settled.2 ⟨hmem, Ne.symm hij⟩)
      exact Nat.le_add_right_of_le (h.credit j hsettled hcurrent)

/-- A pass over a point that is not settled was paid for. -/
theorem pass (h : Paid s none count now) (hi : i < s.body.lines.length)
    (hsettled : i ∉ now.state.settled) :
    Paid s (some i) (count + 1) ⟨now.state, .analysed i :: now.log⟩ where
  frame := h.frame
  instrs := h.instrs
  accounted := by
    refine h.accounted.cons hi fun j => ?_
    simp only [passesAt_analysed, changesAt_analysed]
    by_cases hij : i = j
    · have hcredit := h.credit i hsettled (by simp)
      rw [if_pos hij, ← hij]
      omega
    · simpa [hij] using h.accounted.paid now.log (List.suffix_refl _) j
  total := by simpa using h.total
  credit j hj hcurrent := by
    have hij : i ≠ j := fun hij => hcurrent (hij ▸ rfl)
    simpa [hij] using h.credit j hj (by simp)

/-- A point is settled when its pass is paid for. -/
theorem settle (h : Paid s (some i) count now) :
    Paid s none count ⟨now.state.settle i, now.log⟩ where
  frame := h.frame
  instrs := h.instrs
  accounted := h.accounted
  total := h.total
  credit j hj _ := by
    refine h.credit j (fun hmem => hj (Worklist.mem_insert.2 (.inr hmem))) fun hij => ?_
    exact hj (Worklist.mem_insert.2 (.inl (Option.some.inj hij).symm))

/-- Plain code stays plain. -/
theorem plain (h : Paid s current? count now)
    (hlines : ∀ l ∈ s.body.lines, l.instr.odexOnly = false) : s.Plain now.state := by
  intro i p' hp'
  obtain ⟨p, hp, hinstr, _, hgiven, hsize⟩ := State.point_of_frame h.frame h.instrs hp'
  obtain ⟨l, hl, hpl, hpg, hodex, hregs⟩ := Subject.plain_initial hlines .empty i p hp
  exact ⟨l, hl, hinstr.trans hpl, hgiven.trans hpg, hodex, hsize.trans hregs⟩

end Paid

/-- What holds before a fold and is kept by its steps holds after it, however they end. -/
theorem triple_foldlM {ε σ α β : Type} {f : β → α → EStateM ε σ β} {I : β → σ → Prop}
    {E : ε → σ → Prop} (h : ∀ b a, Triple (I b) (f b a) I E) :
    ∀ (as : List α) (b : β), Triple (I b) (as.foldlM f b) I E
  | [], _ => fun _ hs => hs
  | a :: as, b => by
    rw [List.foldlM_cons]
    exact Triple.bind (h b a) (triple_foldlM h as)

/-- Looking at the state costs nothing. -/
theorem Recorded.get_bind {α : Type} {P : Record Event → Prop} {Q : α → Record Event → Prop}
    {E : AnalysisError → Record Event → Prop} {g : State → Recorded Event α}
    (hg : ∀ st, Triple P (g st) Q E) : Triple P (Recorded.take eventsOf .step get >>= g) Q E :=
  fun now => hg now.state now

namespace Pays

variable {α β : Type} {s : Subject} {limit count : Nat} {current? : Option Nat}
variable {y : Recorded Event α}

theorem pure (a : α) : Pays s limit current? count (Pure.pure a) := fun _ h => h

theorem throw {e : AnalysisError} (he : e.stalled = false) :
    Pays s limit current? count (MonadExcept.throw e : Recorded Event α) := fun _ h => h.failed he

theorem bind {g : α → Recorded Event β} (hy : Pays s limit current? count y)
    (hg : ∀ a, Pays s limit current? count (g a)) : Pays s limit current? count (y >>= g) :=
  Triple.bind hy hg

theorem ite {c : Prop} [Decidable c] {y' : Recorded Event α} (h : Pays s limit current? count y)
    (h' : Pays s limit current? count y') : Pays s limit current? count (if c then y else y') := by
  split
  · exact h
  · exact h'

/-- What is asked costs nothing. -/
theorem ofRule {x : Rule α} (hx : Asks (fun _ => True) x) :
    Pays s limit current? count (Recorded.take eventsOf .step (Step.ofRule x)) := by
  intro now h
  unfold Recorded.take Step.ofRule
  cases hm : x now.state.memo with
  | ok a m => exact h.memo m
  | error e m => exact (h.memo m).failed (hx.not_stalled trivial hm)

theorem forM {g : β → Recorded Event PUnit} (hg : ∀ b, Pays s limit current? count (g b)) :
    ∀ bs : List β, Pays s limit current? count (bs.forM g)
  | [] => pure _
  | b :: bs => by
    rw [List.forM_eq_forM, List.forM_cons]
    exact (hg b).bind fun _ => forM hg bs

end Pays

/-! ## Carrying types on -/

/-- The points from which a type has to be carried on, and those from which it was, are paid for by
changes of the register. -/
structure Charged (s : Subject) (current? : Option Nat) (count r done : Nat) (changed : Worklist)
    (now : Record Event) : Prop where
  paid : Paid s current? count now
  changes : changed.items.length + done ≤ changesOf now.log r

namespace Subject

variable (s : Subject) {limit count r done : Nat} {current? : Option Nat}

/-- A type is carried on from a point only if it changed there. -/
theorem receive_charged (t : RegType) (changed : Worklist) (i : Nat) :
    Triple (Charged s current? count r done changed) 
      (Recorded.take eventsOf (.receive i r) (s.receive r t changed i))
      (Charged s current? count r done) (Failed s limit) := by
  intro now h
  -- only the memory has changed where the type has not
  have hsame (m : Memo) : eventsOf (.receive i r) now.state { now.state with memo := m } = [] :=
    eventsOf_same rfl
  simp only [Recorded.take]
  cases hreceive : s.receive r t changed i now.state with
  | error e st =>
    obtain ⟨m, _, rfl, he⟩ := receive_error hreceive
    simp only [hsame, List.nil_append]
    exact (h.paid.memo m).failed he
  | ok changed' st =>
    obtain ⟨passed, hreceived, rfl⟩ := receive_ok hreceive
    cases hreceived with
    | absent =>
      simp only [eventsOf_same, List.nil_append, Bool.false_eq_true, if_false]
      exact h
    | @same _ m hold hjoin =>
      simp only [hsame, List.nil_append, Bool.false_eq_true, if_false]
      exact ⟨h.paid.memo m, h.changes⟩
    | @raised p old new m _ hp hold hjoin hnew _ =>
      have hchange : (now.state.raise m i p r new).typeBefore? i r ≠
          now.state.typeBefore? i r := by
        rw [State.typeBefore?_raise hp hold, State.typeBefore?_of_point hp hold]
        simpa using hnew
      simp only [eventsOf_change hchange, List.singleton_append]
      refine ⟨h.paid.raise hp hold, ?_⟩
      have hbefore := h.changes
      have hinsert := length_insert_le changed i
      simp only [changesOf_changed, if_true]
      split <;> omega

/-- A type is carried on only from where it has changed something. -/
theorem carry_charged (n : NodeId) (changed : Worklist) :
    Triple (Charged s current? count r done changed) (s.noteCarry eventsOf n r changed)
      (Charged s current? count r done) (Failed s limit) := by
  refine Recorded.get_bind fun st => ?_
  cases st.typeAfter? n r with
  | none => exact fun _ h => h
  | some t => exact triple_foldlM (s.receive_charged t) _ changed

/-- The loop that carries a type on is cut off only after more changes than registers make. -/
theorem carryAll_charged {bound : Nat} (left : Nat) (changed : Worklist)
    (hleft : s.body.lines.length * latticeHeight ≤ done + left) :
    Triple (Charged s current? count r done changed) (s.noteCarryAll eventsOf r bound left changed)
      (fun _ => Paid s current? count) (Failed s limit) := by
  induction left generalizing changed done with
  | zero =>
    intro now h
    unfold noteCarryAll
    obtain ⟨items⟩ := changed
    cases items with
    | nil => exact h.paid
    | cons i rest =>
      refine ⟨h.paid.accounted, fun _ => .inl ⟨r, ?_⟩⟩
      have hchanges := h.changes
      simp only [List.length_cons] at hchanges
      omega
  | succ left ih =>
    unfold noteCarryAll
    obtain ⟨items⟩ := changed
    cases items with
    | nil => exact fun now h => h.paid
    | cons i rest =>
      have hstart (now : Record Event) (h : Charged s current? count r done ⟨i :: rest⟩ now) :
          Charged s current? count r (done + 1) ⟨rest⟩ now := by
        refine ⟨h.paid, ?_⟩
        have hchanges := h.changes
        simp only [List.length_cons] at hchanges ⊢
        omega
      refine Triple.mono ?_ hstart (fun _ _ h => h) fun _ _ h => h
      exact Triple.bind (s.carry_charged (.instr i) ⟨rest⟩) fun changed => ih changed (by omega)

/-- The budget is enough for every change of one register. -/
theorem le_budget (depth : Nat) : s.body.lines.length * latticeHeight ≤ s.budget depth := by
  unfold budget latticeHeight
  calc s.body.lines.length * 20
      ≤ (s.body.lines.length + 1) * (s.reach depth + 1) * 20 :=
        Nat.mul_le_mul_right 20 (Nat.le_trans (Nat.le_succ _) (Nat.le_mul_of_pos_right _ (by simp)))
    _ ≤ _ := Nat.mul_le_mul_left _ (by omega)

/-- The worklist of an assignment is charged to the changes it makes. -/
theorem pays_assignOne (n : NodeId) (r : Nat) (t : RegType) :
    Pays s limit current? count (s.noteAssignOne eventsOf n r t) := by
  intro now h
  unfold noteAssignOne
  rw [bind_apply]
  simp only [Recorded.take, get_apply]
  by_cases hsame : now.state.typeAfter? n r = some t
  · rw [if_pos hsame]
    exact h
  · rw [if_neg hsame]
    have hset : Paid s current? count ⟨now.state.setAfter n r t, now.log⟩ :=
      h.congr State.setAfter_frame State.setAfter_instrs State.setAfter_settled
    have hcarry (bound : Nat) (hbound : s.body.lines.length * latticeHeight ≤ bound) :
        Triple (Charged s current? count r 0 .empty) (do
            s.noteCarryAll eventsOf r bound bound (← s.noteCarry eventsOf n r .empty)
            return true)
          (fun _ => Paid s current? count) (Failed s limit) :=
      Triple.bind (s.carry_charged n .empty) fun changed =>
        Triple.bind (s.carryAll_charged bound changed (by omega)) fun _ _ h => h
    exact hcarry _ (s.le_budget _) ⟨now.state.setAfter n r t, now.log⟩ ⟨hset, Nat.zero_le _⟩

/-- A wide value is two assignments. -/
theorem pays_assign (n : NodeId) (r : Nat) (t : RegType) :
    Pays s limit current? count (s.noteAssign eventsOf n r t) := by
  refine .ite (.throw rfl) ((s.pays_assignOne n r t).bind fun new => .ite ?_ (.pure _))
  cases t.high? with
  | none => exact .pure _
  | some high =>
    refine .ite (.throw rfl) ?_
    rw [discard_eq]
    exact (s.pays_assignOne n (r + 1) high).bind fun _ => .pure _

/-! ## Passes -/

/-- The copies of an object are assignments too. -/
theorem pays_initialiseFrom (i : Nat) (object : Reg) (n : TypeNode) (rs : List Nat) :
    Pays s limit current? count (s.noteInitialiseFrom eventsOf i object n rs) := by
  induction rs with
  | nil => exact .pure _
  | cons r rest ih =>
    refine Recorded.get_bind fun st => ?_
    cases st.points[i]? with
    | none => exact Pays.pure _
    | some p => exact Pays.ite ((s.pays_assign _ r _).bind fun _ => ih) ih

/-- An instruction that does not wait is done. -/
theorem pays_apply (i : Nat) (instr : Instr) {e : Effect} (he : e ≠ .waiting) :
    Triple (Paid s current? count) (s.noteApply eventsOf i instr e)
      (fun done now => done = true ∧ Paid s current? count now) (Failed s limit) := by
  cases e with
  | waiting => exact absurd rfl he
  | nothing => exact fun _ h => ⟨rfl, h⟩
  | write t =>
    unfold noteApply
    cases instr.destination? with
    | none => exact fun _ h => h.failed rfl
    | some dst => exact Triple.bind (s.pays_assign _ _ t) fun _ _ h => ⟨rfl, h⟩
  | initialise object n =>
    exact Triple.bind (s.pays_initialiseFrom i object n _) fun _ _ h => ⟨rfl, h⟩

section Plain

variable (hlines : ∀ l ∈ s.body.lines, l.instr.odexOnly = false)
include hlines

/-- Following the rule of a point settles it, in plain code. -/
theorem pays_transfer (i : Nat) (p : Point) :
    Triple (Paid s current? count) (s.noteTransfer eventsOf i p)
      (fun done now => done = true ∧ Paid s current? count now) (Failed s limit) := by
  intro now h
  unfold noteTransfer
  simp only [bind_apply, Recorded.take, get_apply, Step.ofRule]
  cases heffect : s.effect i p (previous? now.state i) now.state.memo with
  | error e m =>
    have hasks := asks_effect (s.classPath.asked_keptBy now.state.memo) i p (previous? now.state i)
    exact (h.memo m).failed (hasks.not_stalled .refl heffect)
  | ok e m =>
    refine s.pays_apply i p.instr (fun hwaiting => ?_) _ (h.memo m)
    subst hwaiting
    exact (h.plain hlines).not_waiting heffect

/-- In plain code there is nothing to resolve before. -/
theorem pays_analyse (i : Nat) :
    Triple (Paid s current? count) (s.noteAnalyse eventsOf i)
      (fun done now => done = true ∧ Paid s current? count now) (Failed s limit) := by
  intro now h
  unfold noteAnalyse
  rw [bind_apply]
  simp only [Recorded.take, get_apply]
  cases hp : now.state.points[i]? with
  | none => exact ⟨rfl, h⟩
  | some p =>
    simp only [(h.plain hlines).hasStandardForm hp, Bool.false_eq_true, if_false]
    exact s.pays_transfer hlines i p now h

/-- A pass over plain code is done, and was paid for if its point is not settled. -/
theorem pays_pass {i : Nat} (hi : i < s.body.lines.length) :
    Triple (fun now => Paid s none count now ∧ i ∉ now.state.settled) (s.notePass eventsOf i)
      (fun done now => done = true ∧ Paid s (some i) (count + 1) now) (Failed s limit) := by
  rintro now ⟨h, hsettled⟩
  have hanalyse : Triple (Paid s (some i) (count + 1)) (s.noteAnalyse eventsOf i)
      (fun done now => done = true ∧ Paid s (some i) (count + 1) now) (Failed s limit) :=
    s.pays_analyse hlines i
  have hstart := h.pass hi hsettled
  unfold notePass
  rw [(h.plain hlines).restore_eq i]
  cases hresult : s.noteAnalyse eventsOf i
      ⟨now.state, eventsOf (.pass i) now.state now.state ++ now.log⟩ with
  | ok done now' => exact hanalyse.ok hstart hresult
  | error e now' =>
    obtain ⟨haccounted, hcrowded⟩ := hanalyse.error hstart hresult
    exact ⟨haccounted, fun he => hcrowded (stalled_locate e ▸ he)⟩

/-- A run is cut off only after as many passes as it may make. -/
theorem pays_runFrom {bound : Nat}
    (hgraph : ∀ n, ∀ k ∈ s.graph.successors n, k < s.body.lines.length) (left : Nat)
    (agenda : Agenda) (hagenda : s.OnBody agenda) (hleft : count + left = limit) :
    Triple (Paid s none count) (s.noteRunFrom eventsOf bound left agenda)
      (fun _ now => ∃ count, Paid s none count now) (Failed s limit) := by
  induction left generalizing agenda count with
  | zero =>
    intro now h
    unfold noteRunFrom
    rw [bind_apply]
    simp only [Recorded.take, get_apply]
    cases agenda.take? now.state.settled with
    | none => exact ⟨count, h⟩
    | some next =>
      have htotal : limit ≤ totalPasses now.log := by
        rw [h.total]
        omega
      exact ⟨h.accounted, fun _ => .inr htotal⟩
  | succ left ih =>
    intro now h
    unfold noteRunFrom
    rw [bind_apply]
    simp only [Recorded.take, get_apply]
    cases htake : agenda.take? now.state.settled with
    | none => exact ⟨count, h⟩
    | some next =>
      obtain ⟨i, rest⟩ := next
      obtain ⟨hsettled, hlisted, _, _⟩ := Agenda.take?_some htake
      have hi : i < s.body.lines.length := hagenda i hlisted
      have hrest : s.OnBody (rest.after i true (s.graph.successors (.instr i))) :=
        hagenda.after hgraph htake
      refine Triple.bind (s.pays_pass hlines hi) (fun done => ?_) now ⟨h, hsettled⟩
      rintro now' ⟨rfl, h'⟩
      exact ih _ hrest (by omega) ⟨now'.state.settle i, now'.log⟩ h'.settle

end Plain

/-! ## Whole analyses -/

theorem pays_params (r : Nat) (params : List Ty) :
    Pays s limit current? count (s.noteParams eventsOf r params) := by
  induction params generalizing r with
  | nil => exact .pure _
  | cons ty rest ih =>
    exact (Pays.ofRule (.known _)).bind fun t => (s.pays_assign .start r t).bind fun _ => ih _

theorem pays_enter (isStatic : Bool) (locals : Nat) :
    Pays s limit current? count (s.noteEnter eventsOf isStatic locals) := by
  have hlocals : Pays s limit current? count
      ((List.range locals).forM fun r => s.noteAssign eventsOf .start r .uninit) :=
    .forM (fun r => s.pays_assign .start r .uninit) _
  have hreceiver : Pays s limit current? count (s.noteReceiver eventsOf locals) :=
    (Pays.ofRule (.known _)).bind fun _ => s.pays_assign .start locals _
  exact .ite ((s.pays_params locals _).bind fun _ => hlocals)
    (hreceiver.bind fun _ => (s.pays_params (locals + 1) _).bind fun _ => hlocals)

/-- The accounts of plain code are right in the end, however the analysis ends. -/
theorem accounted_of_all (hlines : ∀ l ∈ s.body.lines, l.instr.odexOnly = false)
    (hgraph : FlowGraph.build s.body = .ok s.graph) (isStatic : Bool) (locals : Nat)
    (passes? : Option Nat) :
    Triple (Paid s none 0) (s.noteAll eventsOf isStatic locals passes?)
      (fun _ now => Accounted s.body now.log)
      (Failed s (passBound passes? s.body.lines.length s.body.registers)) := by
  have hsuccessors : ∀ n, ∀ k ∈ s.graph.successors n, k < s.body.lines.length :=
    fun n k hk => FlowGraph.successors_lt_of_build hgraph k hk
  refine Triple.bind (s.pays_enter isStatic locals) fun _ => ?_
  refine Triple.bind (s.pays_runFrom hlines hsuccessors _ _ (.entry hsuccessors) (Nat.zero_add _))
    fun _ => ?_
  rintro now ⟨count, h⟩
  unfold Recorded.take
  cases hfinish : s.finish now.state with
  | ok u st => exact h.accounted
  | error e st => exact h.accounted.failed ((ascends_finishFrom _).error hfinish).2

end Subject

/-- At the start there are no passes to pay for. -/
theorem paid_initial (s : Subject) (m : Memo) : Paid s none 0 ⟨.initial s.body m, []⟩ where
  frame := rfl
  instrs := rfl
  accounted := .nil s.body
  total := rfl
  credit _ _ _ := Nat.zero_le _

section Method

variable (cp : ClassPath) (options : Options) (cls : ClassDef) {method : MethodDef} {b : Body}
  (m : Memo)

/-- The log of an analysis of plain code is accounted for, and the analysis stalls only if a limit
was reached. -/
theorem accounted_of_recordMethod (hbody : method.body? = some b)
    (hlines : ∀ l ∈ b.lines, l.instr.odexOnly = false) :
    Accounted b (recordMethod cp options cls method m).2 ∧
      ∀ e m', (recordMethod cp options cls method m).1 = .error e m' → e.stalled = true →
        Crowded b (passBound options.passes? b.lines.length b.registers)
          (recordMethod cp options cls method m).2 := by
  unfold recordMethod noteMethod
  cases hs : subjectOf cp options cls method with
  | error e =>
    refine ⟨.nil b, ?_⟩
    rintro _ _ ⟨⟩ hstalled
    have he := (ends_subjectOf cp options cls method).not_stalled hs
    exact absurd (he.symm.trans hstalled) Bool.false_ne_true
  | ok found =>
    obtain ⟨s, params⟩ := found
    obtain ⟨body, graph, hbody', hgraph, rfl⟩ := subjectOf_ok hs
    cases hbody.symm.trans hbody'
    have hall := Subject.accounted_of_all
      ⟨cp, options.inline?, cls, method.ref cls.ty, b, graph⟩ hlines hgraph method.isStatic
      (b.registers - params) options.passes?
    have hstart := paid_initial ⟨cp, options.inline?, cls, method.ref cls.ty, b, graph⟩ m
    simp only
    split
    · next now hresult =>
      refine ⟨hall.ok hstart hresult, ?_⟩
      rintro _ _ ⟨⟩
    · next e now hresult =>
      obtain ⟨haccounted, hcrowded⟩ := hall.error hstart hresult
      refine ⟨haccounted, ?_⟩
      rintro _ _ ⟨⟩
      exact hcrowded

/-- At every point of time in an analysis of plain code, a point was analysed at most once more than
types before it changed.  If no register changes more than `latticeHeight` times before a point, an
analysis that stalls made all passes it may, and with the usual limit it does not stall. -/
theorem passes_paid_by_changes (hbody : method.body? = some b)
    (hlines : ∀ l ∈ b.lines, l.instr.odexOnly = false) :
    (recordMethod cp options cls method m).1 = analyseMethod cp options cls method m ∧
      (∀ before, before <:+ (recordMethod cp options cls method m).2 → ∀ i,
        passesAt before i ≤ 1 + changesAt before i) ∧
      ((∀ i r, (recordMethod cp options cls method m).2.count (.changed i r) ≤ latticeHeight) →
        ∀ e m', analyseMethod cp options cls method m = .error e m' →
          (e.stalled = true → passLimit options.passes? b.lines.length b.registers ≤
            totalPasses (recordMethod cp options cls method m).2) ∧
          (options.passes? = none → e.stalled = false)) := by
  have hforget : (recordMethod cp options cls method m).1 = analyseMethod cp options cls method m :=
    forget_noteMethod eventsOf cp options cls method m
  obtain ⟨haccounted, hcrowded⟩ := accounted_of_recordMethod cp options cls m hbody hlines
  refine ⟨hforget, haccounted.paid, fun hfew e m' h => ?_⟩
  have hbound (he : e.stalled = true) :=
    haccounted.limit_le hfew (hcrowded e m' (hforget.trans h) he)
  refine ⟨fun he => (passLimit_le_passBound _ _ _).trans (hbound he), fun hpasses => ?_⟩
  refine Bool.eq_false_iff.2 fun he => Nat.not_le.2 (haccounted.totalPasses_lt_passBound hfew) ?_
  exact hpasses ▸ hbound he

end Method

/-- A method that copies a number again and again, which another one replaces after the first
time. -/
def recopying : MethodDef :=
  ⟨"m", [], .void, .ofList [.static], some (.assemble 2
    [.const .four ⟨0⟩ 0, .move .narrow .near ⟨1⟩ ⟨0⟩, .const .four ⟨0⟩ 5, .goto .eight (-2)] [])⟩

/-- The copy is analysed twice, and types before it change four times. -/
theorem recopying_paid_by_changes :
    ∃ log, (recordMethod (.ofClasses [emptyClass] 15) {} emptyClass recopying .empty).2 = log ∧
      passesAt log 1 = 2 ∧ changesAt log 1 = 4 ∧
      (∀ before, before <:+ log → ∀ i, passesAt before i ≤ 1 + changesAt before i) ∧
      ∀ e m', analyseMethod (.ofClasses [emptyClass] 15) {} emptyClass recopying .empty =
        .error e m' → e.stalled = false := by
  have hlog : ∃ log,
      (recordMethod (.ofClasses [emptyClass] 15) {} emptyClass recopying .empty).2 = log ∧
        passesAt log 1 = 2 ∧ changesAt log 1 = 4 ∧ log.length ≤ latticeHeight :=
    ⟨_, rfl, by decide +kernel⟩
  obtain ⟨log, rfl, hpasses, hchanges, hlength⟩ := hlog
  obtain ⟨_, hpaid, hstall⟩ := passes_paid_by_changes (.ofClasses [emptyClass] 15) {} emptyClass
    .empty (show recopying.body? = some _ from rfl) (by decide)
  have hfew : ∀ i r,
      (recordMethod (.ofClasses [emptyClass] 15) {} emptyClass recopying .empty).2.count
        (.changed i r) ≤ latticeHeight :=
    fun _ _ => Nat.le_trans List.count_le_length hlength
  exact ⟨_, rfl, hpasses, hchanges, hpaid,
    fun e m' h => (hstall hfew e m' h).2 rfl⟩

end Dalvik.Analysis
