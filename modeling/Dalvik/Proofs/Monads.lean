import Dalvik.Analysis.Method

/-!
# Successful computations

A question to the class path, a rule and a step of an analysis are computations with a state
that can fail.  A successful computation is made of successful parts.  The lemmas here take it
apart, so that no later proof unfolds a `do` block by hand.
-/

namespace Dalvik

/-! ## Computations with a state -/

section Computations

variable {ε σ α β : Type} {s s' : σ}

/-- A sequence succeeds if both of its parts do. -/
theorem bind_ok {x : EStateM ε σ α} {f : α → EStateM ε σ β} {b : β} :
    (x >>= f) s = .ok b s' ↔ ∃ a s₁, x s = .ok a s₁ ∧ f a s₁ = .ok b s' := by
  show EStateM.bind x f s = .ok b s' ↔ _
  unfold EStateM.bind
  cases x s with
  | error e s₁ => simp
  | ok a s₁ =>
    constructor
    · exact fun h => ⟨a, s₁, rfl, h⟩
    · rintro ⟨_, _, hx, h⟩
      cases hx
      exact h

/-- A sequence is run part by part. -/
theorem bind_apply {x : EStateM ε σ α} {f : α → EStateM ε σ β} {s : σ} :
    (x >>= f) s =
      match x s with
      | .ok a s' => f a s'
      | .error e s' => .error e s' := rfl

/-- A sequence fails if its first part does, or the rest after it. -/
theorem bind_error {x : EStateM ε σ α} {f : α → EStateM ε σ β} {e : ε} :
    (x >>= f) s = .error e s' ↔
      x s = .error e s' ∨ ∃ a s₁, x s = .ok a s₁ ∧ f a s₁ = .error e s' := by
  rw [bind_apply]
  cases x s with
  | error e₁ s₁ => simp
  | ok a s₁ =>
    constructor
    · exact fun h => .inr ⟨a, s₁, rfl, h⟩
    · rintro (h | ⟨_, _, ⟨⟩, h⟩)
      · cases h
      · exact h

theorem discard_eq {x : EStateM ε σ α} : discard x = (x >>= fun _ => pure PUnit.unit) := by
  funext s
  show EStateM.map (fun _ => PUnit.unit) x s = EStateM.bind x (fun _ => pure PUnit.unit) s
  unfold EStateM.map EStateM.bind
  cases x s <;> rfl

/-- A computation whose answer is dropped succeeds if it does. -/
theorem discard_ok {x : EStateM ε σ α} {u : PUnit} (h : discard x s = .ok u s') :
    ∃ a, x s = .ok a s' := by
  rw [discard_eq, bind_ok] at h
  obtain ⟨a, s₁, hx, h⟩ := h
  cases h
  exact ⟨a, hx⟩

@[simp] theorem pure_apply (a : α) (s : σ) : (pure a : EStateM ε σ α) s = .ok a s := rfl

@[simp] theorem get_apply (s : σ) : (get : EStateM ε σ σ) s = .ok s s := rfl

/-- What a computation gives can be tested by running it. -/
instance decidableOutcome {r : EStateM.Result ε σ α} {P : α → σ → Prop}
    [∀ a s, Decidable (P a s)] : Decidable (∃ a s, r = .ok a s ∧ P a s) :=
  match r with
  | .ok a s => decidable_of_iff (P a s)
    ⟨fun h => ⟨a, s, rfl, h⟩, fun ⟨_, _, hr, h⟩ => by cases hr; exact h⟩
  | .error _ _ => isFalse fun ⟨_, _, hr, _⟩ => by cases hr

instance decidableSucceeds {r : EStateM.Result ε σ α} : Decidable (∃ a s, r = .ok a s) :=
  match r with
  | .ok a s => isTrue ⟨a, s, rfl⟩
  | .error _ _ => isFalse fun ⟨_, _, hr⟩ => by cases hr

/-- A fold succeeds if its first step does, and the rest from there. -/
theorem foldlM_cons_ok {f : β → α → EStateM ε σ β} {a : α} {as : List α} {b b' : β} :
    (a :: as).foldlM f b s = .ok b' s' ↔
      ∃ b₁ s₁, f b a s = .ok b₁ s₁ ∧ as.foldlM f b₁ s₁ = .ok b' s' := by
  rw [List.foldlM_cons, bind_ok]

/-- What holds before a fold and is kept by its steps holds after it.  `I` may speak of the
elements that are left. -/
theorem foldlM_keeps {f : β → α → EStateM ε σ β} {I : List α → β → σ → Prop}
    (step : ∀ {a as b b' s s'}, I (a :: as) b s → f b a s = .ok b' s' → I as b' s') :
    ∀ {as : List α} {b b' : β} {s s' : σ}, I as b s → as.foldlM f b s = .ok b' s' → I [] b' s'
  | [], b, b', s, s', hI, h => by
    cases h
    exact hI
  | a :: as, b, b', s, s', hI, h => by
    obtain ⟨b₁, s₁, h₁, h₂⟩ := foldlM_cons_ok.1 h
    exact foldlM_keeps step (step hI h₁) h₂

/-- What holds before an action for each element of a list and is kept by each holds after. -/
theorem forM_keeps {f : α → EStateM ε σ PUnit} {I : σ → Prop} :
    ∀ {as : List α} {u : PUnit} {s s' : σ},
      (∀ a ∈ as, ∀ {u s s'}, I s → f a s = .ok u s' → I s') → I s → as.forM f s = .ok u s' → I s'
  | [], _, _, _, _, hI, h => by
    cases h
    exact hI
  | a :: as, _, _, _, step, hI, h => by
    rw [List.forM_eq_forM, List.forM_cons, bind_ok] at h
    obtain ⟨_, s₁, h₁, h₂⟩ := h
    exact forM_keeps (fun b hb => step b (List.mem_cons_of_mem _ hb))
      (step a List.mem_cons_self hI h₁) h₂

/-! ## Specifications -/

/-- From a state with `P`, a computation ends with `Q` if it succeeds and with `E` if it fails. -/
def Triple (P : σ → Prop) (x : EStateM ε σ α) (Q : α → σ → Prop) (E : ε → σ → Prop) : Prop :=
  ∀ s, P s →
    match x s with
    | .ok a s' => Q a s'
    | .error e s' => E e s'

/-- A computation keeps a property of the state, no matter how it ends. -/
def Keeps (I : σ → Prop) (x : EStateM ε σ α) : Prop :=
  Triple I x (fun _ s => I s) (fun _ s => I s)

/-- A computation keeps a property of the state, and an answer it finds has a property too. -/
def Finds (I : σ → Prop) (Q : α → σ → Prop) (x : EStateM ε σ α) : Prop :=
  Triple I x (fun a s => I s ∧ Q a s) (fun _ s => I s)

namespace Triple

variable {P P' : σ → Prop} {Q Q' : α → σ → Prop} {E E' : ε → σ → Prop} {x : EStateM ε σ α}

/-- What holds before a step that succeeds gives what holds after it. -/
theorem ok (h : Triple P x Q E) (hs : P s) {a : α} (hx : x s = .ok a s') : Q a s' := by
  have := h s hs
  rwa [hx] at this

/-- What holds before a step that fails gives what holds of the failure. -/
theorem error (h : Triple P x Q E) (hs : P s) {e : ε} (hx : x s = .error e s') : E e s' := by
  have := h s hs
  rwa [hx] at this

/-- Less may be known before a step, and more forgotten after it. -/
theorem mono (h : Triple P x Q E) (hP : ∀ s, P' s → P s) (hQ : ∀ a s, Q a s → Q' a s)
    (hE : ∀ e s, E e s → E' e s) : Triple P' x Q' E' := by
  intro s hs
  have := h s (hP s hs)
  cases hx : x s with
  | ok a s' =>
    rw [hx] at this
    exact hQ a s' this
  | error e s' =>
    rw [hx] at this
    exact hE e s' this

theorem pure {a : α} (h : ∀ s, P s → Q a s) : Triple P (Pure.pure a) Q E := h

theorem bind {R : α → σ → Prop} {Q : β → σ → Prop} {f : α → EStateM ε σ β}
    (hx : Triple P x R E) (hf : ∀ a, Triple (R a) (f a) Q E) : Triple P (x >>= f) Q E := by
  intro s hs
  show match EStateM.bind x f s with
    | .ok a s' => Q a s'
    | .error e s' => E e s'
  unfold EStateM.bind
  have := hx s hs
  cases hxs : x s with
  | ok a s' =>
    rw [hxs] at this
    exact hf a s' this
  | error e s' =>
    rw [hxs] at this
    exact this

end Triple

namespace Finds

variable {I : σ → Prop} {Q Q' : α → σ → Prop} {x : EStateM ε σ α}

theorem pure {a : α} (h : ∀ s, I s → Q a s) : Finds I Q (Pure.pure a : EStateM ε σ α) :=
  fun s hs => ⟨hs, h s hs⟩

theorem throw (e : ε) : Finds I Q (MonadExcept.throw e : EStateM ε σ α) := fun _ hs => hs

theorem bind {R : β → σ → Prop} {f : α → EStateM ε σ β} (hx : Finds I Q x)
    (hf : ∀ a, (∃ s, I s ∧ Q a s) → Finds I R (f a)) : Finds I R (x >>= f) :=
  Triple.bind hx fun a s hs => hf a ⟨s, hs⟩ s hs.1

theorem mono (h : Finds I Q x) (hQ : ∀ a s, I s → Q a s → Q' a s) : Finds I Q' x :=
  Triple.mono h (fun _ hs => hs) (fun a s hs => ⟨hs.1, hQ a s hs.1 hs.2⟩) fun _ _ hs => hs

theorem keeps (h : Finds I Q x) : Keeps I x :=
  Triple.mono h (fun _ hs => hs) (fun _ _ hs => hs.1) fun _ _ hs => hs

end Finds

namespace Keeps

variable {I : σ → Prop} {x : EStateM ε σ α}

/-- A property that a step keeps is one it finds with any result. -/
theorem finds (h : Keeps I x) : Finds I (fun _ _ => True) x :=
  Triple.mono h (fun _ hs => hs) (fun _ _ hs => ⟨hs, trivial⟩) fun _ _ hs => hs

theorem pure (a : α) : Keeps I (Pure.pure a : EStateM ε σ α) := fun _ hs => hs

theorem throw (e : ε) : Keeps I (MonadExcept.throw e : EStateM ε σ α) := fun _ hs => hs

theorem bind {f : α → EStateM ε σ β} (hx : Keeps I x) (hf : ∀ a, Keeps I (f a)) :
    Keeps I (x >>= f) :=
  Triple.bind hx hf

theorem and {J : σ → Prop} (hI : Keeps I x) (hJ : Keeps J x) : Keeps (fun s => I s ∧ J s) x := by
  intro s hs
  have hIs := hI s hs.1
  have hJs := hJ s hs.2
  cases hx : x s with
  | ok a s' =>
    rw [hx] at hIs hJs
    exact ⟨hIs, hJs⟩
  | error e s' =>
    rw [hx] at hIs hJs
    exact ⟨hIs, hJs⟩

theorem discard (hx : Keeps I x) : Keeps I (discard x) := by
  rw [discard_eq]
  exact hx.bind fun _ => pure _

theorem foldlM {f : β → α → EStateM ε σ β} (hf : ∀ b a, Keeps I (f b a)) :
    ∀ (as : List α) (b : β), Keeps I (as.foldlM f b)
  | [], b => pure b
  | a :: as, b => by
    rw [List.foldlM_cons]
    exact (hf b a).bind fun b' => foldlM hf as b'

theorem forM {f : α → EStateM ε σ PUnit} (hf : ∀ a, Keeps I (f a)) :
    ∀ as : List α, Keeps I (as.forM f)
  | [] => pure ()
  | a :: as => by
    rw [List.forM_eq_forM, List.forM_cons]
    exact (hf a).bind fun _ => forM hf as

end Keeps

end Computations

/-! ## Results without a state -/

/-- A sequence succeeds if both of its parts do. -/
theorem except_bind_ok {ε α β : Type} {x : Except ε α} {f : α → Except ε β} {b : β} :
    (x >>= f) = .ok b ↔ ∃ a, x = .ok a ∧ f a = .ok b := by
  cases x with
  | error e => simp [bind, Except.bind]
  | ok a => simp [bind, Except.bind]

/-- A sequence fails if its first part does, or the rest after it. -/
theorem except_bind_error {ε α β : Type} {x : Except ε α} {f : α → Except ε β} {e : ε} :
    (x >>= f) = .error e ↔ x = .error e ∨ ∃ a, x = .ok a ∧ f a = .error e := by
  cases x with
  | error e => simp [bind, Except.bind]
  | ok a => simp [bind, Except.bind]

/-- A mapped result is a success if the result is. -/
theorem except_map_ok {ε α β : Type} {x : Except ε α} {f : α → β} {b : β} :
    x.map f = .ok b ↔ ∃ a, x = .ok a ∧ f a = b := by
  cases x with
  | error e => simp [Except.map]
  | ok a => simp [Except.map]

/-- A mapped result is a failure if the result is. -/
theorem except_map_error {ε α β : Type} {x : Except ε α} {f : α → β} {e : ε} :
    x.map f = .error e ↔ x = .error e := by
  cases x with
  | error e => simp [Except.map]
  | ok a => simp [Except.map]

/-- A list of results that all succeed is as long as the list they come from. -/
theorem length_of_mapM_ok {ε α β : Type} {f : α → Except ε β} :
    ∀ {as : List α} {bs : List β}, as.mapM f = .ok bs → bs.length = as.length
  | [], _, h => by
    cases h
    rfl
  | a :: as, _, h => by
    rw [List.mapM_cons] at h
    obtain ⟨b, _, h⟩ := except_bind_ok.1 h
    obtain ⟨bs, hbs, h⟩ := except_bind_ok.1 h
    cases h
    exact congrArg (· + 1) (length_of_mapM_ok hbs)

/-- Each element has its result in a list of results that all succeed. -/
theorem getElem?_of_mapM_ok {ε α β : Type} {f : α → Except ε β} :
    ∀ {as : List α} {bs : List β} {i : Nat} {a : α}, as.mapM f = .ok bs → as[i]? = some a →
      ∃ b, bs[i]? = some b ∧ f a = .ok b
  | [], _, _, _, _, hi => by cases hi
  | a :: as, _, i, _, h, hi => by
    rw [List.mapM_cons] at h
    obtain ⟨b, hb, h⟩ := except_bind_ok.1 h
    obtain ⟨bs, hbs, h⟩ := except_bind_ok.1 h
    cases h
    cases i with
    | zero =>
      cases hi
      exact ⟨b, rfl, hb⟩
    | succ i =>
      rw [List.getElem?_cons_succ] at hi ⊢
      exact getElem?_of_mapM_ok hbs hi

/-- Lists with the same results one by one have the same result as a whole. -/
theorem mapM_eq_of_map_eq {ε α β γ : Type} {f : α → Except ε γ} {g : β → Except ε γ} {as : List α}
    {bs : List β} (h : as.map f = bs.map g) : as.mapM f = bs.mapM g := by
  induction as generalizing bs with
  | nil =>
    cases bs with
    | nil => rfl
    | cons b bs => cases h
  | cons a as ih =>
    cases bs with
    | nil => cases h
    | cons b bs =>
      obtain ⟨hhead, htail⟩ := List.cons.inj h
      rw [List.mapM_cons, List.mapM_cons, hhead, ih htail]

theorem ok_of_toOption {ε α : Type} {x : Except ε α} {a : α} (h : x.toOption = some a) :
    x = .ok a := by
  cases x with
  | error e => cases h
  | ok a' => exact congrArg Except.ok (Option.some.inj h)

/-- If all of a list succeeds, each element does. -/
theorem exists_ok_of_mapM_ok {ε α β : Type} {f : α → Except ε β} {as : List α} {bs : List β}
    (h : as.mapM f = .ok bs) {a : α} (ha : a ∈ as) : ∃ b, f a = .ok b := by
  obtain ⟨i, hi⟩ := List.mem_iff_getElem?.1 ha
  obtain ⟨b, _, hf⟩ := getElem?_of_mapM_ok h hi
  exact ⟨b, hf⟩

/-- The members of a list of results that all succeed. -/
theorem mem_of_mapM_ok {ε α β : Type} {f : α → Except ε β} {as : List α} {bs : List β}
    (h : as.mapM f = .ok bs) {b : β} : b ∈ bs ↔ ∃ a ∈ as, f a = .ok b := by
  constructor
  · intro hb
    obtain ⟨i, hi⟩ := List.mem_iff_getElem?.1 hb
    obtain ⟨hlt, _⟩ := List.getElem?_eq_some_iff.1 hi
    rw [length_of_mapM_ok h] at hlt
    obtain ⟨b', hb', hf⟩ := getElem?_of_mapM_ok h (List.getElem?_eq_getElem hlt)
    cases hi.symm.trans hb'
    exact ⟨as[i], List.getElem_mem hlt, hf⟩
  · rintro ⟨a, ha, hf⟩
    obtain ⟨i, hi⟩ := List.mem_iff_getElem?.1 ha
    obtain ⟨b', hb', hf'⟩ := getElem?_of_mapM_ok h hi
    cases hf.symm.trans hf'
    exact List.mem_of_getElem? hb'

/-- A check of all elements succeeds if each of them passes. -/
theorem except_forM_ok {ε α : Type} {f : α → Except ε Unit} :
    ∀ {as : List α}, as.forM f = .ok () ↔ ∀ a ∈ as, f a = .ok ()
  | [] => by simp [pure, Except.pure]
  | a :: as => by
    rw [List.forM_eq_forM, List.forM_cons, except_bind_ok, List.forall_mem_cons,
      ← List.forM_eq_forM]
    simp only [except_forM_ok]
    exact ⟨fun ⟨_, h⟩ => h, fun h => ⟨_, h⟩⟩

variable {α : Type}

/-- A question that needs no memory leaves it alone. -/
theorem Asking.lift_ok {r : Except HierarchyError α} {a : α} {m m' : Memo} :
    Asking.lift r m = .ok a m' ↔ r = .ok a ∧ m' = m := by
  cases r with
  | error e => simp [Asking.lift]
  | ok b => simp [Asking.lift, eq_comm]

/-- An attempt is answered by the answer or by the failure. -/
theorem Asking.attempt_ok {q : Query α} {r : Except HierarchyError α} {m m' : Memo}
    (h : q.attempt m = .ok r m') :
    (∃ a, r = .ok a ∧ q m = .ok a m') ∨ ∃ e, r = .error e ∧ q m = .error e m' := by
  unfold Asking.attempt at h
  cases hq : q m with
  | ok a m₁ =>
    rw [hq] at h
    cases h
    exact .inl ⟨a, rfl, rfl⟩
  | error e m₁ =>
    rw [hq] at h
    cases h
    exact .inr ⟨e, rfl, rfl⟩

namespace Analysis

/-- A rule that asks succeeds if the question does. -/
theorem Rule.ask_ok {q : Query α} {a : α} {m m' : Memo} :
    Rule.ask q m = .ok a m' ↔ q m = .ok a m' := by
  unfold Rule.ask
  cases q m with
  | ok b m₁ => simp
  | error e m₁ => simp

/-- A rule that asks fails with the failure of the question. -/
theorem Rule.ask_error {q : Query α} {e : AnalysisError} {m m' : Memo}
    (h : Rule.ask q m = .error e m') : ∃ e', e = .hierarchy e' ∧ q m = .error e' m' := by
  unfold Rule.ask at h
  cases hq : q m with
  | ok a m₁ =>
    rw [hq] at h
    cases h
  | error e' m₁ =>
    rw [hq] at h
    cases h
    exact ⟨e', rfl, rfl⟩

/-- A known answer leaves the memory alone. -/
theorem Rule.known_ok {r : Except HierarchyError α} {a : α} {m m' : Memo} :
    Rule.known r m = .ok a m' ↔ r = .ok a ∧ m' = m := by
  rw [Rule.known, Rule.ask_ok, Asking.lift_ok]

/-- A result that needs no class path leaves the memory alone. -/
theorem Rule.lift_ok {r : Except AnalysisError α} {a : α} {m m' : Memo} :
    Rule.lift r m = .ok a m' ↔ r = .ok a ∧ m' = m := by
  cases r with
  | error e => simp [Rule.lift]
  | ok b => simp [Rule.lift, eq_comm]

/-- A step that follows a rule changes the memory only. -/
theorem Step.ofRule_ok {r : Rule α} {a : α} {st st' : State} :
    Step.ofRule r st = .ok a st' ↔ ∃ m, r st.memo = .ok a m ∧ st' = { st with memo := m } := by
  unfold Step.ofRule
  cases r st.memo with
  | error e m => simp
  | ok b m =>
    constructor
    · intro h
      cases h
      exact ⟨m, rfl, rfl⟩
    · rintro ⟨_, hr, rfl⟩
      cases hr
      rfl

/-- A step that follows a rule which fails changes the memory only. -/
theorem Step.ofRule_error {r : Rule α} {e : AnalysisError} {st st' : State}
    (h : Step.ofRule r st = .error e st') :
    ∃ m, r st.memo = .error e m ∧ st' = { st with memo := m } := by
  unfold Step.ofRule at h
  cases hr : r st.memo with
  | ok a m =>
    rw [hr] at h
    cases h
  | error e₁ m =>
    rw [hr] at h
    cases h
    exact ⟨m, rfl, rfl⟩

end Analysis

/-! ## Questions, rules and steps that keep a property of the memory -/

namespace Finds

variable {I : Memo → Prop} {Q : α → Memo → Prop} {q : Query α}

theorem lift (r : Except HierarchyError α) : Finds I (fun a _ => r = .ok a) (Asking.lift r) := by
  intro m hm
  cases r with
  | ok a => exact ⟨hm, rfl⟩
  | error e => exact hm

theorem attempt (hq : Finds I Q q) : Finds I (fun r m => ∀ a, r = .ok a → Q a m) q.attempt := by
  intro m hm
  have := hq m hm
  unfold Asking.attempt
  cases hqm : q m with
  | ok a m' =>
    rw [hqm] at this
    refine ⟨this.1, fun a' ha => ?_⟩
    cases ha
    exact this.2
  | error e m' =>
    rw [hqm] at this
    refine ⟨this, fun a' ha => ?_⟩
    cases ha

end Finds

namespace Keeps

variable {I : Memo → Prop} {q : Query α}

theorem lift (r : Except HierarchyError α) : Keeps I (Asking.lift r) := by
  intro m hm
  cases r <;> exact hm

theorem attempt (hq : Keeps I q) : Keeps I q.attempt := by
  intro m hm
  have := hq m hm
  unfold Asking.attempt
  cases hqm : q m with
  | ok a m' => rwa [hqm] at this
  | error e m' => rwa [hqm] at this

theorem ask (hq : Keeps I q) : Keeps I (Analysis.Rule.ask q) := by
  intro m hm
  have := hq m hm
  unfold Analysis.Rule.ask
  cases hqm : q m with
  | ok a m' => rwa [hqm] at this
  | error e m' => rwa [hqm] at this

end Keeps

end Dalvik
