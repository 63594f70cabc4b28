import Dalvik.Proofs.Monads

/-!
# How answers are found

The interfaces, the vtable and the layout of a class are found in the same way: the answer is
recalled if it is known, else it is put together from the answers for the classes above, and
remembered.  `recalled` is that way, and the three questions are cases of it
(`interfacesFrom_eq`, `vtableFrom_eq`, `layoutFrom_eq`).

Each question has a rule for what it finds.  A property of the memory may speak of the classes
whose answers are being put together.
-/

namespace Dalvik.ClassPath

/-- Answers from memory, or asks and remembers the answer. -/
def recalled {α : Type} (known? : Memo → Option α) (add : α → Memo → Memo) (q : Query α) :
    Query α := fun m =>
  match known? m with
  | some known => .ok known m
  | none =>
    match q m with
    | .ok found m => .ok found (add found m)
    | .error e m => .error e m

/-- An answer that is remembered is given again. -/
theorem recalled_of_known {α : Type} {known? : Memo → Option α} {add : α → Memo → Memo}
    {q : Query α} {a : α} {m : Memo} (h : known? m = some a) :
    recalled known? add q m = .ok a m := by
  unfold recalled
  rw [h]

/-- An answer is known once it was given. -/
theorem known_of_recalled {α : Type} {known? : Memo → Option α} {add : α → Memo → Memo}
    {q : Query α} {a : α} {m m' : Memo} (hadd : ∀ found m, known? (add found m) = some found)
    (h : recalled known? add q m = .ok a m') : known? m' = some a := by
  unfold recalled at h
  cases hk : known? m with
  | some known =>
    simp only [hk] at h
    cases h
    exact hk
  | none =>
    simp only [hk] at h
    cases hq : q m with
    | ok found m₁ =>
      rw [hq] at h
      cases h
      exact hadd _ _
    | error e m₁ =>
      rw [hq] at h
      cases h

/-- What is known of remembered answers and of new ones is known of all.  A new answer is found with
the property `J` in place of `I`, which the open question may weaken. -/
theorem finds_recalled {α : Type} {known? : Memo → Option α} {add : α → Memo → Memo} {q : Query α}
    {I J : Memo → Prop} {Q R : α → Memo → Prop}
    (hknown : ∀ {m known}, I m → known? m = some known → Q known m)
    (henter : ∀ {m}, I m → known? m = none → J m) (hq : Finds J R q) (hleave : ∀ {m}, J m → I m)
    (hadd : ∀ {found m}, J m → R found m → I (add found m) ∧ Q found (add found m)) :
    Finds I Q (recalled known? add q) := by
  intro m hm
  unfold recalled
  cases hk : known? m with
  | some known => exact ⟨hm, hknown hm hk⟩
  | none =>
    have := hq m (henter hm hk)
    cases hqm : q m with
    | ok found m' =>
      rw [hqm] at this
      exact hadd this.1 this.2
    | error e m' =>
      rw [hqm] at this
      exact hleave this

/-- Where a new question fails, all answers are remembered ones. -/
theorem finds_recalled_throw {α : Type} {known? : Memo → Option α} {add : α → Memo → Memo}
    {e : HierarchyError} {I : Memo → Prop} {Q : α → Memo → Prop}
    (hknown : ∀ {m known}, I m → known? m = some known → Q known m) :
    Finds I Q (recalled known? add (throw e)) :=
  finds_recalled (R := fun _ _ => False) hknown (fun hm _ => hm) (.throw e) (fun hm => hm)
    fun _ h => h.elim

/-! ## The three questions -/

/-- The search for interfaces, with the memory taken out of the recursion. -/
theorem interfacesFrom_eq (cp : ClassPath) (open_ : List String) (d : String) :
    cp.interfacesFrom open_ d =
      recalled (·.interfaces.lookup d) (fun i m => m.addInterfaces d i)
        (if d ∈ open_ then throw (.cycle d)
        else
          match cp.def? d with
          | none => throw (.unresolvedClass d)
          | some c => cp.collectInterfaces (cp.interfacesFrom (d :: open_)) d c) := by
  funext m
  rw [interfacesFrom, recalled]
  cases m.interfaces.lookup d with
  | some known => rfl
  | none =>
    by_cases hopen : d ∈ open_
    · simp only [hopen, dite_true, if_true]
      rfl
    · simp only [hopen, dite_false, if_false]
      split
      · next hdef => rw [hdef]; rfl
      · next c hdef =>
        rw [hdef]
        simp only
        cases cp.collectInterfaces (fun name => cp.interfacesFrom (d :: open_) name) d c m <;> rfl

/-- The search for a vtable, with the memory taken out of the recursion. -/
theorem vtableFrom_eq (cp : ClassPath) (open_ : List String) (d : String) :
    cp.vtableFrom open_ d =
      recalled (·.vtables.lookup d) (fun v m => m.addVtable d v)
        (if d ∈ open_ then throw (.cycle d)
        else
          match cp.def? d with
          | some c => cp.collectVtable cp.interfacesOf (cp.vtableFrom (d :: open_)) d c
          | none =>
            if d = objectClass then throw (.cycle d)
            else do
              let above ← cp.vtableFrom (d :: open_) objectClass
              pure ⟨above.slots, false⟩) := by
  funext m
  rw [vtableFrom, recalled]
  cases m.vtables.lookup d with
  | some known => rfl
  | none =>
    by_cases hopen : d ∈ open_
    · simp only [hopen, dite_true, if_true]
      rfl
    · simp only [hopen, dite_false, if_false]
      cases hdef : cp.def? d with
      | some c =>
        simp only
        cases cp.collectVtable cp.interfacesOf (fun name => cp.vtableFrom (d :: open_) name)
            d c m <;>
          rfl
      | none =>
        by_cases hroot : d = objectClass
        · simp only [hroot, dite_true, if_true]
          rfl
        · simp only [hroot, dite_false, if_false]
          rw [bind_apply]
          cases cp.vtableFrom (d :: open_) objectClass m <;> rfl

/-- The search for a layout, with the memory taken out of the recursion. -/
theorem layoutFrom_eq (cp : ClassPath) (open_ : List String) (d : String) :
    cp.layoutFrom open_ d =
      recalled (·.layouts.lookup d) (fun l m => m.addLayout d l)
        (if d ∈ open_ then throw (.cycle d)
        else
          match cp.def? d with
          | none => throw (.unresolvedClass d)
          | some c => collectLayout (cp.layoutFrom (d :: open_)) c) := by
  funext m
  rw [layoutFrom, recalled]
  cases m.layouts.lookup d with
  | some known => rfl
  | none =>
    by_cases hopen : d ∈ open_
    · simp only [hopen, dite_true, if_true]
      rfl
    · simp only [hopen, dite_false, if_false]
      split
      · next hdef => rw [hdef]; rfl
      · next c hdef =>
        rw [hdef]
        simp only
        cases collectLayout (fun name => cp.layoutFrom (d :: open_) name) c m <;> rfl

/-! ## What they find -/

section Finds

variable {cp : ClassPath} {I : List String → Memo → Prop}

/-- Induction over the search for interfaces.  `I` may speak of the questions that are open, `Q` is
what is found of an answer and `R` of one that is not remembered yet. -/
theorem finds_interfacesFrom {Q R : String → Interfaces → Memo → Prop}
    (known : ∀ {open_ d i m}, I open_ m → m.interfaces.lookup d = some i → Q d i m)
    (enter : ∀ {open_ d m}, I open_ m → m.interfaces.lookup d = none → I (d :: open_) m)
    (leave : ∀ {open_ d m}, I (d :: open_) m → I open_ m)
    (collect : ∀ {open_ d c inherited}, cp.def? d = some c →
      (∀ name, Finds (I open_) (Q name) (inherited name)) →
      Finds (I open_) (R d) (cp.collectInterfaces inherited d c))
    (add : ∀ {open_ d i m}, d ∉ open_ → I (d :: open_) m → R d i m →
      I open_ (m.addInterfaces d i) ∧ Q d i (m.addInterfaces d i))
    (open_ : List String) (d : String) : Finds (I open_) (Q d) (cp.interfacesFrom open_ d) := by
  rw [interfacesFrom_eq]
  by_cases hopen : d ∈ open_
  · rw [if_pos hopen]
    exact finds_recalled_throw known
  · rw [if_neg hopen]
    refine finds_recalled known enter ?_ leave (add hopen)
    split
    · exact .throw _
    · next c hdef =>
      exact collect hdef fun name =>
        finds_interfacesFrom known enter leave collect add (d :: open_) name
termination_by cp.unmet open_
decreasing_by exact unmet_cons_lt ‹_› ‹_›

/-- Induction over the search for a layout, as for interfaces. -/
theorem finds_layoutFrom {Q R : String → Layout → Memo → Prop}
    (known : ∀ {open_ d l m}, I open_ m → m.layouts.lookup d = some l → Q d l m)
    (enter : ∀ {open_ d m}, I open_ m → m.layouts.lookup d = none → I (d :: open_) m)
    (leave : ∀ {open_ d m}, I (d :: open_) m → I open_ m)
    (collect : ∀ {open_ d c inherited}, cp.def? d = some c →
      (∀ name, Finds (I open_) (Q name) (inherited name)) →
      Finds (I open_) (R d) (collectLayout inherited c))
    (add : ∀ {open_ d l m}, d ∉ open_ → I (d :: open_) m → R d l m →
      I open_ (m.addLayout d l) ∧ Q d l (m.addLayout d l))
    (open_ : List String) (d : String) : Finds (I open_) (Q d) (cp.layoutFrom open_ d) := by
  rw [layoutFrom_eq]
  by_cases hopen : d ∈ open_
  · rw [if_pos hopen]
    exact finds_recalled_throw known
  · rw [if_neg hopen]
    refine finds_recalled known enter ?_ leave (add hopen)
    split
    · exact .throw _
    · next c hdef =>
      exact collect hdef fun name =>
        finds_layoutFrom known enter leave collect add (d :: open_) name
termination_by cp.unmet open_
decreasing_by exact unmet_cons_lt ‹_› ‹_›

/-- Induction over the search for a vtable, as for interfaces. -/
theorem finds_vtableFrom {Q R : String → Vtable → Memo → Prop}
    (known : ∀ {open_ d v m}, I open_ m → m.vtables.lookup d = some v → Q d v m)
    (enter : ∀ {open_ d m}, I open_ m → m.vtables.lookup d = none → I (d :: open_) m)
    (leave : ∀ {open_ d m}, I (d :: open_) m → I open_ m)
    (collect : ∀ {open_ d c inherited}, cp.def? d = some c →
      (∀ name, Finds (I open_) (Q name) (inherited name)) →
      Finds (I open_) (R d) (cp.collectVtable cp.interfacesOf inherited d c))
    (missing : ∀ {open_ d above m}, cp.def? d = none → I open_ m → Q objectClass above m →
      R d ⟨above.slots, false⟩ m)
    (add : ∀ {open_ d v m}, d ∉ open_ → I (d :: open_) m → R d v m →
      I open_ (m.addVtable d v) ∧ Q d v (m.addVtable d v))
    (open_ : List String) (d : String) : Finds (I open_) (Q d) (cp.vtableFrom open_ d) := by
  rw [vtableFrom_eq]
  by_cases hopen : d ∈ open_
  · rw [if_pos hopen]
    exact finds_recalled_throw known
  · rw [if_neg hopen]
    refine finds_recalled known enter ?_ leave (add hopen)
    split
    · next c hdef =>
      exact collect hdef fun name =>
        finds_vtableFrom known enter leave collect missing add (d :: open_) name
    · next hdef =>
      split
      · exact .throw _
      · next hroot =>
        refine Triple.bind
          (finds_vtableFrom known enter leave collect missing add (d :: open_) objectClass)
          fun above m hm => ?_
        exact ⟨hm.1, missing hdef hm.1 hm.2⟩
termination_by 2 * cp.unmet open_ + cp.gap d
decreasing_by
  · have : cp.unmet (d :: open_) < cp.unmet open_ := unmet_cons_lt ‹_› ‹_›
    have := cp.gap_le name
    omega
  · have := cp.unmet_cons_le d open_
    have : cp.gap d = 1 := by simp [gap, *]
    have : cp.gap objectClass = 0 := by simp [gap]
    omega

end Finds

end Dalvik.ClassPath
