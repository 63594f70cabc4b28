import Dalvik.Proofs.Memory
import Dalvik.Proofs.Superclasses

/-!
# The order of types

`ClassPath.Below` orders type nodes by the declared hierarchy.  The root class and the unknown
class are above everything, also where definitions are missing.  Arrays are compared element by
element.  A class may be declared below an array or below a primitive type.  Then the array over
the class is below the array over that type, which can have more dimensions.  The flag `deep`
tells whether this is part of the order.

`RegType.Below` orders register types.  Both orders are the least reflexive and transitive ones
with their rules.

Every join is an upper bound in the deep order (`RegType.below_of_join`).  The joins of two
classes rely on the interfaces that are remembered, which are above the classes they are
remembered for (`ClassPath.Implements`).
-/

namespace Dalvik

/-! ## Orders -/

/-- What the element of an array can be without giving the array more dimensions. -/
def TypeNode.IsElement (n : TypeNode) : Prop :=
  n.dims = 0 ∧ ClassPath.isPrimitiveElement n.descriptor = false

/-- A node is below another. -/
inductive ClassPath.Below (cp : ClassPath) (deep : Bool) : TypeNode → TypeNode → Prop where
  | refl (n : TypeNode) : Below cp deep n n
  | trans {a b c : TypeNode} (hab : Below cp deep a b) (hbc : Below cp deep b c) :
    Below cp deep a c
  | superclass {d : String} {c : ClassDef} {s : Ty} {n : TypeNode} (hd : cp.def? d = some c)
    (hs : c.superclass? = some s) (hn : TypeNode.ofTy s = .ok n) : Below cp deep (.cls d) n
  | interface {d : String} {c : ClassDef} {t : Ty} {n : TypeNode} (hd : cp.def? d = some c)
    (ht : t ∈ c.interfaces) (hn : TypeNode.ofTy t = .ok n) : Below cp deep (.cls d) n
  | object (n : TypeNode) : Below cp deep n (.cls objectClass)
  | unknown (n : TypeNode) : Below cp deep n .unknown
  | element {dims : Nat} {elem : String} {n n' : TypeNode}
    (helem : isPrimitiveElement elem = false) (hn : TypeNode.ofDescriptor elem = .ok n)
    (hn' : deep = true ∨ n'.IsElement) (h : Below cp deep n n') :
    Below cp deep (.array dims elem) (.arrayOf dims n')
  | objects {dims dims' : Nat} {elem : String} (helem : isPrimitiveElement elem = false)
    (hdims : dims' ≤ dims) : Below cp deep (.array dims elem) (.array dims' objectClass)
  | cloneable (dims : Nat) (elem : String) :
    Below cp deep (.array dims elem) (.cls cloneableClass)
  | serializable (dims : Nat) (elem : String) :
    Below cp deep (.array dims elem) (.cls serializableClass)

/-- A register type is below another. -/
inductive RegType.Below (cp : ClassPath) (deep : Bool) : RegType → RegType → Prop where
  | refl (t : RegType) : Below cp deep t t
  | trans {a b c : RegType} (hab : Below cp deep a b) (hbc : Below cp deep b c) :
    Below cp deep a c
  | unknown (t : RegType) : Below cp deep .unknown t
  | conflicted (t : RegType) : Below cp deep t .conflicted
  | category {a b : RegType} (ha : a.node? = none) (hb : b.node? = none)
    (h : a.category.join b.category = b.category) : Below cp deep a b
  | null (n : TypeNode) : Below cp deep (.narrow .null) (.reference n)
  | reference {n n' : TypeNode} (h : cp.Below deep n n') :
    Below cp deep (.reference n) (.reference n')

/-- In the order that is not deep, only declarations lead to more dimensions. -/
theorem ClassPath.Below.dims_le {cp : ClassPath} {a b : TypeNode} {k : Nat}
    (hsuper : ∀ {d c s n}, cp.def? d = some c → c.superclass? = some s →
      TypeNode.ofTy s = .ok n → n.dims ≤ k)
    (hinterface : ∀ {d c t n}, cp.def? d = some c → t ∈ c.interfaces →
      TypeNode.ofTy t = .ok n → n.dims ≤ k)
    (h : cp.Below false a b) (ha : a.dims ≤ k) : b.dims ≤ k := by
  induction h with
  | refl => exact ha
  | trans _ _ ihab ihbc => exact ihbc (ihab ha)
  | superclass hd hs hn => exact hsuper hd hs hn
  | interface hd ht hn => exact hinterface hd ht hn
  | @element dims elem n n' _ _ hn' =>
    obtain hdeep | ⟨hdims, _⟩ := hn'
    · cases hdeep
    · cases n' with
      | array dims' _ =>
        obtain rfl : dims' = 0 := hdims
        exact ha
      | _ => exact ha
  | objects _ hdims => exact Nat.le_trans hdims ha
  | object | unknown | cloneable | serializable => exact Nat.zero_le k

/-- In the order that is not deep, a reference is below references of no more dimensions. -/
theorem RegType.Below.dims_le {cp : ClassPath} {t u : RegType} {k : Nat}
    (hnodes : ∀ {a b : TypeNode}, cp.Below false a b → a.dims ≤ k → b.dims ≤ k)
    (h : RegType.Below cp false t u)
    (ht : t = .conflicted ∨ ∃ n, t = .reference n ∧ n.dims ≤ k) :
    u = .conflicted ∨ ∃ n, u = .reference n ∧ n.dims ≤ k := by
  induction h with
  | refl => exact ht
  | trans _ _ ihab ihbc => exact ihbc (ihab ht)
  | conflicted => exact .inl rfl
  | reference hbelow =>
    obtain ht | ⟨n, ht, hdims⟩ := ht
    · cases ht
    · cases ht
      exact .inr ⟨_, rfl, hnodes hbelow hdims⟩
  | unknown => simp at ht
  | null => simp at ht
  | @category a b ha hb hjoin =>
    obtain rfl | ⟨n, rfl, _⟩ := ht
    · left
      cases b with
      | conflicted => rfl
      | uninitRef | uninitThis | reference => cases hb
      | _ => cases hjoin
    · cases ha

namespace ClassPath

variable {cp : ClassPath} {deep : Bool} {a b d : String} {n n' : TypeNode}

/-! ## Superclass chains -/

/-- A node is below its parent. -/
theorem below_parent? (h : cp.parent? n = .ok (some n')) : cp.Below deep n n' ∧ n'.Named := by
  cases parent?_eq_some_iff.1 h with
  | declared hd hs hk => exact ⟨.superclass hd hs hk, TypeNode.named_of_ofDescriptor hk⟩
  | missing hd => exact ⟨.unknown _, rfl⟩
  | array => exact ⟨.object _, TypeNode.named_object⟩

theorem named_of_parent? (h : cp.parent? n = .ok (some n')) : n'.Named := by
  have hbelow : cp.Below true n n' ∧ n'.Named := below_parent? h
  exact hbelow.2

/-- A walk up only meets nodes above the one it starts from. -/
theorem below_walkUp {origin : String} {met : List String} {chain : List TypeNode}
    (h : cp.walkUp origin met n = .ok chain) (hn : n.Named) :
    ∀ k ∈ chain, cp.Below deep n k ∧ k.Named := by
  fun_induction walkUp cp origin met n generalizing chain with
  | case1 => cases h
  | case2 => cases h
  | case3 met n hmet hparent =>
    cases h
    intro k hk
    rw [List.mem_singleton.1 hk]
    exact ⟨.refl n, hn⟩
  | case4 => cases h
  | case5 met n hmet parent hparent chain' hchain ih =>
    cases h
    intro k hk
    obtain ⟨hbelow, hnamed⟩ : cp.Below deep n parent ∧ parent.Named := below_parent? hparent
    rcases List.mem_cons.1 hk with rfl | hk
    · exact ⟨.refl k, hn⟩
    · obtain ⟨hk, hknamed⟩ := ih hchain hnamed k hk
      exact ⟨.trans hbelow hk, hknamed⟩

/-- All of a superclass chain is above the node it starts from. -/
theorem below_chainDown {down : List TypeNode} (h : cp.chainDown n = .ok (some down))
    (hn : n.Named) : ∀ k ∈ down, cp.Below deep n k ∧ k.Named := by
  unfold chainDown at h
  split at h
  · next above habove =>
    cases h
    obtain ⟨chain, hchain, htail⟩ := except_map_ok.1 habove
    intro k hk
    rcases List.mem_cons.1 (List.mem_reverse.1 hk) with rfl | hk
    · exact ⟨.refl k, hn⟩
    · exact below_walkUp hchain hn k (List.mem_of_mem_tail (htail ▸ hk))
  · cases h
  · cases h

/-- What two chains have in common last is on both. -/
theorem mem_of_lastCommon? {as bs : List TypeNode} (h : lastCommon? as bs = some n) :
    n ∈ as ∧ n ∈ bs := by
  induction as generalizing bs n with
  | nil => cases h
  | cons a as ih =>
    cases bs with
    | nil => cases h
    | cons b bs =>
      unfold lastCommon? at h
      split at h
      · next hab =>
        subst hab
        cases hrest : lastCommon? as bs with
        | none =>
          rw [hrest] at h
          cases h
          exact ⟨List.mem_cons_self, List.mem_cons_self⟩
        | some k =>
          rw [hrest] at h
          cases h
          obtain ⟨hka, hkb⟩ := ih hrest
          exact ⟨List.mem_cons_of_mem _ hka, List.mem_cons_of_mem _ hkb⟩
      · cases h

/-- An upper bound of two nodes that a descriptor names if it is a class. -/
def Bounds (cp : ClassPath) (deep : Bool) (a b n : TypeNode) : Prop :=
  cp.Below deep a n ∧ cp.Below deep b n ∧ n.Named

/-- The unknown class is above everything. -/
theorem bounds_unknown {a b : TypeNode} : cp.Bounds deep a b .unknown :=
  ⟨.unknown a, .unknown b, rfl⟩

theorem bounds_object {a b : TypeNode} : cp.Bounds deep a b (.cls objectClass) :=
  ⟨.object a, .object b, TypeNode.named_object⟩

/-- The last node that two superclass chains have in common is above both classes. -/
theorem bounds_chainJoin (h : cp.chainJoin a b = .ok n) (ha : TypeNode.Named (.cls a))
    (hb : TypeNode.Named (.cls b)) : cp.Bounds deep (.cls a) (.cls b) n := by
  unfold chainJoin at h
  obtain ⟨down, hdown, h⟩ := except_bind_ok.1 h
  obtain ⟨down', hdown', h⟩ := except_bind_ok.1 h
  cases down with
  | none =>
    cases h
    exact bounds_unknown
  | some as =>
    cases down' with
    | none =>
      cases h
      exact bounds_unknown
    | some bs =>
      cases h
      cases hlast : lastCommon? as bs with
      | none => exact bounds_unknown
      | some k =>
        obtain ⟨hka, hkb⟩ := mem_of_lastCommon? hlast
        exact ⟨(below_chainDown hdown ha k hka).1, below_chainDown hdown' hb k hkb⟩

/-! ## Implemented interfaces -/

/-- The interfaces that are found for a class are above it. -/
def Implements (cp : ClassPath) (d : String) (i : Interfaces) : Prop :=
  ∀ e ∈ i.names, TypeNode.Named (.cls e) → ∀ deep, cp.Below deep (.cls d) (.cls e)

/-- All interfaces that are remembered are above their classes. -/
def SoundInterfaces (cp : ClassPath) (m : Memo) : Prop :=
  ∀ d i, m.interfaces.lookup d = some i → cp.Implements d i

end ClassPath

namespace Interfaces

variable {i other : Interfaces} {e : Implemented} {name : String}

theorem mem_names_insert : name ∈ (i.insert e).names ↔ name = e.name ∨ name ∈ i.names := by
  unfold insert
  split
  · next hmem =>
    refine ⟨.inr, ?_⟩
    rintro (rfl | h)
    · exact List.contains_iff_mem.1 hmem
    · exact h
  · simp only [names, List.map_append, List.mem_append, List.map_cons, List.map_nil,
      List.mem_singleton]
    exact or_comm

/-- Taking in the interfaces of a superinterface brings their names and no others. -/
theorem mem_names_absorb :
    name ∈ (i.absorb other).names ↔ name ∈ i.names ∨ name ∈ other.names := by
  have fold : ∀ (es : List Implemented) (i : Interfaces),
      name ∈ (es.foldl insert i).names ↔ name ∈ i.names ∨ name ∈ es.map Implemented.name := by
    intro es
    induction es with
    | nil => simp
    | cons e es ih =>
      intro i
      rw [List.foldl_cons, ih, mem_names_insert, List.map_cons, List.mem_cons, ← or_assoc,
        or_comm (a := name = e.name)]
  exact fold other.entries i

/-- Taking in the interfaces of a superclass brings their names and no others. -/
theorem mem_names_inherit :
    name ∈ (i.inherit other).names ↔ name ∈ i.names ∨ name ∈ other.names := by
  rw [inherit, mem_names_absorb]
  simp [names, Function.comp_def]

end Interfaces

namespace ClassPath

variable {cp : ClassPath} {a b d : String} {n n' : TypeNode} {m m' : Memo}

section Implements

variable {i other : Interfaces} {c : ClassDef}

theorem Implements.unresolved (h : cp.Implements d i) : cp.Implements d i.unresolved := h

/-- A declared interface is above the class. -/
theorem Implements.insert_declared {t : Ty} {direct : Bool} (hd : cp.def? d = some c)
    (ht : t ∈ c.interfaces) (h : cp.Implements d i) :
    cp.Implements d (i.insert ⟨t.descriptor, direct⟩) := by
  intro e he hnamed deep
  rcases Interfaces.mem_names_insert.1 he with rfl | he
  · exact .interface hd ht hnamed
  · exact h e he hnamed deep

theorem Implements.insert_self {direct : Bool} (h : cp.Implements d i) :
    cp.Implements d (i.insert ⟨d, direct⟩) := by
  intro e he hnamed deep
  rcases Interfaces.mem_names_insert.1 he with rfl | he
  · exact .refl _
  · exact h e he hnamed deep

/-- The interfaces of what is above a class are above the class. -/
theorem Implements.absorb {name : String} (h : cp.Implements d i)
    (hname : ∀ deep, cp.Below deep (.cls d) (.cls name)) (hother : cp.Implements name other) :
    cp.Implements d (i.absorb other) := by
  intro e he hnamed deep
  rcases Interfaces.mem_names_absorb.1 he with he | he
  · exact h e he hnamed deep
  · exact .trans (hname deep) (hother e he hnamed deep)

theorem Implements.inherit {name : String} (h : cp.Implements d i)
    (hname : ∀ deep, cp.Below deep (.cls d) (.cls name)) (hother : cp.Implements name other) :
    cp.Implements d (i.inherit other) := by
  intro e he hnamed deep
  rcases Interfaces.mem_names_inherit.1 he with he | he
  · exact h e he hnamed deep
  · exact .trans (hname deep) (hother e he hnamed deep)

end Implements

section Collect

variable {I : Memo → Prop} {inherited : String → Query Interfaces} {c : ClassDef}
  (hin : ∀ name, Finds I (fun i _ => cp.Implements name i) (inherited name))
  (hd : cp.def? d = some c)
include hin hd

/-- Adds a declared interface. -/
def insertDeclared (cp : ClassPath) (t : Ty) (acc : Interfaces) : Interfaces :=
  match cp.def? t.descriptor with
  | some _ => acc.insert ⟨t.descriptor, true⟩
  | none => (acc.insert ⟨t.descriptor, false⟩).unresolved

/-- The walk over declared interfaces only finds what is above the class. -/
theorem finds_addDeclared : ∀ (ts : List Ty) (acc : Interfaces), (∀ t ∈ ts, t ∈ c.interfaces) →
    cp.Implements d acc →
    Finds I (fun i _ => cp.Implements d i) (cp.addDeclared inherited ts acc)
  | [], _, _, hacc => .pure fun _ _ => hacc
  | t :: rest, acc, hts, hacc => by
    have ht := hts t List.mem_cons_self
    have hrest : ∀ t ∈ rest, t ∈ c.interfaces := fun t h => hts t (List.mem_cons_of_mem _ h)
    unfold addDeclared
    split
    · exact finds_addDeclared rest acc hrest hacc
    · have hacc' : cp.Implements d (cp.insertDeclared t acc) := by
        unfold insertDeclared
        split
        · exact hacc.insert_declared hd ht
        · exact (hacc.insert_declared hd ht).unresolved
      refine (Finds.lift _).bind fun n hn => ?_
      obtain ⟨_, _, hn⟩ := hn
      cases n with
      | cls name =>
        refine (hin name).attempt.bind fun answer hanswer => ?_
        obtain ⟨_, _, hanswer⟩ := hanswer
        cases answer with
        | ok more =>
          exact finds_addDeclared rest _ hrest
            (hacc'.absorb (fun _ => .interface hd ht hn) (hanswer more rfl))
        | error e =>
          simp only
          split
          · exact .pure fun _ _ => hacc'.unresolved
          · exact .throw e
      | primitive _ => exact .pure fun _ _ => hacc'.unresolved
      | unknown => exact .pure fun _ _ => hacc'.unresolved
      | array _ _ => exact .pure fun _ _ => hacc'.unresolved

/-- The interfaces that are collected for a class are above it. -/
theorem finds_collectInterfaces :
    Finds I (fun i _ => cp.Implements d i) (cp.collectInterfaces inherited d c) := by
  unfold collectInterfaces
  refine (finds_addDeclared hin hd c.interfaces ⟨[], true⟩ (fun _ h => h) ?_).bind
    fun declared hdeclared => ?_
  · intro e he
    cases he
  obtain ⟨_, _, hdeclared⟩ := hdeclared
  have hown : cp.Implements d
      (if c.isInterface then declared.insert ⟨d, false⟩ else declared) := by
    split
    · exact hdeclared.insert_self
    · exact hdeclared
  generalize (if c.isInterface then declared.insert ⟨d, false⟩ else declared) = own at hown
  unfold addInherited
  cases hs : c.superclass? with
  | none => exact .pure fun _ _ => hown
  | some s =>
    refine (Finds.lift _).bind fun n hn => ?_
    obtain ⟨_, _, hn⟩ := hn
    cases n with
    | cls name =>
      refine (hin name).attempt.bind fun answer hanswer => ?_
      obtain ⟨_, _, hanswer⟩ := hanswer
      cases answer with
      | ok more =>
        exact .pure fun _ _ => hown.inherit (fun _ => .superclass hd hs hn) (hanswer more rfl)
      | error e =>
        simp only
        split
        · exact .pure fun _ _ => hown.unresolved
        · exact .throw e
    | primitive _ => exact .pure fun _ _ => hown
    | unknown => exact .pure fun _ _ => hown
    | array _ _ => exact .pure fun _ _ => hown

end Collect

/-- The interfaces of a class are above it, if those that are remembered are above theirs. -/
theorem finds_interfacesOf (d : String) :
    Finds cp.SoundInterfaces (fun i _ => cp.Implements d i) (cp.interfacesOf d) := by
  refine finds_interfacesFrom (I := fun _ => cp.SoundInterfaces)
    (Q := fun d i _ => cp.Implements d i) (R := fun d i _ => cp.Implements d i)
    (fun hm hi => hm _ _ hi) (fun hm _ => hm) (fun hm => hm)
    (fun hd hin => finds_collectInterfaces hin hd) ?_ [] d
  intro open_ d i m _ hm hi
  refine ⟨fun d' i' hi' => ?_, hi⟩
  simp only [Memo.addInterfaces, List.lookup_cons] at hi'
  split at hi'
  · next heq =>
    cases hi'
    rw [beq_iff_eq.1 heq]
    exact hi
  · exact hm d' i' hi'

/-- No question makes a memory unsound. -/
theorem soundInterfaces_keptBy (cp : ClassPath) : cp.KeptBy cp.SoundInterfaces :=
  keptBy_of_interfaces (fun d => (finds_interfacesOf d).keeps) (fun _ hm => hm) (fun _ hm => hm)

/-- Whatever was asked, the interfaces that are remembered are above their classes. -/
theorem soundInterfaces_of_asked (h : cp.Asked .empty m) : cp.SoundInterfaces m :=
  h.keeps cp.soundInterfaces_keptBy fun _ _ hi => by cases hi

/-! ## Joins of nodes -/

variable {deep : Bool}

/-- A class is below an interface if it is said to implement it. -/
theorem below_of_classImplements (h : cp.classImplements d a m = .ok true m')
    (hm : cp.SoundInterfaces m) (ha : TypeNode.Named (.cls a)) :
    cp.Below deep (.cls d) (.cls a) := by
  unfold classImplements at h
  obtain ⟨i, m₁, hi, h⟩ := bind_ok.1 h
  have himpl := (Triple.ok (finds_interfacesOf d) hm hi).2
  split at h
  · next hcontains => exact himpl a (List.contains_iff_mem.1 hcontains) ha deep
  · split at h <;> cases h

/-- The same if the interface is said to be one of the class. -/
theorem below_of_isInterfaceOf (h : cp.isInterfaceOf a d m = .ok true m')
    (hm : cp.SoundInterfaces m) (ha : TypeNode.Named (.cls a)) :
    cp.Below deep (.cls d) (.cls a) := by
  unfold isInterfaceOf at h
  cases hdef : cp.def? a with
  | some c =>
    simp only [hdef] at h
    split at h
    · exact below_of_classImplements h hm ha
    · cases h
  | none =>
    simp only [hdef] at h
    obtain ⟨answer, m₁, hattempt, h⟩ := bind_ok.1 h
    obtain ⟨answer, rfl, himpl⟩ | ⟨e, rfl, _⟩ := Asking.attempt_ok hattempt
    · cases h
      exact below_of_classImplements himpl hm ha
    · simp only at h
      split at h <;> cases h

/-- The ways to join two classes. -/
theorem joinAfter_ok {rest : Query TypeNode} (h : cp.joinAfter a b rest m = .ok n m') :
    (n = .cls b ∧ ∃ m₁, cp.isInterfaceOf b a m = .ok true m₁) ∨ n = .unknown ∨
      ∃ m₁, rest m₁ = .ok n m' := by
  obtain ⟨second, m₁, hsecond, h⟩ := bind_ok.1 h
  obtain ⟨second, rfl, hb⟩ | ⟨e, rfl, _⟩ := Asking.attempt_ok hsecond
  · cases second with
    | true =>
      cases h
      exact .inl ⟨rfl, _, hb⟩
    | false => exact .inr (.inr ⟨_, h⟩)
  · simp only at h
    split at h
    · cases h
      exact .inr (.inl rfl)
    · cases h

/-- The ways to find the join of two classes: one of them is the root class or above the other, one
is an interface of the other, a question failed, or the superclass chains meet. -/
theorem classJoin_ok (h : cp.classJoin a b m = .ok n m') :
    (n = .cls a ∧ (a = b ∨ a = objectClass)) ∨ (n = .cls b ∧ b = objectClass) ∨
    (n = .cls a ∧ ∃ m₁, cp.isInterfaceOf a b m = .ok true m₁) ∨
    (n = .cls b ∧ ∃ m₁ m₂, cp.Asked m m₁ ∧ cp.isInterfaceOf b a m₁ = .ok true m₂) ∨
    n = .unknown ∨ cp.chainJoin a b = .ok n := by
  rw [classJoin_eq] at h
  split at h
  · next hab =>
    cases h
    exact .inl ⟨rfl, hab⟩
  split at h
  · next hb =>
    cases h
    exact .inr (.inl ⟨rfl, hb⟩)
  obtain ⟨first, m₁, hfirst, h⟩ := bind_ok.1 h
  have hm₁ : cp.Asked m m₁ :=
    Triple.ok ((cp.asked_keptBy m).isInterfaceOf a b).attempt .refl hfirst
  obtain ⟨first, rfl, ha⟩ | ⟨e, rfl, _⟩ := Asking.attempt_ok hfirst
  · cases first with
    | true =>
      cases h
      exact .inr (.inr (.inl ⟨rfl, _, ha⟩))
    | false =>
      obtain ⟨hn, m₂, hb⟩ | hn | ⟨m₂, hchain⟩ := joinAfter_ok h
      · exact .inr (.inr (.inr (.inl ⟨hn, m₁, m₂, hm₁, hb⟩)))
      · exact .inr (.inr (.inr (.inr (.inl hn))))
      · exact .inr (.inr (.inr (.inr (.inr (Asking.lift_ok.1 hchain).1))))
  · simp only [joinFirst] at h
    split at h
    · obtain ⟨hn, m₂, hb⟩ | hn | ⟨m₂, hunknown⟩ := joinAfter_ok h
      · exact .inr (.inr (.inr (.inl ⟨hn, m₁, m₂, hm₁, hb⟩)))
      · exact .inr (.inr (.inr (.inr (.inl hn))))
      · cases hunknown
        exact .inr (.inr (.inr (.inr (.inl rfl))))
    · cases h

/-- The join of two classes is above both. -/
theorem bounds_classJoin (h : cp.classJoin a b m = .ok n m') (hm : cp.SoundInterfaces m)
    (ha : TypeNode.Named (.cls a)) (hb : TypeNode.Named (.cls b)) :
    cp.Bounds deep (.cls a) (.cls b) n := by
  obtain ⟨rfl, rfl | rfl⟩ | ⟨rfl, rfl⟩ | ⟨rfl, m₁, hi⟩ | ⟨rfl, m₁, m₂, hm₁, hi⟩ | rfl | hchain :=
    classJoin_ok h
  · exact ⟨.refl _, .refl _, ha⟩
  · exact bounds_object
  · exact bounds_object
  · exact ⟨.refl _, below_of_isInterfaceOf hi hm ha, ha⟩
  · have hsound := hm₁.keeps cp.soundInterfaces_keptBy hm
    exact ⟨below_of_isInterfaceOf hi hsound hb, .refl _, hb⟩
  · exact bounds_unknown
  · exact bounds_chainJoin hchain ha hb

/-- The join of two nodes that are no arrays is above both. -/
theorem bounds_plainJoin {a b : TypeNode} (h : cp.plainJoin a b m = .ok n m')
    (hm : cp.SoundInterfaces m) (ha : a.Named) (hb : b.Named) : cp.Bounds deep a b n := by
  cases a with
  | primitive d => cases h
  | unknown =>
    cases h
    split
    · next hobject => exact hobject ▸ bounds_object
    · exact bounds_unknown
  | array dims elem =>
    cases h
    exact bounds_object
  | cls a =>
    cases b with
    | primitive d => cases h
    | unknown =>
      cases h
      split
      · next hobject => exact hobject ▸ bounds_object
      · exact bounds_unknown
    | array dims elem =>
      cases h
      exact bounds_object
    | cls b => exact bounds_classJoin h hm ha hb

/-- Two arrays of one number of dimensions join to the array over a bound of their elements. -/
inductive Elementwise (cp : ClassPath) : TypeNode → TypeNode → TypeNode → Prop where
  | intro {dims : Nat} {elem elem' : String} {x y k : TypeNode}
    (helem : isPrimitiveElement elem = false) (helem' : isPrimitiveElement elem' = false)
    (hx : TypeNode.ofDescriptor elem = .ok x) (hy : TypeNode.ofDescriptor elem' = .ok y)
    (hk : ∀ deep, cp.Bounds deep x y k) :
    Elementwise cp (.array dims elem) (.array dims elem') (.arrayOf dims k)

/-- The join of two arrays is above both, or it is the array over the join of their elements. -/
theorem arrayJoin_ok {dims dims' : Nat} {elem elem' : String}
    (h : cp.arrayJoin dims elem dims' elem' m = .ok n m') (hm : cp.SoundInterfaces m)
    (ha : TypeNode.Named (.array dims elem)) (hb : TypeNode.Named (.array dims' elem')) :
    (∀ deep, cp.Bounds deep (.array dims elem) (.array dims' elem') n) ∨
      cp.Elementwise (.array dims elem) (.array dims' elem') n := by
  unfold arrayJoin at h
  split at h
  · cases h
    refine .inl fun deep => ?_
    split
    · next heq =>
      obtain ⟨rfl, rfl⟩ := heq
      exact ⟨.refl _, .refl _, ha⟩
    · exact bounds_object
  · next hprimitive =>
    simp only [Bool.or_eq_true, not_or, Bool.not_eq_true] at hprimitive
    split at h
    · next hsame =>
      subst hsame
      obtain ⟨x, m₁, hlift, h⟩ := bind_ok.1 h
      obtain ⟨y, m₂, hlift', h⟩ := bind_ok.1 h
      obtain ⟨k, m₃, hk, h⟩ := bind_ok.1 h
      cases h
      obtain ⟨hx, rfl⟩ := Asking.lift_ok.1 hlift
      obtain ⟨hy, rfl⟩ := Asking.lift_ok.1 hlift'
      refine .inr (.intro hprimitive.1 hprimitive.2 hx hy fun deep => ?_)
      exact bounds_plainJoin hk hm (TypeNode.named_of_ofDescriptor hx)
        (TypeNode.named_of_ofDescriptor hy)
    · cases h
      have hmin : 0 < min dims dims' :=
        Nat.lt_min.2 ⟨(TypeNode.named_array_iff.1 ha).1, (TypeNode.named_array_iff.1 hb).1⟩
      exact .inl fun deep => ⟨.objects hprimitive.1 (Nat.min_le_left dims dims'),
        .objects hprimitive.2 (Nat.min_le_right dims dims'),
        TypeNode.named_arrayOf hmin TypeNode.named_object⟩

theorem bounds_arrayClassJoin {dims : Nat} {elem : String} (hd : TypeNode.Named (.cls d)) :
    cp.Bounds deep (.array dims elem) (.cls d) (cp.arrayClassJoin d) := by
  unfold arrayClassJoin
  split
  · split
    · next hi =>
      have harray : cp.Below deep (.array dims elem) (.cls d) := by
        simp only [arrayImplements, Bool.and_eq_true, Bool.or_eq_true, beq_iff_eq] at hi
        rcases hi.2 with rfl | rfl
        · exact .cloneable dims elem
        · exact .serializable dims elem
      exact ⟨harray, .refl _, hd⟩
    · exact bounds_object
  · exact bounds_object

/-- Being above both does not depend on the order. -/
theorem Bounds.symm {a b : TypeNode} (h : cp.Bounds deep a b n) : cp.Bounds deep b a n :=
  ⟨h.2.1, h.1, h.2.2⟩

/-- The join of two nodes is a bound in both orders, or that of two arrays element by element. -/
theorem commonSuperclass_ok {a b : TypeNode} (h : cp.commonSuperclass a b m = .ok n m')
    (hm : cp.SoundInterfaces m) (ha : a.Named) (hb : b.Named) :
    (∀ deep, cp.Bounds deep a b n) ∨ cp.Elementwise a b n := by
  cases a with
  | primitive d => cases h
  | unknown =>
    cases b with
    | array dims elem =>
      cases h
      exact .inl fun _ => bounds_object
    | primitive d => exact .inl fun _ => bounds_plainJoin h hm ha hb
    | unknown => exact .inl fun _ => bounds_plainJoin h hm ha hb
    | cls b => exact .inl fun _ => bounds_plainJoin h hm ha hb
  | array dims elem =>
    cases b with
    | primitive d => cases h
    | unknown =>
      cases h
      exact .inl fun _ => bounds_object
    | array dims' elem' => exact arrayJoin_ok h hm ha hb
    | cls b =>
      cases h
      exact .inl fun _ => bounds_arrayClassJoin hb
  | cls a =>
    cases b with
    | array dims elem =>
      cases h
      exact .inl fun _ => (bounds_arrayClassJoin ha).symm
    | primitive d => exact .inl fun _ => bounds_plainJoin h hm ha hb
    | unknown => exact .inl fun _ => bounds_plainJoin h hm ha hb
    | cls b => exact .inl fun _ => bounds_plainJoin h hm ha hb

/-- The join of two nodes is above both.  That of two arrays can have more dimensions, so it is a
bound in the deep order. -/
theorem bounds_commonSuperclass {a b : TypeNode} (h : cp.commonSuperclass a b m = .ok n m')
    (hm : cp.SoundInterfaces m) (ha : a.Named) (hb : b.Named) : cp.Bounds true a b n := by
  obtain hbounds | ⟨helem, helem', hx, hy, hbounds⟩ := commonSuperclass_ok h hm ha hb
  · exact hbounds true
  · obtain ⟨hxk, hyk, hknamed⟩ := hbounds true
    exact ⟨.element helem hx (.inl rfl) hxk, .element helem' hy (.inl rfl) hyk,
      TypeNode.named_arrayOf (TypeNode.named_array_iff.1 ha).1 hknamed⟩

end ClassPath

/-! ## Joins of register types -/

theorem Narrow.join_join_left (x y : Narrow) : x.join (x.join y) = x.join y := by
  cases x <;> cases y <;> rfl

theorem Narrow.join_join_right (x y : Narrow) : y.join (x.join y) = x.join y := by
  cases x <;> cases y <;> rfl

/-- The join of two halves is above both. -/
theorem WideHalf.join?_join? {x y z : WideHalf} (h : x.join? y = some z) :
    x.join? z = some z ∧ y.join? z = some z := by
  cases x <;> cases y <;> cases h <;> exact ⟨rfl, rfl⟩

namespace RegType

variable {cp : ClassPath} {a b c : RegType} {m m' : Memo}

/-- The ways to join two register types. -/
inductive Joined (cp : ClassPath) (m m' : Memo) : RegType → RegType → RegType → Prop where
  | same (t : RegType) : Joined cp m m' t t t
  | unknown_left (t : RegType) : Joined cp m m' .unknown t t
  | unknown_right (t : RegType) : Joined cp m m' t .unknown t
  | narrow (x y : Narrow) : Joined cp m m' (.narrow x) (.narrow y) (.narrow (x.join y))
  | half {x y z : WideHalf} (h : x.join? y = some z) : Joined cp m m' (.half x) (.half y) (.half z)
  | null_left (n : TypeNode) : Joined cp m m' (.narrow .null) (.reference n) (.reference n)
  | null_right (n : TypeNode) : Joined cp m m' (.reference n) (.narrow .null) (.reference n)
  | references {p q n : TypeNode} (h : cp.commonSuperclass p q m = .ok n m') :
    Joined cp m m' (.reference p) (.reference q) (.reference n)
  | receivers (p q : TypeNode) : Joined cp m m' (.uninitThis p) (.uninitThis q) (.uninitThis p)
  | conflict (a b : RegType) : Joined cp m m' a b .conflicted

/-- The cases of a join of register types, from its success. -/
theorem joined_of_join (h : a.join cp b m = .ok c m') : Joined cp m m' a b c := by
  unfold join at h
  split at h
  · next hab =>
    cases h
    exact hab ▸ .same a
  cases a with
  | unknown => cases b <;> cases h <;> exact .unknown_left _
  | conflicted => cases b <;> cases h <;> exact .conflict _ _
  | uninit =>
    cases b with
    | unknown => cases h; exact .unknown_right _
    | uninit => cases h; exact .same _
    | _ => cases h; exact .conflict _ _
  | uninitRef p site =>
    cases b with
    | unknown => cases h; exact .unknown_right _
    | _ => cases h; exact .conflict _ _
  | uninitThis p =>
    cases b with
    | unknown => cases h; exact .unknown_right _
    | uninitThis q => cases h; exact .receivers p q
    | _ => cases h; exact .conflict _ _
  | narrow x =>
    cases b with
    | unknown => cases h; exact .unknown_right _
    | narrow y => cases h; exact .narrow x y
    | reference q =>
      cases x with
      | null => cases h; exact .null_left q
      | _ => cases h; exact .conflict _ _
    | _ => cases h; exact .conflict _ _
  | half x =>
    cases b with
    | unknown => cases h; exact .unknown_right _
    | half y =>
      cases hxy : x.join? y with
      | none =>
        simp only [category, Category.join, hxy] at h
        cases h
        exact .conflict _ _
      | some z =>
        simp only [category, Category.join, hxy] at h
        cases h
        exact .half hxy
    | _ => cases h; exact .conflict _ _
  | reference p =>
    cases b with
    | unknown => cases h; exact .unknown_right _
    | narrow y =>
      cases y with
      | null => cases h; exact .null_right p
      | _ => cases h; exact .conflict _ _
    | reference q =>
      obtain ⟨n, m₁, hn, h⟩ := bind_ok.1 h
      cases h
      exact .references hn
    | _ => cases h; exact .conflict _ _

/-- A register type in a method of a class: what it refers to has a name, and a receiver before
its constructor call is of the class. -/
def Proper (cls : Ty) : RegType → Prop
  | .uninitThis n => TypeNode.ofTy cls = .ok n
  | .uninitRef n _ | .reference n => n.Named
  | _ => True

/-- The join of two types is above both. -/
theorem below_of_join {cls : Ty} (h : a.join cp b m = .ok c m') (hm : cp.SoundInterfaces m)
    (ha : a.Proper cls) (hb : b.Proper cls) :
    a.Below cp true c ∧ b.Below cp true c ∧ c.Proper cls := by
  cases joined_of_join h with
  | same => exact ⟨.refl _, .refl _, ha⟩
  | unknown_left => exact ⟨.unknown _, .refl _, hb⟩
  | unknown_right => exact ⟨.refl _, .unknown _, ha⟩
  | narrow x y =>
    exact ⟨.category rfl rfl (congrArg Category.narrow (x.join_join_left y)),
      .category rfl rfl (congrArg Category.narrow (x.join_join_right y)), trivial⟩
  | half hz =>
    obtain ⟨hx, hy⟩ := WideHalf.join?_join? hz
    refine ⟨.category rfl rfl ?_, .category rfl rfl ?_, trivial⟩
    · simp only [category, Category.join, hx]
    · simp only [category, Category.join, hy]
  | null_left n => exact ⟨.null n, .refl _, hb⟩
  | null_right n => exact ⟨.refl _, .null n, ha⟩
  | references hn =>
    obtain ⟨hpn, hqn, hnamed⟩ := ClassPath.bounds_commonSuperclass hn hm ha hb
    exact ⟨.reference hpn, .reference hqn, hnamed⟩
  | receivers p q =>
    have hpq : p = q := Except.ok.inj (ha.symm.trans hb)
    subst hpq
    exact ⟨.refl _, .refl _, ha⟩
  | conflict => exact ⟨.conflicted _, .conflicted _, trivial⟩

end RegType

end Dalvik
