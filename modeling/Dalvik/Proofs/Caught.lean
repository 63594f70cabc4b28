import Dalvik.Analysis.Transfer
import Dalvik.Proofs.Associativity
import Dalvik.Proofs.Folding
import Mathlib.Data.List.Perm.Basic

/-!
# The type of a caught exception

A handler starts with the exception it caught.  Its type is found by going through all handlers with
code at this address, in whatever ranges they stand: the class of each is joined with what was found
before (`yields_caughtType`).  So the order of the handlers counts in two ways.

* A handler for all exceptions does not join.  It forgets what was found before it, and what comes
  behind it is joined with the class of all exceptions.  All orders agree if and only if this
  changes nothing (`sameCaught_iff_of_none`).
* Joins are not associative.  All orders of classes alone agree if and only if the joins of three
  of them say so (`sameCaught_iff_of_hasJoins`).  This needs an order in which each join is a bound,
  and there are two: that of rooted nodes, and that of classes which are used as classes only.
-/

namespace Dalvik

/-- The class that a handler catches, if it does not catch all exceptions. -/
def Handler.node? (h : Handler) : Option TypeNode :=
  h.exception?.bind fun ty => (TypeNode.ofTy ty).toOption

namespace Analysis

/-! ## The join of the handlers -/

/-- The class that is caught after one more handler.  A handler for all exceptions forgets the
others. -/
def catchNext (cp : ClassPath) (found? : Option TypeNode) (class? : Option TypeNode) :
    Option TypeNode :=
  some (class?.elim (.cls throwableClass) fun n => found?.elim n (cp.joinOf n))

/-- The class that some handlers catch. -/
def caughtNode? (cp : ClassPath) (classes : List (Option TypeNode)) : Option TypeNode :=
  classes.foldl (catchNext cp) none

/-- The register type of a caught class. -/
def typeOf (found? : Option TypeNode) : RegType := found?.elim .unknown .reference

section Handlers

variable {cp : ClassPath} {n k : TypeNode} {found? : Option TypeNode} {hs : List Handler}

/-- The classes of some handlers can be joined. -/
def CatchClasses (hs : List Handler) : Prop :=
  ∀ h ∈ hs, h.exception? ≠ none → ∃ n, h.node? = some n ∧ n.Joinable

theorem ofTy_of_node? {h : Handler} {ty : Ty} (hty : h.exception? = some ty)
    (hn : h.node? = some n) : TypeNode.ofTy ty = .ok n := by
  rw [Handler.node?, hty, Option.bind_some] at hn
  exact ok_of_toOption hn

theorem node?_of_exception? {h : Handler} (hnone : h.exception? = none) : h.node? = none := by
  rw [Handler.node?, hnone, Option.bind_none]

section Joins

variable (hcp : cp.ClassesOnly) (hacyclic : ∀ d, ¬ cp.OnCycle d)
include hcp hacyclic

/-- The register type of a handler's class joins with what was found before. -/
theorem yields_join (hn : n.Joinable) (hfound : ∀ k, found? = some k → k.Joinable) :
    Yields cp.ToldAll ((RegType.reference n).join cp (typeOf found?))
      (· = .ok (.reference (found?.elim n (cp.joinOf n)))) := by
  cases found? with
  | none => exact .pure rfl
  | some k =>
    show Yields _ ((RegType.reference n).join cp (.reference k))
      (· = .ok (.reference (cp.joinOf n k)))
    by_cases hnk : n = k
    · cases hnk
      rw [RegType.join, if_pos rfl, ClassPath.joinOf_self hn]
      exact .pure rfl
    · have hne : RegType.reference n ≠ .reference k := fun h => hnk (RegType.reference.inj h)
      rw [RegType.join, if_neg hne]
      exact (ClassPath.yields_joinOf hcp hacyclic hn (hfound k rfl)).bind_ok (.pure rfl)

/-- The handlers are gone through one after another. -/
theorem yields_caughtType (hhs : CatchClasses hs) (found? : Option TypeNode)
    (hfound : ∀ k, found? = some k → k.Joinable) :
    Yields cp.ToldAll (caughtType cp (typeOf found?) hs)
      (· = .ok (typeOf ((hs.map Handler.node?).foldl (catchNext cp) found?))) := by
  induction hs generalizing found? with
  | nil => exact .pure rfl
  | cons h hs ih =>
    have hrest : CatchClasses hs := fun h' hmem => hhs h' (List.mem_cons_of_mem _ hmem)
    rw [List.map_cons, List.foldl_cons]
    cases hty : h.exception? with
    | none =>
      rw [node?_of_exception? hty]
      simp only [caughtType, hty]
      have hthrowable : Yields cp.ToldAll (Asking.lift (TypeNode.ofDescriptor throwableClass))
          (· = .ok (.cls throwableClass)) := .lift rfl
      refine hthrowable.bind_ok (ih hrest (some (.cls throwableClass)) ?_)
      rintro _ ⟨⟩
      trivial
    | some ty =>
      obtain ⟨n, hn, hjoinable⟩ := hhs h List.mem_cons_self (by simp [hty])
      rw [hn]
      simp only [caughtType, hty]
      have hnode : Yields cp.ToldAll (Asking.lift (TypeNode.ofTy ty)) (· = .ok n) :=
        .lift (ofTy_of_node? hty hn)
      refine hnode.bind_ok ((yields_join hcp hacyclic hjoinable hfound).bind_ok ?_)
      refine ih hrest (some (found?.elim n (cp.joinOf n))) ?_
      rintro _ ⟨⟩
      cases found? with
      | none => exact hjoinable
      | some k => exact ClassPath.joinable_joinOf hcp hacyclic hjoinable (hfound k rfl)

end Joins

end Handlers

/-! ## Orders of the handlers -/

section Orders

variable {cp : ClassPath} {n : TypeNode} {classes : List (Option TypeNode)}

/-- Something is caught unless there are no handlers. -/
theorem exists_caughtNode? (cp : ClassPath) (hne : classes ≠ []) :
    ∃ n, caughtNode? cp classes = some n := by
  rw [← List.dropLast_concat_getLast hne, caughtNode?, List.foldl_concat]
  exact ⟨_, rfl⟩

/-- Classes alone are joined one after another. -/
theorem caughtNode?_map_some (cp : ClassPath) (nodes : List TypeNode) :
    caughtNode? cp (nodes.map some) = Subtyping.joinAll? cp.joinOf nodes := by
  rw [caughtNode?, List.foldl_map]
  rfl

/-- Behind a handler for all exceptions nothing before it counts. -/
theorem caughtNode?_append_none (cp : ClassPath) (before after : List (Option TypeNode)) :
    caughtNode? cp (before ++ none :: after) =
      after.foldl (catchNext cp) (some (.cls throwableClass)) := by
  rw [caughtNode?, List.foldl_append, List.foldl_cons]
  rfl

/-- Without a catch-all, the handlers name nodes. -/
theorem exists_eq_map_some (hnone : none ∉ classes) :
    ∃ nodes : List TypeNode, classes = nodes.map some := by
  induction classes with
  | nil => exact ⟨[], rfl⟩
  | cons class? classes ih =>
    obtain ⟨hclass, hrest⟩ := not_or.1 (mt List.mem_cons.2 hnone)
    obtain ⟨n, rfl⟩ := Option.ne_none_iff_exists'.1 (Ne.symm hclass)
    obtain ⟨nodes, rfl⟩ := ih hrest
    exact ⟨n :: nodes, rfl⟩

/-- All orders catch one class. -/
def SameCaught (cp : ClassPath) (classes : List (Option TypeNode)) : Prop :=
  ∃ n, ∀ order, order.Perm classes → caughtNode? cp order = some n

/-- A permutation of the images is the image of a permutation. -/
theorem exists_perm_of_perm_map {α β : Type} {f : α → β} {l : List α} {order : List β}
    (h : order.Perm (l.map f)) : ∃ l' : List α, l'.Perm l ∧ order = l'.map f := by
  have hcomp := congrFun (congrFun (List.eq_map_comp_perm f) order) l
  obtain ⟨l', hmap, hperm⟩ := hcomp.mpr h
  exact ⟨l', hperm, hmap⟩

/-- After a catch-all the type stays that of a throwable, if all classes join to it. -/
theorem foldl_catchNext_throwable
    (h : ∀ n, some n ∈ classes → cp.joinOf n (.cls throwableClass) = .cls throwableClass) :
    classes.foldl (catchNext cp) (some (.cls throwableClass)) = some (.cls throwableClass) := by
  induction classes with
  | nil => rfl
  | cons class? classes ih =>
    have hnext : catchNext cp (some (.cls throwableClass)) class? = some (.cls throwableClass) := by
      cases class? with
      | none => rfl
      | some n => exact congrArg some (h n List.mem_cons_self)
    rw [List.foldl_cons, hnext]
    exact ih fun n hn => h n (List.mem_cons_of_mem _ hn)

/-- With a handler for all exceptions, the order does not count if and only if all classes are below
the class of all exceptions. -/
theorem sameCaught_iff_of_none (hnone : none ∈ classes) :
    SameCaught cp classes ↔
      ∀ n, some n ∈ classes → cp.joinOf n (.cls throwableClass) = .cls throwableClass := by
  constructor
  · rintro ⟨k, hk⟩ n hn
    obtain ⟨before, after, rfl⟩ := List.append_of_mem hnone
    have hmem : some n ∈ before ++ after := by simpa using hn
    obtain ⟨front, back, hsplit⟩ := List.append_of_mem hmem
    -- the handler for all exceptions comes last, or only the one for the class comes behind it
    have hlast : (before ++ after ++ [none]).Perm (before ++ none :: after) := by
      rw [List.append_assoc]
      exact (List.perm_append_singleton none after).append_left before
    have hbehind : (front ++ back ++ [none, some n]).Perm (before ++ none :: after) := by
      refine List.perm_append_comm.trans (.trans ?_ List.perm_middle.symm)
      rw [hsplit]
      show (none :: some n :: (front ++ back)).Perm (none :: (front ++ some n :: back))
      exact List.perm_middle.symm.cons none
    have hlast := hk _ hlast
    have hbehind := hk _ hbehind
    rw [caughtNode?_append_none] at hlast hbehind
    cases hlast
    exact Option.some.inj hbehind
  · intro hbelow
    refine ⟨.cls throwableClass, fun order hperm => ?_⟩
    obtain ⟨front, back, rfl⟩ := List.append_of_mem (hperm.mem_iff.2 hnone)
    rw [caughtNode?_append_none]
    exact foldl_catchNext_throwable fun n hn => hbelow n (hperm.mem_iff.1 (by simp [hn]))

/-- Without one, the order does not count if and only if, of the joins of three classes, one that is
above all classes is above the other joins. -/
theorem sameCaught_iff_of_hasJoins {S : Subtyping TypeNode} (hjoins : S.HasJoins cp.joinOf)
    (hnone : none ∉ classes) (hne : classes ≠ []) (hknown : ∀ n, some n ∈ classes → S.known n) :
    SameCaught cp classes ↔
      ∀ n k, Subtyping.Threefold cp.joinOf (some · ∈ classes) n →
        Subtyping.Threefold cp.joinOf (some · ∈ classes) k →
        (∀ p, some p ∈ classes → cp.joinOf p n = n) → cp.joinOf k n = n := by
  obtain ⟨classes, rfl⟩ := exists_eq_map_some hnone
  have hsome (p : TypeNode) : some p ∈ classes.map some ↔ p ∈ classes := by simp
  simp only [hsome] at hknown ⊢
  have horders : SameCaught cp (classes.map some) ↔
      ∃ r, ∀ l, l.Perm classes → Subtyping.joinAll? cp.joinOf l = some r := by
    refine exists_congr fun r => ⟨fun h l hl => ?_, fun h order horder => ?_⟩
    · rw [← caughtNode?_map_some]
      exact h _ (hl.map some)
    · obtain ⟨l, hl, rfl⟩ := exists_perm_of_perm_map horder
      rw [caughtNode?_map_some]
      exact h l hl
  have known {n : TypeNode} (hn : Subtyping.Threefold cp.joinOf (· ∈ classes) n) : S.known n := by
    obtain ⟨x, y, z, hx, hy, hz, rfl⟩ := hn
    exact hjoins.known (hjoins.known (hknown x hx) (hknown y hy)) (hknown z hz)
  rw [horders, hjoins.joinAll?_const_iff (by simpa using hne) hknown]
  refine forall₂_congr fun n k => forall₂_congr fun hn hk => ?_
  rw [hjoins.le_iff (known hk) (known hn)]
  refine imp_congr (forall₂_congr fun p hp => ?_) .rfl
  exact hjoins.le_iff (hknown p hp) (known hn)

end Orders

/-! ## Fetched exceptions -/

namespace Subject

/-- The handlers whose code starts at an address. -/
def handlersInto (s : Subject) (a : Addr) : List Handler :=
  (s.body.tries.flatMap TryRange.handlers).filter fun h => h.addr = a

/-- A handler with code at an address catches a class. -/
def Catches (s : Subject) (a : Addr) (n : TypeNode) : Prop :=
  ∃ h ∈ s.handlersInto a, h.node? = some n

/-- A handler with code at an address catches all exceptions. -/
def CatchesAll (s : Subject) (a : Addr) : Prop := ∃ h ∈ s.handlersInto a, h.exception? = none

/-- Another method with the same classes has the same handlers with code at an address, in any order
and spread over any ranges. -/
structure Reorders (s' s : Subject) (a : Addr) : Prop where
  classPath : s'.classPath = s.classPath
  handlers : (s'.handlersInto a).Perm (s.handlersInto a)

/-- The type of the exception that is fetched at an address, whatever was asked before. -/
def Fetches (s : Subject) (a : Addr) (t : RegType) : Prop :=
  ∀ history, ∃ m, s.exceptionType a (s.classPath.remembered history) = .ok t m

/-- The order of the handlers with code at an address does not count. -/
def OrderFree (s : Subject) (a : Addr) : Prop :=
  ∃ t, ∀ s' : Subject, s'.Reorders s a → s'.Fetches a t

variable {s s' : Subject} {a : Addr} {n : TypeNode} {t t' : RegType}

/-- There is one type that is fetched. -/
theorem Fetches.unique (h : s.Fetches a t) (h' : s.Fetches a t') : t = t' := by
  obtain ⟨m, hm⟩ := h []
  obtain ⟨m', hm'⟩ := h' []
  cases hm.symm.trans hm'
  rfl

theorem addr_of_mem_handlersInto {h : Handler} (hmem : h ∈ s.handlersInto a) : h.addr = a :=
  of_decide_eq_true (List.mem_filter.1 hmem).2

/-- Every order of the handlers is that of some method. -/
theorem exists_reorders (s : Subject) {hs : List Handler} (hperm : hs.Perm (s.handlersInto a)) :
    ∃ s' : Subject, s'.Reorders s a ∧ s'.handlersInto a = hs := by
  let s' : Subject := { s with body := { s.body with tries := [⟨a, 0, hs⟩] } }
  have hhs : s'.handlersInto a = hs := by
    have hall : ∀ h ∈ hs, decide (h.addr = a) = true := fun h hmem =>
      decide_eq_true (addr_of_mem_handlersInto (hperm.mem_iff.1 hmem))
    simpa [handlersInto, s'] using hall
  exact ⟨s', ⟨rfl, hhs ▸ hperm⟩, hhs⟩

section Fetch

variable (hcp : s.classPath.ClassesOnly) (hacyclic : ∀ d, ¬ s.classPath.OnCycle d)
  (hcatch : CatchClasses (s.handlersInto a))
include hcp hacyclic hcatch

/-- What handlers catch is fetched, whatever was asked before. -/
theorem fetches_of_caughtNode?
    (h : caughtNode? s.classPath ((s.handlersInto a).map Handler.node?) = some n) :
    s.Fetches a (.reference n) := by
  intro history
  have hyields := yields_caughtType hcp hacyclic hcatch none fun k hk => by cases hk
  have htold : s.classPath.ToldAll (s.classPath.remembered history) :=
    ClassPath.told_of_asked (s.classPath.asked_remembered history)
  have hanswer := hyields.answer htold
  rw [caughtNode?] at h
  rw [h] at hanswer
  obtain ⟨m, hm⟩ := Asking.ok_of_answer hanswer
  exact ⟨m, bind_ok.2 ⟨_, _, Rule.ask_ok.2 hm, rfl⟩⟩

/-- Every order finds a class. -/
theorem exists_fetches (hne : s.handlersInto a ≠ []) (h : s'.Reorders s a) :
    ∃ n, caughtNode? s.classPath ((s'.handlersInto a).map Handler.node?) = some n ∧
      s'.Fetches a (.reference n) := by
  have hne' : s'.handlersInto a ≠ [] := fun hnil => hne (hnil ▸ h.handlers).nil_eq.symm
  obtain ⟨n, hn⟩ := exists_caughtNode? s.classPath (mt List.map_eq_nil_iff.1 hne')
  have hcatch' : CatchClasses (s'.handlersInto a) :=
    fun h' hmem => hcatch h' (h.handlers.mem_iff.1 hmem)
  refine ⟨n, hn, ?_⟩
  rw [← h.classPath] at hcp hacyclic hn
  exact fetches_of_caughtNode? hcp hacyclic hcatch' hn

/-- Whether the order of handlers matters is a question about the nodes they name. -/
theorem orderFree_iff (hne : s.handlersInto a ≠ []) :
    s.OrderFree a ↔ SameCaught s.classPath ((s.handlersInto a).map Handler.node?) := by
  constructor
  · rintro ⟨t, ht⟩
    have htype {s' : Subject} (h : s'.Reorders s a) :
        (caughtNode? s.classPath ((s'.handlersInto a).map Handler.node?)).map .reference =
          some t := by
      obtain ⟨n, hn, hfetches⟩ := exists_fetches hcp hacyclic hcatch hne h
      rw [hn, (ht s' h).unique hfetches]
      rfl
    obtain ⟨n, hn, rfl⟩ := Option.map_eq_some_iff.1 (htype ⟨rfl, .refl _⟩)
    refine ⟨n, fun order horder => ?_⟩
    obtain ⟨hs, hperm, rfl⟩ := exists_perm_of_perm_map horder
    obtain ⟨s', hreorders, rfl⟩ := exists_reorders s hperm
    obtain ⟨n', hn', heq⟩ := Option.map_eq_some_iff.1 (htype hreorders)
    cases heq
    exact hn'
  · rintro ⟨n, hn⟩
    refine ⟨.reference n, fun s' h => ?_⟩
    obtain ⟨n', hn', hfetches⟩ := exists_fetches hcp hacyclic hcatch hne h
    cases hn'.symm.trans (hn _ (h.handlers.map Handler.node?))
    exact hfetches

omit hcp hacyclic in
/-- A catch-all is a handler without a class. -/
theorem catchesAll_iff : s.CatchesAll a ↔ none ∈ (s.handlersInto a).map Handler.node? := by
  rw [List.mem_map]
  refine exists_congr fun h => and_congr_right fun hmem => ⟨node?_of_exception?, fun hnode => ?_⟩
  by_contra hty
  obtain ⟨n, hn, _⟩ := hcatch h hmem hty
  cases hnode.symm.trans hn

end Fetch

theorem catches_iff : s.Catches a n ↔ some n ∈ (s.handlersInto a).map Handler.node? :=
  List.mem_map.symm

/-- The type of a fetched exception is found in every order of its handlers.  With a handler for all
exceptions, the order does not count if and only if the other handlers catch classes below that of
all exceptions.  Without one, let all caught classes be rooted, or be used as classes only: then the
order does not count if and only if, of the joins of three caught classes, one that is above all
caught classes is above the other joins of three. -/
theorem caught_order_irrelevant_iff (s : Subject) (a : Addr) (hcp : s.classPath.ClassesOnly)
    (hacyclic : ∀ d, ¬ s.classPath.OnCycle d) (hne : s.handlersInto a ≠ [])
    (hcatch : CatchClasses (s.handlersInto a)) :
    (∀ s' : Subject, s'.Reorders s a → ∃ n, s'.Fetches a (.reference n)) ∧
      (s.CatchesAll a → (s.OrderFree a ↔ ∀ n, s.Catches a n →
        s.classPath.joinOf n (.cls throwableClass) = .cls throwableClass)) ∧
      (¬ s.CatchesAll a → s.classPath.Rooted objectClass →
        (∀ n, s.Catches a n → s.classPath.RootedNode n) ∨
          (∀ n, s.Catches a n → s.classPath.Proper n) →
        (s.OrderFree a ↔ ∀ n k, Subtyping.Threefold s.classPath.joinOf (s.Catches a) n →
          Subtyping.Threefold s.classPath.joinOf (s.Catches a) k →
          (∀ p, s.Catches a p → s.classPath.joinOf p n = n) → s.classPath.joinOf k n = n)) := by
  have hclasses : (s.handlersInto a).map Handler.node? ≠ [] := mt List.map_eq_nil_iff.1 hne
  have hcatches : s.Catches a = (some · ∈ (s.handlersInto a).map Handler.node?) :=
    funext fun n => propext catches_iff
  refine ⟨fun s' h => ?_, fun hall => ?_, fun hall hobject hknown => ?_⟩
  · obtain ⟨n, _, hfetches⟩ := exists_fetches hcp hacyclic hcatch hne h
    exact ⟨n, hfetches⟩
  · rw [orderFree_iff hcp hacyclic hcatch hne, hcatches]
    exact sameCaught_iff_of_none ((catchesAll_iff hcatch).1 hall)
  · rw [orderFree_iff hcp hacyclic hcatch hne]
    rw [catchesAll_iff hcatch] at hall
    rw [hcatches] at hknown ⊢
    rcases hknown with hknown | hknown
    · exact sameCaught_iff_of_hasJoins (ClassPath.hasJoins_nodes hobject) hall hclasses hknown
    · exact sameCaught_iff_of_hasJoins (ClassPath.hasJoins_ancestry hobject hcp hacyclic) hall
        hclasses hknown

end Subject

/-! ## Exceptions with an interface -/

/-- Two classes of exceptions that implement one interface. -/
def thrown : ClassPath := .ofClasses
  [{ ty := .cls "I", flags := .ofList [.interface], superclass? := some CoreClasses.objectTy },
    { ty := .cls "A", superclass? := some (.cls "java/lang/Throwable"), interfaces := [.cls "I"] },
    { ty := .cls "B", superclass? := some (.cls "java/lang/Throwable"), interfaces := [.cls "I"] }]
  defaultLevel

theorem classesOnly_thrown : thrown.ClassesOnly :=
  ClassPath.classesOnly_of_defs (by decide +kernel)

theorem acyclic_thrown (d : String) : ¬ thrown.OnCycle d :=
  ClassPath.not_onCycle_of_rank (ClassPath.layerRank RegType.belowInterface) (by decide +kernel) d

theorem rooted_thrown : thrown.Rooted objectClass ∧ thrown.Rooted "LA;" ∧ thrown.Rooted "LB;" ∧
    thrown.Rooted "LI;" := by
  have hobject : thrown.Rooted objectClass := ClassPath.rooted_object rfl rfl rfl rfl
  have hi : thrown.Rooted "LI;" := by
    refine ClassPath.rooted_of_superclass rfl rfl rfl rfl hobject hobject.not_isInterface_object ?_
      fun _ => ⟨rfl, rfl⟩
    rintro t ⟨⟩
  have hserializable : thrown.CompleteTy CoreClasses.serializableTy := by
    refine ⟨serializableClass, rfl, ClassPath.complete_of_declared rfl ?_ ?_⟩
    · rintro t ⟨⟩
    · rintro t ⟨⟩
  have hthrowable : thrown.Rooted throwableClass := by
    refine ClassPath.rooted_of_superclass rfl rfl rfl rfl hobject hobject.not_isInterface_object
      (fun t ht => ?_) (by decide)
    cases List.mem_singleton.1 ht
    exact hserializable
  have hclass : ¬ thrown.IsInterface throwableClass := by
    rw [ClassPath.isInterface_iff rfl]
    decide
  have below (t : Ty) (ht : t ∈ [Ty.cls "I"]) : thrown.CompleteTy t := by
    cases List.mem_singleton.1 ht
    exact ⟨"LI;", rfl, hi.complete⟩
  exact ⟨hobject,
    ClassPath.rooted_of_superclass rfl rfl rfl rfl hthrowable hclass below (by decide),
    ClassPath.rooted_of_superclass rfl rfl rfl rfl hthrowable hclass below (by decide), hi⟩

theorem proper_thrown : thrown.Proper (.cls "LA;") ∧ thrown.Proper (.cls "LX;") := by
  have hA : thrown.superclassChain (.cls "LA;") = .ok [.cls throwableClass, .cls objectClass] :=
    ok_of_toOption (by decide +kernel)
  have hX : thrown.superclassChain (.cls "LX;") = .ok [.unknown] :=
    ok_of_toOption (by decide +kernel)
  exact ⟨ClassPath.proper_of_defs trivial rfl hA (by decide +kernel),
    ClassPath.proper_of_defs trivial rfl hX (by decide +kernel)⟩

/-- A method with two protected ranges, whose handlers all have their code at one address. -/
def protecting (first second : List (Option Ty)) : Subject where
  classPath := thrown
  inline? := none
  cls := { ty := .cls "A" }
  method := ⟨.cls "A", "m", [], .void⟩
  body := ⟨1, [], [⟨⟨0⟩, 1, first.map fun ty? => ⟨ty?, ⟨6⟩⟩⟩,
    ⟨⟨1⟩, 1, second.map fun ty? => ⟨ty?, ⟨6⟩⟩⟩]⟩
  graph := ⟨[], [], []⟩

/-- The types that are caught here, one of a missing class among them. -/
def caughtTys : List (Option Ty) :=
  [none, some (.cls "A"), some (.cls "B"), some (.cls "I"), some (.cls "X"),
    some (.cls "java/lang/String")]

section Protecting

variable {first second first' second' : List (Option Ty)}

theorem handlersInto_protecting (first second : List (Option Ty)) :
    (protecting first second).handlersInto ⟨6⟩ = (first ++ second).map fun ty? => ⟨ty?, ⟨6⟩⟩ := by
  have hall : (protecting first second).body.tries.flatMap TryRange.handlers =
      (first ++ second).map fun ty? => ⟨ty?, ⟨6⟩⟩ := by simp [protecting]
  rw [Subject.handlersInto, hall, List.filter_eq_self]
  intro handler hmem
  obtain ⟨ty?, _, rfl⟩ := List.mem_map.1 hmem
  rfl

theorem catchClasses_protecting (h : first ++ second ⊆ caughtTys) :
    CatchClasses ((protecting first second).handlersInto ⟨6⟩) := by
  have hnodes : ∀ ty? ∈ caughtTys, ∀ ty ∈ ty?,
      (TypeNode.ofTy ty).toOption = some (.cls ty.descriptor) := by decide +kernel
  rw [handlersInto_protecting]
  intro handler hmem hty
  obtain ⟨ty?, hty?, rfl⟩ := List.mem_map.1 hmem
  obtain ⟨ty, rfl⟩ := Option.ne_none_iff_exists'.1 hty
  exact ⟨_, hnodes _ (h hty?) ty rfl, trivial⟩

theorem reorders_protecting (h : (first ++ second).Perm (first' ++ second')) :
    (protecting first second).Reorders (protecting first' second') ⟨6⟩ := by
  refine ⟨rfl, ?_⟩
  rw [handlersInto_protecting, handlersInto_protecting]
  exact h.map _

/-- What holds of the classes of all handlers holds of all caught classes. -/
theorem forall_catches_protecting {P : TypeNode → Prop}
    (h : ∀ ty? ∈ first ++ second, ∀ ty ∈ ty?, ∀ n ∈ (TypeNode.ofTy ty).toOption, P n)
    (n : TypeNode) (hn : (protecting first second).Catches ⟨6⟩ n) : P n := by
  obtain ⟨handler, hmem, hn⟩ := hn
  rw [handlersInto_protecting] at hmem
  obtain ⟨ty?, hty?, rfl⟩ := List.mem_map.1 hmem
  obtain ⟨ty, rfl, hty⟩ := Option.bind_eq_some_iff.1 hn
  exact h _ hty? ty rfl n hty

end Protecting

/-- Exceptions of known classes and all others may be caught in any order, and so may exceptions of
a known class and of a missing one, but not exceptions of two classes and of the interface that both
implement. -/
theorem caught_order_irrelevant_iff_thrown :
    (protecting [some (.cls "A"), some (.cls "B")] [none]).OrderFree ⟨6⟩ ∧
      (protecting [some (.cls "A")] [some (.cls "X")]).OrderFree ⟨6⟩ ∧
      ¬ (protecting [some (.cls "A"), some (.cls "B")] [some (.cls "I")]).OrderFree ⟨6⟩ := by
  obtain ⟨hobject, hA, hB, hI⟩ := rooted_thrown
  have criterion (first second : List (Option Ty)) (h : first ++ second ⊆ caughtTys)
      (hne : (first ++ second).map (⟨·, ⟨6⟩⟩ : Option Ty → Handler) ≠ []) :=
    (protecting first second).caught_order_irrelevant_iff ⟨6⟩ classesOnly_thrown acyclic_thrown
      (handlersInto_protecting first second ▸ hne) (catchClasses_protecting h)
  refine ⟨?_, ?_, fun hfree => ?_⟩
  · have hall := (criterion [some (.cls "A"), some (.cls "B")] [none] (by simp [caughtTys])
      (by simp)).2.1 ⟨⟨none, ⟨6⟩⟩, by decide, rfl⟩
    exact hall.2 (forall_catches_protecting (by decide +kernel))
  · have hclasses : ∀ n, (protecting [some (.cls "A")] [some (.cls "X")]).Catches ⟨6⟩ n →
        n ∈ [TypeNode.cls "LA;", .cls "LX;"] := forall_catches_protecting (by decide +kernel)
    have hproper : ∀ n ∈ [TypeNode.cls "LA;", .cls "LX;"], thrown.Proper n := by
      simpa using proper_thrown
    have hthree := (criterion [some (.cls "A")] [some (.cls "X")] (by simp [caughtTys])
      (by simp)).2.2 (by unfold Subject.CatchesAll; decide) hobject
      (.inr fun n hn => hproper n (hclasses n hn))
    obtain ⟨hjoins, hlast⟩ : (∀ p ∈ [TypeNode.cls "LA;", .cls "LX;"],
          ∀ q ∈ [TypeNode.cls "LA;", .cls "LX;"], ∀ r ∈ [TypeNode.cls "LA;", .cls "LX;"],
          thrown.joinOf (thrown.joinOf p q) r ∈ [TypeNode.cls "LA;", .cls "LX;", .unknown]) ∧
        ∀ n ∈ [TypeNode.cls "LA;", .cls "LX;", .unknown],
          thrown.joinOf (.cls "LA;") n = n → thrown.joinOf (.cls "LX;") n = n →
          ∀ k ∈ [TypeNode.cls "LA;", .cls "LX;", .unknown], thrown.joinOf k n = n := by
      decide +kernel
    refine hthree.2 ?_
    rintro _ _ ⟨p, q, r, hp, hq, hr, rfl⟩ ⟨p', q', r', hp', hq', hr', rfl⟩ hbound
    exact hlast _ (hjoins p (hclasses p hp) q (hclasses q hq) r (hclasses r hr))
      (hbound _ ⟨⟨some (.cls "A"), ⟨6⟩⟩, by decide, rfl⟩)
      (hbound _ ⟨⟨some (.cls "X"), ⟨6⟩⟩, by decide, rfl⟩) _
      (hjoins p' (hclasses p' hp') q' (hclasses q' hq') r' (hclasses r' hr'))
  · have hclasses : ∀ n, (protecting [some (.cls "A"), some (.cls "B")]
        [some (.cls "I")]).Catches ⟨6⟩ n → n ∈ [TypeNode.cls "LA;", .cls "LB;", .cls "LI;"] :=
      forall_catches_protecting (by decide +kernel)
    have hrooted : ∀ n ∈ [TypeNode.cls "LA;", .cls "LB;", .cls "LI;"], thrown.RootedNode n := by
      simpa using ⟨hA, hB, hI⟩
    have hthree := (criterion [some (.cls "A"), some (.cls "B")] [some (.cls "I")]
      (by simp [caughtTys]) (by simp)).2.2 (by unfold Subject.CatchesAll; decide) hobject
      (.inl fun n hn => hrooted n (hclasses n hn))
    have hI : (protecting [some (.cls "A"), some (.cls "B")] [some (.cls "I")]).Catches ⟨6⟩
        (.cls "LI;") := ⟨⟨some (.cls "I"), ⟨6⟩⟩, by decide, rfl⟩
    -- the interface is above all three, and the classes meet in the root class
    have hbound := hthree.1 hfree (.cls "LI;") (.cls objectClass)
      ⟨_, _, _, hI, hI, hI, by decide +kernel⟩
      ⟨.cls "LA;", .cls "LB;", _, ⟨⟨some (.cls "A"), ⟨6⟩⟩, by decide, rfl⟩,
        ⟨⟨some (.cls "B"), ⟨6⟩⟩, by decide, rfl⟩, hI, by decide +kernel⟩
      (forall_catches_protecting (by decide +kernel))
    exact absurd hbound (by decide +kernel)

/-- The type depends on the order if a handler for all exceptions and one for a missing class have
their code at one address, if two classes lose the interface that is caught too, and if two classes
meet in the root class before or after a missing class comes. -/
theorem caught_type_depends_on_order :
    let a : Addr := ⟨6⟩
    let missing : Option Ty := some (.cls "X")
    let string : Option Ty := some (.cls "java/lang/String")
    (protecting [none] [missing]).Reorders (protecting [missing] [none]) a ∧
      (protecting [missing] [none]).Fetches a (.reference (.cls throwableClass)) ∧
      (protecting [none] [missing]).Fetches a (.reference .unknown) ∧
      (protecting [some (.cls "A"), some (.cls "I")] [some (.cls "B")]).Reorders
        (protecting [some (.cls "A"), some (.cls "B")] [some (.cls "I")]) a ∧
      (protecting [some (.cls "A"), some (.cls "B")] [some (.cls "I")]).Fetches a
        (.reference (.cls objectClass)) ∧
      (protecting [some (.cls "A"), some (.cls "I")] [some (.cls "B")]).Fetches a
        (.reference (.cls "LI;")) ∧
      (protecting [some (.cls "A"), missing] [string]).Reorders
        (protecting [some (.cls "A"), string] [missing]) a ∧
      (protecting [some (.cls "A"), string] [missing]).Fetches a
        (.reference (.cls objectClass)) ∧
      (protecting [some (.cls "A"), missing] [string]).Fetches a (.reference .unknown) := by
  intro a missing string
  let classes (first second : List (Option Ty)) : List (Option TypeNode) :=
    ((protecting first second).handlersInto a).map Handler.node?
  have fetches {first second : List (Option Ty)} {n : TypeNode} (h : first ++ second ⊆ caughtTys)
      (hn : caughtNode? thrown (classes first second) = some n) :
      (protecting first second).Fetches a (.reference n) :=
    Subject.fetches_of_caughtNode? classesOnly_thrown acyclic_thrown (catchClasses_protecting h) hn
  obtain ⟨h₁, h₂, h₃, h₄, h₅, h₆⟩ :
      caughtNode? thrown (classes [missing] [none]) = some (.cls throwableClass) ∧
      caughtNode? thrown (classes [none] [missing]) = some .unknown ∧
      caughtNode? thrown (classes [some (.cls "A"), some (.cls "B")] [some (.cls "I")]) =
        some (.cls objectClass) ∧
      caughtNode? thrown (classes [some (.cls "A"), some (.cls "I")] [some (.cls "B")]) =
        some (.cls "LI;") ∧
      caughtNode? thrown (classes [some (.cls "A"), string] [missing]) =
        some (.cls objectClass) ∧
      caughtNode? thrown (classes [some (.cls "A"), missing] [string]) = some .unknown := by
    decide +kernel
  exact ⟨reorders_protecting (.swap _ _ _), fetches (by simp [caughtTys, missing]) h₁,
    fetches (by simp [caughtTys, missing]) h₂, reorders_protecting (.cons _ (.swap _ _ _)),
    fetches (by simp [caughtTys]) h₃, fetches (by simp [caughtTys]) h₄,
    reorders_protecting (.cons _ (.swap _ _ _)), fetches (by simp [caughtTys, missing, string]) h₅,
    fetches (by simp [caughtTys, missing, string]) h₆⟩

end Analysis

end Dalvik
