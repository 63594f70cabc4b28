import Dalvik.FlowGraph.Basic
import Dalvik.Proofs.Monads

/-!
# Paths of a flow graph

`FlowGraph.Path` is a walk along the edges of a flow graph that only visits some of the
instructions.

A graph is built by closing lists of successors under handlers (`mem_close`) and by looking at
what is found this way, lowest index first.  The order does not matter in the end: `Built` says
which instructions have successors and which ones these are, and `Faulty` what is wrong with a
body without a graph.  So edges lead to instructions of the body (`successors_lt_of_build`), and
every instruction that counts as reachable has a path from the start node (`path_of_isReachable`).
-/

namespace Dalvik

/-! ## Worklists as sets -/

namespace Worklist

instance : Membership Nat Worklist := ⟨fun w i => i ∈ w.items⟩

variable {w : Worklist} {i n : Nat} {items ns : List Nat}

@[simp] theorem not_mem_empty : i ∉ empty := List.not_mem_nil

@[simp] theorem contains_iff : w.contains i = true ↔ i ∈ w := List.contains_iff_mem

theorem mem_insertItem : i ∈ insertItem n items ↔ i = n ∨ i ∈ items := by
  induction items with
  | nil => simp [insertItem]
  | cons m rest ih =>
    unfold insertItem
    split
    · simp
    · split
      · next hn => simp [hn]
      · simp only [List.mem_cons, ih]
        exact or_left_comm

@[simp] theorem mem_insert : i ∈ w.insert n ↔ i = n ∨ i ∈ w := mem_insertItem

@[simp] theorem mem_insertAll : i ∈ w.insertAll ns ↔ i ∈ ns ∨ i ∈ w := by
  induction ns generalizing w with
  | nil => simp [insertAll]
  | cons n rest ih =>
    have := ih (w := w.insert n)
    simp only [insertAll, List.foldl_cons] at this ⊢
    rw [this, mem_insert, List.mem_cons]
    exact or_left_comm.trans or_assoc.symm

@[simp] theorem mem_erase : i ∈ w.erase n ↔ i ∈ w ∧ i ≠ n := by
  show i ∈ w.items.filter (· != n) ↔ i ∈ w.items ∧ i ≠ n
  simp

end Worklist

/-! ## Paths -/

namespace FlowGraph

variable {g : FlowGraph} {via via' : Nat → Prop} {n : NodeId} {i : Nat}

/-- A walk from a node to an instruction, all of whose instructions have a property.  The node it
starts from need not have it. -/
inductive Path (g : FlowGraph) (via : Nat → Prop) (n : NodeId) : Nat → Prop where
  | edge {k : Nat} (hk : k ∈ g.successors n) (via_k : via k) : Path g via n k
  | step {j k : Nat} (h : Path g via n j) (hk : k ∈ g.successors (.instr j)) (via_k : via k) :
    Path g via n k

/-- A walk may be told to visit more. -/
theorem Path.mono (hvia : ∀ k, via k → via' k) (h : g.Path via n i) : g.Path via' n i := by
  induction h with
  | edge hk hv => exact .edge hk (hvia _ hv)
  | step _ hk hv ih => exact .step ih hk (hvia _ hv)

/-- Whether an instruction lies on a cycle. -/
def OnCycle (g : FlowGraph) (i : Nat) : Prop := g.Path (fun _ => True) (.instr i) i

/-! ## Closing under handlers -/

section Close

variable {handlers : List (List Nat)} {todo found : List Nat} {k t : Nat}

/-- What is not dropped stays. -/
theorem mem_dropWhile_of_refused {α : Type} {p : α → Bool} {l : List α} {a : α} (ha : a ∈ l)
    (hp : p a = false) : a ∈ l.dropWhile p := by
  rw [← List.takeWhile_append_dropWhile (p := p) (l := l)] at ha
  rcases List.mem_append.1 ha with htake | hdrop
  · have htaken := List.all_eq_true.1 List.all_takeWhile a htake
    rw [hp] at htaken
    cases htaken
  · exact hdrop

/-- What closing some indices under handlers adds to those that were found: what can be reached
from them over handlers without a step to one that was found. -/
inductive Added (handlers : List (List Nat)) (found todo : List Nat) : Nat → Prop where
  | todo {k : Nat} (hk : k ∈ todo) (hlt : k < handlers.length) (hnew : k ∉ found) :
    Added handlers found todo k
  | handler {j k : Nat} (h : Added handlers found todo j) (hk : k ∈ handlers.getD j [])
    (hlt : k < handlers.length) (hnew : k ∉ found) : Added handlers found todo k

theorem Added.lt (h : Added handlers found todo k) : k < handlers.length := by
  cases h with
  | todo _ hlt _ => exact hlt
  | handler _ _ hlt _ => exact hlt

/-- What is added after an index and its handlers was to be added with it. -/
theorem Added.of_rest {rest : List Nat} (ht : t ∈ todo) (hlt : t < handlers.length)
    (hnew : t ∉ found) (hrest : ∀ x ∈ rest, x ∈ todo)
    (h : Added handlers (found ++ [t]) (handlers.getD t [] ++ rest) k) :
    Added handlers found todo k := by
  have fresh : ∀ {x}, x ∉ found ++ [t] → x ∉ found :=
    fun hx hmem => hx (List.mem_append_left _ hmem)
  induction h with
  | todo hk hklt hknew =>
    rcases List.mem_append.1 hk with hk | hk
    · exact .handler (.todo ht hlt hnew) hk hklt (fresh hknew)
    · exact .todo (hrest _ hk) hklt (fresh hknew)
  | handler _ hk hklt hknew ih => exact .handler ih hk hklt (fresh hknew)

/-- What is to be added besides an index is added after it and its handlers. -/
theorem Added.rest {rest : List Nat}
    (hrest : ∀ x ∈ todo, x < handlers.length → x ∉ found → x = t ∨ x ∈ rest)
    (h : Added handlers found todo k) :
    k = t ∨ Added handlers (found ++ [t]) (handlers.getD t [] ++ rest) k := by
  have fresh : ∀ {x}, x ∉ found → x ≠ t → x ∉ found ++ [t] := by
    intro x hx hne hmem
    rcases List.mem_append.1 hmem with hmem | hmem
    · exact hx hmem
    · exact hne (List.mem_singleton.1 hmem)
  induction h with
  | @todo k hk hlt hnew =>
    by_cases hkt : k = t
    · exact .inl hkt
    · have hk' := (hrest k hk hlt hnew).resolve_left hkt
      exact .inr (.todo (List.mem_append_right _ hk') hlt (fresh hnew hkt))
  | @handler j k _ hk hlt hnew ih =>
    by_cases hkt : k = t
    · exact .inl hkt
    · rcases ih with rfl | hj
      · exact .inr (.todo (List.mem_append_left _ hk) hlt (fresh hnew hkt))
      · exact .inr (.handler hj hk hlt (fresh hnew hkt))

/-- Closing adds what can be reached over handlers, and nothing else. -/
theorem mem_close : k ∈ close handlers todo found ↔ k ∈ found ∨ Added handlers found todo k := by
  fun_induction close handlers todo found with
  | case1 todo found hdrop =>
    have none_added : ∀ {x}, ¬ Added handlers found todo x := by
      intro x hadded
      induction hadded with
      | @todo k hk hlt hnew =>
        have hkept : k ∈ [] := hdrop ▸ mem_dropWhile_of_refused hk (by simp [hnew, hlt])
        cases hkept
      | handler _ _ _ _ ih => exact ih
    exact ⟨.inl, fun h => h.resolve_right none_added⟩
  | case2 todo found t rest hdrop ih =>
    have ht := refused_of_dropWhile hdrop
    simp only [decide_eq_false_iff_not, not_or, Nat.not_le] at ht
    have hsub : ∀ x ∈ t :: rest, x ∈ todo :=
      fun x hx => (List.dropWhile_sublist _).subset (hdrop ▸ hx)
    have hrest : ∀ x ∈ todo, x < handlers.length → x ∉ found → x = t ∨ x ∈ rest := by
      intro x hx hlt hnew
      have hkept : x ∈ t :: rest := hdrop ▸ mem_dropWhile_of_refused hx (by simp [hnew, hlt])
      exact List.mem_cons.1 hkept
    rw [ih, List.mem_append, List.mem_singleton, or_assoc]
    refine or_congr_right ⟨fun h => ?_, fun h => h.rest hrest⟩
    rcases h with rfl | h
    · exact .todo (hsub k List.mem_cons_self) ht.2 ht.1
    · exact h.of_rest (hsub t List.mem_cons_self) ht.2 ht.1
        fun x hx => hsub x (List.mem_cons_of_mem t hx)

theorem close_nil : close handlers [] found = found := by
  rw [close]
  rfl

theorem lt_of_mem_close : ∀ k ∈ close handlers todo [], k < handlers.length := by
  intro k hk
  rcases mem_close.1 hk with hk | hk
  · cases hk
  · exact hk.lt

end Close

/-! ## Edges from both ends -/

section Links

variable {n m : NodeId} {t k size : Nat} {succs : List Nat} {sources : List Sources}

@[simp] theorem start_mem_nodes {s : Sources} : .start ∈ s.nodes ↔ s.start = true := by
  cases hs : s.start <;> simp [Sources.nodes, hs]

@[simp] theorem instr_mem_nodes {s : Sources} : .instr k ∈ s.nodes ↔ k ∈ s.instrs := by
  cases hs : s.start <;> simp [Sources.nodes, hs] <;> rfl

theorem not_mem_nodes_none : n ∉ Sources.none.nodes := List.not_mem_nil

theorem mem_nodes_insert {s : Sources} : n ∈ (s.insert m).nodes ↔ n = m ∨ n ∈ s.nodes := by
  cases m <;> cases n <;> simp [Sources.insert]

/-- The nodes that are noted at an index. -/
def sourcesAt (sources : List Sources) (t : Nat) : List NodeId := ((sources[t]?).getD .none).nodes

theorem length_link : (link n succs sources).length = sources.length := by
  induction succs generalizing sources with
  | nil => rfl
  | cons t rest ih => exact ih.trans (List.length_modify _ _ _)

theorem mem_sourcesAt_modify (hk : k < sources.length) :
    m ∈ sourcesAt (sources.modify k (·.insert n)) t ↔
      (m = n ∧ t = k) ∨ m ∈ sourcesAt sources t := by
  unfold sourcesAt
  rw [List.getElem?_modify]
  by_cases heq : k = t
  · subst heq
    simp [hk, mem_nodes_insert]
  · simp [heq, Ne.symm heq]

/-- A node is noted at each of its successors, and nothing else changes. -/
theorem mem_sourcesAt_link (hsuccs : ∀ k ∈ succs, k < sources.length) :
    m ∈ sourcesAt (link n succs sources) t ↔ (m = n ∧ t ∈ succs) ∨ m ∈ sourcesAt sources t := by
  induction succs generalizing sources with
  | nil => simp [link]
  | cons k rest ih =>
    obtain ⟨hk, hrest⟩ := List.forall_mem_cons.1 hsuccs
    have hlink : link n (k :: rest) sources = link n rest (sources.modify k (·.insert n)) := rfl
    rw [hlink, ih (by simpa using hrest), mem_sourcesAt_modify hk, List.mem_cons]
    constructor
    · rintro (⟨rfl, h⟩ | ⟨rfl, rfl⟩ | h)
      · exact .inl ⟨rfl, .inr h⟩
      · exact .inl ⟨rfl, .inl rfl⟩
      · exact .inr h
    · rintro (⟨rfl, rfl | h⟩ | h)
      · exact .inr (.inl ⟨rfl, rfl⟩)
      · exact .inl ⟨rfl, h⟩
      · exact .inr (.inr h)

/-- The edges found so far: those to `entry`, and those of the instructions that are done. -/
def FoundEdge (entry : List Nat) (done : List (Nat × List Nat)) : NodeId → Nat → Prop
  | .start, t => t ∈ entry
  | .instr i, t => ∃ succs, (i, succs) ∈ done ∧ t ∈ succs

/-- Every edge is noted at the instruction that it leads to, and nothing else is. -/
structure Linked (size : Nat) (entry : List Nat) (done : List (Nat × List Nat))
    (sources : List Sources) : Prop where
  length : sources.length = size
  mem : ∀ n t, n ∈ sourcesAt sources t ↔ FoundEdge entry done n t

theorem linked_start {entry : List Nat} (hentry : ∀ k ∈ entry, k < size) :
    Linked size entry [] (link .start entry (.replicate size .none)) := by
  have hlen : (List.replicate size Sources.none).length = size := List.length_replicate
  refine ⟨length_link.trans hlen, fun n t => ?_⟩
  rw [mem_sourcesAt_link (by rwa [hlen])]
  have hnone : n ∉ sourcesAt (List.replicate size .none) t := by
    unfold sourcesAt
    rw [List.getElem?_replicate]
    split <;> exact not_mem_nodes_none
  cases n <;> simp [FoundEdge, hnone]

/-- Noting the edges of one more instruction. -/
theorem Linked.step {entry : List Nat} {done : List (Nat × List Nat)} {i : Nat}
    (h : Linked size entry done sources) (hsuccs : ∀ k ∈ succs, k < size) :
    Linked size entry ((i, succs) :: done) (link (.instr i) succs sources) := by
  refine ⟨length_link.trans h.length, fun n t => ?_⟩
  rw [mem_sourcesAt_link (by rwa [h.length]), h.mem]
  cases n with
  | start => simp [FoundEdge]
  | instr j =>
    simp only [FoundEdge, NodeId.instr.injEq, List.mem_cons, Prod.mk.injEq]
    constructor
    · rintro (⟨rfl, ht⟩ | ⟨succs', hmem, ht⟩)
      · exact ⟨succs, .inl ⟨rfl, rfl⟩, ht⟩
      · exact ⟨succs', .inr hmem, ht⟩
    · rintro ⟨succs', ⟨rfl, rfl⟩ | hmem, ht⟩
      · exact .inl ⟨rfl, ht⟩
      · exact .inr ⟨succs', hmem, ht⟩

end Links

/-! ## Built graphs -/

/-- What is listed for a key is in the list. -/
theorem mem_of_lookup {done : List (Nat × List Nat)} {succs : List Nat}
    (h : done.lookup i = some succs) : (i, succs) ∈ done := by
  obtain ⟨before, rest, hdone, _⟩ := List.lookup_eq_some_iff.1 h
  simp [hdone]

theorem lookup_of_mem_keys {done : List (Nat × List Nat)} (h : i ∈ done.map Prod.fst) :
    ∃ succs, done.lookup i = some succs := by
  cases hl : done.lookup i with
  | some succs => exact ⟨succs, rfl⟩
  | none =>
    obtain ⟨p, hp, rfl⟩ := List.mem_map.1 h
    simpa using List.lookup_eq_none_iff.1 hl p hp

/-- The instructions of a body that are found from some indices. -/
inductive Visited (b : Body) (handlers : List (List Nat)) (entry : List Nat) : Nat → Prop where
  | entry {k : Nat} (hk : k ∈ entry) : Visited b handlers entry k
  | step {i k : Nat} {l : Line} {normal : List Nat} (h : Visited b handlers entry i)
    (hl : b.lines[i]? = some l) (hnormal : b.normalSuccessors i l = .ok normal)
    (hk : k ∈ close handlers normal []) : Visited b handlers entry k

/-- An instruction is found, and these are its successors. -/
def Finished (b : Body) (handlers : List (List Nat)) (entry : List Nat) (p : Nat × List Nat) :
    Prop :=
  Visited b handlers entry p.1 ∧ ∃ l normal, b.lines[p.1]? = some l ∧
    b.normalSuccessors p.1 l = .ok normal ∧ p.2 = close handlers normal []

/-- An instruction has one list of successors. -/
theorem Finished.unique {b : Body} {handlers : List (List Nat)} {entry succs succs' : List Nat}
    (h : Finished b handlers entry (i, succs)) (h' : Finished b handlers entry (i, succs')) :
    succs' = succs := by
  obtain ⟨_, l, normal, hl, hnormal, rfl⟩ := h
  obtain ⟨_, l', normal', hl', hnormal', rfl⟩ := h'
  cases hl.symm.trans hl'
  cases hnormal.symm.trans hnormal'
  rfl

section Explore

variable {b : Body} {handlers : List (List Nat)} {entry : List Nat} {i k : Nat} {e : FlowError}
  {done final : List (Nat × List Nat)} {pending : Worklist}

/-- What holds while a body is explored: what is done was found, with its successors, and what is
found next is done or pending. -/
structure Exploring (b : Body) (handlers : List (List Nat)) (entry : List Nat)
    (done : List (Nat × List Nat)) (pending : Worklist) : Prop where
  finished : ∀ p ∈ done, Finished b handlers entry p
  visited : ∀ k ∈ pending, Visited b handlers entry k
  entry : ∀ k ∈ entry, k ∈ done.map Prod.fst ∨ k ∈ pending
  next : ∀ p ∈ done, ∀ k ∈ p.2, k ∈ done.map Prod.fst ∨ k ∈ pending

variable (hlen : handlers.length = b.lines.length) (hentry : ∀ k ∈ entry, k < b.lines.length)

include hlen hentry in
/-- Only instructions of the body are found. -/
theorem Visited.lt (h : Visited b handlers entry k) : k < b.lines.length := by
  cases h with
  | entry hk => exact hentry k hk
  | step _ _ _ hk => exact hlen ▸ lt_of_mem_close k hk

include hlen hentry in
/-- What is done or pending is done, first in line, or pending after that. -/
theorem Exploring.later {rest : List Nat} (h : Exploring b handlers entry done pending)
    (hdrop : (pending.items.dropWhile fun j =>
      decide (j ∈ done.map Prod.fst ∨ b.lines.length ≤ j)) = i :: rest)
    (hk : k ∈ done.map Prod.fst ∨ k ∈ pending) : k ∈ i :: done.map Prod.fst ∨ k ∈ rest := by
  rcases hk with hk | hk
  · exact .inl (List.mem_cons_of_mem i hk)
  by_cases hdone : k ∈ done.map Prod.fst
  · exact .inl (List.mem_cons_of_mem i hdone)
  · have hlt := (h.visited k hk).lt hlen hentry
    have hkept : k ∈ i :: rest := hdrop ▸ mem_dropWhile_of_refused hk (by simp [hdone, hlt])
    rcases List.mem_cons.1 hkept with rfl | hkept
    · exact .inl List.mem_cons_self
    · exact .inr hkept

include hlen hentry in
/-- One more instruction is explored. -/
theorem Exploring.step {l : Line} {normal rest : List Nat}
    (h : Exploring b handlers entry done pending)
    (hdrop : (pending.items.dropWhile fun j =>
      decide (j ∈ done.map Prod.fst ∨ b.lines.length ≤ j)) = i :: rest)
    (hl : b.lines[i]? = some l) (hnormal : b.normalSuccessors i l = .ok normal) :
    Exploring b handlers entry ((i, close handlers normal []) :: done)
      (Worklist.insertAll ⟨rest⟩ (close handlers normal [])) := by
  have hmem : ∀ k ∈ i :: rest, k ∈ pending :=
    fun k hk => (List.dropWhile_sublist _).subset (hdrop ▸ hk)
  have hi := h.visited i (hmem i List.mem_cons_self)
  have later : ∀ {k}, k ∈ done.map Prod.fst ∨ k ∈ pending →
      k ∈ ((i, close handlers normal []) :: done).map Prod.fst ∨
        k ∈ Worklist.insertAll ⟨rest⟩ (close handlers normal []) := fun hk =>
    (h.later hlen hentry hdrop hk).imp id fun hk => Worklist.mem_insertAll.2 (.inr hk)
  refine ⟨fun p hp => ?_, fun k hk => ?_, fun k hk => later (h.entry k hk), fun p hp k hk => ?_⟩
  · rcases List.mem_cons.1 hp with rfl | hp
    · exact ⟨hi, l, normal, hl, hnormal, rfl⟩
    · exact h.finished p hp
  · rcases Worklist.mem_insertAll.1 hk with hk | hk
    · exact .step hi hl hnormal hk
    · exact h.visited k (hmem k (List.mem_cons_of_mem i hk))
  · rcases List.mem_cons.1 hp with rfl | hp
    · exact .inr (Worklist.mem_insertAll.2 (.inl hk))
    · exact later (h.next p hp k hk)

/-- When nothing is pending, all that is found is done. -/
theorem Exploring.complete (h : Exploring b handlers entry done pending)
    (hpending : ∀ k ∈ pending, k ∈ done.map Prod.fst) (hk : Visited b handlers entry k) :
    k ∈ done.map Prod.fst := by
  induction hk with
  | entry hk => exact (h.entry _ hk).elim id (hpending _)
  | @step i k l normal _ hl hnormal hk ih =>
    obtain ⟨p, hp, rfl⟩ := List.mem_map.1 ih
    obtain ⟨_, l', normal', hl', hnormal', hsuccs⟩ := h.finished p hp
    cases hl.symm.trans hl'
    cases hnormal.symm.trans hnormal'
    exact (h.next p hp k (hsuccs ▸ hk)).elim id (hpending k)

include hlen hentry in
/-- Exploring finds the successors of all instructions that can be found, unless it comes to one
whose normal successors are at fault. -/
theorem explore_spec {sources : List Sources} (h : Exploring b handlers entry done pending)
    (hlinked : Linked b.lines.length entry done sources) :
    match explore b handlers done sources pending with
    | .ok (final, sources') => (∀ p ∈ final, Finished b handlers entry p) ∧
        (∀ k, Visited b handlers entry k → k ∈ final.map Prod.fst) ∧
        Linked b.lines.length entry final sources'
    | .error e => ∃ i l, Visited b handlers entry i ∧ b.lines[i]? = some l ∧
        b.normalSuccessors i l = .error e := by
  fun_induction explore b handlers done sources pending with
  | case1 done sources pending hdrop =>
    refine ⟨h.finished, fun k hk => h.complete (fun j hj => ?_) hk, hlinked⟩
    by_cases hdone : j ∈ done.map Prod.fst
    · exact hdone
    · have hlt := (h.visited j hj).lt hlen hentry
      have hkept : j ∈ [] := hdrop ▸ mem_dropWhile_of_refused hj (by simp [hdone, hlt])
      cases hkept
  | case2 done sources pending i rest hdrop hi e herror =>
    refine ⟨i, b.lines[i], h.visited i ?_, by simp, herror⟩
    exact (List.dropWhile_sublist _).subset (hdrop ▸ List.mem_cons_self)
  | case3 done sources pending i rest hdrop hi normal hnormal succs ih =>
    exact ih (h.step hlen hentry hdrop (by simp) hnormal)
      (hlinked.step fun k hk => hlen ▸ lt_of_mem_close k hk)

end Explore

/-- The parts of a graph that was built. -/
structure Built (b : Body) (handlers : List (List Nat)) (g : FlowGraph) : Prop where
  lines : b.lines ≠ []
  handled : b.lines.mapM b.handlersOf = .ok handlers
  first : b.checkEdge "start-of-method" .entry 0 = .ok ()
  entry : g.entry = close handlers [0] []
  size : g.succs.length = b.lines.length
  listed : ∀ {i succs}, g.succs[i]? = some (some succs) ↔ Finished b handlers g.entry (i, succs)
  finished : ∀ {i}, Visited b handlers g.entry i → ∃ succs, Finished b handlers g.entry (i, succs)
  linked : ∀ {n t}, n ∈ g.predecessors t ↔ t ∈ g.successors n

/-- What is wrong with a body that has no graph. -/
inductive Faulty (b : Body) (e : FlowError) : Prop where
  | empty (h : b.lines = [])
  | handlers (h : b.lines.mapM b.handlersOf = .error e)
  | first (h : b.checkEdge "start-of-method" .entry 0 = .error e)
  | visited {handlers : List (List Nat)} {i : Nat} {l : Line}
    (hhandlers : b.lines.mapM b.handlersOf = .ok handlers)
    (hi : Visited b handlers (close handlers [0] []) i) (hl : b.lines[i]? = some l)
    (h : b.normalSuccessors i l = .error e)

/-- The successors that are listed for an instruction of the body. -/
theorem getElem?_lookup {n : Nat} {done : List (Nat × List Nat)} {succs : List Nat} :
    ((List.range n).map fun i => done.lookup i)[i]? = some (some succs) ↔
      i < n ∧ done.lookup i = some succs := by
  rw [List.getElem?_map, Option.map_eq_some_iff]
  constructor
  · rintro ⟨j, hj, hl⟩
    obtain ⟨hlt, rfl⟩ := List.getElem?_eq_some_iff.1 hj
    simp only [List.length_range, List.getElem_range] at hlt hl
    exact ⟨hlt, hl⟩
  · rintro ⟨hlt, hl⟩
    exact ⟨i, by simp [hlt], hl⟩

section Build

variable {b : Body} {handlers : List (List Nat)}

/-- In the beginning what follows the start node is pending. -/
theorem exploring_start (b : Body) (handlers : List (List Nat)) (entry : List Nat) :
    Exploring b handlers entry [] (Worklist.empty.insertAll entry) :=
  ⟨by simp, fun k hk => .entry (by simpa using hk), fun k hk => .inr (by simpa using hk), by simp⟩

theorem built_of_build (h : build b = .ok g) : ∃ handlers, Built b handlers g := by
  unfold build at h
  split at h
  · cases h
  next hlines =>
  obtain ⟨handlers, hhandlers, h⟩ := except_bind_ok.1 h
  obtain ⟨_, hfirst, h⟩ := except_bind_ok.1 h
  obtain ⟨⟨done, sources⟩, hdone, h⟩ := except_bind_ok.1 h
  cases h
  have hlen := length_of_mapM_ok hhandlers
  have hentry : ∀ k ∈ close handlers [0] [], k < b.lines.length := hlen ▸ lt_of_mem_close
  have hexplore := explore_spec hlen hentry (exploring_start b handlers _) (linked_start hentry)
  rw [hdone] at hexplore
  obtain ⟨hfinished, hcomplete, hlinked⟩ := hexplore
  have hlookup : ∀ {i}, Visited b handlers (close handlers [0] []) i → ∃ succs,
      done.lookup i = some succs ∧ Finished b handlers (close handlers [0] []) (i, succs) := by
    intro i hi
    obtain ⟨succs, hl⟩ := lookup_of_mem_keys (hcomplete i hi)
    exact ⟨succs, hl, hfinished _ (mem_of_lookup hl)⟩
  have hlisted : ∀ {i succs}, ((List.range b.lines.length).map fun i => done.lookup i)[i]? =
      some (some succs) ↔ Finished b handlers (close handlers [0] []) (i, succs) := by
    intro i succs
    rw [getElem?_lookup]
    constructor
    · rintro ⟨_, hl⟩
      exact hfinished _ (mem_of_lookup hl)
    · intro hfin
      obtain ⟨succs', hl, hfin'⟩ := hlookup hfin.1
      exact ⟨hfin.1.lt hlen hentry, hfin.unique hfin' ▸ hl⟩
  refine ⟨handlers, hlines, hhandlers, hfirst, rfl, by simp, hlisted, ?finished, ?linked⟩
  case finished =>
    intro i hi
    obtain ⟨succs, _, hfin⟩ := hlookup hi
    exact ⟨succs, hfin⟩
  case linked =>
    intro n t
    refine (hlinked.mem n t).trans ?_
    cases n with
    | start => rfl
    | instr i =>
      -- an instruction is done once, with the successors that are listed for it
      constructor
      · rintro ⟨succs, hmem, ht⟩
        simp only [successors, hlisted.2 (hfinished _ hmem)]
        exact ht
      · intro ht
        rcases hs : ((List.range b.lines.length).map fun i => done.lookup i)[i]? with _ | _ | succs
          <;> simp only [successors, hs] at ht
        · cases ht
        · cases ht
        · exact ⟨succs, mem_of_lookup (getElem?_lookup.1 hs).2, ht⟩

theorem faulty_of_build {e : FlowError} (h : build b = .error e) : Faulty b e := by
  unfold build at h
  split at h
  · next hlines => exact .empty hlines
  rcases except_bind_error.1 h with hhandlers | ⟨handlers, hhandlers, h⟩
  · exact .handlers hhandlers
  rcases except_bind_error.1 h with hfirst | ⟨_, _, h⟩
  · exact .first hfirst
  rcases except_bind_error.1 h with hdone | ⟨done, _, h⟩
  · have hlen := length_of_mapM_ok hhandlers
    have hentry : ∀ k ∈ close handlers [0] [], k < b.lines.length := hlen ▸ lt_of_mem_close
    have hexplore := explore_spec hlen hentry (exploring_start b handlers _) (linked_start hentry)
    rw [hdone] at hexplore
    obtain ⟨i, l, hi, hl, herror⟩ := hexplore
    exact .visited hhandlers hi hl herror
  · cases h

namespace Built

variable (h : Built b handlers g)
include h

theorem length_handlers : handlers.length = b.lines.length := length_of_mapM_ok h.handled

theorem lt_of_mem_entry : ∀ k ∈ g.entry, k < b.lines.length := by
  rw [h.entry, ← h.length_handlers]
  exact lt_of_mem_close

theorem lt_of_visited (hi : Visited b handlers g.entry i) : i < b.lines.length :=
  hi.lt h.length_handlers h.lt_of_mem_entry

/-- The successors of an instruction that is found. -/
theorem successors_of_finished {succs : List Nat} (hi : Finished b handlers g.entry (i, succs)) :
    g.successors (.instr i) = succs := by
  simp [successors, h.listed.2 hi]

/-- An instruction that is not found has no successors. -/
theorem visited_of_mem_successors {k : Nat} (hk : k ∈ g.successors (.instr i)) :
    Visited b handlers g.entry i := by
  unfold successors at hk
  rcases hs : g.succs[i]? with _ | _ | succs <;> simp only [hs] at hk
  · cases hk
  · cases hk
  · exact (h.listed.1 hs).1

/-- The instructions that count as reachable are those that are found. -/
theorem isReachable_iff : g.isReachable i = true ↔ Visited b handlers g.entry i := by
  have hfollows : g.isReachable i = true ↔ ∃ n, i ∈ g.successors n := by
    simp only [isReachable, Bool.not_eq_true', List.isEmpty_eq_false_iff, ← h.linked]
    exact ⟨List.exists_mem_of_ne_nil _, fun ⟨n, hn⟩ => List.ne_nil_of_mem hn⟩
  rw [hfollows]
  constructor
  · rintro ⟨n, hi⟩
    cases n with
    | start => exact .entry hi
    | instr j =>
      have hj := h.visited_of_mem_successors hi
      obtain ⟨succs, hfin⟩ := h.finished hj
      rw [h.successors_of_finished hfin] at hi
      obtain ⟨_, l, normal, hl, hnormal, rfl⟩ := hfin
      exact .step hj hl hnormal hi
  · intro hi
    cases hi with
    | entry hi => exact ⟨.start, hi⟩
    | @step j _ l normal hj hl hnormal hi =>
      exact ⟨.instr j, h.successors_of_finished ⟨hj, l, normal, hl, hnormal, rfl⟩ ▸ hi⟩

end Built

end Build

/-- Edges lead to instructions of the body. -/
theorem successors_lt_of_build {b : Body} (h : build b = .ok g) :
    ∀ k ∈ g.successors n, k < b.lines.length := by
  obtain ⟨handlers, hb⟩ := built_of_build h
  intro k hk
  cases n with
  | start => exact hb.lt_of_mem_entry k hk
  | instr i =>
    obtain ⟨succs, hfin⟩ := hb.finished (hb.visited_of_mem_successors hk)
    rw [hb.successors_of_finished hfin] at hk
    obtain ⟨hi, l, normal, hl, hnormal, rfl⟩ := hfin
    exact hb.lt_of_visited (.step hi hl hnormal hk)

/-- Edges come from instructions of the body. -/
theorem lt_of_mem_successors {b : Body} {k : Nat} (h : build b = .ok g)
    (hk : k ∈ g.successors (.instr i)) : i < b.lines.length := by
  obtain ⟨handlers, hb⟩ := built_of_build h
  exact hb.lt_of_visited (hb.visited_of_mem_successors hk)

/-- Edges lead from what is reached to what is reached. -/
theorem isReachable_of_edge {b : Body} {t : Nat} (h : build b = .ok g)
    (ht : t ∈ g.successors (.instr i)) :
    g.isReachable i = true ∧ g.isReachable t = true := by
  obtain ⟨handlers, hg⟩ := built_of_build h
  have hi := hg.visited_of_mem_successors ht
  obtain ⟨succs, hfin⟩ := hg.finished hi
  rw [hg.successors_of_finished hfin] at ht
  obtain ⟨_, l, ns, hl, hnormal, rfl⟩ := hfin
  exact ⟨hg.isReachable_iff.2 hi, hg.isReachable_iff.2 (.step hi hl hnormal ht)⟩

/-- There is a path from the start node to every instruction that counts as reachable. -/
theorem path_of_isReachable {b : Body} (h : build b = .ok g) (hi : g.isReachable i = true) :
    g.Path (fun _ => True) .start i := by
  obtain ⟨handlers, hb⟩ := built_of_build h
  have hvisited := hb.isReachable_iff.1 hi
  clear hi
  induction hvisited with
  | entry hk => exact .edge hk trivial
  | @step j k l normal hj hl hnormal hk ih =>
    have hsuccs : g.successors (.instr j) = close handlers normal [] :=
      hb.successors_of_finished ⟨hj, l, normal, hl, hnormal, rfl⟩
    exact .step ih (hsuccs ▸ hk) trivial

end FlowGraph

end Dalvik
