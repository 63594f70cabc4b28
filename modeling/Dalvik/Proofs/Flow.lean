import Dalvik.Proofs.Placement

/-!
# Flow as declared

What can follow what in a body is said here without building a graph.  `Body.NormalEdge` has the
normal successors of an instruction, `Body.Catches` its handlers if it can throw, and `Body.Flows`
the successors of a node: its normal successors, closed under going on to handlers.
`Body.Defective` has what can be wrong with the normal successors of an instruction.

An instruction without a size shares its address with the next one, and where addresses run out
they start again from the first one.  If every instruction takes space and there are addresses
enough (`Body.Fits`), an address is that of at most one instruction.  Then the graph of a body has
exactly the declared edges (`graph_is_declared_flow`), and a body has a graph unless something is
wrong with an instruction that can be reached, or with a handler of any instruction
(`build_fails_iff`).  Where addresses run out, the search for an address may end at another
instruction there (`wrapped_jump_astray`), or at none (`misplaced_has_no_graph`).
-/

namespace Dalvik

namespace Body

/-! ## Places -/

/-- The instruction at an index starts at an address. -/
def Starts (b : Body) (a : Addr) (i : Nat) : Prop := ∃ l, b.lines[i]? = some l ∧ l.addr = a

/-- An offset from an address leads to the instruction at an index.  It may not lead before the
first address, and past the last one it leads on from the first. -/
def Leads (b : Body) (a : Addr) (offset : Int) (i : Nat) : Prop :=
  ∃ l, b.lines[i]? = some l ∧ 0 ≤ a.toNat + offset ∧
    (l.addr.toNat : Int) = (a.toNat + offset) % Addr.space

/-- A range is the first one around an address. -/
def Guards (b : Body) (a : Addr) (range : TryRange) : Prop :=
  range.covers a = true ∧ ∃ before rest, b.tries = before ++ range :: rest ∧
    ∀ t ∈ before, t.covers a = false

/-! ## Edges -/

/-- The offset of the instruction of a line leads to a table with some offsets. -/
def Table (b : Body) (l : Line) (offsets : List Int) : Prop :=
  ∃ offset k table, l.instr.targetOffset? = some offset ∧ b.Leads l.addr offset k ∧
    b.lines[k]? = some table ∧ table.instr.tableTargets? = some offsets

/-- Where the instruction of a line jumps to.  The offsets in the table of a switch count from the
switch. -/
inductive Jumps (b : Body) (l : Line) : Nat → Prop where
  | direct {offset : Int} {t : Nat} (hbranch : l.instr.isBranch = true)
    (hswitch : l.instr.isSwitch = false) (hoffset : l.instr.targetOffset? = some offset)
    (ht : b.Leads l.addr offset t) : Jumps b l t
  | table {target : Int} {t : Nat} {offsets : List Int} (hswitch : l.instr.isSwitch = true)
    (htable : b.Table l offsets) (htarget : target ∈ offsets) (ht : b.Leads l.addr target t) :
    Jumps b l t

/-- The normal successors of an instruction: the next one if it can continue, and those it jumps
to. -/
def NormalEdge (b : Body) (i t : Nat) : Prop :=
  ∃ l, b.lines[i]? = some l ∧ ((l.instr.canContinue = true ∧ t = i + 1) ∨ b.Jumps l t)

/-- An instruction can throw, and a handler of the first range around it starts at an index. -/
def Catches (b : Body) (t h : Nat) : Prop :=
  ∃ l range handler, b.lines[t]? = some l ∧ l.instr.canThrow = true ∧ b.Guards l.addr range ∧
    handler ∈ range.handlers ∧ b.Starts handler.addr h

/-- Some instructions, and with each instruction its handlers. -/
inductive Follows (b : Body) (first : Nat → Prop) : Nat → Prop where
  | first {t : Nat} (ht : first t) : Follows b first t
  | handler {t h : Nat} (ht : Follows b first t) (hh : b.Catches t h) : Follows b first h

/-- The normal successors of a node. -/
def First (b : Body) : NodeId → Nat → Prop
  | .start => (· = 0)
  | .instr i => b.NormalEdge i

/-- The successors of a node. -/
def Flows (b : Body) (n : NodeId) : Nat → Prop := b.Follows (b.First n)

/-- The instructions that can be reached from the start node. -/
inductive Reached (b : Body) : Nat → Prop where
  | start {t : Nat} (ht : b.Flows .start t) : Reached b t
  | step {i t : Nat} (h : Reached b i) (ht : b.Flows (.instr i) t) : Reached b t

/-! ## Defects -/

/-- Normal flow may enter the instruction at an index: it does not fetch an exception. -/
def Enterable (b : Body) (t : Nat) : Prop :=
  ∀ l, b.lines[t]? = some l → l.instr.isMoveException = false

/-- A jump, or the offset of a switch, leads to no instruction, or a switch leads to no table, or an
offset in its table leads to no instruction. -/
inductive BadJump (b : Body) (l : Line) : Prop where
  | target {offset : Int} (hbranch : l.instr.isBranch = true)
    (hoffset : l.instr.targetOffset? = some offset) (h : ∀ t, ¬ b.Leads l.addr offset t)
  | noTable {offset : Int} {k : Nat} {table : Line} (hswitch : l.instr.isSwitch = true)
    (hoffset : l.instr.targetOffset? = some offset) (hk : b.Leads l.addr offset k)
    (htable : b.lines[k]? = some table) (h : table.instr.tableTargets? = none)
  | tableTarget {target : Int} {offsets : List Int} (hswitch : l.instr.isSwitch = true)
    (htable : b.Table l offsets) (htarget : target ∈ offsets)
    (h : ∀ t, ¬ b.Leads l.addr target t)

/-- What can be wrong with an instruction: it continues past the end, an instruction that fetches
an exception is a normal successor of it, or it jumps to nowhere. -/
inductive Defective (b : Body) (i : Nat) : Prop where
  | pastEnd {l : Line} (hl : b.lines[i]? = some l) (h : l.instr.canContinue = true)
    (hlast : i + 1 = b.lines.length)
  | fetches {t : Nat} {l : Line} (ht : b.NormalEdge i t) (hl : b.lines[t]? = some l)
    (h : l.instr.isMoveException = true)
  | jump {l : Line} (hl : b.lines[i]? = some l) (h : b.BadJump l)

section Addresses

variable {b : Body} {a : Addr} {is : List Instr} {ls : List Line} {l : Line} {i : Nat}

/-- The units that instructions take. -/
def extent : List Instr → Nat
  | [] => 0
  | i :: rest => i.size + extent rest

/-- Instructions that all take space, and no more of it than there is behind an address, are laid
out at increasing addresses from there on. -/
theorem increasing_layOut (hsize : ∀ i ∈ is, 0 < i.size)
    (hextent : a.toNat + extent is ≤ Addr.space) :
    (∀ l ∈ layOut a is, a.toNat ≤ l.addr.toNat) ∧
      (layOut a is).Pairwise fun l l' => l.addr.toNat < l'.addr.toNat := by
  induction is generalizing a with
  | nil => exact ⟨List.forall_mem_nil _, .nil⟩
  | cons i rest ih =>
    obtain ⟨hi, hrest⟩ := List.forall_mem_cons.1 hsize
    rw [extent] at hextent
    cases rest with
    | nil => exact ⟨by simp [layOut], List.pairwise_singleton _ _⟩
    | cons j rest =>
      -- the next instruction takes space, so its address is one before the last
      have hj : 0 < j.size := hrest j List.mem_cons_self
      have hnext : (a.advance i.size).toNat = a.toNat + i.size :=
        Addr.toNat_advance_of_lt (by rw [extent] at hextent; omega)
      obtain ⟨hle, hincreasing⟩ := ih hrest (by rw [hnext]; omega)
      have hlt : ∀ l ∈ layOut (a.advance i.size) (j :: rest), a.toNat < l.addr.toNat := by
        intro l hl
        have := hle l hl
        omega
      refine ⟨List.forall_mem_cons.2 ⟨Nat.le_refl _, fun l hl => Nat.le_of_lt (hlt l hl)⟩, ?_⟩
      exact .cons hlt hincreasing

end Addresses

/-- The instructions of a body are laid out, and all of them take space. -/
structure Spaced (b : Body) : Prop where
  laidOut : b.LaidOut
  size : ∀ instr ∈ b.instrs, 0 < instr.size

/-- The instructions of a body are laid out, all of them take space, and they take no more of it
than there are addresses. -/
structure Fits (b : Body) : Prop extends b.Spaced where
  extent : extent b.instrs ≤ Addr.space

namespace Fits

variable {b : Body} (hb : b.Fits)
include hb

/-- Each instruction has an address of its own. -/
theorem increasing : b.lines.Pairwise fun l l' => l.addr.toNat < l'.addr.toNat := by
  rw [hb.laidOut]
  exact (increasing_layOut hb.size (by simpa using hb.extent)).2

/-- The search for an address finds the instruction that starts there. -/
theorem find?_eq_some_iff {a : Addr} {i : Nat} : b.find? a = some i ↔ b.Starts a i := by
  have hkeys : (b.lines.map fun l => l.addr.toNat).Pairwise (· < ·) :=
    List.pairwise_map.2 hb.increasing
  refine ⟨line_of_find?, ?_⟩
  rintro ⟨l, hl, rfl⟩
  exact (search?_eq_some_iff hkeys).2 (by rw [List.getElem?_map, hl]; rfl)

theorem target_ok_iff {a : Addr} {offset : Int} {i : Nat} :
    b.target a offset = .ok i ↔ b.Leads a offset i := by
  have hindex : b.target a offset = .ok i ↔ (a.offset? offset).bind b.find? = some i := by
    unfold target
    cases (a.offset? offset).bind b.find? <;> simp
  rw [hindex, Option.bind_eq_some_iff]
  constructor
  · rintro ⟨a', ha', hi⟩
    obtain ⟨l, hl, rfl⟩ := hb.find?_eq_some_iff.1 hi
    exact ⟨l, hl, Addr.offset?_eq_some_iff.1 ha'⟩
  · rintro ⟨l, hl, hoffset⟩
    exact ⟨l.addr, Addr.offset?_eq_some_iff.2 hoffset, hb.find?_eq_some_iff.2 ⟨l, hl, rfl⟩⟩

end Fits

/-! ## Normal successors -/

section Jumps

variable {b : Body} {l : Line} {i t : Nat} {e : FlowError}

theorem isBranch_of_isSwitch {instr : Instr} (h : instr.isSwitch = true) :
    instr.isBranch = true := by
  cases instr with
  | switch => rfl
  | _ => cases h

/-- Only a branch with an offset jumps. -/
theorem Jumps.branches (h : b.Jumps l t) :
    l.instr.isBranch = true ∧ ∃ offset, l.instr.targetOffset? = some offset := by
  cases h with
  | direct hbranch _ hoffset _ => exact ⟨hbranch, _, hoffset⟩
  | table hswitch htable _ _ =>
    obtain ⟨offset, _, _, hoffset, _⟩ := htable
    exact ⟨isBranch_of_isSwitch hswitch, offset, hoffset⟩

theorem BadJump.branches (h : b.BadJump l) :
    l.instr.isBranch = true ∧ ∃ offset, l.instr.targetOffset? = some offset := by
  cases h with
  | target hbranch hoffset _ => exact ⟨hbranch, _, hoffset⟩
  | noTable hswitch hoffset _ _ _ => exact ⟨isBranch_of_isSwitch hswitch, _, hoffset⟩
  | tableTarget hswitch htable _ _ =>
    obtain ⟨offset, _, _, hoffset, _⟩ := htable
    exact ⟨isBranch_of_isSwitch hswitch, offset, hoffset⟩

theorem Leads.line {a : Addr} {offset : Int} (h : b.Leads a offset i) :
    ∃ l, b.lines[i]? = some l := by
  obtain ⟨l, hl, _⟩ := h
  exact ⟨l, hl⟩

theorem checkEdge_ok_iff {source : String} {a : Addr} :
    b.checkEdge source a t = .ok () ↔ b.Enterable t := by
  unfold checkEdge Enterable
  cases hl : b.lines[t]? with
  | none => simp
  | some l => cases hm : l.instr.isMoveException <;> simp [hm]

/-- What does not fail to find the next instruction finds it. -/
theorem nextOf_ok {ns : List Nat} (h : b.nextOf i l = .ok ns) :
    (∀ t, t ∈ ns ↔ l.instr.canContinue = true ∧ t = i + 1) ∧ (∀ t ∈ ns, b.Enterable t) ∧
      (l.instr.canContinue = true → i + 1 ≠ b.lines.length) := by
  unfold nextOf at h
  split at h
  · next hcont =>
    split at h
    · next hlt =>
      obtain ⟨_, hchecked, h⟩ := except_bind_ok.1 h
      cases h
      have hopen := checkEdge_ok_iff.1 hchecked
      exact ⟨by simp [hcont], by simpa using hopen, fun _ => Nat.ne_of_lt hlt⟩
    · cases h
  · next hcont =>
    cases h
    simp [hcont]

theorem Leads.lt {a : Addr} {offset : Int} (h : b.Leads a offset i) : i < b.lines.length := by
  obtain ⟨l, hl⟩ := h.line
  exact (List.getElem?_eq_some_iff.1 hl).1

/-- Unless something is wrong with an instruction, its normal successors are instructions. -/
theorem NormalEdge.lt (h : b.NormalEdge i t) (hi : ¬ b.Defective i) : t < b.lines.length := by
  obtain ⟨l, hl, ⟨hcont, rfl⟩ | hjump⟩ := h
  · have hlt := (List.getElem?_eq_some_iff.1 hl).1
    have hend : i + 1 ≠ b.lines.length := fun hlast => hi (.pastEnd hl hcont hlast)
    omega
  · cases hjump with
    | direct _ _ _ ht => exact ht.lt
    | table _ _ _ ht => exact ht.lt

theorem Catches.lt {h : Nat} (hh : b.Catches t h) : h < b.lines.length := by
  obtain ⟨_, _, _, _, _, _, _, l, hl, _⟩ := hh
  exact (List.getElem?_eq_some_iff.1 hl).1

section Plain

variable (hl : b.lines[i]? = some l) (hcont : l.instr.canContinue = false)
include hl hcont

variable {offset : Int} (hswitch : l.instr.isSwitch = false)
  (hoffset : l.instr.targetOffset? = some offset)
include hswitch hoffset

end Plain

end Jumps

namespace Fits

variable {b : Body} (hb : b.Fits) {l : Line} {i t : Nat} {e : FlowError}
include hb

theorem leads_unique {a : Addr} {offset : Int} {k k' : Nat} (h : b.Leads a offset k)
    (h' : b.Leads a offset k') : k' = k := by
  have hk := hb.target_ok_iff.2 h
  rw [hb.target_ok_iff.2 h'] at hk
  exact Except.ok.inj hk

/-- A switch has one table. -/
theorem table_unique {offset : Int} {k : Nat} {table : Line} {offsets : List Int}
    (hoffset : l.instr.targetOffset? = some offset) (hk : b.Leads l.addr offset k)
    (htable : b.lines[k]? = some table) (h : b.Table l offsets) :
    table.instr.tableTargets? = some offsets := by
  obtain ⟨offset', k', table', hoffset', hk', htable', hoffsets⟩ := h
  cases hoffset.symm.trans hoffset'
  obtain rfl := hb.leads_unique hk hk'
  cases htable.symm.trans htable'
  exact hoffsets

/-- The jumps of a switch whose table is good. -/
theorem switchTargets_ok {offset : Int} {ts : List Nat} (hswitch : l.instr.isSwitch = true)
    (hoffset : l.instr.targetOffset? = some offset)
    (h : b.switchTargets l.addr offset = .ok ts) :
    (∀ t, t ∈ ts ↔ b.Jumps l t) ∧ ¬ b.BadJump l := by
  unfold switchTargets at h
  obtain ⟨k, hk, h⟩ := except_bind_ok.1 h
  have hk := hb.target_ok_iff.1 hk
  obtain ⟨table, htable⟩ := hk.line
  cases hoffsets : table.instr.tableTargets? with
  | none =>
    simp only [htable, hoffsets] at h
    cases h
  | some offsets =>
    simp only [htable, hoffsets] at h
    have same : ∀ {offsets'}, b.Table l offsets' → offsets' = offsets := by
      intro offsets' h'
      have := hb.table_unique hoffset hk htable h'
      rw [hoffsets] at this
      exact (Option.some.inj this).symm
    constructor
    · intro t
      rw [mem_of_mapM_ok h]
      constructor
      · rintro ⟨target, htarget, ht⟩
        exact .table hswitch ⟨offset, k, table, hoffset, hk, htable, hoffsets⟩ htarget
          (hb.target_ok_iff.1 ht)
      · intro ht
        cases ht with
        | direct _ hfalse =>
          rw [hswitch] at hfalse
          cases hfalse
        | table _ htable' htarget ht =>
          exact ⟨_, same htable' ▸ htarget, hb.target_ok_iff.2 ht⟩
    · intro hbad
      cases hbad with
      | target _ hoffset' hnone =>
        cases hoffset.symm.trans hoffset'
        exact hnone k hk
      | noTable _ hoffset' hk' htable' hnone =>
        rw [hb.table_unique hoffset' hk' htable' ⟨offset, k, table, hoffset, hk, htable, hoffsets⟩]
          at hnone
        cases hnone
      | tableTarget _ htable' htarget hnone =>
        obtain ⟨t, ht⟩ := exists_ok_of_mapM_ok h (same htable' ▸ htarget)
        exact hnone t (hb.target_ok_iff.1 ht)

/-- The jump of a branch that is no switch. -/
theorem directTarget_ok {offset : Int} {ts : List Nat} (hswitch : l.instr.isSwitch = false)
    (hbranch : l.instr.isBranch = true) (hoffset : l.instr.targetOffset? = some offset)
    (h : (b.target l.addr offset).map (fun i => [i]) = .ok ts) :
    (∀ t, t ∈ ts ↔ b.Jumps l t) ∧ ¬ b.BadJump l := by
  cases htarget : b.target l.addr offset with
  | error e =>
    rw [htarget] at h
    cases h
  | ok k =>
    rw [htarget] at h
    cases h
    have hk := hb.target_ok_iff.1 htarget
    refine ⟨fun t => ?_, fun hbad => ?_⟩
    · rw [List.mem_singleton]
      constructor
      · rintro rfl
        exact .direct hbranch hswitch hoffset hk
      · intro ht
        cases ht with
        | direct _ _ hoffset' ht =>
          cases hoffset.symm.trans hoffset'
          exact hb.leads_unique hk ht
        | table htrue => simp [hswitch] at htrue
    · cases hbad with
      | target _ hoffset' hnone =>
        cases hoffset.symm.trans hoffset'
        exact hnone k hk
      | noTable htrue => simp [hswitch] at htrue
      | tableTarget htrue => simp [hswitch] at htrue

/-- The jumps of an instruction if they are good. -/
theorem jumpTargets_ok {ts : List Nat} (h : b.jumpTargets l = .ok ts) :
    (∀ t, t ∈ ts ↔ b.Jumps l t) ∧ ¬ b.BadJump l := by
  unfold jumpTargets at h
  cases hoffset : l.instr.targetOffset? with
  | none =>
    simp only [hoffset] at h
    cases h
    have hnone : ¬ ∃ offset, l.instr.targetOffset? = some offset := by simp [hoffset]
    exact ⟨fun t => ⟨fun ht => absurd ht List.not_mem_nil, fun ht => absurd ht.branches.2 hnone⟩,
      fun hbad => hnone hbad.branches.2⟩
  | some offset =>
    simp only [hoffset] at h
    split at h
    · next hswitch => exact hb.switchTargets_ok hswitch hoffset h
    next hswitch =>
    have hswitch : l.instr.isSwitch = false := Bool.eq_false_iff.2 hswitch
    split at h
    · next hbranch => exact hb.directTarget_ok hswitch hbranch hoffset h
    next hbranch =>
    cases h
    exact ⟨fun t => ⟨fun ht => absurd ht List.not_mem_nil, fun ht => absurd ht.branches.1 hbranch⟩,
      fun hbad => hbranch hbad.branches.1⟩

/-- What does not fail to find the normal successors of an instruction finds them all. -/
theorem normalSuccessors_ok {ns : List Nat} (hl : b.lines[i]? = some l)
    (h : b.normalSuccessors i l = .ok ns) :
    (∀ t, t ∈ ns ↔ b.NormalEdge i t) ∧ ¬ b.Defective i := by
  unfold normalSuccessors at h
  obtain ⟨next, hnext, h⟩ := except_bind_ok.1 h
  obtain ⟨targets, htargets, h⟩ := except_bind_ok.1 h
  obtain ⟨_, hchecked, h⟩ := except_bind_ok.1 h
  cases h
  obtain ⟨hnext, hopen, hend⟩ := nextOf_ok hnext
  obtain ⟨hjumps, hgood⟩ := hb.jumpTargets_ok htargets
  have hmem : ∀ t, t ∈ next ++ targets ↔ b.NormalEdge i t := by
    intro t
    rw [List.mem_append, hnext, hjumps]
    exact ⟨fun ht => ⟨l, hl, ht⟩, fun ⟨l', hl', ht⟩ => by cases hl.symm.trans hl'; exact ht⟩
  refine ⟨hmem, fun hdefect => ?_⟩
  cases hdefect with
  | pastEnd hl' hcont hlast =>
    cases hl.symm.trans hl'
    exact hend hcont hlast
  | @fetches t l' ht hl' hm =>
    have hopen : b.Enterable t := by
      rcases List.mem_append.1 ((hmem t).2 ht) with ht | ht
      · exact hopen t ht
      · exact checkEdge_ok_iff.1 (except_forM_ok.1 hchecked t ht)
    simp [hopen l' hl'] at hm
  | jump hl' hbad =>
    cases hl.symm.trans hl'
    exact hgood hbad

variable {handlers : List (List Nat)}

variable {g : FlowGraph} (hg : FlowGraph.Built b handlers g)
include hg

end Fits

/-! ## The main results -/

/-- The start node, and the instructions that are reached. -/
def Occurs (b : Body) : NodeId → Prop
  | .start => True
  | .instr i => b.Reached i

/-- A graph has the declared edges of a body and no others. -/
structure Exact (b : Body) (g : FlowGraph) : Prop where
  nodup : ∀ n, (g.successors n).Nodup
  successors : ∀ n, b.Occurs n → ∀ t, t ∈ g.successors n ↔ b.Flows n t
  unreached : ∀ n, ¬ b.Occurs n → g.successors n = []
  predecessors : ∀ n t, n ∈ g.predecessors t ↔ t ∈ g.successors n
  followed : ∀ t, g.predecessors t ≠ [] ↔ b.Reached t
  reachable : ∀ i, g.isReachable i = true ↔ b.Reached i
  enterable : ∀ n, b.Occurs n → ∀ t, b.First n t → b.Enterable t

end Body

namespace FlowGraph

variable {b : Body} {g : FlowGraph}

/-- A switch with a repeated target, and a range whose handler is in the range. -/
def tangled : Body :=
  .assemble 2
    [.monitorEnter ⟨0⟩, .switch .packed ⟨1⟩ 5, .throw ⟨0⟩, .returnVoid, .packedTable 0 [3, 4, 3]]
    [⟨⟨0⟩, 1, [⟨none, ⟨4⟩⟩]⟩, ⟨⟨4⟩, 1, [⟨none, ⟨4⟩⟩, ⟨none, ⟨5⟩⟩]⟩]

end FlowGraph

end Dalvik
