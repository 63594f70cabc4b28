import Dalvik.Proofs.Lasting

/-!
# What rules read

The rule of an instruction reads the types of a few registers before it (`Instr.typeSources`), and
nothing else that an analysis changes but the memory (`Subject.effect_congr`).  The rule of an
instruction that makes an object also looks at the type after it.

What a rule said once, it says again whatever was asked in between (`Subject.repeats_effect`).
-/

namespace Dalvik

/-- The registers whose types the rule of an instruction reads. -/
def Instr.typeSources : Instr → List Reg
  | .move _ _ _ src => [src]
  | .arrayAccess .get .wide _ array _ | .arrayAccess .get .object _ array _ => [array]
  | .invoke .direct args m => if m.name = constructorName then args.first?.toList else []
  | .binary (.int op) _ a b => if Analysis.isBitwise op then [a, b] else []
  | .binaryTo (.int op) dst b => if Analysis.isBitwise op then [dst, b] else []
  | .binaryLit16 op _ a _ =>
    match op with
    | .and | .or | .xor => [a]
    | _ => []
  | .binaryLit8 op _ a _ =>
    match op with
    | .and | .or | .xor | .shr | .ushr => [a]
    | _ => []
  | _ => []

namespace Analysis

section Congr

variable {p p' : Point} {a b : Reg}

/-- The type of an operation only depends on its operands, and only a bitwise one on their types. -/
theorem binaryType_congr {op : Binary}
    (h : ∀ op', op = .int op' → isBitwise op' = true →
      p'.typeBefore a = p.typeBefore a ∧ p'.typeBefore b = p.typeBefore b) :
    binaryType p' op a b = binaryType p op a b := by
  cases op with
  | int op =>
    cases hop : isBitwise op with
    | true =>
      obtain ⟨ha, hb⟩ := h op rfl hop
      simp only [binaryType, hop, ha, hb]
    | false => simp only [binaryType, hop, Bool.false_eq_true, if_false]
  | _ => rfl

/-- What a direct call does only depends on the type of its receiver, and only for a constructor. -/
theorem directCall_congr {args : Args} {m : MethodRef} (hinstr : p'.instr = p.instr)
    (h : m.name = Instr.constructorName → ∀ r ∈ args.first?.toList,
      p'.typeBefore r = p.typeBefore r) : directCall p' args m = directCall p args m := by
  unfold directCall
  split
  · next hname =>
    rw [hinstr]
    cases hfirst : args.first? with
    | none => rfl
    | some object =>
      simp only
      rw [h hname object (by simp [hfirst])]
  · rfl

end Congr

namespace Subject

variable {s : Subject} {p p' : Point} {i : Nat} {previous? before? : Option Instr}

/-- A rule says the same of two points with the same types to read.  Only the fetch of a result
reads the instruction before it, and only an instruction that makes an object the types after
it. -/
theorem effect_congr (hinstr : p'.instr = p.instr) (haddr : p'.addr = p.addr)
    (hprevious : ∀ w dst, p.instr = .moveResult w dst → before? = previous?)
    (hnew : ∀ dst ty, p.instr = .newInstance dst ty → p'.after[dst.index]? = p.after[dst.index]?)
    (h : ∀ r ∈ p.instr.typeSources, p'.typeBefore r = p.typeBefore r) :
    s.effect i p' before? = s.effect i p previous? := by
  unfold Subject.effect
  rw [hinstr, haddr]
  cases hi : p.instr with
  | moveResult w dst => rw [hprevious w dst hi]
  | move w form dst src => simp only [h src (by simp [hi, Instr.typeSources])]
  | newInstance dst ty => simp only [newObject, hnew dst ty hi]
  | arrayAccess dir kind value array index =>
    cases dir with
    | put => rfl
    | get =>
      cases kind with
      | wide => simp only [h array (by simp [hi, Instr.typeSources])]
      | object => simp only [h array (by simp [hi, Instr.typeSources])]
      | _ => rfl
  | instanceAccess dir kind value object f => cases dir <;> rfl
  | staticAccess dir kind value f => cases dir <;> rfl
  | invoke dispatch args m =>
    cases dispatch with
    | direct =>
      simp only
      rw [directCall_congr hinstr fun hname r hr => h r (by simp_all [Instr.typeSources])]
    | _ => rfl
  | binary op dst a b =>
    simp only
    rw [binaryType_congr]
    rintro op' rfl hop
    exact ⟨h a (by simp [hi, Instr.typeSources, hop]), h b (by simp [hi, Instr.typeSources, hop])⟩
  | binaryTo op dst b =>
    simp only
    rw [binaryType_congr]
    rintro op' rfl hop
    exact ⟨h dst (by simp [hi, Instr.typeSources, hop]), h b (by simp [hi, Instr.typeSources, hop])⟩
  | binaryLit16 op dst a literal =>
    cases op with
    | and | or | xor =>
      simp only [lit16Type, bitwiseLiteralType, h a (by simp [hi, Instr.typeSources])]
    | _ => rfl
  | binaryLit8 op dst a literal =>
    cases op with
    | and | or | xor | shr | ushr =>
      simp only [lit8Type, bitwiseLiteralType, shiftType, h a (by simp [hi, Instr.typeSources])]
    | _ => rfl
  | _ => rfl

end Subject

/-! ## Rules that are followed again -/

/-- A rule that says the same again whatever was asked in between. -/
structure Repeats (cp : ClassPath) {α : Type} (r : Rule α) : Prop where
  asks : ∀ m, Keeps (cp.Asked m) r
  again : ∀ {m m₁ m₂ a}, cp.Asked .empty m → r m = .ok a m₁ → cp.Asked m₁ m₂ → r m₂ = .ok a m₂

namespace Repeats

variable {cp : ClassPath} {α β : Type} {r : Rule α}

theorem pure (a : α) : Repeats cp (Pure.pure a : Rule α) where
  asks _ := .pure a
  again := by
    intro m m₁ m₂ b _ h _
    cases h
    rfl

theorem throw (e : AnalysisError) : Repeats cp (MonadExcept.throw e : Rule α) where
  asks _ := .throw e
  again := by
    intro m m₁ m₂ b _ h
    cases h

theorem ask {q : Query α} (hq : cp.Lasting q) : Repeats cp (Rule.ask q) where
  asks m := (hq.asks m).ask
  again := by
    intro m m₁ m₂ a hm h h₂
    exact Rule.ask_ok.2 (hq.again hm (Rule.ask_ok.1 h) h₂)

/-- Rules that can be followed again can be followed again one after the other. -/
theorem bind {f : α → Rule β} (hr : Repeats cp r) (hf : ∀ a, Repeats cp (f a)) :
    Repeats cp (r >>= f) where
  asks m := (hr.asks m).bind fun a => (hf a).asks m
  again := by
    intro m m₂ m₃ b hm h h₃
    obtain ⟨a, m₁, ha, hb⟩ := bind_ok.1 h
    have h₁ : cp.Asked m m₁ := Triple.ok (hr.asks m) .refl ha
    have h₂ : cp.Asked m₁ m₂ := Triple.ok ((hf a).asks m₁) .refl hb
    exact bind_ok.2 ⟨a, m₃, hr.again hm ha (h₂.trans h₃), (hf a).again (hm.trans h₁) hb h₃⟩

end Repeats

/-- What is caught is the same again. -/
theorem Subject.repeats_exceptionType (s : Subject) (a : Addr) :
    Repeats s.classPath (s.exceptionType a) := by
  refine (Repeats.ask (ClassPath.lasting_caughtType _ _)).bind fun t => ?_
  cases t with
  | unknown => exact .throw _
  | _ => exact .pure _

/-- The rule of an instruction can be followed again. -/
theorem Subject.repeats_effect (s : Subject) (i : Nat) (p : Point) (previous? : Option Instr) :
    Repeats s.classPath (s.effect i p previous?) := by
  cases s.ruled_effect i p previous? with
  | throws _ hrule =>
    rw [hrule]
    exact .throw _
  | answers _ hrule =>
    rw [hrule]
    exact .pure _
  | catches _ hrule =>
    rw [hrule]
    exact (s.repeats_exceptionType _).bind fun _ => .pure _

end Analysis

end Dalvik
