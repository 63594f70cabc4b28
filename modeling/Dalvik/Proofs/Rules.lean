import Dalvik.Proofs.Monads

/-!
# The rules of the instructions

Most instructions have a rule of their own, but rules do few things.  A rule fails, or it says
something that only depends on its point, or it asks the class path what is caught there.
`Subject.ruled_effect` goes through all instructions once and says which of these each rule does.
Everything else about rules is read off it: whether they keep the memory, how they fail, and what
they write.

What a rule can say is listed by `Said`.  It writes a number, or a reference to a class for which
there are four sources (`Refers`), or it hands on the type of a register.
-/

namespace Dalvik

/-- Whether a limit was reached. -/
def AnalysisError.stalled : AnalysisError → Bool
  | .iterationLimit _ => true
  | .context _ _ _ cause => cause.stalled
  | _ => false

/-! ## Types of values -/

namespace RegType

variable {wide wide' : Prop} {ty : Ty} {t : RegType}

/-- A type of numbers, which are wide only if `wide` holds. -/
inductive Number (wide : Prop) : RegType → Prop where
  | narrow (n : Narrow) : Number wide (.narrow n)
  | half (h : WideHalf) (hwide : wide) : Number wide (.half h)

namespace Number

theorem mono (h : t.Number wide) (hwide : wide → wide') : t.Number wide' := by
  cases h with
  | narrow n => exact .narrow n
  | half h hw => exact .half h (hwide hw)

/-- Numbers have no class. -/
theorem node? (h : t.Number wide) : t.node? = none := by
  cases h <;> rfl

/-- Only a wide number has a second half. -/
theorem wide_of_high? {high : RegType} (h : t.Number wide) (hhigh : t.high? = some high) :
    wide := by
  cases h with
  | narrow n => cases hhigh
  | half h hw => exact hw

end Number

/-- A value of a type is a reference or a number. -/
theorem of_ofTy (h : ofTy ty = .ok t) :
    (∃ n, TypeNode.ofTy ty = .ok n ∧ ty.isReference = true ∧ t = .reference n) ∨
      t.Number (ty.isWide = true) := by
  cases ty with
  | cls | array =>
    obtain ⟨n, hn, rfl⟩ := except_map_ok.1 h
    exact .inl ⟨n, hn, rfl, rfl⟩
  | void => cases h
  | long | double =>
    cases h
    exact .inr (.half _ rfl)
  | _ =>
    cases h
    exact .inr (.narrow _)

end RegType

namespace Analysis

/-! ## Results of rules -/

/-- A result meets a condition, and a failure has other reasons than a limit. -/
def Ends {α : Type} (Q : α → Prop) : Except AnalysisError α → Prop
  | .ok a => Q a
  | .error e => e.stalled = false

namespace Ends

variable {α β : Type} {P Q : α → Prop} {r : Except AnalysisError α}

theorem mono (h : Ends P r) (hPQ : ∀ a, P a → Q a) : Ends Q r := by
  cases r with
  | ok a => exact hPQ a h
  | error e => exact h

/-- No result of this kind is a stall. -/
theorem not_stalled {e : AnalysisError} (h : Ends P r) (hr : r = .error e) : e.stalled = false := by
  rwa [hr] at h

/-- A sequence of results meets the condition of its last part. -/
theorem bind {R : β → Prop} {f : α → Except AnalysisError β} (hr : Ends P r)
    (hf : ∀ a, P a → Ends R (f a)) : Ends R (r >>= f) := by
  cases r with
  | ok a => exact hf a hr
  | error e => exact hr

theorem map {R : β → Prop} {f : α → β} (hr : Ends P r) (hf : ∀ a, P a → R (f a)) :
    Ends R (r.map f) := by
  cases r with
  | ok a => exact hf a hr
  | error e => exact hr

end Ends

section Results

variable (p : Point) (a b : Reg)

/-- A type before an instruction is missing only if there is no such register. -/
theorem ends_typeBefore : Ends (p.typeBefore a = .ok ·) (p.typeBefore a) := by
  unfold Point.typeBefore
  cases p.before[a.index]? <;> rfl

/-- An operation on numbers is wide if its result is. -/
theorem number_numberType (ty : Ty) : (numberType ty).Number (ty.isWide = true) := by
  cases ty with
  | long | double => exact .half _ rfl
  | _ => exact .narrow _

/-- A wide element of an array is a wide number. -/
theorem ends_wideElement (mnemonic : String) (array : RegType) :
    Ends (RegType.Number True) (wideElement mnemonic array) := by
  unfold wideElement
  split
  · exact .half _ trivial
  · split
    · rfl
    split
    · exact .half _ trivial
    split
    · exact .half _ trivial
    · rfl
  · rfl

/-- An object that is fetched from an array is null if the array is, or of the class of its
elements. -/
theorem ends_objectElement (mnemonic : String) (array : RegType) :
    Ends (fun t => t = .narrow .null ∨ ∃ dims element n, array = .reference (.array dims element) ∧
        TypeNode.ofDescriptor (TypeNode.arrayDescriptor (dims - 1) element) = .ok n ∧
        t = .reference n)
      (objectElement mnemonic array) := by
  unfold objectElement
  split
  · exact .inl rfl
  · next dims element =>
    split
    · next n hn => exact .inr ⟨dims, element, n, rfl, hn, rfl⟩
    · rfl
  · rfl

/-- An operation on two registers gives a number. -/
theorem ends_binaryType (op : Binary) :
    Ends (RegType.Number (op.result.isWide = true)) (binaryType p op a b) := by
  unfold binaryType
  split
  · split
    · refine (ends_typeBefore p a).bind fun t _ => ?_
      split
      · exact (ends_typeBefore p b).bind fun _ _ => .narrow _
      · exact .narrow _
    · exact .narrow _
  · exact number_numberType _

theorem ends_bitwiseLiteralType (literal : Int) :
    Ends (RegType.Number False) (bitwiseLiteralType p a literal) :=
  (ends_typeBefore p a).bind fun _ _ => .narrow _

theorem ends_shiftType (signed : Bool) (literal : Int) :
    Ends (RegType.Number False) (shiftType p signed a literal) := by
  refine (ends_typeBefore p a).bind fun t _ => ?_
  split
  · exact .narrow _
  · rfl

theorem ends_lit16Type (op : Lit16Op) (literal : Int) :
    Ends (RegType.Number False) (lit16Type p op a literal) := by
  cases op with
  | and | or | xor => exact ends_bitwiseLiteralType p a literal
  | _ => exact .narrow _

/-- An operation with a literal gives a narrow number. -/
theorem ends_lit8Type (op : Lit8Op) (literal : Int) :
    Ends (RegType.Number False) (lit8Type p op a literal) := by
  cases op with
  | and | or | xor => exact ends_bitwiseLiteralType p a literal
  | shr | ushr => exact ends_shiftType p a _ literal
  | _ => exact .narrow _

end Results

/-! ## Standard forms -/

theorem ends_accessField (i : Instr) (f : FieldRef) :
    Ends (fun _ => True) (i.accessField f) := by
  unfold Instr.accessField
  split
  · rfl
  · split
    · trivial
    · rfl

/-- The forms that need no class path fail for a wrong access only. -/
theorem ends_plainForm? (i : Instr) : Ends (fun _ => True) i.plainForm? := by
  have volatile : Ends (fun _ => True) (i.accessVolatile.map some) := by
    refine Ends.map (P := fun _ => True) ?_ fun _ _ => trivial
    unfold Instr.accessVolatile
    split
    · exact ends_accessField i _
    · rfl
  unfold Instr.plainForm?
  split
  · trivial
  · trivial
  · split <;> trivial
  · exact volatile
  · exact volatile
  · trivial

/-- The last form of an instruction fails like its plain form. -/
theorem ends_finalForm (i : Instr) : Ends (fun _ => True) i.finalForm := by
  refine (ends_plainForm? i).bind fun form? _ => ?_
  split
  · trivial
  · split <;> trivial

/-- A call without an entry in the table fails, and that is no stall. -/
theorem ends_inlineCall (s : Subject) (args : Args) (index : Nat) :
    Ends (fun _ => True) (s.inlineCall args index) := by
  unfold Subject.inlineCall
  split
  · rfl
  · refine Ends.bind (P := fun _ => True) ?_ fun _ _ => trivial
    unfold InlineTable.resolve
    split
    · rfl
    · trivial
    · split
      · trivial
      · rfl

/-! ## What rules say -/

/-- The type of what an instruction writes, where the instruction or the one before it names the
type. -/
def namedTy? (previous? : Option Instr) : Instr → Option Ty
  | .moveResult _ _ => previous?.bind resultType?
  | .checkCast _ ty | .newArray _ _ ty => some ty
  | .instanceAccess .get .wide _ _ f | .instanceAccess .get .object _ _ f
  | .staticAccess .get .wide _ f | .staticAccess .get .object _ f => some f.ty
  | _ => none

/-- The type of the value that an instruction fetches, where the instruction or the one before it
names the type. -/
def fetchedTy? (previous? : Option Instr) : Instr → Option Ty
  | .moveResult _ _ => previous?.bind resultType?
  | .checkCast _ ty => some ty
  | .instanceAccess .get .object _ _ f | .staticAccess .get .object _ f => some f.ty
  | _ => none

/-- The classes to which the rule of a point can write a reference, by their descriptors. -/
inductive Refers (p : Point) (previous? : Option Instr) : String → Prop where
  | named {ty : Ty} (hty : namedTy? previous? p.instr = some ty) (href : ty.isReference = true) :
    Refers p previous? ty.descriptor
  | string : Refers p previous? stringClass
  | cls : Refers p previous? classClass
  | element {dst array index : Reg} {dims : Nat} {element : String}
    (hinstr : p.instr = .arrayAccess .get .object dst array index)
    (harray : p.typeBefore array = .ok (.reference (.array dims element))) :
    Refers p previous? (TypeNode.arrayDescriptor (dims - 1) element)

/-- What the rule of a point can say, and what it says it for.  From `m` it leaves the memory
`m'`. -/
inductive Said (s : Subject) (i : Nat) (p : Point) (previous? : Option Instr) (m m' : Memo) :
    Effect → Prop where
  | nothing : Said s i p previous? m m' .nothing
  /-- The call before has no standard form yet. -/
  | waiting {previous : Instr} (h : previous? = some previous) (hsets : previous.setsResult = true)
    (hresult : resultType? previous = none) : Said s i p previous? m m' .waiting
  /-- A constructor call initialises a new object. -/
  | initialise {args : Args} {call : MethodRef} {object : Reg} {t : RegType} {n : TypeNode}
    (hinstr : p.instr = .invoke .direct args call) (hname : call.name = Instr.constructorName)
    (hobject : args.first? = some object) (ht : p.typeBefore object = .ok t)
    (hn : (∃ site, t = .uninitRef n site) ∨ t = .uninitThis n) :
    Said s i p previous? m m' (.initialise object n)
  | made {dst : Reg} {ty : Ty} {n : TypeNode} (hinstr : p.instr = .newInstance dst ty)
    (hn : TypeNode.ofTy ty = .ok n) : Said s i p previous? m m' (.write (.uninitRef n i))
  | moved {w : Width} {form : MoveForm} {dst src : Reg} {t : RegType}
    (hinstr : p.instr = .move w form dst src) (ht : p.typeBefore src = .ok t) :
    Said s i p previous? m m' (.write t)
  | caught {dst : Reg} {t : RegType} (hinstr : p.instr = .moveException dst)
    (ht : s.exceptionType p.addr m = .ok t m') : Said s i p previous? m m' (.write t)
  /-- A number is wide if the instruction is for wide values, or names such a type. -/
  | number {t : RegType} (ht : t.Number (p.instr.setsWide = true ∨
      ∃ ty, fetchedTy? previous? p.instr = some ty ∧ ty.isWide = true)) :
    Said s i p previous? m m' (.write t)
  | reference {d : String} {n : TypeNode} (hd : Refers p previous? d)
    (hn : TypeNode.ofDescriptor d = .ok n) : Said s i p previous? m m' (.write (.reference n))

/-- What a rule does: it fails, it says something without a look at the memory, or it asks what is
caught. -/
inductive Ruled (s : Subject) (i : Nat) (p : Point) (previous? : Option Instr)
    (rule : Rule Effect) : Prop where
  | throws {e : AnalysisError} (he : e.stalled = false) (h : rule = throw e)
  | answers {e : Effect} (hsaid : ∀ m, Said s i p previous? m m e) (h : rule = pure e)
  | catches {dst : Reg} (hinstr : p.instr = .moveException dst)
    (h : rule = do return .write (← s.exceptionType p.addr))

section Ruled

variable {s : Subject} {i : Nat} {p : Point} {previous? : Option Instr}

theorem Ruled.lift {r : Except AnalysisError Effect}
    (h : Ends (fun e => ∀ m, Said s i p previous? m m e) r) :
    Ruled s i p previous? (Rule.lift r) := by
  cases r with
  | ok e => exact .answers h rfl
  | error e => exact .throws h rfl

/-- A rule that computes a type writes it or fails. -/
theorem Ruled.write {r : Except AnalysisError RegType}
    (h : Ends (fun t => ∀ m, Said s i p previous? m m (.write t)) r) :
    Ruled s i p previous? (do return .write (← Rule.lift r)) := by
  cases r with
  | ok t => exact .answers h rfl
  | error e => exact .throws h rfl

/-- A rule that names a type writes it or fails. -/
theorem Ruled.writeTy {r : Except HierarchyError RegType}
    (h : ∀ t, r = .ok t → ∀ m, Said s i p previous? m m (.write t)) :
    Ruled s i p previous? (do return .write (← Rule.known r)) := by
  cases r with
  | ok t => exact .answers (h t rfl) rfl
  | error e => exact .throws rfl rfl

/-- A rule that names a class writes a reference to it. -/
theorem Ruled.writeClass {d : String} (hd : Refers p previous? d) :
    Ruled s i p previous?
      (do return .write (← Rule.known ((TypeNode.ofDescriptor d).map .reference))) := by
  refine .writeTy fun t ht m => ?_
  obtain ⟨n, hn, rfl⟩ := except_map_ok.1 ht
  exact .reference hd hn

/-- A type that is named is written as a reference or as a number. -/
theorem Ruled.writeNamed {ty : Ty} (hty : namedTy? previous? p.instr = some ty)
    (hwide : ty.isWide = true →
      p.instr.setsWide = true ∨ fetchedTy? previous? p.instr = some ty) :
    Ruled s i p previous? (do return .write (← Rule.known (RegType.ofTy ty))) := by
  refine .writeTy fun t ht m => ?_
  obtain ⟨n, hn, href, rfl⟩ | hnumber := RegType.of_ofTy ht
  · exact .reference (.named hty href) hn
  · exact .number (hnumber.mono fun hw => (hwide hw).imp_right fun hfetched => ⟨ty, hfetched, hw⟩)

/-- A constructor call initialises a new object, and other direct calls do nothing. -/
theorem ends_directCall {args : Args} {call : MethodRef}
    (hinstr : p.instr = .invoke .direct args call) :
    Ends (fun e => ∀ m, Said s i p previous? m m e) (directCall p args call) := by
  unfold directCall
  split
  · next hname =>
    split
    · rfl
    · next object hobject =>
      refine (ends_typeBefore p object).bind fun t ht => ?_
      cases t with
      | uninitRef n site =>
        exact fun m => .initialise hinstr hname hobject ht (.inl ⟨site, rfl⟩)
      | uninitThis n => exact fun m => .initialise hinstr hname hobject ht (.inr rfl)
      | _ => exact fun m => .nothing
  · exact fun m => .nothing

/-- A new object is written once. -/
theorem ends_newObject {dst : Reg} {ty : Ty} (hinstr : p.instr = .newInstance dst ty) :
    Ends (fun e => ∀ m, Said s i p previous? m m e) (newObject i p dst ty) := by
  unfold newObject
  split
  · rfl
  · split
    · next n hn => exact fun m => .made hinstr hn
    · rfl
  · exact fun m => .nothing

/-- The fetch of a result writes the type that the call before it names, or waits for its standard
form. -/
theorem ruled_fetchResult {w : Width} {dst : Reg} (hinstr : p.instr = .moveResult w dst)
    (mnemonic : String) : Ruled s i p previous? (Subject.fetchResult mnemonic previous?) := by
  unfold Subject.fetchResult
  split
  · exact .throws rfl rfl
  · next previous =>
    split
    · next hsets =>
      split
      · next ty hresult =>
        have hty : (some previous).bind resultType? = some ty := hresult
        exact .writeNamed (by rw [hinstr]; exact hty) fun _ => .inr (by rw [hinstr]; exact hty)
      · next hresult => exact .answers (fun m => .waiting rfl hsets hresult) rfl
    · exact .throws rfl rfl

end Ruled

/-- Every rule fails, or says one of the things that rules say, or asks what is caught. -/
theorem Subject.ruled_effect (s : Subject) (i : Nat) (p : Point) (previous? : Option Instr) :
    Ruled s i p previous? (s.effect i p previous?) := by
  have number {t : RegType} (ht : t.Number (p.instr.setsWide = true)) (m : Memo) :
      Said s i p previous? m m (.write t) := .number (ht.mono .inl)
  have narrow (n : Narrow) : Ruled s i p previous? (return .write (.narrow n)) :=
    .answers (number (.narrow n)) rfl
  unfold Subject.effect
  cases hi : p.instr with
  | move _ _ _ src => exact .write ((ends_typeBefore p src).mono fun t ht m => .moved hi ht)
  | moveResult => exact ruled_fetchResult hi _
  | moveException => exact .catches hi rfl
  | const | instanceOf | arrayLength | compare => exact narrow _
  | constWide => exact .answers (number (.half _ (by rw [hi]; rfl))) rfl
  | constString => exact .writeClass .string
  | constClass => exact .writeClass .cls
  | checkCast _ ty =>
    exact .writeNamed (by rw [hi]; rfl) fun _ => .inr (by rw [hi]; rfl)
  | newInstance dst ty => exact .lift (ends_newObject hi)
  | newArray _ _ ty =>
    cases ty with
    | array => exact .writeNamed (by rw [hi]; rfl) fun hwide => by cases hwide
    | _ => exact .throws rfl rfl
  | arrayAccess dir kind dst array index =>
    cases dir with
    | put => exact .answers (fun _ => .nothing) rfl
    | get =>
      cases kind with
      | wide =>
        have hwide : p.instr.setsWide = true := by rw [hi]; rfl
        exact .write ((ends_typeBefore p array).bind fun t _ =>
          (ends_wideElement _ t).mono fun u hu => number (hu.mono fun _ => hwide))
      | object =>
        refine .write ((ends_typeBefore p array).bind fun t ht =>
          (ends_objectElement _ t).mono fun u hu m => ?_)
        obtain rfl | ⟨dims, element, n, rfl, hn, rfl⟩ := hu
        · exact number (.narrow _) m
        · exact .reference (.element hi ht) hn
      | _ => exact narrow _
  | instanceAccess dir kind | staticAccess dir kind =>
    cases dir with
    | put => exact .answers (fun _ => .nothing) rfl
    | get =>
      cases kind with
      | wide => exact .writeNamed (by rw [hi]; rfl) fun _ => .inl (by rw [hi]; rfl)
      | object => exact .writeNamed (by rw [hi]; rfl) fun _ => .inr (by rw [hi]; rfl)
      | _ => exact narrow _
  | invoke dispatch args call =>
    cases dispatch with
    | direct => exact .lift (ends_directCall hi)
    | _ => exact .answers (fun _ => .nothing) rfl
  | unary op =>
    have hwide : p.instr.setsWide = op.result.isWide := by rw [hi]; rfl
    exact .answers (number (hwide ▸ number_numberType op.result)) rfl
  | binary op _ a b =>
    have hwide : p.instr.setsWide = op.result.isWide := by rw [hi]; rfl
    exact .write ((ends_binaryType p a b op).mono fun t ht => number (hwide ▸ ht))
  | binaryTo op dst b =>
    have hwide : p.instr.setsWide = op.result.isWide := by rw [hi]; rfl
    exact .write ((ends_binaryType p dst b op).mono fun t ht => number (hwide ▸ ht))
  | binaryLit16 op _ a literal =>
    exact .write ((ends_lit16Type p a op literal).mono fun t ht => number (ht.mono False.elim))
  | binaryLit8 op _ a literal =>
    exact .write ((ends_lit8Type p a op literal).mono fun t ht => number (ht.mono False.elim))
  | _ => exact .answers (fun _ => .nothing) rfl

/-- What a rule said is one of the things that rules say. -/
theorem Subject.said_of_effect {s : Subject} {i : Nat} {p : Point} {previous? : Option Instr}
    {e : Effect} {m m' : Memo} (h : s.effect i p previous? m = .ok e m') :
    Said s i p previous? m m' e := by
  cases s.ruled_effect i p previous? with
  | throws _ hrule =>
    rw [hrule] at h
    cases h
  | answers hsaid hrule =>
    rw [hrule] at h
    cases h
    exact hsaid m
  | catches hinstr hrule =>
    rw [hrule] at h
    obtain ⟨t, m₁, ht, h⟩ := bind_ok.1 h
    cases h
    exact .caught hinstr ht

end Analysis

end Dalvik
