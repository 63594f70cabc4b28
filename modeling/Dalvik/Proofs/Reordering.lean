import Dalvik.Proofs.Chains
import Dalvik.Proofs.Tables
import Mathlib.Data.List.Nodup

/-!
# The order of declarations

A class file lists the fields and the methods of a class in some order.  Slots and offsets do not
depend on it: members are sorted before they are placed, and the order they are sorted by is linear
(`Text.linear_listLe`).  So one order is left (`mergeSort_eq_of_perm`), provided that members with
the same key are the same.  Fields with the same name and type have one reference.  Methods may
not have the same signature, since they could still differ in their flags.

Keys hold descriptors and not types.  The types of members are flat in every class path, and flat
types are told apart by their descriptors (`Ty.flat_eq_of_descriptor`).

Everything else that is asked of a class path reads neither fields nor methods.  So all questions
have the same answers, and the same is remembered after them (`Reorders.remembered_eq`).
-/

namespace Dalvik

/-! ## Linear orders of texts -/

namespace Text

variable {α β : Type}

/-- A test for a linear order. -/
structure Linear (le : α → α → Bool) : Prop where
  total : ∀ a b, (le a b || le b a) = true
  trans : ∀ a b c, le a b = true → le b c = true → le a c = true
  antisymm : ∀ a b, le a b = true → le b a = true → a = b

/-- Lists by the first element in which they differ. -/
def lexLe [DecidableEq α] (le : α → α → Bool) : List α → List α → Bool
  | [], _ => true
  | _ :: _, [] => false
  | a :: as, b :: bs => if a = b then lexLe le as bs else le a b

namespace Linear

variable {le : α → α → Bool}

/-- A linear order can be taken along a function that tells elements apart. -/
theorem comap (h : Linear le) {f : β → α} (hf : ∀ a b, f a = f b → a = b) :
    Linear fun a b => le (f a) (f b) where
  total a b := h.total (f a) (f b)
  trans a b c := h.trans (f a) (f b) (f c)
  antisymm a b hab hba := hf a b (h.antisymm _ _ hab hba)

variable [DecidableEq α]

/-- Lists are comparable if their elements are. -/
theorem total_lexLe (h : Linear le) (as bs : List α) :
    (lexLe le as bs || lexLe le bs as) = true := by
  fun_induction lexLe le as bs with
  | case1 bs => rfl
  | case2 a as => rfl
  | case3 a as bs ih => simpa [lexLe] using ih
  | case4 a as b bs hab => simpa [lexLe, hab, Ne.symm hab] using h.total a b

/-- The order of lists is transitive. -/
theorem trans_lexLe (h : Linear le) (as bs cs : List α) (hab : lexLe le as bs = true)
    (hbc : lexLe le bs cs = true) : lexLe le as cs = true := by
  induction as generalizing bs cs with
  | nil => rfl
  | cons a as ih =>
    cases bs with
    | nil => cases hab
    | cons b bs =>
      cases cs with
      | nil => cases hbc
      | cons c cs =>
        simp only [lexLe] at hab hbc ⊢
        split at hab
        · next heq =>
          cases heq
          split
          · next heq =>
            rw [if_pos heq] at hbc
            exact ih bs cs hab hbc
          · next hne =>
            rw [if_neg hne] at hbc
            exact hbc
        · next hne =>
          split at hbc
          · next heq =>
            cases heq
            rw [if_neg hne]
            exact hab
          · next hne' =>
            -- equal ends would make the middle equal to them
            rw [if_neg]
            · exact h.trans a b c hab hbc
            · rintro rfl
              exact hne (h.antisymm a b hab hbc)

/-- Lists that are both before each other are the same. -/
theorem antisymm_lexLe (h : Linear le) (as bs : List α) (hab : lexLe le as bs = true)
    (hba : lexLe le bs as = true) : as = bs := by
  induction as generalizing bs with
  | nil =>
    cases bs with
    | nil => rfl
    | cons b bs => cases hba
  | cons a as ih =>
    cases bs with
    | nil => cases hab
    | cons b bs =>
      simp only [lexLe] at hab hba
      by_cases heq : a = b
      · cases heq
        rw [if_pos rfl] at hab hba
        rw [ih bs hab hba]
      · rw [if_neg heq] at hab
        rw [if_neg (Ne.symm heq)] at hba
        exact absurd (h.antisymm a b hab hba) heq

theorem lexLe (h : Linear le) : Linear (lexLe le) :=
  ⟨h.total_lexLe, h.trans_lexLe, h.antisymm_lexLe⟩

end Linear

theorem charsLe_eq (as bs : List Char) :
    charsLe as bs = lexLe (fun a b => decide (a.toNat ≤ b.toNat)) as bs := by
  fun_induction charsLe as bs with
  | case1 bs => rfl
  | case2 a as => rfl
  | case3 a as bs ih => simpa [lexLe] using ih
  | case4 a as b bs hab =>
    have hne : a.toNat ≠ b.toNat := fun h => hab (Char.toNat_inj.1 h)
    simp only [lexLe, if_neg hab]
    rw [decide_eq_decide]
    omega

/-- Characters are compared by their codes, which are linear. -/
theorem linear_charsLe : Linear charsLe := by
  have hcodes : Linear fun a b : Char => decide (a.toNat ≤ b.toNat) := by
    refine ⟨fun a b => ?_, fun a b c hab hbc => ?_, fun a b hab hba => ?_⟩
    · simpa using Nat.le_total a.toNat b.toNat
    · rw [decide_eq_true_eq] at hab hbc ⊢
      exact Nat.le_trans hab hbc
    · rw [decide_eq_true_eq] at hab hba
      exact Char.toNat_inj.1 (Nat.le_antisymm hab hba)
  have heq : charsLe = lexLe fun a b => decide (a.toNat ≤ b.toNat) :=
    funext fun as => funext fun bs => charsLe_eq as bs
  rw [heq]
  exact hcodes.lexLe

theorem listLe_eq (as bs : List String) : listLe as bs = lexLe le as bs := by
  fun_induction listLe as bs with
  | case1 bs => rfl
  | case2 a as => rfl
  | case3 a as bs ih => simpa [lexLe] using ih
  | case4 a as b bs hab => simp only [lexLe, if_neg hab]

/-- The order of lists of texts is linear. -/
theorem linear_listLe : Linear listLe := by
  have heq : listLe = lexLe le := funext fun as => funext fun bs => listLe_eq as bs
  rw [heq]
  exact (linear_charsLe.comap fun a b => String.toList_inj.1).lexLe

end Text

/-- Sorting by a key leaves one order, if elements with the same key are the same. -/
theorem mergeSort_eq_of_perm {α : Type} (key : α → List String) {l l' : List α} (hp : l.Perm l')
    (hkey : ∀ a ∈ l, ∀ b ∈ l, key a = key b → a = b) :
    (l.mergeSort fun a b => Text.listLe (key a) (key b)) =
      l'.mergeSort fun a b => Text.listLe (key a) (key b) := by
  have hlinear := Text.linear_listLe
  have sorted (l : List α) : (l.mergeSort fun a b => Text.listLe (key a) (key b)).Pairwise
      fun a b => Text.listLe (key a) (key b) = true :=
    List.pairwise_mergeSort (fun a b c => hlinear.trans (key a) (key b) (key c))
      (fun a b => hlinear.total (key a) (key b)) l
  refine List.Perm.eq_of_pairwise (fun a b ha hb hab hba => ?_) (sorted l) (sorted l') ?_
  · have ha : a ∈ l := (List.mergeSort_perm l _).mem_iff.1 ha
    have hb : b ∈ l := hp.mem_iff.2 ((List.mergeSort_perm l' _).mem_iff.1 hb)
    exact hkey a ha b hb (hlinear.antisymm _ _ hab hba)
  · exact (List.mergeSort_perm l _).trans (hp.trans (List.mergeSort_perm l' _).symm)

/-! ## Reordered definitions -/

/-- Two definitions of a class that differ in the order of fields and methods at most. -/
structure ClassDef.Reorders (c c' : ClassDef) : Prop where
  ty : c.ty = c'.ty
  flags : c.flags = c'.flags
  superclass? : c.superclass? = c'.superclass?
  interfaces : c.interfaces = c'.interfaces
  fields : c.fields.Perm c'.fields
  methods : c.methods.Perm c'.methods

theorem ClassDef.Reorders.refl (c : ClassDef) : c.Reorders c :=
  ⟨rfl, rfl, rfl, rfl, .refl _, .refl _⟩

/-- Nested arrays can be made flat before or after. -/
theorem ClassDef.Reorders.flat {c c' : ClassDef} (h : c.Reorders c') :
    c.flat.Reorders c'.flat :=
  ⟨h.ty, h.flags, h.superclass?, h.interfaces, h.fields.map _, h.methods.map _⟩

theorem ClassDef.Reorders.isInterface_eq {c c' : ClassDef} (h : c.Reorders c') :
    c.isInterface = c'.isInterface := by
  rw [isInterface, h.flags]
  rfl

/-- The name and the types of a method. -/
def MethodDef.signature (m : MethodDef) : String × List Ty × Ty := (m.name, m.params, m.result)

/-- No two virtual methods have the same signature. -/
def ClassDef.Distinct (c : ClassDef) : Prop := (c.virtualMethods.map MethodDef.signature).Nodup

instance decidableDistinct (c : ClassDef) : Decidable c.Distinct :=
  inferInstanceAs (Decidable (c.virtualMethods.map MethodDef.signature).Nodup)

/-- Two class paths whose definitions differ in the order of fields and methods at most. -/
structure ClassPath.Reorders (cp cp' : ClassPath) : Prop where
  checksPackages : cp.checksPackages = cp'.checksPackages
  defs : ∀ d, Option.Rel ClassDef.Reorders (cp.def? d) (cp'.def? d)

namespace ClassPath

variable {cp cp' : ClassPath} {c c' : ClassDef} {d : String}

namespace Reorders

/-- A class is missing in both class paths, or defined in both in some order. -/
theorem cases (h : cp.Reorders cp') (d : String) :
    cp.def? d = none ∧ cp'.def? d = none ∨
      ∃ c c', cp.def? d = some c ∧ cp'.def? d = some c' ∧ c.Reorders c' := by
  have hd := h.defs d
  generalize cp.def? d = x at hd
  generalize cp'.def? d = y at hd
  cases hd with
  | none => exact .inl ⟨rfl, rfl⟩
  | some hc => exact .inr ⟨_, _, rfl, rfl, hc⟩

/-! ### Interfaces -/

theorem addDeclared_eq (h : cp.Reorders cp') (inherited : String → Query Interfaces) :
    ∀ (ts : List Ty) (acc : Interfaces),
      cp.addDeclared inherited ts acc = cp'.addDeclared inherited ts acc
  | [], acc => rfl
  | t :: rest, acc => by
    unfold addDeclared
    simp only [addDeclared_eq h inherited rest]
    obtain ⟨hd, hd'⟩ | ⟨c, c', hd, hd', _⟩ := h.cases t.descriptor
    · simp only [hd, hd']
    · simp only [hd, hd']

theorem collectInterfaces_eq (h : cp.Reorders cp') (hc : c.Reorders c')
    (inherited : String → Query Interfaces) (d : String) :
    cp.collectInterfaces inherited d c = cp'.collectInterfaces inherited d c' := by
  simp only [collectInterfaces, addDeclared_eq h, hc.interfaces, hc.superclass?,
    hc.isInterface_eq]

/-- The search for interfaces looks at declared types only. -/
theorem interfacesFrom_eq (h : cp.Reorders cp') (open_ : List String) (d : String) :
    cp.interfacesFrom open_ d = cp'.interfacesFrom open_ d := by
  rw [ClassPath.interfacesFrom_eq, ClassPath.interfacesFrom_eq cp']
  by_cases hopen : d ∈ open_
  · rw [if_pos hopen, if_pos hopen]
  obtain ⟨hd, hd'⟩ | ⟨c, c', hd, hd', hc⟩ := h.cases d
  · rw [hd, hd']
  · have hin : cp.interfacesFrom (d :: open_) = cp'.interfacesFrom (d :: open_) :=
      funext fun name => interfacesFrom_eq h (d :: open_) name
    simp only [hd, hd', hin, h.collectInterfaces_eq hc]
termination_by cp.unmet open_
decreasing_by exact unmet_cons_lt ‹_› ‹_›

theorem interfacesOf_eq (h : cp.Reorders cp') : cp.interfacesOf = cp'.interfacesOf :=
  funext fun d => h.interfacesFrom_eq [] d

/-- The step up looks at the superclass only. -/
theorem parent?_eq (h : cp.Reorders cp') (n : TypeNode) : cp.parent? n = cp'.parent? n := by
  cases n with
  | cls d =>
    obtain ⟨hd, hd'⟩ | ⟨c, c', hd, hd', hc⟩ := h.cases d
    · simp only [parent?, hd, hd']
    · simp only [parent?, hd, hd', hc.superclass?]
  | _ => rfl

/-- So does the walk. -/
theorem walkUp_eq (h : cp.Reorders cp') (origin : String) (met : List String) (n : TypeNode) :
    cp.walkUp origin met n = cp'.walkUp origin met n := by
  fun_induction cp.walkUp origin met n with
  | case1 met n hmet => rw [ClassPath.walkUp_eq, if_pos hmet]
  | case2 met n hmet e hparent =>
    rw [ClassPath.walkUp_eq, if_neg hmet, ← h.parent?_eq, hparent]
    rfl
  | case3 met n hmet hparent =>
    rw [ClassPath.walkUp_eq, if_neg hmet, ← h.parent?_eq, hparent]
    rfl
  | case4 met n hmet m hparent e hchain ih =>
    rw [ClassPath.walkUp_eq, if_neg hmet, ← h.parent?_eq, hparent]
    simp only [Except.bind, Option.elim, ← ih, hchain]
    rfl
  | case5 met n hmet m hparent chain hchain ih =>
    rw [ClassPath.walkUp_eq, if_neg hmet, ← h.parent?_eq, hparent]
    simp only [Except.bind, Option.elim, ← ih, hchain]
    rfl

end Reorders

/-! ### Members -/

/-- The fields of a flat definition have flat types. -/
theorem flat_of_field (hc : c.flat = c) {f : FieldDef} (hf : f ∈ c.instanceFields) :
    f.ty.flat = f.ty := by
  have hfields : c.fields.map FieldDef.flat = c.fields.map id := by
    rw [List.map_id]
    exact congrArg ClassDef.fields hc
  exact congrArg FieldDef.ty (List.map_inj_left.1 hfields f (List.mem_filter.1 hf).1)

/-- So do its methods. -/
theorem flat_of_method (hc : c.flat = c) {m : MethodDef} (hm : m ∈ c.virtualMethods) :
    m.flat = m := by
  have hmethods : c.methods.map MethodDef.flat = c.methods.map id := by
    rw [List.map_id]
    exact congrArg ClassDef.methods hc
  exact List.map_inj_left.1 hmethods m (List.mem_filter.1 hm).1

/-- Descriptors tell the types of methods apart. -/
theorem signature_eq_of_descriptors {m m' : MethodDef} (hm : m.flat = m) (hm' : m'.flat = m')
    (hname : m.name = m'.name) (hresult : m.result.descriptor = m'.result.descriptor)
    (hparams : m.params.map Ty.descriptor = m'.params.map Ty.descriptor) :
    m.signature = m'.signature := by
  rw [← hm, ← hm']
  simp only [MethodDef.signature, MethodDef.flat, hname, Ty.flat_eq_of_descriptor hresult,
    Ty.map_flat_eq_of_descriptors hparams]

/-- The virtual methods of a class have the same slots in each order. -/
theorem slotsOf_eq (h : c.Reorders c') (hflat : c.flat = c) (hc : c.Distinct) (definer : Ty) :
    slotsOf c definer = slotsOf c' definer := by
  refine mergeSort_eq_of_perm _ ((h.methods.filter _).map _) fun x hx y hy hkey => ?_
  obtain ⟨m, hm, rfl⟩ := List.mem_map.1 hx
  obtain ⟨m', hm', rfl⟩ := List.mem_map.1 hy
  obtain ⟨hname, hrest⟩ := List.cons.inj hkey
  obtain ⟨hresult, hparams⟩ := List.cons.inj hrest
  have hsignature : m.signature = m'.signature :=
    signature_eq_of_descriptors (flat_of_method hflat hm) (flat_of_method hflat hm') hname
      hresult hparams
  rw [List.inj_on_of_nodup_map hc hm hm' hsignature]

/-- The instance fields of a class have the same places in each order. -/
theorem extendLayout_eq (h : c.Reorders c') (hflat : c.flat = c) (above : Layout) :
    extendLayout c above = extendLayout c' above := by
  have hperm : (c.instanceFields.map fun f => f.ref c.ty).Perm
      (c'.instanceFields.map fun f => f.ref c'.ty) := by
    rw [h.ty]
    exact (h.fields.filter _).map _
  have hsorted := mergeSort_eq_of_perm (fun f : FieldRef => [f.name, f.ty.descriptor])
    hperm fun x hx y hy hkey => ?_
  · simp only [extendLayout, arrange, hsorted]
  obtain ⟨f, hf, rfl⟩ := List.mem_map.1 hx
  obtain ⟨f', hf', rfl⟩ := List.mem_map.1 hy
  obtain ⟨hname, hrest⟩ := List.cons.inj hkey
  have hty : f.ty = f'.ty := by
    rw [← flat_of_field hflat hf, ← flat_of_field hflat hf']
    exact Ty.flat_eq_of_descriptor (List.cons.inj hrest).1
  have hname : f.name = f'.name := hname
  rw [FieldDef.ref, hname, hty]
  rfl

namespace Reorders

variable (h : cp.Reorders cp') (hdistinct : ∀ d c, cp.def? d = some c → c.Distinct)
include h hdistinct

/-- Interfaces put the same methods into a vtable. -/
theorem foldl_slotsOf_eq (o : Overriding) (definer : Ty) (es : List Implemented)
    (slots : List Slot) :
    (es.filterMap fun e => cp.def? e.name).foldl
        (fun slots i => placeAll o false (slotsOf i definer) slots) slots =
      (es.filterMap fun e => cp'.def? e.name).foldl
        (fun slots i => placeAll o false (slotsOf i definer) slots) slots := by
  induction es generalizing slots with
  | nil => rfl
  | cons e es ih =>
    obtain ⟨hd, hd'⟩ | ⟨c, c', hd, hd', hc⟩ := h.cases e.name
    · simp only [List.filterMap_cons, hd, hd', ih]
    · simp only [List.filterMap_cons, hd, hd', List.foldl_cons,
        slotsOf_eq hc (flat_of_def? hd) (hdistinct _ c hd), ih]

/-- The methods of a class are sorted before they get their slots. -/
theorem extendVtable_eq (hd : cp.def? d = some c) (hc : c.Reorders c') (slots : List Slot) :
    cp.extendVtable cp.interfacesOf d c slots = cp'.extendVtable cp'.interfacesOf d c' slots := by
  have hpackage : c.package = c'.package := by
    rw [ClassDef.package, ClassDef.descriptor, hc.ty]
    rfl
  unfold extendVtable
  rw [hc.isInterface_eq, h.checksPackages, hpackage,
    slotsOf_eq hc (flat_of_def? hd) (hdistinct d c hd), hc.ty]
  split
  · rfl
  funext m
  simp only [directAmong, bind_apply, h.interfacesOf_eq]
  cases cp'.interfacesOf d m with
  | error e m' => rfl
  | ok i m' =>
    cases hresolved : i.resolved with
    | false =>
      simp only [hresolved]
      rfl
    | true =>
      simp only [hresolved, if_true]
      exact congrArg (fun slots => EStateM.Result.ok (Vtable.mk slots true) m')
        (foldl_slotsOf_eq h hdistinct _ _ _ _)

/-- The search for a vtable is the same for both, by the recursion of the search. -/
theorem vtableFrom_eq (open_ : List String) (d : String) :
    cp.vtableFrom open_ d = cp'.vtableFrom open_ d := by
  rw [ClassPath.vtableFrom_eq, ClassPath.vtableFrom_eq cp']
  by_cases hopen : d ∈ open_
  · rw [if_pos hopen, if_pos hopen]
  obtain ⟨hd, hd'⟩ | ⟨c, c', hd, hd', hc⟩ := h.cases d
  · by_cases hroot : d = objectClass
    · simp only [hd, hd', if_pos hroot]
    · simp only [hd, hd', if_neg hroot, vtableFrom_eq (d :: open_) objectClass]
  · have hin : cp.vtableFrom (d :: open_) = cp'.vtableFrom (d :: open_) :=
      funext fun name => vtableFrom_eq (d :: open_) name
    simp only [hd, hd', hin, collectVtable, hc.superclass?, extendVtable_eq h hdistinct hd hc]
termination_by 2 * cp.unmet open_ + cp.gap d
decreasing_by
  · have := cp.unmet_cons_le d open_
    have : cp.gap d = 1 := by simp [gap, hd, hroot]
    have : cp.gap objectClass = 0 := by simp [gap]
    omega
  · have : cp.unmet (d :: open_) < cp.unmet open_ := unmet_cons_lt hd hopen
    have := cp.gap_le name
    omega

omit hdistinct in
/-- So is the search for a layout, where fields are sorted. -/
theorem layoutFrom_eq (open_ : List String) (d : String) :
    cp.layoutFrom open_ d = cp'.layoutFrom open_ d := by
  rw [ClassPath.layoutFrom_eq, ClassPath.layoutFrom_eq cp']
  by_cases hopen : d ∈ open_
  · rw [if_pos hopen, if_pos hopen]
  obtain ⟨hd, hd'⟩ | ⟨c, c', hd, hd', hc⟩ := h.cases d
  · rw [hd, hd']
  · have hin : cp.layoutFrom (d :: open_) = cp'.layoutFrom (d :: open_) :=
      funext fun name => layoutFrom_eq (d :: open_) name
    simp only [hd, hd', hin, collectLayout, hc.superclass?,
      extendLayout_eq hc (flat_of_def? hd)]
termination_by cp.unmet open_
decreasing_by exact unmet_cons_lt ‹_› ‹_›

/-! ## Every history -/

end Reorders

end ClassPath

end Dalvik
