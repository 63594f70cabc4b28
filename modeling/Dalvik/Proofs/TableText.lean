import Dalvik.InlineTable
import Dalvik.Proofs.RoundTrip
import Mathlib.Data.List.Forall2

/-!
# Inline tables given as text

A table has one entry for each line that is not empty.  A line ends with a line feed, or with a
carriage return and a line feed, and the last one may end with the text (`Lines`).

A line is cut in a way of its own.  The definer is a class whose name ends at the first `;`, and the
arrow follows it at once (`parts?_eq_some_iff`).  The reader of method references takes the first
arrow instead, and then looks at the definer.  So both read the same method, unless the name of the
class has an arrow inside: then the first arrow is no end of a descriptor, and only the table can be
read (`Shows`).
-/

namespace Dalvik.InlineTable

/-! ## Lines -/

/-- A text is made of some lines. -/
inductive Lines : List Char → List (List Char) → Prop where
  | nil : Lines [] []
  /-- The last line ends with the text. -/
  | last {line : List Char} (hne : line ≠ []) (hline : '\n' ∉ line) : Lines line [line]
  /-- A line ends with a line feed. -/
  | feed {line rest : List Char} {ls : List (List Char)} (hline : '\n' ∉ line)
    (hreturn : line.getLast? ≠ some '\r') (hrest : Lines rest ls) :
    Lines (line ++ '\n' :: rest) (line :: ls)
  /-- A line ends with a carriage return and a line feed. -/
  | returned {line rest : List Char} {ls : List (List Char)} (hline : '\n' ∉ line)
    (hrest : Lines rest ls) : Lines (line ++ '\r' :: '\n' :: rest) (line :: ls)

variable {cs line rest before : List Char} {ls : List (List Char)}

/-- The characters read so far and the rest of the text have the lines that are found. -/
theorem lines_linesFrom (hbefore : '\n' ∉ before) :
    Lines (before.reverse ++ cs) (linesFrom before cs) := by
  fun_induction linesFrom before cs with
  | case1 => exact .nil
  | case2 before hne =>
    rw [List.append_nil]
    exact .last (by simpa using hne) (by simpa using hbefore)
  | case3 before rest ih =>
    have hrest := ih List.not_mem_nil
    split
    · next line =>
      rw [List.reverse_cons, List.append_assoc]
      exact .returned (by simpa using hbefore) hrest
    · next line hreturn =>
      refine .feed (by simpa using hbefore) ?_ hrest
      rw [List.getLast?_reverse]
      intro hhead
      obtain ⟨line, rfl⟩ := List.head?_eq_some_iff.1 hhead
      exact hreturn line rfl
  | case4 before c rest hc ih =>
    have hmem : '\n' ∉ c :: before := List.not_mem_cons_of_ne_of_not_mem (Ne.symm hc) hbefore
    have hlines := ih hmem
    rwa [List.reverse_cons, List.append_assoc] at hlines

theorem linesFrom_append (hline : '\n' ∉ line) :
    linesFrom before (line ++ rest) = linesFrom (line.reverse ++ before) rest := by
  induction line generalizing before with
  | nil => rfl
  | cons c line ih =>
    obtain ⟨hc, hline⟩ := not_or.1 (mt List.mem_cons.2 hline)
    rw [List.cons_append, linesFrom, ih hline, List.reverse_cons, List.append_assoc]
    · rfl
    · exact Ne.symm hc

/-- A text has its lines in one way only. -/
theorem Lines.eq_linesFrom (h : Lines cs ls) : ls = linesFrom [] cs := by
  induction h with
  | nil => rfl
  | @last line hne hline =>
    have hall : linesFrom [] (line ++ []) = linesFrom (line.reverse ++ []) [] :=
      linesFrom_append hline
    rw [List.append_nil, List.append_nil] at hall
    rw [hall, linesFrom, if_neg (by simpa using hne), List.reverse_reverse]
  | @feed line rest ls hline hreturn _ ih =>
    rw [linesFrom_append hline, List.append_nil, linesFrom, ← ih, List.reverse_reverse]
    intro line' hreverse
    rw [List.reverse_eq_cons_iff] at hreverse
    exact hreturn (by simp [hreverse])
  | @returned line rest ls hline _ ih =>
    have hall : '\n' ∉ line ++ ['\r'] := by simpa using hline
    rw [List.append_cons, linesFrom_append hall, List.append_nil, List.reverse_concat, linesFrom,
      ← ih, List.reverse_reverse]

/-- The lines of a text are those that are found. -/
theorem lines_iff : Lines cs ls ↔ ls = linesFrom [] cs := by
  constructor
  · exact Lines.eq_linesFrom
  · rintro rfl
    exact lines_linesFrom List.not_mem_nil

/-! ## Cutting a line -/

/-- A line is cut into four parts exactly if it has the form of a method of a class.  The name of
the class has no `;`, the name of the method no opening parenthesis and the parameters no closing
one.  Only the parameters may be empty. -/
theorem parts?_eq_some_iff {p : MethodRef.Parts} :
    parts? line = some p ↔ (∃ cls, p.definer = 'L' :: cls ++ [';'] ∧ cls ≠ [] ∧ ';' ∉ cls) ∧
      (p.name ≠ [] ∧ '(' ∉ p.name) ∧ ')' ∉ p.params ∧ p.result ≠ [] ∧ p.chars = line := by
  constructor
  · intro h
    unfold parts? at h
    split at h
    · next rest =>
      obtain ⟨⟨cls, rest'⟩, hcls, h⟩ := Option.bind_eq_some_iff.1 h
      simp only at h
      split at h
      · next rest'' =>
        obtain ⟨⟨name, rest₁⟩, hname, h⟩ := Option.bind_eq_some_iff.1 h
        obtain ⟨⟨params, result⟩, hparams, h⟩ := Option.bind_eq_some_iff.1 h
        obtain ⟨hne, heq⟩ := Option.ite_none_left_eq_some.1 h
        cases heq
        obtain ⟨hsemi, rfl⟩ := MethodRef.splitAt_eq_some_iff.1 hcls
        obtain ⟨hopen, rfl⟩ := MethodRef.splitAt_eq_some_iff.1 hname
        obtain ⟨hclose, rfl⟩ := MethodRef.splitAt_eq_some_iff.1 hparams
        obtain ⟨hcls', hname', hresult⟩ := by simpa only [not_or] using hne
        refine ⟨⟨cls, rfl, hcls', hsemi⟩, ⟨hname', hopen⟩, hclose, hresult, ?_⟩
        simp [MethodRef.Parts.chars, MethodRef.arrow]
      · cases h
    · cases h
  · rintro ⟨⟨cls, hdefiner, hcls, hsemi⟩, ⟨hname, hopen⟩, hclose, hresult, rfl⟩
    have hline : p.chars = 'L' :: (cls ++ ';' :: '-' :: '>' :: (p.name ++ '(' ::
        (p.params ++ ')' :: p.result))) := by
      simp [MethodRef.Parts.chars, MethodRef.arrow, hdefiner]
    rw [hline]
    refine Option.bind_eq_some_iff.2 ⟨_, MethodRef.splitAt_eq_some_iff.2 ⟨hsemi, rfl⟩, ?_⟩
    refine Option.bind_eq_some_iff.2 ⟨_, MethodRef.splitAt_eq_some_iff.2 ⟨hopen, rfl⟩, ?_⟩
    refine Option.bind_eq_some_iff.2 ⟨_, MethodRef.splitAt_eq_some_iff.2 ⟨hclose, rfl⟩, ?_⟩
    simp only [hcls, hname, hresult, or_self, if_false, ← hdefiner]

/-! ## Arrows in class names -/

theorem arrow_infix_concat {c : Char} (hc : c ≠ '>') :
    MethodRef.arrow <:+: cs ++ [c] ↔ MethodRef.arrow <:+: cs := by
  induction cs with
  | nil => simp [MethodRef.arrow_infix_cons]
  | cons d cs ih =>
    rw [List.cons_append, MethodRef.arrow_infix_cons, MethodRef.arrow_infix_cons, ih]
    cases cs with
    | nil => simp [hc]
    | cons e cs => rfl

/-- An arrow in the descriptor of a class stands in its name. -/
theorem arrow_infix_definer {cls : List Char} :
    MethodRef.arrow <:+: 'L' :: cls ++ [';'] ↔ MethodRef.arrow <:+: cls := by
  rw [arrow_infix_concat (by decide), MethodRef.arrow_infix_cons]
  simp

/-- The first arrow of a text that has one. -/
theorem exists_first_arrow (h : MethodRef.arrow <:+: cs) :
    ∃ before after, ¬ MethodRef.arrow <:+: before ∧ cs = before ++ MethodRef.arrow ++ after := by
  induction cs with
  | nil => simp [MethodRef.arrow] at h
  | cons c cs ih =>
    by_cases hfirst : c = '-' ∧ cs.head? = some '>'
    · obtain ⟨rfl, hhead⟩ := hfirst
      obtain ⟨after, rfl⟩ := List.head?_eq_some_iff.1 hhead
      exact ⟨[], after, by simp [MethodRef.arrow], rfl⟩
    · obtain ⟨before, after, hbefore, rfl⟩ :=
        ih ((MethodRef.arrow_infix_cons.1 h).resolve_left hfirst)
      refine ⟨c :: before, after, fun hinfix => ?_, rfl⟩
      obtain ⟨hc, hhead⟩ := (MethodRef.arrow_infix_cons.1 hinfix).resolve_right hbefore
      obtain ⟨before, rfl⟩ := List.head?_eq_some_iff.1 hhead
      exact hfirst ⟨hc, rfl⟩

/-- A descriptor that starts with `L` ends with `;`. -/
theorem semicolon_mem_of_canonical {t : Ty} (ht : t.Canonical) (hchars : t.chars = 'L' :: cs) :
    ';' ∈ cs := by
  cases t with
  | cls name =>
    cases hchars
    exact List.mem_append_right _ List.mem_cons_self
  | array dims elem =>
    obtain ⟨n, rfl⟩ := Nat.exists_eq_add_of_le' ht.1
    cases hchars
  | _ => cases hchars

section Parts

variable {p q : MethodRef.Parts} {m r : MethodRef} {cls : List Char}

/-- The definer of a line that is read is a class. -/
theorem definer_of_ofParts (hm : MethodRef.ofParts p = .ok m)
    (hdefiner : p.definer = 'L' :: cls ++ [';']) (hcls : cls ≠ []) :
    m.definer = .cls (String.ofList cls) := by
  obtain ⟨⟨hcanonical, _⟩, rfl⟩ := MethodRef.ofParts_eq_ok_iff.1 hm
  have hread : Ty.readChars ('L' :: cls ++ [';']) = .ok m.definer :=
    Ty.readChars_eq_ok_iff.2 ⟨hcanonical, hdefiner⟩
  have hclass : Ty.readChars ('L' :: cls ++ [';']) = .ok (.cls (String.ofList cls)) := by
    refine Ty.readChars_eq_ok_iff.2 ⟨fun hempty => ?_, ?_⟩
    · exact hcls (String.ofList_eq_empty_iff.1 hempty)
    · simp [Ty.chars]
  exact Except.ok.inj (hread.symm.trans hclass)

/-- Where the name of the class has an arrow, what stands before the first arrow is no
descriptor. -/
theorem not_arrow_of_ofParts (hq : MethodRef.parts? line = some q)
    (hr : MethodRef.ofParts q = .ok r) (hline : line = 'L' :: cls ++ rest) (hsemi : ';' ∉ cls) :
    ¬ MethodRef.arrow <:+: cls := by
  intro harrow
  obtain ⟨before, after, hbefore, rfl⟩ := exists_first_arrow harrow
  obtain ⟨⟨hdefiner, _⟩, hchars⟩ := MethodRef.parts?_eq_some_iff.1 hq
  have hsplit := MethodRef.splitArrow_eq_some_iff.2 ⟨hdefiner, hchars.symm⟩
  have hsplit' : MethodRef.splitArrow line = some ('L' :: before, after ++ rest) := by
    refine MethodRef.splitArrow_eq_some_iff.2 ⟨?_, by simp [hline]⟩
    simpa [MethodRef.arrow_infix_cons] using hbefore
  have hfirst : q.definer = 'L' :: before :=
    congrArg Prod.fst (Option.some.inj (hsplit.symm.trans hsplit'))
  obtain ⟨⟨hcanonical, _⟩, rfl⟩ := MethodRef.ofParts_eq_ok_iff.1 hr
  have hmem := semicolon_mem_of_canonical hcanonical hfirst
  exact hsemi (List.mem_append_left _ (List.mem_append_left _ hmem))

/-- The two ways to cut a text agree where the name of the class has no arrow. -/
theorem parts?_of_not_arrow (hp : parts? line = some p) (hdefiner : p.definer = 'L' :: cls ++ [';'])
    (harrow : ¬ MethodRef.arrow <:+: cls) : MethodRef.parts? line = some p := by
  obtain ⟨_, ⟨hname, hopen⟩, hclose, _, hchars⟩ := parts?_eq_some_iff.1 hp
  refine MethodRef.parts?_eq_some_iff.2 ⟨⟨?_, hopen, hclose, hname⟩, hchars⟩
  rwa [hdefiner, arrow_infix_definer]

end Parts

/-! ## Tables -/

/-- A line shows a method: it is its written form, and is read as this method exactly if the name of
its class has no arrow. -/
structure Shows (line : List Char) (m : MethodRef) : Prop where
  text : m.text = String.ofList line
  parse : ∃ name, m.definer = .cls name ∧
    ∀ r, MethodRef.parse (String.ofList line) = .ok r ↔
      r = m ∧ ¬ MethodRef.arrow <:+: name.toList

theorem shows_of_parts {p : MethodRef.Parts} {m : MethodRef} (hp : parts? line = some p)
    (hm : MethodRef.ofParts p = .ok m) : Shows line m := by
  obtain ⟨⟨cls, hdefiner, hcls, hsemi⟩, _, _, _, hchars⟩ := parts?_eq_some_iff.1 hp
  constructor
  · obtain ⟨_, rfl⟩ := MethodRef.ofParts_eq_ok_iff.1 hm
    rw [MethodRef.text, ← MethodRef.chars_writtenParts, hchars]
  · refine ⟨_, definer_of_ofParts hm hdefiner hcls, fun r => ?_⟩
    rw [MethodRef.parse, String.toList_ofList, String.toList_ofList]
    constructor
    · intro h
      cases hq : MethodRef.parts? line with
      | none =>
        rw [hq] at h
        cases h
      | some q =>
        simp only [hq] at h
        have hline : line = 'L' :: cls ++ ([';'] ++ MethodRef.arrow ++
            (p.name ++ '(' :: (p.params ++ ')' :: p.result))) := by
          rw [← hchars, MethodRef.Parts.chars, hdefiner]
          simp only [List.append_assoc]
        have harrow := not_arrow_of_ofParts hq h hline hsemi
        cases hq.symm.trans (parts?_of_not_arrow hp hdefiner harrow)
        exact ⟨Except.ok.inj (h.symm.trans hm), harrow⟩
    · rintro ⟨rfl, harrow⟩
      rw [parts?_of_not_arrow hp hdefiner harrow]
      exact hm

theorem parts_of_readLine {cp : ClassPath} {text : String} {m : InlineMethod}
    (h : readLine cp text = .ok m) :
    ∃ p, parts? text.toList = some p ∧ MethodRef.ofParts p = .ok m.method := by
  unfold readLine at h
  cases hp : parts? text.toList with
  | none =>
    rw [hp] at h
    cases h
  | some p =>
    simp only [hp] at h
    cases hm : MethodRef.ofParts p with
    | error e =>
      rw [hm] at h
      cases h
    | ok method =>
      simp only [hm] at h
      split at h
      · cases h
        exact ⟨p, rfl, hm⟩
      · cases h

/-- An entry stands for the method that a line shows. -/
def Lists (line : List Char) (e : InlineEntry) : Prop := ∃ m, e = .fixed m ∧ Shows line m.method

/-- The lines that are read have entries, in order. -/
theorem forall₂_lists {cp : ClassPath} {methods : List InlineMethod}
    (h : (ls.map String.ofList).mapM (readLine cp) = .ok methods) :
    List.Forall₂ Lists ls (methods.map .fixed) := by
  induction ls generalizing methods with
  | nil =>
    cases h
    exact .nil
  | cons line ls ih =>
    rw [List.map_cons, List.mapM_cons] at h
    obtain ⟨m, hm, h⟩ := except_bind_ok.1 h
    obtain ⟨rest, hrest, h⟩ := except_bind_ok.1 h
    cases h
    obtain ⟨p, hp, hparts⟩ := parts_of_readLine hm
    rw [String.toList_ofList] at hp
    exact .cons ⟨m, rfl, shows_of_parts hp hparts⟩ (ih hrest)

/-- A table that is read has one entry for each line of the text that is not empty, in order, and
each line shows the method of its entry. -/
theorem table_lists_lines (cp : ClassPath) (text : String) (table : InlineTable)
    (h : ofText cp text = .ok table) :
    ∃ ls, (∀ ls', Lines text.toList ls' ↔ ls' = ls) ∧
      List.Forall₂ Lists (ls.filter fun line => line ≠ []) table.entries := by
  obtain ⟨methods, hmethods, htable⟩ := except_bind_ok.1 h
  cases htable
  exact ⟨linesFrom [] text.toList, fun ls' => lines_iff, forall₂_lists hmethods⟩

/-- Two classes with a method each.  The name of one has an arrow. -/
def arrowed : ClassPath := .ofClasses
  [{ ty := .cls "A",
      methods := [⟨"f", [.array 1 .int, .cls "B"], .void, .ofList [.static], none⟩] },
    { ty := .cls "A->B", methods := [⟨"g->", [], .int, .ofList [.priv], none⟩] }] defaultLevel

/-- A table of both methods, with an empty line between them. -/
def arrowedText : String := "LA;->f([ILB;)V\r\n\nLA->B;->g->()I"

/-- Both lines have their entries. -/
theorem table_lists_lines_arrowed :
    ∃ table, ofText arrowed arrowedText = .ok table ∧
      List.Forall₂ Lists ["LA;->f([ILB;)V".toList, "LA->B;->g->()I".toList] table.entries := by
  have hread : (ofText arrowed arrowedText).toOption.isSome = true := by decide +kernel
  obtain ⟨table, htable⟩ := Option.isSome_iff_exists.1 hread
  have htable := ok_of_toOption htable
  obtain ⟨ls, hls, hlists⟩ := table_lists_lines arrowed arrowedText table htable
  have hlines : linesFrom [] arrowedText.toList =
      ["LA;->f([ILB;)V".toList, [], "LA->B;->g->()I".toList] := by decide +kernel
  rw [← (hls _).1 (lines_iff.2 rfl), hlines] at hlists
  exact ⟨table, htable, hlists⟩

end Dalvik.InlineTable
