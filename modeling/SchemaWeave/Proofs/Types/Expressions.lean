import SchemaWeave.Proofs.Text.Pieces
import SchemaWeave.Proofs.Types.Loading
import SchemaWeave.Proofs.Types.Path
import SchemaWeave.Schema.Resolve

/-!
The grammar of type expressions. `Simple` and `Derives` are the grammar, over trimmed texts: the
forms without marks exclude one another, and none begins like a mark, so that parsing finds exactly
what is derived (`parse_derives`). `Prints` are the texts of a type expression, with any blanks
around each part of it; trimmed, they are derived (`Prints.derives`).
-/

namespace SchemaWeave

namespace Text

/-! ### Identifiers -/

variable {c : Char} {cs : List Char}

theorem isLetterOrNumber_of_isLetter (h : isLetter c = true) : isLetterOrNumber c = true := by
  unfold isLetter at h
  unfold isLetterOrNumber
  split
  · rename_i hascii
    rw [if_pos hascii] at h
    simp [h]
  · rename_i hascii
    rw [if_neg hascii] at h
    simp [isLetter, hascii, h]

/-- The code points of the blanks. -/
def blankPoints : List Nat :=
  [9, 10, 11, 12, 13, 0x20, 0x85, 0xA0, 0x1680, 0x2000, 0x2001, 0x2002, 0x2003, 0x2004, 0x2005,
    0x2006, 0x2007, 0x2008, 0x2009, 0x200A, 0x2028, 0x2029, 0x202F, 0x205F, 0x3000]

theorem mem_blankPoints (h : isBlank c = true) : c.toNat ∈ blankPoints := by
  simp only [isBlank, Bool.or_eq_true, Bool.and_eq_true, decide_eq_true_eq, beq_iff_eq] at h
  simp only [blankPoints, List.mem_cons, List.not_mem_nil, or_false]
  omega

theorem not_isLetterOrNumber_of_isBlank (h : isBlank c = true) :
    isLetterOrNumber c = false ∧ c ≠ '_' := by
  have hpoints : ∀ n ∈ blankPoints,
      isLetterOrNumber (Char.ofNat n) = false ∧ Char.ofNat n ≠ '_' := by
    decide +kernel
  have hc := hpoints c.toNat (mem_blankPoints h)
  rwa [Char.ofNat_toNat] at hc

theorem isBlank_of_mem_identifier (h : isIdentifier cs = true) (hc : c ∈ cs) :
    isBlank c = false := by
  cases hblank : isBlank c with
  | false => rfl
  | true =>
      obtain ⟨hother, hscore⟩ := not_isLetterOrNumber_of_isBlank hblank
      have hletter : isLetter c = false := by
        rw [← Bool.not_eq_true]
        intro hletter
        rw [isLetterOrNumber_of_isLetter hletter] at hother
        cases hother
      exact absurd hc (not_mem_of_isIdentifier h hletter hother hscore)

end Text

namespace TypeExpr

/-! ### The grammar -/

/-- Names that stand for no declared type. -/
def IsReserved (name : String) : Prop :=
  name = "any" ∨ name = "func" ∨ (ScalarKind.ofTypeName? name).isSome

instance : DecidablePred IsReserved := fun _ => inferInstanceAs (Decidable (_ ∨ _))

/-- Trimmed texts of type expressions without marks. -/
inductive Simple : List Char → TypeExpr → Prop where
  | any : Simple "any".toList .interface
  | interface {cs : List Char} (h : cs.filter (· != ' ') = "interface\x7b\x7d".toList) :
      Simple cs .interface
  | func : Simple "func".toList .func
  | signature (rest : List Char) : Simple ("func(".toList ++ rest) .func
  | scalar {name : String} {kind : ScalarKind} (h : ScalarKind.ofTypeName? name = some kind) :
      Simple name.toList (.scalar kind)
  | qualified {package name : String} (hpackage : Text.isIdentifier package.toList = true)
      (hname : Text.isIdentifier name.toList = true) :
      Simple (package.toList ++ '.' :: name.toList) (.qualified package name)
  | named {name : String} (hname : Text.isIdentifier name.toList = true) (h : ¬ IsReserved name) :
      Simple name.toList (.named name)

/-- Trimmed texts of type expressions. After a mark there may be blanks. -/
inductive Derives : List Char → TypeExpr → Prop where
  | array {rest : List Char} {e : TypeExpr} (h : Derives (Text.trim rest) e) :
      Derives ('[' :: ']' :: rest) (.array e)
  | pointer {rest : List Char} {e : TypeExpr} (h : Derives (Text.trim rest) e) :
      Derives ('*' :: rest) (.pointer e)
  | simple {cs : List Char} {e : TypeExpr} (h : Simple cs e) : Derives cs e

variable {cs : List Char} {e : TypeExpr} {kind : ScalarKind} {name package : String}

/-! ### Forms without marks -/

/-- The names that stand for scalars. -/
def scalarNames : List String :=
  ScalarKind.integerNames ++ ["float32", "float64", "string", "bool"]

theorem mem_scalarNames (h : ScalarKind.ofTypeName? name = some kind) : name ∈ scalarNames := by
  unfold ScalarKind.ofTypeName? at h
  simp only [scalarNames, List.mem_append, List.mem_cons, List.not_mem_nil, or_false]
  split at h
  · rename_i hmem
    exact .inl (by simpa using hmem)
  · split at h
    · rename_i hname
      exact .inr (by simpa [or_assoc] using Or.inl hname)
    · split at h
      · rename_i hname
        simp [hname]
      · split at h
        · rename_i hname
          simp [hname]
        · cases h

/-- What a text stands for that is no word of the grammar. -/
def parseName (cs : List Char) : Except Fault TypeExpr :=
  match ScalarKind.ofTypeName? (String.ofList cs), Text.cutAt '.' cs with
  | some kind, _ => .ok (.scalar kind)
  | none, some (package, name) =>
    if Text.isIdentifier package && Text.isIdentifier name then
      .ok (.qualified (String.ofList package) (String.ofList name))
    else .error .badQualifiedName
  | none, none =>
    if Text.isIdentifier cs then .ok (.named (String.ofList cs)) else .error .unsupported

theorem parseSimple_eq (cs : List Char) :
    parseSimple cs =
      if cs = "any".toList ∨ cs.filter (· != ' ') = "interface\x7b\x7d".toList then .ok .interface
      else if cs = "func".toList ∨ (Text.stripStart "func(".toList cs).isSome then .ok .func
      else parseName cs := rfl

theorem parseSimple_name (hbrace : '\x7b' ∉ cs) (hparen : '(' ∉ cs) (hany : cs ≠ "any".toList)
    (hfunc : cs ≠ "func".toList) : parseSimple cs = parseName cs := by
  have hinterface : cs.filter (· != ' ') ≠ "interface\x7b\x7d".toList := fun h => by
    have hmem : '\x7b' ∈ cs.filter (· != ' ') := h ▸ (by decide)
    exact hbrace (List.mem_filter.1 hmem).1
  have hsignature : ¬ (Text.stripStart "func(".toList cs).isSome = true := fun h => by
    obtain ⟨rest, hrest⟩ := Option.isSome_iff_exists.1 h
    rw [Text.stripStart_eq_some.1 hrest] at hparen
    exact hparen (List.mem_append_left _ (by decide))
  rw [parseSimple_eq, if_neg (not_or.2 ⟨hany, hinterface⟩),
    if_neg (not_or.2 ⟨hfunc, hsignature⟩)]

theorem parseSimple_scalar (h : ScalarKind.ofTypeName? name = some kind) :
    parseSimple name.toList = .ok (.scalar kind) := by
  have hall : ∀ name ∈ scalarNames, '\x7b' ∉ name.toList ∧ '(' ∉ name.toList ∧
      name.toList ≠ "any".toList ∧ name.toList ≠ "func".toList := by decide +kernel
  obtain ⟨hbrace, hparen, hany, hfunc⟩ := hall name (mem_scalarNames h)
  rw [parseSimple_name hbrace hparen hany hfunc, parseName, String.ofList_toList, h]

theorem brackets_not_mem (h : Text.isIdentifier cs = true) : '\x7b' ∉ cs ∧ '(' ∉ cs :=
  ⟨Text.not_mem_of_isIdentifier h (by decide) (by decide) (by decide),
    Text.not_mem_of_isIdentifier h (by decide) (by decide) (by decide)⟩

theorem parseSimple_qualified (hpackage : Text.isIdentifier package.toList = true)
    (hname : Text.isIdentifier name.toList = true) :
    parseSimple (package.toList ++ '.' :: name.toList) = .ok (.qualified package name) := by
  obtain ⟨hbrace, hparen⟩ := brackets_not_mem hpackage
  obtain ⟨hbrace', hparen'⟩ := brackets_not_mem hname
  -- the point tells the text from the words of the grammar, and from the names of scalars
  have hdot : '.' ∈ package.toList ++ '.' :: name.toList := by simp
  have hword {word : List Char} (hword : '.' ∉ word) :
      package.toList ++ '.' :: name.toList ≠ word := fun h => hword (h ▸ hdot)
  have hscalar : ScalarKind.ofTypeName? (String.ofList (package.toList ++ '.' :: name.toList)) =
      none := by
    rw [Option.eq_none_iff_forall_ne_some]
    intro kind h
    have hall : ∀ name ∈ scalarNames, '.' ∉ name.toList := by decide +kernel
    exact hall _ (mem_scalarNames h) (by simp)
  rw [parseSimple_name (by simp [hbrace, hbrace']) (by simp [hparen, hparen'])
    (hword (by decide)) (hword (by decide)), parseName, hscalar,
    Text.cutAt_append (Text.dot_not_mem_of_isIdentifier hpackage)]
  simp [hpackage, hname]

theorem parseSimple_named (hname : Text.isIdentifier name.toList = true) (h : ¬ IsReserved name) :
    parseSimple name.toList = .ok (.named name) := by
  simp only [IsReserved, not_or, Option.not_isSome_iff_eq_none] at h
  obtain ⟨hany, hfunc, hscalar⟩ := h
  obtain ⟨hbrace, hparen⟩ := brackets_not_mem hname
  rw [parseSimple_name hbrace hparen (mt String.toList_inj.1 hany) (mt String.toList_inj.1 hfunc),
    parseName, String.ofList_toList, hscalar,
    Text.cutAt_eq_none (Text.dot_not_mem_of_isIdentifier hname)]
  simp [hname]

theorem Simple.of_parseName (h : parseName cs = .ok e) (hany : cs ≠ "any".toList)
    (hfunc : cs ≠ "func".toList) : Simple cs e := by
  unfold parseName at h
  split at h
  · rename_i kind hkind
    cases h
    simpa using Simple.scalar hkind
  · rename_i package name hscalar hcut
    split at h
    · rename_i hboth
      cases h
      rw [Bool.and_eq_true] at hboth
      have hsimple : Simple ((String.ofList package).toList ++ '.' :: (String.ofList name).toList)
          (.qualified (String.ofList package) (String.ofList name)) :=
        .qualified (by simpa using hboth.1) (by simpa using hboth.2)
      rw [Text.cutAt_eq_some hcut]
      simpa using hsimple
    · cases h
  · rename_i hscalar hcut
    split at h
    · rename_i hname
      cases h
      have hother : ¬ IsReserved (String.ofList cs) := by
        rintro (heq | heq | heq)
        · exact hany (by rw [← heq, String.toList_ofList])
        · exact hfunc (by rw [← heq, String.toList_ofList])
        · simp [hscalar] at heq
      simpa using Simple.named (by simpa using hname) hother
    · cases h

/-- Each form without marks is read, and nothing else. -/
theorem parseSimple_eq_ok : parseSimple cs = .ok e ↔ Simple cs e := by
  constructor
  · intro h
    rw [parseSimple_eq] at h
    split at h
    · rename_i hcs
      cases h
      rcases hcs with rfl | hcs
      · exact .any
      · exact .interface hcs
    · rename_i hinterface
      split at h
      · rename_i hcs
        cases h
        rcases hcs with rfl | hcs
        · exact .func
        · obtain ⟨rest, hrest⟩ := Option.isSome_iff_exists.1 hcs
          rw [Text.stripStart_eq_some.1 hrest]
          exact .signature rest
      · rename_i hfunc
        exact .of_parseName h (not_or.1 hinterface).1 (not_or.1 hfunc).1
  · intro h
    cases h with
    | any => rfl
    | interface h => rw [parseSimple, if_pos (.inr h)]
    | func => rfl
    | signature rest => rfl
    | scalar h => exact parseSimple_scalar h
    | qualified hpackage hname => exact parseSimple_qualified hpackage hname
    | named hname h => exact parseSimple_named hname h

/-! ### Marks -/

/-- No form without marks begins like a mark. -/
theorem Simple.unmarked (h : Simple cs e) : cs.head? ≠ some '[' ∧ cs.head? ≠ some '*' := by
  have hidentifier {name : List Char} (hname : Text.isIdentifier name = true)
      (rest : List Char) : (name ++ rest).head? ≠ some '[' ∧ (name ++ rest).head? ≠ some '*' := by
    cases name with
    | nil => cases hname
    | cons first others =>
        refine ⟨?_, ?_⟩ <;> rintro ⟨⟩ <;>
          exact Text.not_mem_of_isIdentifier hname (by decide) (by decide) (by decide)
            List.mem_cons_self
  cases h with
  | any => decide
  | interface h =>
      cases cs with
      | nil => cases h
      | cons c cs => refine ⟨?_, ?_⟩ <;> rintro ⟨⟩ <;> simp at h
  | func => decide
  | signature rest => exact ⟨nofun, nofun⟩
  | scalar h =>
      have hall : ∀ name ∈ scalarNames,
          name.toList.head? ≠ some '[' ∧ name.toList.head? ≠ some '*' := by
        decide +kernel
      exact hall _ (mem_scalarNames h)
  | qualified hpackage hname => exact hidentifier hpackage _
  | named hname h => simpa using hidentifier hname []

theorem derives_array {rest : List Char} : Derives ('[' :: ']' :: rest) e ↔
    ∃ element, Derives (Text.trim rest) element ∧ TypeExpr.array element = e := by
  constructor
  · intro h
    cases h with
    | array h => exact ⟨_, h, rfl⟩
    | simple h => exact absurd rfl h.unmarked.1
  · rintro ⟨element, h, rfl⟩
    exact .array h

theorem derives_pointer {rest : List Char} : Derives ('*' :: rest) e ↔
    ∃ target, Derives (Text.trim rest) target ∧ TypeExpr.pointer target = e := by
  constructor
  · intro h
    cases h with
    | pointer h => exact ⟨_, h, rfl⟩
    | simple h => exact absurd rfl h.unmarked.2
  · rintro ⟨target, h, rfl⟩
    exact .pointer h

theorem derives_unmarked (hbrackets : ∀ rest, cs ≠ '[' :: ']' :: rest)
    (hstar : ∀ rest, cs ≠ '*' :: rest) : Derives cs e ↔ Simple cs e := by
  refine ⟨fun h => ?_, .simple⟩
  cases h with
  | array h => exact (hbrackets _ rfl).elim
  | pointer h => exact (hstar _ rfl).elim
  | simple h => exact h

/-- A text is read as it is derived. Each mark takes a character, so the length bounds them. -/
theorem parseTrimmed_eq_ok : ∀ fuel cs e, cs.length ≤ fuel →
    (parseTrimmed fuel cs = .ok e ↔ Derives cs e) := by
  intro fuel
  induction fuel with
  | zero =>
      intro cs e hlength
      cases List.eq_nil_of_length_eq_zero (Nat.le_zero.1 hlength)
      have hempty : Derives [] e ↔ Simple [] e := derives_unmarked (fun _ => nofun) fun _ => nofun
      rw [parseTrimmed, mapError_eq_ok, parseSimple_eq_ok, hempty]
  | succ fuel ih =>
      intro cs e hlength
      have hrest {rest : List Char} (h : rest.length + 1 ≤ cs.length) (e : TypeExpr) :
          parseTrimmed fuel (Text.trim rest) = .ok e ↔ Derives (Text.trim rest) e := by
        have htrim := Text.length_trim_le rest
        exact ih _ e (by omega)
      rw [parseTrimmed.eq_def]
      dsimp only
      split
      · rw [map_eq_ok, derives_array]
        exact exists_congr fun element => and_congr_left fun _ => hrest (by simp) element
      · rw [map_eq_ok, derives_pointer]
        exact exists_congr fun target => and_congr_left fun _ => hrest (by simp) target
      · rename_i hbrackets hstar
        rw [mapError_eq_ok, parseSimple_eq_ok, derives_unmarked hbrackets hstar]

theorem parse_derives {text : String} :
    parse text = .ok e ↔ Derives (Text.trim text.toList) e :=
  parseTrimmed_eq_ok _ _ e (Nat.le_refl _)

/-- The grammar assigns one type expression to a text. -/
theorem Derives.unique {e' : TypeExpr} (h : Derives cs e) (h' : Derives cs e') : e = e' := by
  have hparse := (parseTrimmed_eq_ok _ cs e (Nat.le_refl _)).2 h
  rw [(parseTrimmed_eq_ok _ cs e' (Nat.le_refl _)).2 h'] at hparse
  cases hparse
  rfl

/-! ### Types inside a type -/

/-- The types that a type expression of a file holds, from the outside in. -/
def nested (file : String) : TypeExpr → List TypeRef
  | .array e | .pointer e => .anonymous file e :: e.nested file
  | .scalar _ | .named _ | .qualified _ _ | .interface | .func => []

theorem nested_anonymous {file : String} {t : TypeRef} (ht : t ∈ e.nested file) :
    t.file = file ∧ t.key = none := by
  induction e with
  | array e ih | pointer e ih =>
      rcases List.mem_cons.1 ht with rfl | ht
      · exact ⟨rfl, rfl⟩
      · exact ih ht
  | scalar | named | qualified | interface | func => cases ht

/-- Types inside an array or behind a pointer are resolved in its place: the schema of an array is
the array of the schema of the first type inside, and a pointer denotes what the first type inside
denotes. -/
structure ResolvesNested (r : Resolver) (next : Resolver.Next Resolving) (t u : TypeRef) :
    Prop where
  array {e : TypeExpr} (ht : t.shape = .expr (.array e))
    (hu : (nested t.file (.array e)).head? = some u) :
    r.shapeSchema next t = do
      let items ← r.shapeSchema next u
      return (Schema.array items none).describe t.doc.full
  pointer {e : TypeExpr} (ht : t.shape = .expr (.pointer e))
    (hu : (nested t.file (.pointer e)).head? = some u) (n : Nat) :
    Resolver.definitionWithin r.graph (n + 1) t = Resolver.definitionWithin r.graph n u

theorem resolvesNested (r : Resolver) (next : Resolver.Next Resolving) (t u : TypeRef) :
    ResolvesNested r next t u where
  array ht hu := by
    cases hu
    simp only [Resolver.shapeSchema, ht, Resolver.exprSchema, TypeRef.anonymous]
  pointer ht hu n := by
    cases hu
    rw [Resolver.definitionWithin, ht]

/-! ### Printing -/

/-- The names are identifiers, and none stands for something else. -/
def HasNames : TypeExpr → Prop
  | .named name => Text.isIdentifier name.toList = true ∧ ¬ IsReserved name
  | .qualified package name =>
    Text.isIdentifier package.toList = true ∧ Text.isIdentifier name.toList = true
  | .array e | .pointer e => e.HasNames
  | .scalar _ | .interface | .func => True

/-- The texts of a type expression, with blanks around it and around each of its parts. -/
inductive Prints : TypeExpr → List Char → Prop where
  | padded {e : TypeExpr} {before cs after : List Char}
      (hbefore : ∀ c ∈ before, Text.isBlank c = true) (h : Prints e cs)
      (hafter : ∀ c ∈ after, Text.isBlank c = true) : Prints e (before ++ cs ++ after)
  | array {e : TypeExpr} {cs : List Char} (h : Prints e cs) : Prints (.array e) ('[' :: ']' :: cs)
  | pointer {e : TypeExpr} {cs : List Char} (h : Prints e cs) : Prints (.pointer e) ('*' :: cs)
  | any : Prints .interface "any".toList
  | interface {cs : List Char} (h : cs.filter (· != ' ') = "interface\x7b\x7d".toList) :
      Prints .interface cs
  | func : Prints .func "func".toList
  | signature (rest : List Char) : Prints .func ("func(".toList ++ rest)
  | scalar {name : String} {kind : ScalarKind} (h : ScalarKind.ofTypeName? name = some kind) :
      Prints (.scalar kind) name.toList
  | qualified (package name : String) :
      Prints (.qualified package name) (package.toList ++ '.' :: name.toList)
  | named (name : String) : Prints (.named name) name.toList

/-- A text without blanks, with one of the names of a scalar. -/
def print : TypeExpr → List Char
  | .scalar .integer => "int".toList
  | .scalar .number => "float64".toList
  | .scalar .string => "string".toList
  | .scalar .boolean => "bool".toList
  | .named name => name.toList
  | .qualified package name => package.toList ++ '.' :: name.toList
  | .array e => '[' :: ']' :: e.print
  | .pointer e => '*' :: e.print
  | .interface => "any".toList
  | .func => "func".toList

theorem prints_print (e : TypeExpr) : Prints e e.print := by
  induction e with
  | scalar kind => cases kind <;> exact .scalar rfl
  | named name => exact .named name
  | qualified package name => exact .qualified package name
  | array e ih => exact .array ih
  | pointer e ih => exact .pointer ih
  | interface => exact .any
  | func => exact .func

theorem Prints.derives (h : Prints e cs) (hnames : e.HasNames) : Derives (Text.trim cs) e := by
  induction h with
  | padded hbefore _ hafter ih =>
      rw [Text.trim_blanks hbefore hafter]
      exact ih hnames
  | array _ ih =>
      rw [Text.trim_cons_of_not_blank (by decide), Text.trimEnd_cons_of_not_blank (by decide)]
      refine .array ?_
      rw [Text.trim_trimEnd]
      exact ih hnames
  | pointer _ ih =>
      rw [Text.trim_cons_of_not_blank (by decide)]
      refine .pointer ?_
      rw [Text.trim_trimEnd]
      exact ih hnames
  | any => exact .simple .any
  | interface h =>
      -- what is left without spaces has no blanks at its ends, so only spaces are trimmed
      refine .simple (.interface ?_)
      rw [Text.filter_trim, h]
      · rw [h]
        rintro c ⟨⟩
        decide
      · rw [h]
        rintro c ⟨⟩
        decide
  | func => exact .simple .func
  | signature rest =>
      have htrim : Text.trim ("func(".toList ++ rest) = "func(".toList ++ Text.trimEnd rest := by
        change Text.trim ('f' :: 'u' :: 'n' :: 'c' :: '(' :: rest) = _
        rw [Text.trim_cons_of_not_blank (by decide)]
        iterate 4 rw [Text.trimEnd_cons_of_not_blank (by decide)]
        rfl
      exact htrim ▸ .simple (.signature _)
  | scalar h =>
      have hall : ∀ name ∈ scalarNames, name.toList.all (!Text.isBlank ·) = true := by
        decide +kernel
      have hname := List.all_eq_true.1 (hall _ (mem_scalarNames h))
      rw [Text.trim_eq_self (by simpa using hname)]
      exact .simple (.scalar h)
  | qualified package name =>
      rw [Text.trim_eq_self]
      · exact .simple (.qualified hnames.1 hnames.2)
      · intro c hc
        rcases List.mem_append.1 hc with hc | hc
        · exact Text.isBlank_of_mem_identifier hnames.1 hc
        · rcases List.mem_cons.1 hc with rfl | hc
          · decide
          · exact Text.isBlank_of_mem_identifier hnames.2 hc
  | named name =>
      rw [Text.trim_eq_self fun c hc => Text.isBlank_of_mem_identifier hnames.1 hc]
      exact .simple (.named hnames.1 hnames.2)

/-- **Type expressions have exactly one grammar.** A text stands for what the grammar derives from
it without the blanks around it, and for nothing else; the types inside belong to the file and have
no key, and they are what is resolved in its place; and whatever blanks are put around the parts of
a type expression whose names are proper, its text is read back. -/
theorem parse_exactly :
    (∀ text e, parse text = .ok e ↔ Derives (Text.trim text.toList) e) ∧
    (∀ file e, ∀ t ∈ nested file e, t.file = file ∧ t.key = none) ∧
    (∀ r next t u, ResolvesNested r next t u) ∧
    ∀ e : TypeExpr, Prints e e.print ∧
      (e.HasNames → ∀ text : String, Prints e text.toList → parse text = .ok e) :=
  ⟨fun _ _ => parse_derives, fun _ _ _ ht => nested_anonymous ht, resolvesNested, fun e =>
    ⟨prints_print e, fun hnames _ h => parse_derives.2 (h.derives hnames)⟩⟩

/-- Blanks of several kinds around all parts. -/
theorem parse_exactly_padded :
    let e : TypeExpr := .array (.pointer (.qualified "model" "Pet"))
    let text := " []\t*  model.Pet\n"
    e.HasNames ∧ Prints e text.toList ∧ parse text = .ok e := by
  intro e text
  have hnames : e.HasNames := ⟨by decide, by decide⟩
  have hblanks {cs : List Char} (h : cs.all Text.isBlank = true) :
      ∀ c ∈ cs, Text.isBlank c = true := List.all_eq_true.1 h
  have hpet : Prints (.qualified "model" "Pet") ([' ', ' '] ++ "model.Pet".toList ++ []) :=
    .padded (hblanks rfl) (.qualified "model" "Pet") (hblanks rfl)
  have hpointer : Prints (.pointer (.qualified "model" "Pet"))
      (['\t'] ++ "*  model.Pet".toList ++ []) :=
    .padded (hblanks rfl) (.pointer hpet) (hblanks rfl)
  have hprints : Prints e text.toList := by
    have htext : text.toList = [' '] ++ "[]\t*  model.Pet".toList ++ ['\n'] := by decide
    rw [htext]
    exact .padded (hblanks rfl) (.array hpointer) (hblanks rfl)
  exact ⟨hnames, hprints, (parse_exactly.2.2.2 e).2 hnames text hprints⟩

end TypeExpr

end SchemaWeave
