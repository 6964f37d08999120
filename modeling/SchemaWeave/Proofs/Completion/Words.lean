import SchemaWeave.Proofs.Completion.Result
import SchemaWeave.Proofs.Completion.Strict
import SchemaWeave.Proofs.Grammar.Completeness
import SchemaWeave.Proofs.Text.Pieces
import SchemaWeave.Proofs.Types.Keys

/-!
Words among metadata and under host directives. A word has no mark, and one of at least two bytes is
tried as an expression: it is a numeral or a name, or no expression at all (`parse_word`). Most of
them have no value, or data as their value. A function and a package are neither data nor nothing,
so a word that names one is taken for an expression and becomes an error, which is counted;
`Misleads` says which words these are. No word fails a directive (`expand_word`).
-/

namespace SchemaWeave

/-- A text of word characters alone. -/
def IsWord (text : String) : Prop := ∀ c ∈ text.toList, Text.isWordChar c = true

instance : DecidablePred IsWord := fun text =>
  decidable_of_iff (text.toList.all Text.isWordChar = true) List.all_eq_true

theorem IsWord.not_mem {text : String} (h : IsWord text) {c : Char}
    (hc : Text.isWordChar c = false) : c ∉ text.toList := fun hmem => by
  rw [h c hmem] at hc
  cases hc

namespace Grammar

open SchemaWeave.Expr (skipBlanks ofName Numeral maxNesting)

/-! ### Words as expressions -/

/-- Tokens that stand for an expression by themselves, but for strings. -/
def Token.IsLone : Token → Prop
  | .name _ | .numeral _ => True
  | .string _ | .ellipsis | .mark _ => False

/-- Neither marks nor quotes are word characters. -/
theorem not_isWordChar {c : Char} (hc : c ∈ ['"', '\''] ++ marks) : Text.isWordChar c = false := by
  have hall : (['"', '\''] ++ marks).all (!Text.isWordChar ·) = true := by decide
  simpa using List.all_eq_true.1 hall c hc

theorem skipBlanks_of_word {cs : List Char} (h : ∀ c ∈ cs, Text.isWordChar c = true) :
    skipBlanks cs = cs := by
  cases cs with
  | nil => rfl
  | cons c cs =>
      refine List.dropWhile_cons_of_neg fun hblank => ?_
      have hcases : c = ' ' ∨ c = '\t' ∨ c = '\r' ∨ c = '\n' := by
        simpa [Expr.isBlank, or_assoc] using hblank
      have hc := h c List.mem_cons_self
      rcases hcases with rfl | rfl | rfl | rfl <;> exact absurd hc (by decide)

theorem isLone_of_lexes {cs : List Char} {ts : List Token} (h : Lexes cs ts)
    (hcs : ∀ c ∈ cs, Text.isWordChar c = true) : ∀ t ∈ ts, t.IsLone := by
  induction h with
  | nil => exact nofun
  | @cons blanks cs rest t ts _ hlongest _ ih =>
      have hread := longest_iff.1 hlongest
      obtain ⟨lexeme, -, hlexeme⟩ := read?_sound hread
      obtain ⟨c, more, rfl, hkind⟩ := read?_inv hread
      have hword := hcs c (List.mem_append_right _ List.mem_cons_self)
      have hother (hc : c ∈ ['"', '\''] ++ marks) : False := by
        rw [not_isWordChar hc] at hword
        cases hword
      refine List.forall_mem_cons.2 ⟨?_, ih fun d hd => hcs d ?_⟩
      · cases t with
        | name | numeral => trivial
        | string => exact hother (by rcases hkind.1 with rfl | rfl <;> decide)
        | ellipsis => exact hother ((List.cons.inj hkind).1 ▸ by decide)
        | mark => exact hother (List.mem_append_right _ hkind.2.1)
      · rw [hlexeme]
        exact List.mem_append_right _ (List.mem_append_right _ hd)

/-- Without marks there is nothing but one token. -/
theorem derives_lone {ts : List Token} {e : Expr} (hts : ∀ t ∈ ts, t.IsLone)
    (h : Derives ts e) :
    (∃ n, ts = [.numeral n] ∧ e = .literal n.toLiteral) ∨
      ∃ text, ts = [.name text] ∧ e = ofName text := by
  have hmark (c : Char) : .mark c ∉ ts := fun hmem => hts _ hmem
  obtain ⟨⟨⟨hprimary, hsuffixes⟩, hoperands⟩⟩ := h
  -- all other productions have a mark
  cases hoperands with
  | cons _ _ => exact (hmark '+' (by simp)).elim
  | nil =>
      cases hsuffixes with
      | member _ => exact (hmark '.' (by simp)).elim
      | call _ _ => exact (hmark '(' (by simp)).elim
      | nil =>
          rw [List.append_nil, List.append_nil] at *
          cases hprimary with
          | integer hn => exact .inl ⟨_, rfl, by rw [toLiteral_eq, if_pos hn]⟩
          | float hn => exact .inl ⟨_, rfl, by rw [toLiteral_eq, if_neg hn]⟩
          | string => exact (hts _ List.mem_cons_self).elim
          | null hnull => exact .inr ⟨_, rfl, by rw [ofName, if_pos hnull]⟩
          | true => exact .inr ⟨_, rfl, rfl⟩
          | false => exact .inr ⟨_, rfl, rfl⟩
          | identifier hname => exact .inr ⟨_, rfl, (ofName_other hname).symm⟩
          | array _ => exact (hmark '[' (by simp)).elim
          | object _ => exact (hmark '\x7b' (by simp)).elim
          | group _ => exact (hmark '(' (by simp)).elim

/-- **A word that is an expression is a numeral or one name.** -/
theorem parse_word {word : String} {e : Expr} (hword : IsWord word)
    (h : Expr.parse word = .ok e) :
    (∃ n : Numeral, e = .literal n.toLiteral) ∨ e = ofName word := by
  obtain ⟨-, hread⟩ := parseChars_eq_ok.1 h
  obtain ⟨ts, hts, hspan⟩ := Sound.padded (expression_sound _) hread
  have hlexes := hspan [] (lexes_nil.2 rfl)
  rw [List.append_nil] at hlexes
  rcases derives_lone (isLone_of_lexes hlexes hword) hts with ⟨n, -, rfl⟩ | ⟨text, rfl, rfl⟩
  · exact .inl ⟨n, rfl⟩
  · refine .inr ?_
    -- the name is the whole word: what it leaves would be blanks
    obtain ⟨rest, hname, hrest⟩ := lexes_cons.1 hlexes
    rw [skipBlanks_of_word hword] at hname
    obtain ⟨lexeme, hspelled, hcut⟩ := read?_sound hname
    have hend : rest = [] := by
      rw [← lexes_nil.1 hrest]
      refine (skipBlanks_of_word fun c hc => hword c ?_).symm
      rw [hcut]
      exact List.mem_append_right _ hc
    cases hspelled
    rw [hend, List.append_nil] at hcut
    rw [← hcut, String.ofList_toList]

end Grammar

namespace ExpressionForm

/-- A word has no mark, and whether it is tried depends on its length alone. -/
theorem detect_word {word : String} (hword : IsWord word) :
    detect word =
      if 2 ≤ Text.byteLength word.toList then .candidate word else .plain := by
  have hexplicit : Text.stripStart "js: ".toList word.toList = none := by
    rw [← Option.not_isSome_iff_eq_none, stripStart_isSome_iff]
    exact fun hstart => hword.not_mem (by decide) (hstart.subset (by decide : ':' ∈ _))
  have hbracketed : enclosed? '<' '>' word.toList = none := by
    unfold enclosed?
    split
    · rename_i c d rest hchars
      refine if_neg fun h => hword.not_mem (c := '<') (by decide) ?_
      rw [hchars, ← h.1]
      exact List.mem_cons_self
    · rfl
  simp only [detect, hexplicit, hbracketed]
  by_cases hlong : 2 ≤ Text.byteLength word.toList
  · have hsome : word.toList ≠ [] := fun h => by simp [h, Text.byteLength] at hlong
    have hpath : isIdentifierPath word.toList = true := by
      rw [isIdentifierPath, Text.splitAt_of_not_mem (hword.not_mem (by decide))]
      simpa [hsome] using List.all_eq_true.2 hword
    simp [isCandidate, hpath, hlong]
  · simp [isCandidate, hlong]

end ExpressionForm

theorem Function.name_of_ofName? {name : String} {f : Function}
    (h : Function.ofName? name = some f) : f.name = name := by
  unfold Function.ofName? at h
  split at h
  · rename_i hname
    cases h
    exact hname.symm
  · split at h
    · rename_i hname
      cases h
      exact hname.symm
    · cases h

namespace Setting

variable {s : Setting} {file : Option String} {word : String}

/-! ### What a word means -/

/-- The package that a name stands for: the one that the file imports under it, or else the one of
the configuration. -/
def package? (s : Setting) (file : Option String) (name : String) : Option String :=
  (file.bind fun file => Dictionary.get? name (s.resolver.graph.imports file)).or
    (Dictionary.get? name s.imports)

/-- What a name means. -/
def meaning (s : Setting) (file : Option String) (name : String) : Value :=
  match Function.ofName? name with
  | some f => .function f
  | none => s.resolver.graph.resolveName s.imports file name

/-- A word that is tried, and is the name of a function or a package. -/
structure Misleads (s : Setting) (file : Option String) (word : String) : Prop where
  long : 2 ≤ Text.byteLength word.toList
  name : Expr.parse word = .ok (.identifier word)
  means : (Function.ofName? word).isSome ∨ (s.package? file word).isSome

theorem resolveName_of_no_type
    (htype : ∀ f ∈ file, s.resolver.graph.resolveInFile f none word = none) :
    s.resolver.graph.resolveName s.imports file word =
      match s.package? file word with
      | some path => .package word path
      | none => .missing ⟨word, file.getD "document"⟩ := by
  cases file with
  | none => cases h : Dictionary.get? word s.imports <;> simp [Graph.resolveName, package?, h]
  | some f =>
      have hf := htype f rfl
      cases hfile : Dictionary.get? word (s.resolver.graph.imports f) <;>
        cases h : Dictionary.get? word s.imports <;>
          simp [Graph.resolveName, package?, hf, hfile, h]

/-- A hard error takes the place of a word. -/
def misled (kind word : String) : Pass Node := fun p =>
  (.map [("error", .string s!"{kind} '{word}' is not a schema")],
    { p with inlineErrors := p.inlineErrors + 1 })

theorem lower_meaning
    (htype : ∀ f ∈ file, s.resolver.graph.resolveInFile f none word = none)
    (hmeans : (Function.ofName? word).isSome ∨ (s.package? file word).isSome) :
    (s.meaning file word).isNullish = false ∧
      ∃ kind ∈ ["function", "package"], s.lower (s.meaning file word) = misled kind word := by
  unfold meaning
  cases hf : Function.ofName? word with
  | some f =>
      cases Function.name_of_ofName? hf
      exact ⟨rfl, "function", by simp, rfl⟩
  | none =>
      obtain ⟨path, hpath⟩ := Option.isSome_iff_exists.1 (hmeans.resolve_left (by simp [hf]))
      dsimp only
      rw [resolveName_of_no_type htype, hpath]
      exact ⟨rfl, "package", by simp, rfl⟩

theorem isNullish_meaning
    (htype : ∀ f ∈ file, s.resolver.graph.resolveInFile f none word = none)
    (hmeans : ¬ ((Function.ofName? word).isSome ∨ (s.package? file word).isSome)) :
    (s.meaning file word).isNullish = true := by
  simp only [not_or, Option.not_isSome_iff_eq_none] at hmeans
  rw [meaning, hmeans.1]
  dsimp only
  rw [resolveName_of_no_type htype, hmeans.2]
  rfl

/-- Literals that are written as words have no value to show, or are truth values or numbers. -/
def IsWordValue (v : Value) : Prop :=
  v.isNullish = true ∨ (∃ b, v = .bool b) ∨ ∃ n, v = .number n

theorem isWordValue_numeral (n : Expr.Numeral) : IsWordValue n.toLiteral.value := by
  rw [Grammar.toLiteral_eq]
  split
  · exact .inr (.inr ⟨_, rfl⟩)
  · unfold Expr.Numeral.toFloat
    dsimp only
    split
    · exact .inr (.inr ⟨_, rfl⟩)
    · exact .inl rfl

theorem evaluate_of_literal {l : Literal} (h : Expr.parse word = .ok (.literal l)) :
    s.evaluate word file = pure (.ok l.value) := by
  rw [evaluate, Expr.evalText, h]
  rfl

theorem evaluate_of_identifier (h : Expr.parse word = .ok (.identifier word)) :
    s.evaluate word file = pure (.ok (s.meaning file word)) := by
  rw [evaluate, Expr.evalText, h]
  dsimp only
  rw [Expr.eval, meaning]
  cases Function.ofName? word <;> rfl

/-- A word that is no name has no value, or that of its literal. -/
theorem evaluate_word (s : Setting) (file : Option String) (hword : IsWord word)
    (hname : Expr.parse word ≠ .ok (.identifier word)) :
    ∃ r, s.evaluate word file = pure r ∧ ∀ v, r = .ok v → IsWordValue v := by
  cases hparse : Expr.parse word with
  | error e =>
      refine ⟨.error (.parse e), ?_, nofun⟩
      rw [evaluate, Expr.evalText, hparse]
      rfl
  | ok e =>
      have hliteral {l : Literal} (hl : e = .literal l) (hvalue : IsWordValue l.value) :
          ∃ r, s.evaluate word file = pure r ∧ ∀ v, r = .ok v → IsWordValue v :=
        ⟨_, evaluate_of_literal (hl ▸ hparse), fun v hv => by cases hv; exact hvalue⟩
      rcases Grammar.parse_word hword hparse with ⟨n, rfl⟩ | he
      · exact hliteral rfl (isWordValue_numeral n)
      · unfold Expr.ofName at he
        split at he
        · exact hliteral he (.inl rfl)
        · split at he
          · exact hliteral he (.inr (.inl ⟨_, rfl⟩))
          · split at he
            · exact hliteral he (.inr (.inl ⟨_, rfl⟩))
            · exact absurd (he ▸ hparse) hname

/-! ### What stands in place of a word -/

/-- A truth value or a number may take the place of a word. -/
theorem settleText_wordValue {v : Value} (h : IsWordValue v) :
    ∃ found : Option Node, s.settleText false (.ok v) = pure (.ok found) ∧
      ∀ node ∈ found, (∃ b, node = .bool b) ∨ ∃ n, node = .number n := by
  rcases h with hnull | ⟨b, rfl⟩ | ⟨n, rfl⟩
  · exact ⟨none, by simp [settleText, hnull], nofun⟩
  · exact ⟨some (.bool b), rfl, by simp⟩
  · exact ⟨some (.number n), rfl, by simp⟩

theorem expandText_of_long (hword : IsWord word) (hlong : 2 ≤ Text.byteLength word.toList) :
    s.expandText word file = s.evaluate word file >>= s.settleText false := by
  have hdetect := ExpressionForm.detect_word hword
  rw [if_pos hlong] at hdetect
  rw [expandText_of_code file (by rw [hdetect]; rfl), hdetect]
  rfl

theorem expandText_of_not_misleads (hword : IsWord word)
    (htype : ∀ f ∈ file, s.resolver.graph.resolveInFile f none word = none)
    (h : ¬ s.Misleads file word) :
    ∃ found : Option Node, s.expandText word file = pure (.ok found) ∧
      ∀ node ∈ found, (∃ b, node = .bool b) ∨ ∃ n, node = .number n := by
  by_cases hlong : 2 ≤ Text.byteLength word.toList
  · rw [expandText_of_long hword hlong]
    by_cases hname : Expr.parse word = .ok (.identifier word)
    · have hmeaning := isNullish_meaning htype fun hmeans => h ⟨hlong, hname, hmeans⟩
      rw [evaluate_of_identifier hname, pure_bind]
      exact settleText_wordValue (.inl hmeaning)
    · obtain ⟨r, hr, hvalue⟩ := evaluate_word s file hword hname
      rw [hr, pure_bind]
      cases r with
      | ok v => exact settleText_wordValue (hvalue v rfl)
      | error e => exact ⟨none, rfl, nofun⟩
  · refine ⟨none, ?_, nofun⟩
    have hdetect := ExpressionForm.detect_word hword
    rw [if_neg hlong] at hdetect
    simp only [expandText, hdetect]
    rfl

theorem expandText_of_misleads (hword : IsWord word)
    (htype : ∀ f ∈ file, s.resolver.graph.resolveInFile f none word = none)
    (h : s.Misleads file word) :
    ∃ kind ∈ ["function", "package"], s.expandText word file = do
      return .ok (some (← misled kind word)) := by
  obtain ⟨hsome, kind, hkind, hlower⟩ := lower_meaning htype h.means
  refine ⟨kind, hkind, ?_⟩
  rw [expandText_of_long hword h.long, evaluate_of_identifier h.name, pure_bind, settleText,
    hsome, hlower]
  rfl

/-- A word is no path of the graph. -/
theorem directiveText_word (hword : IsWord word) (crumbs : List String) :
    s.directiveText word crumbs = do
      match ← s.expandText word none with
      | .ok found => return .ok (found.getD (.string word))
      | .error e => return .error e := by
  have hnormal : s.resolver.graph.normalize word = word := by
    refine Graph.normalize_of_not_relative fun rest hchars => ?_
    exact hword.not_mem (c := '.') (by decide) (by simp [hchars])
  have hdotted : ¬ TypePath.IsDotted word := fun hdot => by
    refine hword.not_mem (by decide : Text.isWordChar '.' = false) ?_
    rw [← TypePath.lastSegment_parts word.toList]
    exact List.mem_append_right _ hdot
  have howns : s.resolver.graph.ownsPath word = false := by
    simp [Graph.ownsPath, hnormal, TypePath.split_of_not_isDotted hdotted]
  simp only [directiveText, hnormal, howns]
  rfl

/-- **What completion makes of words.** Among metadata and under host directives, a word of which no
type of the file's package has the name is expanded without a diagnostic. It stays, or becomes the
truth value or the number that it spells, and nothing is recorded. Only a word that is the name of a
function or a package becomes an error, which is counted. -/
theorem expand_word (s : Setting) (file : Option String) {word : String} (hword : IsWord word)
    (htype : ∀ f ∈ file, s.resolver.graph.resolveInFile f none word = none) (p : Progress) :
    ∃ node p',
      (∀ f crumbs key, file = some f →
        s.expandMetadataNode f crumbs key (.string word) p = (node, p')) ∧
      (∀ crumbs key, file = none →
        s.expandHostDirective crumbs key (.string word) p = s.hostReply crumbs key node p') ∧
      p'.diagnostics = p.diagnostics ∧
      (¬ s.Misleads file word →
        (node = .string word ∨ (∃ b, node = .bool b) ∨ ∃ n, node = .number n) ∧ p' = p) ∧
      (s.Misleads file word →
        (∃ kind ∈ ["function", "package"],
          node = .map [("error", .string s!"{kind} '{word}' is not a schema")]) ∧
        p' = { p with inlineErrors := p.inlineErrors + 1 }) := by
  by_cases hmisleads : s.Misleads file word
  · obtain ⟨kind, hkind, hexpand⟩ := expandText_of_misleads hword htype hmisleads
    refine ⟨(misled kind word p).1, (misled kind word p).2, ?_, ?_, rfl,
      (absurd hmisleads ·), fun _ => ⟨⟨kind, hkind, rfl⟩, rfl⟩⟩
    · rintro f crumbs key rfl
      rw [expandMetadataNode, metadataText, hexpand]
      rfl
    · rintro crumbs key rfl
      rw [expandHostDirective, directiveText_word hword, hexpand]
      rfl
  · obtain ⟨found, hexpand, hfound⟩ := expandText_of_not_misleads hword htype hmisleads
    refine ⟨found.getD (.string word), p, ?_, ?_, rfl, fun _ => ⟨?_, rfl⟩, (absurd · hmisleads)⟩
    · rintro f crumbs key rfl
      rw [expandMetadataNode, metadataText, hexpand]
      cases found <;> rfl
    · rintro crumbs key rfl
      rw [expandHostDirective, directiveText_word hword, hexpand]
      rfl
    · cases found with
      | none => exact .inl rfl
      | some node => exact .inr (hfound node rfl)

/-- A word that nothing has the name of, beside an import of another name. -/
theorem expand_word_pets :
    let s := Environment.setting ⟨.empty, .identity, .default, [("model", "app/model")]⟩
    IsWord "pets" ∧ (∀ f ∈ some "app/pets", s.resolver.graph.resolveInFile f none "pets" = none) ∧
      ∃ node, (node = .string "pets" ∨ (∃ b, node = .bool b) ∨ ∃ n, node = .number n) ∧
        ∀ crumbs key,
          s.expandMetadataNode "app/pets" crumbs key (.string "pets") .start = (node, .start) := by
  intro s
  have htype : ∀ f ∈ some "app/pets", s.resolver.graph.resolveInFile f none "pets" = none := by
    rintro f ⟨⟩
    rfl
  have hplain : ¬ s.Misleads (some "app/pets") "pets" := fun h => absurd h.means (by decide)
  obtain ⟨node, p', hmetadata, -, -, hstays, -⟩ :=
    expand_word s (some "app/pets") (by decide : IsWord "pets") htype .start
  obtain ⟨hnode, rfl⟩ := hstays hplain
  exact ⟨by decide, htype, node, hnode, fun crumbs key => hmetadata _ crumbs key rfl⟩

/-- The name of a function and that of an import, neither with a mark nor the name of a type, turn
into errors. -/
theorem expand_word_error :
    let e : Environment := ⟨.empty, .identity, .default, [("model", "app/model")]⟩
    let root : Entries := [("a", .map [("x-$kind", .string "schema")])]
    (∀ word ∈ ["schema", "model"], IsWord word ∧ (ExpressionForm.detect word).isMarked = false ∧
      (e.graph.resolveInFile "app/pets" none word).isNone) ∧
      (e.completeMap root).document.same (.map [("a", .map [("error",
        .string "function 'schema' is not a schema")])]) = true ∧
      (e.completeMap root).inlineErrors = 1 ∧
      (e.setting.expandMetadataNode "app/pets" [] "uses" (.string "model") .start).1.same
        (.map [("error", .string "package 'model' is not a schema")]) = true := by
  decide +kernel

end Setting

end SchemaWeave
