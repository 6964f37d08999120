import SchemaWeave.Comment.Parse
import SchemaWeave.Proofs.Text.Lines

/-!
Two documentation texts, one below the other. Where the lower one begins with text at the margin, no
block of the upper one goes on in it, so the lines of both are sorted as they are in each text alone
(`Comment.readLines_append`). The joined text therefore has the metadata of both, one after the
other, and the prose of both, and it fails as the first of them that does, at the line where that
failure now stands (`Doc.parseWith_join`).
-/

namespace SchemaWeave

namespace Text

/-! ### Lines -/

/-- The text ends within a line: it has a last character, which belongs to no line end. -/
def EndsInLine (cs : List Char) : Prop := ∃ c, cs.getLast? = some c ∧ c ≠ '\n' ∧ c ≠ '\r'

theorem EndsInLine.of_append (above : List Char) {rest : List Char} (hne : rest ≠ [])
    (h : EndsInLine (above ++ rest)) : EndsInLine rest := by
  obtain ⟨c, hlast, hc⟩ := h
  obtain ⟨d, hd⟩ := Option.isSome_iff_exists.1 (List.getLast?_isSome.2 hne)
  rw [List.getLast?_append, hd, Option.some_or] at hlast
  exact ⟨c, hd.trans hlast, hc⟩

theorem EndsInLine.dropReturn_eq {line : List Char} (h : EndsInLine line) :
    dropReturn line = line := by
  obtain ⟨c, hlast, -, hreturn⟩ := h
  simp [dropReturn, hlast, hreturn]

/-- A text that ends within a line has its own lines above those of another. -/
theorem lines_append {xs : List Char} (hxs : EndsInLine xs) (ys : List Char) :
    lines (xs ++ '\n' :: ys) = lines xs ++ lines ys := by
  induction xs using byLines with
  | nil => obtain ⟨c, hlast, -⟩ := hxs; cases hlast
  | last line h hne =>
      rw [lines_line h, lines_last h hne, hxs.dropReturn_eq, List.singleton_append]
  | line line rest h ih =>
      have hne : rest ≠ [] := by
        rintro rfl
        obtain ⟨c, hlast, hfeed, -⟩ := hxs
        exact hfeed (by simpa using hlast.symm)
      have hrest : EndsInLine rest := .of_append (line ++ ['\n']) hne (by simpa using hxs)
      rw [List.append_assoc, List.cons_append, lines_line h, lines_line h, ih hrest,
        List.cons_append]

end Text

namespace Comment

/-! ### Prose and blocks -/

/-- The block as it stands behind a number of lines. -/
def Block.behind (n : Nat) (b : Block) : Block := { b with line := b.line + n }

/-- What the lines of two texts hold, if no block of the first goes on in the second. -/
def Reading.append (r s : Reading) : Reading :=
  ⟨r.count + s.count, r.prose ++ s.prose, r.blocks ++ s.closed.map (Block.behind r.count),
    s.current.map (Block.behind r.count)⟩

namespace Reading

variable {r s : Reading} {line : Line}

theorem blocks_append (r s : Reading) :
    (r.append s).blocks = r.blocks ++ s.blocks.map (Block.behind r.count) := by
  cases h : s.current <;> simp [append, blocks, h]

theorem outside_append (r s : Reading) (line : Line) :
    (r.append s).outside line = r.append (s.outside line) := by
  simp only [outside, blocks_append]
  split
  · simp [append, Block.behind, Nat.add_assoc, Nat.add_comm]
  · simp [append, Nat.add_assoc]

/-- The line belongs to the open block, or to no open block. -/
theorem next_eq (r : Reading) (line : Line) : r.next line =
    match r.current.filter (·.continues line) with
    | some b =>
      { r with count := r.count + 1, current := some { b with rest := b.rest ++ [line] } }
    | none => r.outside line := by
  cases h : r.current with
  | none => simp [next, h]
  | some b => cases hb : b.continues line <;> simp [next, h, hb, Option.filter]

theorem next_append (r s : Reading) (line : Line) :
    (r.append s).next line = r.append (s.next line) := by
  have hcurrent : (r.append s).current.filter (·.continues line) =
      (s.current.filter (·.continues line)).map (Block.behind r.count) := by
    cases h : s.current <;> simp [append, h, Option.filter, Block.continues, Block.behind]
  rw [next_eq, next_eq, hcurrent]
  cases s.current.filter (·.continues line) with
  | none => exact outside_append r s line
  | some b => simp [append, Block.behind, Nat.add_assoc]

theorem foldl_next_append (lines : List Line) : ∀ r s : Reading,
    lines.foldl next (r.append s) = r.append (lines.foldl next s) := by
  induction lines with
  | nil => intro r s; rfl
  | cons line rest ih =>
      intro r s
      rw [List.foldl_cons, next_append, ih, List.foldl_cons]

theorem count_next (r : Reading) (line : Line) : (r.next line).count = r.count + 1 := by
  rw [next_eq, outside]
  split
  · rfl
  · split <;> rfl

theorem count_foldl_next (lines : List Line) : ∀ r : Reading,
    (lines.foldl next r).count = r.count + lines.length := by
  induction lines with
  | nil => intro r; rfl
  | cons line rest ih =>
      intro r
      rw [List.foldl_cons, ih, count_next, List.length_cons, Nat.add_assoc, Nat.add_comm 1]

end Reading

theorem count_readLines (lines : List Line) : (readLines lines).count = lines.length := by
  rw [readLines, Reading.count_foldl_next]
  exact Nat.zero_add _

/-- The line begins with text, without an indentation. -/
def IsFlush (line : Line) : Prop := isBlankLine line = false ∧ line.head? ≠ some ' '

/-- The first line of the text is at the margin. -/
def BeginsFlush (text : String) : Prop :=
  ∃ line, (Text.lines text.toList).head? = some line ∧ IsFlush line

theorem indentation_of_isFlush {line : Line} (h : IsFlush line) : indentation line = 0 := by
  cases line with
  | nil => rfl
  | cons c rest =>
      have hc : c ≠ ' ' := fun heq => h.2 (by rw [heq, List.head?_cons])
      simp [indentation, hc]

/-- A line at the margin closes the open block, and counts as it does at the beginning of a text. -/
theorem Reading.next_of_isFlush {line : Line} (h : IsFlush line) (r : Reading) :
    r.next line = r.append (start.next line) := by
  have hnone : r.current.filter (·.continues line) = none := by
    cases r.current with
    | none => rfl
    | some b => simp [Option.filter, Block.continues, h.1, indentation_of_isFlush h]
  have hmargin : r.outside line = (r.append start).outside line := by
    simp [outside, append, blocks, start]
  rw [next_eq, hnone, ← next_append, next_eq]
  simpa [append, start] using hmargin

/-- **Lines below a text are sorted on their own** if the first of them is at the margin. -/
theorem readLines_append {line : Line} (h : IsFlush line) (above below : List Line) :
    readLines (above ++ line :: below) = (readLines above).append (readLines (line :: below)) := by
  simp only [readLines, List.foldl_append, List.foldl_cons]
  rw [Reading.next_of_isFlush h, Reading.foldl_next_append]

end Comment

/-! ### Metadata -/

/-- The error as it stands behind a number of lines. -/
def DocError.behind {ε : Type} (n : Nat) : DocError ε → DocError ε
  | .invalidMeta line cause => .invalidMeta (line + n) cause
  | .notAMap line found => .notAMap (line + n) found

namespace Comment

variable {ε : Type} {yaml : String → Except ε Node}

/-- Where a block stands matters for its error alone. -/
theorem blockMeta_behind (yaml : String → Except ε Node) (n : Nat) (b : Block) :
    blockMeta yaml (b.behind n) = (blockMeta yaml b).mapError (DocError.behind n) := by
  have htext : (b.behind n).text = b.text := rfl
  simp only [blockMeta, htext]
  cases yaml b.text with
  | error e => rfl
  | ok node => cases node <;> rfl

theorem allMeta_behind (yaml : String → Except ε Node) (n : Nat) (bs : List Block) :
    allMeta yaml (bs.map (Block.behind n)) = (allMeta yaml bs).mapError (DocError.behind n) := by
  induction bs with
  | nil => rfl
  | cons b rest ih =>
      rw [List.map_cons, allMeta, allMeta, blockMeta_behind, ih]
      cases blockMeta yaml b with
      | error e => rfl
      | ok first => cases allMeta yaml rest <;> rfl

theorem allMeta_append (yaml : String → Except ε Node) (bs bs' : List Block) :
    allMeta yaml (bs ++ bs') = do
      let first ← allMeta yaml bs
      let others ← allMeta yaml bs'
      return first ++ others := by
  induction bs with
  | nil => cases h : allMeta yaml bs' <;> simp [allMeta, h] <;> rfl
  | cons b rest ih =>
      rw [List.cons_append, allMeta, allMeta, ih]
      cases blockMeta yaml b with
      | error e => rfl
      | ok first =>
          cases allMeta yaml rest with
          | error e => rfl
          | ok others => cases allMeta yaml bs' <;> simp [bind, Except.bind, pure, Except.pure]

/-- The prose of a text: the lines that belong to no block. -/
def prose (text : String) : List Char := proseText (readLines (Text.lines text.toList)).prose

/-- The metadata of the blocks of a text. -/
def metadata (yaml : String → Except ε Node) (text : String) : Except (DocError ε) Entries :=
  allMeta yaml (readLines (Text.lines text.toList)).blocks

end Comment

namespace Doc

open Comment (prose)

variable {ε : Type}

/-- The documentation with the given prose and metadata. -/
def ofProse (prose : List Char) (metadata : Entries) : Doc :=
  let full := Text.trim prose
  ⟨String.ofList full, String.ofList (Comment.paragraphs full).1,
    String.ofList (Comment.paragraphs full).2, metadata⟩

theorem parseWith_eq (yaml : String → Except ε Node) (text : String) :
    parseWith yaml text = (Comment.metadata yaml text).map (ofProse (prose text)) := by
  simp only [parseWith, Comment.metadata, prose]
  cases Comment.allMeta yaml (Comment.readLines (Text.lines text.toList)).blocks with
  | error e => rfl
  | ok entries => rfl

/-- **Documentation is compositional**: below a text that ends within a line, a text whose first
line is at the margin is parsed as it is alone. The joined text fails as the upper one does, or else
as the lower one does, with the lines of the upper one counted; otherwise it has the metadata of
both and the prose of both. -/
theorem parseWith_join (yaml : String → Except ε Node) {a b : String}
    (ha : Text.EndsInLine a.toList) (hb : Comment.BeginsFlush b) :
    parseWith yaml (a ++ "\n" ++ b) =
      match parseWith yaml a, parseWith yaml b with
      | .error e, _ => .error e
      | .ok _, .error e => .error (e.behind (Text.lines a.toList).length)
      | .ok d, .ok d' => .ok (ofProse (prose a ++ prose b) (d.metadata ++ d'.metadata)) := by
  obtain ⟨line, hfirst, hline⟩ := hb
  obtain ⟨below, hbelow⟩ := List.head?_eq_some_iff.1 hfirst
  have hlines : Text.lines (a ++ "\n" ++ b).toList =
      Text.lines a.toList ++ Text.lines b.toList := by
    rw [← Text.lines_append ha]
    simp
  have hreading : Comment.readLines (Text.lines (a ++ "\n" ++ b).toList) =
      (Comment.readLines (Text.lines a.toList)).append
        (Comment.readLines (Text.lines b.toList)) := by
    rw [hlines, hbelow, Comment.readLines_append hline]
  have hprose : prose (a ++ "\n" ++ b) = prose a ++ prose b := by
    simp only [prose, hreading]
    simp [Comment.Reading.append, Comment.proseText]
  have hmetadata : Comment.metadata yaml (a ++ "\n" ++ b) = do
      let first ← Comment.metadata yaml a
      let others ← (Comment.metadata yaml b).mapError (DocError.behind (Text.lines a.toList).length)
      return first ++ others := by
    simp only [Comment.metadata, hreading, Comment.Reading.blocks_append, Comment.allMeta_append,
      Comment.allMeta_behind, Comment.count_readLines]
  rw [parseWith_eq, parseWith_eq, parseWith_eq, hmetadata, hprose]
  cases Comment.metadata yaml a with
  | error e => rfl
  | ok first => cases Comment.metadata yaml b <;> rfl

/-- The block of the upper text ends with it, and that of the lower one is no YAML. -/
theorem parseWith_join_faulty :
    let a := "Finds pets.\n$:\n\n  limit: 2"
    let b := "By status.\n$in: [query"
    Text.EndsInLine a.toList ∧ Comment.BeginsFlush b ∧
      ∃ e, parseWith Node.ofYaml b = .error e ∧
        parseWith Node.ofYaml (a ++ "\n" ++ b) = .error (e.behind 4) := by
  intro a b
  have ha : Text.EndsInLine a.toList := ⟨'2', by decide⟩
  have hb : Comment.BeginsFlush b := ⟨"By status.".toList, by decide, by decide, by decide⟩
  have hupper : (parseWith Node.ofYaml a).toBool = true := by decide +kernel
  have hlower : (parseWith Node.ofYaml b).toBool = false := by decide +kernel
  have hlines : (Text.lines a.toList).length = 4 := by decide
  have hboth := parseWith_join Node.ofYaml ha hb
  cases hd : parseWith Node.ofYaml a with
  | error e =>
      rw [hd] at hupper
      cases hupper
  | ok d =>
      cases he : parseWith Node.ofYaml b with
      | ok d' =>
          rw [he] at hlower
          cases hlower
      | error e =>
          rw [hd, he, hlines] at hboth
          exact ⟨ha, hb, e, rfl, hboth⟩

end Doc

end SchemaWeave
