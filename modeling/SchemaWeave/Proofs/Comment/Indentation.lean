import SchemaWeave.Proofs.Comment.Joining

/-!
A comment further to the right. Spaces in front of every line move all indentations together, so the
same lines open blocks and the same lines go on in them (`Comment.readLines_shift`); and as a block
loses the indentation of its first line, its text does not change, not even where a line is cut
within a character or is too short to be cut (`Comment.Block.text_shift`). Metadata therefore does
not depend on where the comment stands (`Doc.parseWith_indent`).
-/

namespace SchemaWeave

namespace Text

variable {k : Nat} {line cs : List Char}

/-- Puts spaces in front of every line that begins in a text, or only of those below the first. -/
def indentFrom (k : Nat) : Bool → List Char → List Char
  | _, [] => []
  | lineBegins, c :: rest =>
    (if lineBegins then List.replicate k ' ' else []) ++ c :: indentFrom k (c == '\n') rest

/-- Puts spaces in front of every line of a text, of blank lines too. -/
def indent (k : Nat) (cs : List Char) : List Char := indentFrom k true cs

theorem indentFrom_append (h : '\n' ∉ line) (rest : List Char) :
    indentFrom k false (line ++ rest) = line ++ indentFrom k false rest := by
  induction line with
  | nil => rfl
  | cons c line ih =>
      obtain ⟨hc, hline⟩ := not_or.1 (mt List.mem_cons.2 h)
      have hfeed : (c == '\n') = false := beq_eq_false_iff_ne.2 (Ne.symm hc)
      simp [indentFrom, hfeed, ih hline]

theorem indent_append (h : '\n' ∉ line) (hne : line ≠ []) (rest : List Char) :
    indent k (line ++ rest) = List.replicate k ' ' ++ line ++ indentFrom k false rest := by
  cases line with
  | nil => exact absurd rfl hne
  | cons c line =>
      obtain ⟨hc, hline⟩ := not_or.1 (mt List.mem_cons.2 h)
      have hfeed : (c == '\n') = false := beq_eq_false_iff_ne.2 (Ne.symm hc)
      simp [indent, indentFrom, hfeed, indentFrom_append hline]

theorem indent_last (h : '\n' ∉ line) (hne : line ≠ []) :
    indent k line = List.replicate k ' ' ++ line := by
  simpa [indentFrom] using indent_append h hne (k := k) []

theorem indent_line (h : '\n' ∉ line) (rest : List Char) :
    indent k (line ++ '\n' :: rest) = List.replicate k ' ' ++ line ++ '\n' :: indent k rest := by
  by_cases hne : line = []
  · simp [hne, indent, indentFrom]
  · rw [indent_append h hne]
    simp [indent, indentFrom]

theorem dropReturn_spaces (k : Nat) (line : List Char) :
    dropReturn (List.replicate k ' ' ++ line) = List.replicate k ' ' ++ dropReturn line := by
  rcases List.eq_nil_or_concat line with rfl | ⟨init, c, rfl⟩
  · cases k with
    | zero => rfl
    | succ k => simp [dropReturn, List.replicate_succ']
  · rw [List.concat_eq_append, ← List.append_assoc]
    by_cases hc : c = '\r'
    · simp [dropReturn, hc]
    · rw [dropReturn_concat hc, dropReturn_concat hc, List.append_assoc]

/-- The lines of an indented text are those of the text, with the spaces in front. -/
theorem lines_indent (k : Nat) (cs : List Char) :
    lines (indent k cs) = (lines cs).map (List.replicate k ' ' ++ ·) := by
  have hspaces : '\n' ∉ List.replicate k ' ' := fun hmem => by
    have heq := List.eq_of_mem_replicate hmem
    cases heq
  induction cs using byLines with
  | nil => rfl
  | last line h hne =>
      have hfront : '\n' ∉ List.replicate k ' ' ++ line := by simp [hspaces, h]
      rw [indent_last h hne, lines_last hfront (by simp [hne]), lines_last h hne]
      rfl
  | line line rest h ih =>
      have hfront : '\n' ∉ List.replicate k ' ' ++ line := by simp [hspaces, h]
      rw [indent_line h, lines_line hfront, lines_line h, ih, dropReturn_spaces, List.map_cons]

example : indent 2 "a\n\nb\n".toList = "  a\n  \n  b\n".toList := by decide

end Text

namespace Comment

variable {k n : Nat} {line : Line} {b : Block}

/-! ### Lines -/

/-- A line further to the right. -/
def shift (k : Nat) (line : Line) : Line := List.replicate k ' ' ++ line

theorem forall_spaces {p : Char → Bool} (h : p ' ' = true) (k : Nat) :
    ∀ c ∈ List.replicate k ' ', p c = true :=
  fun _ hc => List.eq_of_mem_replicate hc ▸ h

theorem dropWhile_shift {p : Char → Bool} (h : p ' ' = true) (k : Nat) (line : Line) :
    (shift k line).dropWhile p = line.dropWhile p :=
  List.dropWhile_append_of_pos (forall_spaces h k)

theorem indentation_shift (k : Nat) (line : Line) :
    indentation (shift k line) = k + indentation line := by
  rw [indentation, shift, List.takeWhile_append_of_pos (forall_spaces rfl k), List.length_append,
    List.length_replicate, indentation]

theorem opensBlock_shift (k : Nat) (line : Line) : opensBlock (shift k line) = opensBlock line := by
  rw [opensBlock, opensBlock, dropWhile_shift rfl]

theorem isBlankLine_shift (k : Nat) (line : Line) :
    isBlankLine (shift k line) = isBlankLine line := by
  have hspace : Text.isBlank ' ' = true := by decide
  simp [isBlankLine, shift, hspace]

theorem trimStart_shift (k : Nat) (line : Line) :
    Text.trimStart (shift k line) = Text.trimStart line :=
  dropWhile_shift (by decide) k line

theorem dropBytes_shift (k n : Nat) (line : Line) :
    dropBytes (k + n) (shift k line) = dropBytes n line := by
  induction k with
  | zero => rw [Nat.zero_add]; rfl
  | succ k ih =>
      have hsize : (' ').utf8Size = 1 := by decide
      rw [shift, List.replicate_succ, List.cons_append, Nat.succ_add, dropBytes, hsize,
        if_pos (Nat.le_add_left 1 _), Nat.add_sub_cancel]
      exact ih

/-- A line that moves with the indentation it is to lose has the same rest, also where it is too
short or is cut within a character. -/
theorem unindent_shift (k n : Nat) (line : Line) :
    unindent (k + n) (shift k line) = unindent n line := by
  rw [unindent, unindent, dropBytes_shift, trimStart_shift]

/-! ### Blocks -/

/-- The block of a comment further to the right. -/
def Block.shift (k : Nat) (b : Block) : Block :=
  { b with first := Comment.shift k b.first, rest := b.rest.map (Comment.shift k) }

/-- The indentation is no part of a block's text. -/
theorem Block.text_shift (k : Nat) (b : Block) : (b.shift k).text = b.text := by
  have hlines : ∀ line ∈ b.first :: b.rest,
      unindent (indentation (b.shift k).first) (Comment.shift k line) =
        unindent (indentation b.first) line := by
    intro line _
    rw [Block.shift, indentation_shift, unindent_shift]
  have hshifted : (b.shift k).first :: (b.shift k).rest =
      (b.first :: b.rest).map (Comment.shift k) := rfl
  rw [Block.text, Block.text, hshifted, List.map_map]
  exact congrArg (String.ofList <| Text.joinWith ['\n'] ·) (List.map_congr_left hlines)

theorem Block.continues_shift (k : Nat) (b : Block) (line : Line) :
    (b.shift k).continues (Comment.shift k line) = b.continues line := by
  simp [Block.continues, Block.shift, isBlankLine_shift, indentation_shift]

namespace Reading

/-- What the lines of a comment further to the right hold. -/
def shift (k : Nat) (r : Reading) : Reading :=
  ⟨r.count, r.prose.map (Comment.shift k), r.closed.map (Block.shift k),
    r.current.map (Block.shift k)⟩

theorem blocks_shift (k : Nat) (r : Reading) :
    (r.shift k).blocks = r.blocks.map (Block.shift k) := by
  cases h : r.current <;> simp [shift, blocks, h]

theorem outside_shift (k : Nat) (r : Reading) (line : Line) :
    (r.shift k).outside (Comment.shift k line) = (r.outside line).shift k := by
  simp only [outside, opensBlock_shift, blocks_shift]
  split <;> simp [shift, Block.shift]

theorem next_shift (k : Nat) (r : Reading) (line : Line) :
    (r.shift k).next (Comment.shift k line) = (r.next line).shift k := by
  have hcurrent : (r.shift k).current.filter (·.continues (Comment.shift k line)) =
      (r.current.filter (·.continues line)).map (Block.shift k) := by
    cases h : r.current <;> simp [shift, h, Option.filter, Block.continues_shift]
  rw [next_eq, next_eq, hcurrent]
  cases r.current.filter (·.continues line) with
  | none => exact outside_shift k r line
  | some b => simp [shift, Block.shift]

theorem foldl_next_shift (k : Nat) (lines : List Line) : ∀ r : Reading,
    (lines.map (Comment.shift k)).foldl next (r.shift k) = (lines.foldl next r).shift k := by
  induction lines with
  | nil => intro r; rfl
  | cons line rest ih =>
      intro r
      rw [List.map_cons, List.foldl_cons, next_shift, ih, List.foldl_cons]

end Reading

/-- **Lines that move together are sorted as before.** -/
theorem readLines_shift (k : Nat) (lines : List Line) :
    readLines (lines.map (shift k)) = (readLines lines).shift k :=
  Reading.foldl_next_shift k lines Reading.start

variable {ε : Type}

theorem allMeta_shift (yaml : String → Except ε Node) (k : Nat) (bs : List Block) :
    allMeta yaml (bs.map (Block.shift k)) = allMeta yaml bs := by
  induction bs with
  | nil => rfl
  | cons b rest ih =>
      have hfirst : blockMeta yaml (b.shift k) = blockMeta yaml b := by
        rw [blockMeta, blockMeta, Block.text_shift]
        rfl
      rw [List.map_cons, allMeta, allMeta, hfirst, ih]

end Comment

/-- The metadata of documentation, where it is accepted, is that of its blocks. -/
theorem Doc.metadata_parseWith {ε : Type} (yaml : String → Except ε Node) (text : String) :
    (parseWith yaml text).map Doc.metadata = Comment.metadata yaml text := by
  rw [parseWith_eq]
  generalize Comment.metadata yaml text = found
  cases found <;> rfl

/-- **Metadata does not depend on the comment's indentation**: with spaces in front of every line,
blank lines included, documentation is accepted or refused as before, with the same error at the
same line or the same metadata, however YAML is read. -/
theorem Doc.parseWith_indent {ε : Type} (yaml : String → Except ε Node) (k : Nat) (text : String) :
    (parseWith yaml (String.ofList (Text.indent k text.toList))).map Doc.metadata =
      (parseWith yaml text).map Doc.metadata := by
  have hlines : Text.lines (Text.indent k text.toList) =
      (Text.lines text.toList).map (Comment.shift k) := Text.lines_indent k _
  rw [metadata_parseWith, metadata_parseWith, Comment.metadata, String.toList_ofList, hlines,
    Comment.readLines_shift, Comment.Reading.blocks_shift, Comment.allMeta_shift, Comment.metadata]

end SchemaWeave
