import SchemaWeave.Proofs.Comment.Joining

/-!
Paragraphs of prose and the blocks between them. A blank line under a block is read as a line of the
block, so it is gone with it: the prose above the block and the prose below are one paragraph unless
the prose above ends with an empty line of its own (`Doc.parse_joins_paragraphs`). An empty line
that is prose stays where it is. Together this says which paragraphs documentation keeps apart
(`Doc.parseWith_paragraph`).
-/

namespace SchemaWeave

namespace Comment

variable {r : Reading} {line : Line} {above below : List Line}

namespace Reading

/-- The line is prose where it stands: it goes on in no block and opens none. -/
def isProse (r : Reading) (line : Line) : Bool :=
  (r.current.filter (·.continues line)).isNone && !opensBlock line

theorem prose_next_of_isProse (h : r.isProse line = true) :
    (r.next line).prose = r.prose ++ [line] := by
  obtain ⟨hcurrent, hopens⟩ := Bool.and_eq_true_iff.1 h
  have hline : opensBlock line = false := by simpa using hopens
  rw [next_eq, Option.isNone_iff_eq_none.1 hcurrent]
  simp [outside, hline]

/-- An empty line is prose unless a block is open. -/
theorem prose_next_nil (r : Reading) :
    (r.next []).prose = if r.current = none then r.prose ++ [[]] else r.prose := by
  cases h : r.current with
  | none => simp [next, h, outside, opensBlock]
  | some b => simp [next, h, Block.continues, isBlankLine]

/-- Prose is only added to. -/
theorem prose_next (r : Reading) (line : Line) :
    (r.next line).prose = r.prose ∨ (r.next line).prose = r.prose ++ [line] := by
  rw [next_eq]
  split
  · exact .inl rfl
  · rw [outside]
    split
    · exact .inl rfl
    · exact .inr rfl

theorem prose_isPrefix_foldl (lines : List Line) : ∀ r : Reading,
    r.prose <+: (lines.foldl next r).prose := by
  induction lines with
  | nil => intro r; exact List.prefix_refl _
  | cons line rest ih =>
      intro r
      rcases prose_next r line with h | h
      · exact h ▸ ih (r.next line)
      · exact (List.prefix_append r.prose [line]).trans (h ▸ ih (r.next line))

theorem prose_sublist_foldl (lines : List Line) : ∀ r : Reading,
    (lines.foldl next r).prose.Sublist (r.prose ++ lines) := by
  induction lines with
  | nil => intro r; simp
  | cons line rest ih =>
      intro r
      have hrest := ih (r.next line)
      rcases prose_next r line with h | h
      · rw [h] at hrest
        exact hrest.trans ((List.sublist_cons_self line rest).append_left r.prose)
      · simpa [h] using hrest

end Reading

/-! ### Prose as text -/

theorem exists_not_blank_of_line (h : isBlankLine line = false) :
    ∃ c ∈ line, Text.isBlank c = false := by
  simpa [isBlankLine] using h

theorem exists_not_blank {lines : List Line} (h : ∃ line ∈ lines, isBlankLine line = false) :
    ∃ c ∈ proseText lines, Text.isBlank c = false := by
  obtain ⟨line, hmem, hline⟩ := h
  obtain ⟨c, hc, hblank⟩ := exists_not_blank_of_line hline
  exact ⟨c, List.mem_flatMap.2 ⟨line, hmem, List.mem_append_left _ hc⟩, hblank⟩

/-- The text of lines that are not all blank ends with their last line feed, also when its beginning
is trimmed. -/
theorem exists_trimStart_proseText {lines : List Line}
    (h : ∃ line ∈ lines, isBlankLine line = false) :
    ∃ cs, Text.trimStart (proseText lines) = cs ++ ['\n'] := by
  rcases List.eq_nil_or_concat lines with rfl | ⟨init, last, rfl⟩
  · simp at h
  · have htext : proseText (init.concat last) = (proseText init ++ last) ++ ['\n'] := by
      simp [proseText]
    have hblank : ∃ c ∈ proseText init ++ last, Text.isBlank c = false := by
      obtain ⟨c, hmem, hc⟩ := exists_not_blank h
      rw [htext] at hmem
      rcases List.mem_append.1 hmem with hmem | hmem
      · exact ⟨c, hmem, hc⟩
      · rw [List.mem_singleton.1 hmem] at hc
        cases hc
    exact ⟨_, by rw [htext, Text.trimStart_append hblank]⟩

/-- The text of lines ends with an empty line exactly if the lines do. -/
theorem proseText_endsEmpty_iff {lines : List Line} (hfeed : ∀ line ∈ lines, '\n' ∉ line)
    (h : ∃ line ∈ lines, isBlankLine line = false) :
    ['\n', '\n'] <:+ Text.trimStart (proseText lines) ↔ lines.getLast? = some [] := by
  rcases List.eq_nil_or_concat lines with rfl | ⟨init, last, rfl⟩
  · simp at h
  rw [List.concat_eq_append] at hfeed h ⊢
  have htext : proseText (init ++ [last]) = proseText init ++ last ++ ['\n'] := by
    simp [proseText]
  rw [List.getLast?_concat, Option.some_inj, htext]
  constructor
  · intro hsuffix
    obtain ⟨front, hfront⟩ := hsuffix.trans (List.dropWhile_suffix Text.isBlank)
    have hends : (front ++ ['\n']) ++ ['\n'] = (proseText init ++ last) ++ ['\n'] := by
      simpa using hfront
    have hcut : front ++ ['\n'] = proseText init ++ last := List.append_cancel_right hends
    -- text in the last line would end with the first of the two line feeds
    rcases List.eq_nil_or_concat last with rfl | ⟨text, c, rfl⟩
    · rfl
    · have hc : '\n' = c := by simpa using congrArg List.getLast? hcut
      have hmem : '\n' ∈ text.concat c := by rw [hc]; simp
      exact absurd hmem (hfeed (text.concat c) (by simp))
  · rintro rfl
    have hinit : ∃ line ∈ init, isBlankLine line = false := by simpa [isBlankLine] using h
    obtain ⟨cs, hcs⟩ := exists_trimStart_proseText hinit
    rw [List.append_nil, Text.trimStart_append (exists_not_blank hinit), hcs]
    exact ⟨cs, by simp⟩

/-! ### What documentation keeps apart -/

/-- The prose of lines, as documentation begins with it. -/
def proseAbove (above : List Line) : List Char := Text.trimStart (proseText (readLines above).prose)

/-- A line of the text that begins a paragraph: it is prose and not blank, the line above it is
empty, and there is prose above that. -/
structure BeginsParagraph (text : String) (above : List Line) (line : Line) (below : List Line) :
    Prop where
  lines : Text.lines text.toList = above ++ [] :: line :: below
  isProse : (readLines (above ++ [[]])).isProse line = true
  notBlank : isBlankLine line = false
  earlier : ∃ l ∈ (readLines above).prose, isBlankLine l = false

/-- An empty line below these lines is prose, or else the prose above the block that it belongs to
ends with an empty line itself. -/
def KeepsBreak (above : List Line) : Prop :=
  (readLines above).current = none ∨ (readLines above).prose.getLast? = some []

theorem readLines_concat (above : List Line) (line : Line) :
    readLines (above ++ [line]) = (readLines above).next line := by
  simp [readLines]

theorem prose_readLines_empty (above : List Line) :
    (readLines (above ++ [[]])).prose =
      if (readLines above).current = none then (readLines above).prose ++ [[]]
      else (readLines above).prose := by
  rw [readLines_concat, Reading.prose_next_nil]

/-- Prose is made of lines of the text, in their order. -/
theorem prose_readLines_sublist (lines : List Line) : (readLines lines).prose.Sublist lines :=
  Reading.prose_sublist_foldl lines Reading.start

namespace BeginsParagraph

variable {text : String}

/-- The prose above the line is there whether its empty line is prose or not. -/
theorem prose_above (h : BeginsParagraph text above line below) :
    ∃ l ∈ (readLines (above ++ [[]])).prose, isBlankLine l = false := by
  obtain ⟨l, hmem, hl⟩ := h.earlier
  have hprefix : (readLines above).prose <+: (readLines (above ++ [[]])).prose := by
    rw [readLines_concat]
    exact Reading.prose_isPrefix_foldl [[]] (readLines above)
  exact ⟨l, hprefix.subset hmem, hl⟩

theorem endsEmpty_iff (h : BeginsParagraph text above line below) :
    ['\n', '\n'] <:+ proseAbove (above ++ [[]]) ↔ KeepsBreak above := by
  have hfeed : ∀ line ∈ (readLines (above ++ [[]])).prose, '\n' ∉ line := by
    intro l hl
    have hmem : l ∈ above ++ [[]] := (prose_readLines_sublist _).subset hl
    refine Text.not_mem_lines text.toList l ?_
    rw [h.lines]
    simp only [List.mem_append, List.mem_cons, List.not_mem_nil, or_false] at hmem ⊢
    exact hmem.imp_right .inl
  rw [proseAbove, proseText_endsEmpty_iff hfeed h.prose_above, prose_readLines_empty, KeepsBreak]
  split
  · next hcurrent => simp [hcurrent]
  · next hcurrent => simp [hcurrent]

/-- The prose of the text stands as it does above the line, with the line behind it. -/
theorem trim_prose (h : BeginsParagraph text above line below) :
    ∃ rest, Text.trim (prose text) = proseAbove (above ++ [[]]) ++ rest ∧
      Text.trimEnd line <+: rest := by
  have hreading : readLines (Text.lines text.toList) =
      below.foldl Reading.next ((readLines (above ++ [[]])).next line) := by
    simp [h.lines, readLines]
  obtain ⟨more, hmore⟩ :=
    Reading.prose_isPrefix_foldl below ((readLines (above ++ [[]])).next line)
  rw [Reading.prose_next_of_isProse h.isProse, ← hreading] at hmore
  have hprose : prose text =
      proseText (readLines (above ++ [[]])).prose ++ (line ++ '\n' :: proseText more) := by
    rw [prose, ← hmore]
    simp [proseText]
  obtain ⟨c, hmem, hc⟩ := exists_not_blank_of_line h.notBlank
  refine ⟨Text.trimEnd (line ++ '\n' :: proseText more), ?_, Text.trimEnd_isPrefix_append _ _⟩
  rw [hprose, Text.trim_append (exists_not_blank h.prose_above)
    ⟨c, List.mem_append_left _ hmem, hc⟩, proseAbove]

end BeginsParagraph

end Comment

namespace Doc

open Comment (BeginsParagraph KeepsBreak proseAbove)

variable {ε : Type} {yaml : String → Except ε Node} {text : String} {d : Doc}
  {above below : List Comment.Line} {line : Comment.Line}

theorem summary_isPrefix {before rest : List Char} {prose : List Char} {metadata : Entries}
    (h : Text.trim prose = before ++ rest) (hempty : ['\n', '\n'] <:+ before) :
    (ofProse prose metadata).summary.toList ++ ['\n', '\n'] <+: before := by
  obtain ⟨front, rfl⟩ := hempty
  obtain ⟨first, after, hcut, hfirst⟩ := Text.exists_cutAtBlankLine front rest
  have hsummary : (ofProse prose metadata).summary = String.ofList first := by
    have hcut' : Text.cutAtBlankLine (Text.trim prose) = some (first, after) := by
      rw [h, ← hcut]
      simp
    simp only [ofProse, Comment.paragraphs, hcut']
  rwa [hsummary, String.toList_ofList]

/-- **Which paragraphs are kept apart.** Take a line of prose below an empty line and below other
prose. The prose above it stands in front of it in the documentation, and ends with an empty line
there if and only if the empty line above it is prose, or else the prose above the block that it
belongs to ends with an empty line. Where it does, the summary ends there or before. -/
theorem parseWith_paragraph (hd : parseWith yaml text = .ok d)
    (h : BeginsParagraph text above line below) :
    (∃ rest, d.full.toList = proseAbove (above ++ [[]]) ++ rest ∧ Text.trimEnd line <+: rest) ∧
      (['\n', '\n'] <:+ proseAbove (above ++ [[]]) ↔ KeepsBreak above) ∧
      (KeepsBreak above → d.summary.toList ++ ['\n', '\n'] <+: proseAbove (above ++ [[]])) := by
  rw [parseWith_eq] at hd
  obtain ⟨entries, rfl⟩ : ∃ entries, d = ofProse (Comment.prose text) entries := by
    cases hfound : Comment.metadata yaml text with
    | error e => rw [hfound] at hd; cases hd
    | ok entries => rw [hfound] at hd; exact ⟨entries, (Except.ok.inj hd).symm⟩
  obtain ⟨rest, hfull, hrest⟩ := h.trim_prose
  refine ⟨⟨rest, ?_, hrest⟩, h.endsEmpty_iff, fun hkeeps => ?_⟩
  · rw [ofProse, String.toList_ofList, hfull]
  · exact summary_isPrefix hfull (h.endsEmpty_iff.2 hkeeps)

/-- The blank lines belong to the block, but the prose above it ends with an empty line of its
own. -/
theorem parseWith_paragraph_spaced :
    let text := "Finds pets.\n\n$:\n  limit: 2\n\nBy status."
    let above := ["Finds pets.".toList, [], "$:".toList, "  limit: 2".toList]
    BeginsParagraph text above "By status.".toList [] ∧
      (Comment.readLines above).current ≠ none ∧ KeepsBreak above ∧
      ∃ d, parseWith Node.ofYaml text = .ok d ∧
        ['\n', '\n'] <:+ proseAbove (above ++ [[]]) ∧
        d.summary.toList ++ ['\n', '\n'] <+: proseAbove (above ++ [[]]) := by
  intro text above
  have hbegins : BeginsParagraph text above "By status.".toList [] :=
    ⟨by decide, by decide, by decide, by decide⟩
  have hkeeps : KeepsBreak above := .inr (by decide)
  have hok : (parseWith Node.ofYaml text).toBool = true := by decide +kernel
  cases hd : parseWith Node.ofYaml text with
  | error e =>
      rw [hd] at hok
      cases hok
  | ok d =>
      obtain ⟨-, hempty, hsummary⟩ := parseWith_paragraph hd hbegins
      exact ⟨hbegins, by decide, hkeeps, d, rfl, hempty.2 hkeeps, hsummary hkeeps⟩

/-- Two paragraphs with a block under the first of them become one: the empty line between them is
read as a line of the block. -/
theorem parse_joins_paragraphs :
    let text := "Finds pets.\n$in: query\n\nBy status."
    let above := ["Finds pets.".toList, "$in: query".toList]
    BeginsParagraph text above "By status.".toList [] ∧ ¬ KeepsBreak above ∧
      (parse text).toOption.map (fun d => (d.full, d.summary)) =
        some ("Finds pets.\nBy status.", "Finds pets.\nBy status.") := by
  intro text above
  refine ⟨⟨by decide, by decide, by decide, by decide⟩, ?_, by decide +kernel⟩
  exact not_or.2 ⟨by decide, by decide⟩

end Doc

end SchemaWeave
