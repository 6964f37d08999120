import SchemaWeave.Proofs.Text.Pieces

/-!
The lines of a text, taken off its beginning one at a time. A text is empty, or one line that
nothing ends, or a line with its line feed and a text below it; proofs about texts go by these three
cases (`Text.byLines`), and `Text.lines` has one equation for each.
-/

namespace SchemaWeave

namespace Text

variable {separator c : Char} {cs line : List Char} {parts : List (List Char)} {last : List Char}

/-! ### Cuts -/

theorem splitAt_ne_nil (separator : Char) (cs : List Char) : splitAt separator cs ≠ [] := by
  cases cs with
  | nil => simp [splitAt]
  | cons c rest =>
      rw [splitAt]
      split
      · simp
      · cases splitAt separator rest <;> simp

theorem exists_splitAt (separator : Char) (cs : List Char) :
    ∃ parts last, splitAt separator cs = parts ++ [last] :=
  ⟨_, _, (List.dropLast_concat_getLast (splitAt_ne_nil separator cs)).symm⟩

/-- A separator between two texts is a cut, and both are cut as before. -/
theorem splitAt_append (separator : Char) (xs ys : List Char) :
    splitAt separator (xs ++ separator :: ys) = splitAt separator xs ++ splitAt separator ys := by
  induction xs with
  | nil => simp [splitAt]
  | cons c rest ih =>
      rw [List.cons_append, splitAt, splitAt, ih]
      split
      · rfl
      · obtain ⟨part, parts, hparts⟩ := List.exists_cons_of_ne_nil (splitAt_ne_nil separator rest)
        simp [hparts]

/-! ### Lines -/

/-- All parts but the last are lines without their line ends; the last one counts if it has text. -/
theorem lines_of_splitAt (h : splitAt '\n' cs = parts ++ [last]) :
    lines cs = parts.map dropReturn ++ if last = [] then [] else [last] := by
  cases last <;> simp [lines, h]

theorem dropReturn_concat (h : c ≠ '\r') (cs : List Char) : dropReturn (cs ++ [c]) = cs ++ [c] := by
  simp [dropReturn, h]

theorem dropReturn_sublist (line : List Char) : (dropReturn line).Sublist line := by
  rw [dropReturn]
  split
  · exact List.dropLast_sublist line
  · exact List.Sublist.refl line

theorem lines_last (h : '\n' ∉ line) (hne : line ≠ []) : lines line = [line] := by
  have hcut : splitAt '\n' line = [] ++ [line] := splitAt_of_not_mem h
  rw [lines_of_splitAt hcut, if_neg hne]
  rfl

theorem lines_line (h : '\n' ∉ line) (rest : List Char) :
    lines (line ++ '\n' :: rest) = dropReturn line :: lines rest := by
  obtain ⟨parts, last, hrest⟩ := exists_splitAt '\n' rest
  have hcut : splitAt '\n' (line ++ '\n' :: rest) = (line :: parts) ++ [last] := by
    rw [splitAt_append, splitAt_of_not_mem h, hrest, List.singleton_append, List.cons_append]
  rw [lines_of_splitAt hcut, lines_of_splitAt hrest, List.map_cons, List.cons_append]

/-- What holds of the empty text and of a last line, and of a line with a text below it if it holds
of that text, holds of every text. -/
theorem byLines {motive : List Char → Prop} (nil : motive [])
    (last : ∀ line, '\n' ∉ line → line ≠ [] → motive line)
    (line : ∀ line rest, '\n' ∉ line → motive rest → motive (line ++ '\n' :: rest))
    (cs : List Char) : motive cs := by
  by_cases hfeed : '\n' ∈ cs
  · obtain ⟨first, rest, rfl, hfirst⟩ := List.eq_append_cons_of_mem hfeed
    exact line first rest hfirst (byLines nil last line rest)
  · by_cases hne : cs = []
    · exact hne ▸ nil
    · exact last cs hfeed hne
termination_by cs.length
decreasing_by
  subst_vars
  simp only [List.length_append, List.length_cons]
  omega

theorem not_mem_lines (cs : List Char) : ∀ line ∈ lines cs, '\n' ∉ line := by
  induction cs using byLines with
  | nil => exact nofun
  | last line h hne => simpa [lines_last h hne] using h
  | line line rest h ih =>
      rw [lines_line h]
      exact List.forall_mem_cons.2 ⟨fun hmem => h ((dropReturn_sublist line).subset hmem), ih⟩

end Text

end SchemaWeave
