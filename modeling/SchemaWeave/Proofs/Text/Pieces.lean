import SchemaWeave.Text.Lines

/-!
Trimming a text, and cutting it into pieces: what is put together from pieces is taken apart into
the same ones.
-/

namespace SchemaWeave

namespace Text

/-! ### Trimming -/

variable {c : Char} {cs before after : List Char}

theorem trimEnd_cons (c : Char) (cs : List Char) :
    trimEnd (c :: cs) = if isBlank c = true ∧ trimEnd cs = [] then [] else c :: trimEnd cs := by
  simp only [trimEnd, List.reverse_cons, List.dropWhile_append, List.reverse_eq_nil_iff]
  cases h : cs.reverse.dropWhile isBlank <;> cases hc : isBlank c <;> simp [hc]

theorem trimEnd_cons_of_not_blank (hc : isBlank c = false) (cs : List Char) :
    trimEnd (c :: cs) = c :: trimEnd cs := by
  rw [trimEnd_cons, if_neg (by simp [hc])]

theorem trim_cons_of_not_blank (hc : isBlank c = false) (cs : List Char) :
    trim (c :: cs) = c :: trimEnd cs := by
  rw [trim, trimStart, List.dropWhile_cons_of_neg (by simp [hc]), trimEnd_cons_of_not_blank hc]

theorem trim_cons_of_blank (hc : isBlank c = true) (cs : List Char) :
    trim (c :: cs) = trim cs := by
  rw [trim, trimStart, List.dropWhile_cons_of_pos hc, trim, trimStart]

theorem trimEnd_eq_self (h : ∀ c ∈ cs, isBlank c = false) : trimEnd cs = cs := by
  induction cs with
  | nil => rfl
  | cons c cs ih =>
      obtain ⟨hc, hcs⟩ := List.forall_mem_cons.1 h
      rw [trimEnd_cons_of_not_blank hc, ih hcs]

theorem trim_eq_self (h : ∀ c ∈ cs, isBlank c = false) : trim cs = cs := by
  cases cs with
  | nil => rfl
  | cons c cs =>
      obtain ⟨hc, hcs⟩ := List.forall_mem_cons.1 h
      rw [trim_cons_of_not_blank hc, trimEnd_eq_self hcs]

theorem trimEnd_trimEnd (cs : List Char) : trimEnd (trimEnd cs) = trimEnd cs := by
  induction cs with
  | nil => rfl
  | cons c cs ih =>
      rw [trimEnd_cons]
      split
      · rfl
      · rename_i h
        rw [trimEnd_cons, ih, if_neg h]

/-- Blanks at the end do not matter to a text that is trimmed. -/
theorem trim_trimEnd (cs : List Char) : trim (trimEnd cs) = trim cs := by
  induction cs with
  | nil => rfl
  | cons c cs ih =>
      cases hc : isBlank c with
      | false =>
          rw [trimEnd_cons_of_not_blank hc, trim_cons_of_not_blank hc, trim_cons_of_not_blank hc,
            trimEnd_trimEnd]
      | true =>
          rw [trim_cons_of_blank hc, ← ih, trimEnd_cons]
          split
          · rename_i h
            rw [h.2]
          · rw [trim_cons_of_blank hc]

/-- Neither do blanks around it. -/
theorem trim_blanks (hbefore : ∀ c ∈ before, isBlank c = true)
    (hafter : ∀ c ∈ after, isBlank c = true) (cs : List Char) :
    trim (before ++ cs ++ after) = trim cs := by
  have hend : trimEnd (cs ++ after) = trimEnd cs := by
    rw [trimEnd, List.reverse_append,
      List.dropWhile_append_of_pos fun c hc => hafter c (List.mem_reverse.1 hc), trimEnd]
  rw [List.append_assoc, trim, trimStart, List.dropWhile_append_of_pos hbefore]
  change trim (cs ++ after) = _
  rw [← trim_trimEnd, hend, trim_trimEnd]

/-- What stands behind a character that is not blank stays when the beginning is trimmed. -/
theorem trimStart_append (h : ∃ c ∈ before, isBlank c = false) (after : List Char) :
    trimStart (before ++ after) = trimStart before ++ after := by
  induction before with
  | nil => simp at h
  | cons c before ih =>
      cases hc : isBlank c with
      | false =>
          rw [trimStart, List.cons_append, List.dropWhile_cons_of_neg (by simp [hc]), trimStart,
            List.dropWhile_cons_of_neg (by simp [hc]), List.cons_append]
      | true =>
          rw [trimStart, List.cons_append, List.dropWhile_cons_of_pos hc, trimStart,
            List.dropWhile_cons_of_pos hc]
          exact ih (by simpa [hc] using h)

theorem trimEnd_append (h : ∃ c ∈ after, isBlank c = false) (before : List Char) :
    trimEnd (before ++ after) = before ++ trimEnd after := by
  have hreverse : ∃ c ∈ after.reverse, isBlank c = false := by simpa using h
  have hstart := trimStart_append hreverse before.reverse
  rw [trimStart, trimStart] at hstart
  rw [trimEnd, List.reverse_append, hstart, List.reverse_append, List.reverse_reverse, trimEnd]

theorem trim_append (hbefore : ∃ c ∈ before, isBlank c = false)
    (hafter : ∃ c ∈ after, isBlank c = false) :
    trim (before ++ after) = trimStart before ++ trimEnd after := by
  rw [trim, trimStart_append hbefore, trimEnd_append hafter]

theorem trimEnd_isPrefix (cs : List Char) : trimEnd cs <+: cs := by
  have hsuffix : cs.reverse.dropWhile isBlank <:+ cs.reverse := List.dropWhile_suffix _
  simpa [trimEnd] using List.reverse_prefix.2 hsuffix

/-- Text behind another one takes nothing away from it but blanks at its end. -/
theorem trimEnd_isPrefix_append (before after : List Char) :
    trimEnd before <+: trimEnd (before ++ after) := by
  by_cases h : ∃ c ∈ after, isBlank c = false
  · rw [trimEnd_append h]
    exact (trimEnd_isPrefix before).trans (List.prefix_append _ _)
  · have hblank : ∀ c ∈ after.reverse, isBlank c = true := by simpa using h
    have hsame : trimEnd (before ++ after) = trimEnd before := by
      rw [trimEnd, trimEnd, List.reverse_append, List.dropWhile_append_of_pos hblank]
    exact hsame.symm ▸ List.prefix_refl (trimEnd before)

theorem length_trim_le (cs : List Char) : (trim cs).length ≤ cs.length := by
  have hstart : (trimStart cs).length ≤ cs.length := (List.dropWhile_suffix _).length_le
  have hend : (trimEnd (trimStart cs)).length ≤ (trimStart cs).length := by
    have hsuffix := (List.dropWhile_suffix isBlank (l := (trimStart cs).reverse)).length_le
    simpa [trimEnd] using hsuffix
  exact Nat.le_trans hend hstart

/-- A text that begins with no blank but spaces loses nothing else. -/
theorem filter_trimStart (h : ∀ c ∈ (cs.filter (· != ' ')).head?, isBlank c = false) :
    (trimStart cs).filter (· != ' ') = cs.filter (· != ' ') := by
  induction cs with
  | nil => rfl
  | cons c cs ih =>
      cases hblank : isBlank c with
      | false => rw [trimStart, List.dropWhile_cons_of_neg (by simp [hblank])]
      | true =>
          rw [trimStart, List.dropWhile_cons_of_pos hblank]
          by_cases hspace : c = ' '
          · subst hspace
            exact ih h
          · -- another blank would stand at the beginning of what is left
            have hc := h c (by simp [hspace])
            rw [hblank] at hc
            cases hc

theorem filter_trim (hfirst : ∀ c ∈ (cs.filter (· != ' ')).head?, isBlank c = false)
    (hlast : ∀ c ∈ (cs.filter (· != ' ')).getLast?, isBlank c = false) :
    (trim cs).filter (· != ' ') = cs.filter (· != ' ') := by
  -- the end of a text is the beginning of its reverse
  have hstart := filter_trimStart hfirst
  have hend : (trimStart (trimStart cs).reverse).filter (· != ' ') =
      (trimStart cs).reverse.filter (· != ' ') := by
    refine filter_trimStart ?_
    rwa [List.filter_reverse, hstart, List.head?_reverse]
  rw [trim, trimEnd, List.filter_reverse]
  change ((trimStart (trimStart cs).reverse).filter _).reverse = _
  rw [hend, List.filter_reverse, List.reverse_reverse, hstart]

/-! ### Cutting -/

theorem splitAt_of_not_mem (h : c ∉ cs) : splitAt c cs = [cs] := by
  induction cs with
  | nil => rfl
  | cons d cs ih =>
      have hd : d ≠ c := fun heq => h (heq ▸ List.mem_cons_self)
      rw [splitAt, if_neg hd, ih fun hmem => h (List.mem_cons_of_mem _ hmem)]

theorem cutAt_append (h : c ∉ before) (after : List Char) :
    cutAt c (before ++ c :: after) = some (before, after) := by
  have hne : ∀ d ∈ before, (d != c) = true := fun d hd => by
    rw [bne_iff_ne]
    rintro rfl
    exact h hd
  rw [cutAt, List.dropWhile_append_of_pos hne, List.takeWhile_append_of_pos hne]
  simp

theorem head_of_dropWhile {rest : List Char} {d : Char}
    (h : cs.dropWhile (· != c) = d :: rest) : d = c := by
  have hhead := List.head?_dropWhile_not (· != c) cs
  simpa [h] using hhead

theorem cutAt_eq_none (h : c ∉ cs) : cutAt c cs = none := by
  unfold cutAt
  split
  · rfl
  · rename_i d rest hdrop
    have hmem : d ∈ cs := (List.dropWhile_suffix (· != c)).mem (hdrop ▸ List.mem_cons_self)
    exact absurd (head_of_dropWhile hdrop ▸ hmem) h

theorem cutAt_eq_some (h : cutAt c cs = some (before, after)) : cs = before ++ c :: after := by
  unfold cutAt at h
  split at h
  · cases h
  · rename_i d rest hdrop
    cases h
    rw [head_of_dropWhile hdrop] at hdrop
    rw [← hdrop, List.takeWhile_append_dropWhile]

/-- Where a text has an empty line, the first one is there or before. -/
theorem exists_cutAtBlankLine (before after : List Char) :
    ∃ first rest, cutAtBlankLine (before ++ '\n' :: '\n' :: after) = some (first, rest) ∧
      first ++ ['\n', '\n'] <+: before ++ ['\n', '\n'] := by
  induction before with
  | nil => exact ⟨[], after, rfl, List.prefix_refl _⟩
  | cons c before ih =>
      obtain ⟨first, rest, hcut, hfirst⟩ := ih
      by_cases hfeeds : c = '\n' ∧ (before ++ ['\n', '\n']).head? = some '\n'
      · obtain ⟨rfl, hhead⟩ := hfeeds
        obtain ⟨tail, htail⟩ := List.head?_eq_some_iff.1 hhead
        have htext : before ++ '\n' :: '\n' :: after = '\n' :: (tail ++ after) := by
          rw [← List.cons_append, ← htail]
          simp
        refine ⟨[], tail ++ after, ?_, tail, ?_⟩
        · rw [List.cons_append, htext, cutAtBlankLine]
        · rw [List.cons_append, htail]
          rfl
      · refine ⟨c :: first, rest, ?_, ?_⟩
        · rw [List.cons_append, cutAtBlankLine, hcut, Option.map_some]
          intro text hc htext
          refine hfeeds ⟨hc, ?_⟩
          cases before <;> simp_all
        · exact List.cons_prefix_cons.2 ⟨rfl, hfirst⟩

theorem stripStart_eq_some {expected rest : List Char} :
    stripStart expected cs = some rest ↔ cs = expected ++ rest := by
  induction expected generalizing cs with
  | nil => simp [stripStart]
  | cons e expected ih =>
      cases cs with
      | nil => simp [stripStart]
      | cons c cs => by_cases he : e = c <;> simp [stripStart, he, ih, eq_comm]

end Text

end SchemaWeave
