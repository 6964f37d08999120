import SchemaWeave.Types.Graph

/-!
A key is a package and a member joined by a point, and a path is taken apart at the first point of
its last segment. The two fit together as long as the last segment of the package has no point of
its own (`split_join_fst_iff`); where it has one, the member keeps the rest of the package.
-/

namespace SchemaWeave

namespace Text

variable {cs : List Char}

theorem ne_empty_of_isIdentifier {name : String} (h : isIdentifier name.toList = true) :
    name ≠ "" := by
  rintro rfl
  cases h

theorem not_mem_of_isIdentifier (h : isIdentifier cs = true) {c : Char}
    (hletter : isLetter c = false) (hnumber : isLetterOrNumber c = false) (hc : c ≠ '_') :
    c ∉ cs := by
  cases cs with
  | nil => cases h
  | cons first rest =>
      simp only [isIdentifier, Bool.and_eq_true, Bool.or_eq_true, beq_iff_eq,
        List.all_eq_true] at h
      obtain ⟨hfirst, hrest⟩ := h
      intro hmem
      rcases List.mem_cons.1 hmem with rfl | hmem
      · simp [hletter, hc] at hfirst
      · simpa [hnumber, hc] using hrest c hmem

theorem dot_not_mem_of_isIdentifier (h : isIdentifier cs = true) : '.' ∉ cs :=
  not_mem_of_isIdentifier h (by decide) (by decide) (by decide)

theorem slash_not_mem_of_isIdentifier (h : isIdentifier cs = true) : '/' ∉ cs :=
  not_mem_of_isIdentifier h (by decide) (by decide) (by decide)

end Text

namespace TypePath

/-- Whether the last segment of a path has a point. -/
def IsDotted (path : String) : Prop := '.' ∈ (lastSegment path.toList).2

instance (path : String) : Decidable (IsDotted path) :=
  inferInstanceAs (Decidable ('.' ∈ (lastSegment path.toList).2))

variable {cs xs : List Char} {owner name path : String}

theorem toList_join (owner name : String) :
    (join owner name).toList = owner.toList ++ '.' :: name.toList := by
  simp [join]

theorem join_ne_empty (owner name : String) : join owner name ≠ "" := by
  rw [Ne, ← String.toList_inj, toList_join]
  simp

theorem dot_mem_join (owner name : String) : '.' ∈ (join owner name).toList := by
  simp [toList_join]

theorem slash_not_mem_join (howner : '/' ∉ owner.toList) (hname : '/' ∉ name.toList) :
    '/' ∉ (join owner name).toList := by
  simp [toList_join, howner, hname]

theorem join_assoc (package receiver name : String) :
    join (join package receiver) name = join package (join receiver name) := by
  simp [join, String.append_assoc]

theorem join_left_inj {owner' : String} :
    join owner name = join owner' name ↔ owner = owner' := by
  refine ⟨fun h => ?_, fun h => by rw [h]⟩
  have hlists := congrArg String.toList h
  rw [toList_join, toList_join] at hlists
  exact String.toList_inj.1 (List.append_cancel_right hlists)

/-- The last segment, counted from the end. -/
theorem lastSegment_eq (cs : List Char) :
    lastSegment cs =
      ((cs.reverse.dropWhile (· != '/')).reverse, (cs.reverse.takeWhile (· != '/')).reverse) := by
  have hcut : cs = (cs.reverse.dropWhile (· != '/')).reverse ++
      (cs.reverse.takeWhile (· != '/')).reverse := by
    rw [← List.reverse_append, List.takeWhile_append_dropWhile, List.reverse_reverse]
  have hlength : cs.length - (cs.reverse.takeWhile (· != '/')).reverse.length =
      (cs.reverse.dropWhile (· != '/')).reverse.length := by
    have hsum := congrArg List.length hcut
    rw [List.length_append] at hsum
    omega
  refine Prod.ext ?_ rfl
  simp only [lastSegment, hlength]
  exact List.prefix_iff_eq_take.1 ⟨_, hcut.symm⟩ |>.symm

theorem lastSegment_parts (cs : List Char) : (lastSegment cs).1 ++ (lastSegment cs).2 = cs := by
  rw [lastSegment_eq, ← List.reverse_append, List.takeWhile_append_dropWhile,
    List.reverse_reverse]

theorem lastSegment_append (cs : List Char) (h : '/' ∉ xs) :
    lastSegment (cs ++ xs) = ((lastSegment cs).1, (lastSegment cs).2 ++ xs) := by
  have hxs : ∀ c ∈ xs.reverse, (c != '/') = true := by
    intro c hc
    rw [bne_iff_ne]
    rintro rfl
    exact h (List.mem_reverse.1 hc)
  rw [lastSegment_eq, lastSegment_eq, List.reverse_append, List.takeWhile_append_of_pos hxs,
    List.dropWhile_append_of_pos hxs, List.reverse_append, List.reverse_reverse]

theorem lastSegment_join (owner : String) (h : '/' ∉ name.toList) :
    lastSegment (join owner name).toList =
      ((lastSegment owner.toList).1, (lastSegment owner.toList).2 ++ '.' :: name.toList) := by
  rw [toList_join]
  exact lastSegment_append _ (by simp [h])

/-! ### Taking a path apart -/

theorem split_of_not_isDotted (h : ¬ IsDotted path) : split path = (path, "") := by
  have hdrop : (lastSegment path.toList).2.dropWhile (· != '.') = [] := by
    have hhead := List.head?_dropWhile_not (· != '.') (lastSegment path.toList).2
    cases hrest : (lastSegment path.toList).2.dropWhile (· != '.') with
    | nil => rfl
    | cons c rest =>
        have hc : c ∈ (lastSegment path.toList).2 :=
          (List.dropWhile_suffix _).mem (hrest ▸ List.mem_cons_self)
        simp only [hrest, List.head?_cons, bne_eq_false_iff_eq] at hhead
        rw [hhead] at hc
        exact absurd hc h
  simp only [split, hdrop]

theorem split_of_segment {first rest : List Char}
    (hsegment : (lastSegment path.toList).2 = first ++ '.' :: rest) (hfirst : '.' ∉ first) :
    split path =
      (String.ofList ((lastSegment path.toList).1 ++ first), String.ofList rest) := by
  have hne : ∀ c ∈ first, (c != '.') = true := by
    intro c hc
    rw [bne_iff_ne]
    rintro rfl
    exact hfirst hc
  have hdrop : (lastSegment path.toList).2.dropWhile (· != '.') = '.' :: rest := by
    rw [hsegment, List.dropWhile_append_of_pos hne]
    rfl
  have htake : (lastSegment path.toList).2.takeWhile (· != '.') = first := by
    rw [hsegment, List.takeWhile_append_of_pos hne]
    exact List.append_nil first
  simp only [split, hdrop, htake]

/-- What a path is taken apart into makes up the path again. -/
theorem join_split (h : (split path).2 ≠ "") : join (split path).1 (split path).2 = path := by
  by_cases hdot : IsDotted path
  · obtain ⟨first, rest, hsegment, hfirst⟩ := List.eq_append_cons_of_mem hdot
    rw [split_of_segment hsegment hfirst, ← String.toList_inj, toList_join]
    calc (String.ofList ((lastSegment path.toList).1 ++ first)).toList ++
          '.' :: (String.ofList rest).toList
        = (lastSegment path.toList).1 ++ (lastSegment path.toList).2 := by
          simp [hsegment]
      _ = path.toList := lastSegment_parts _
  · rw [split_of_not_isDotted hdot] at h
    exact absurd rfl h

/-- A package without a point in its last segment is found again. -/
theorem split_join (howner : ¬ IsDotted owner) (hname : '/' ∉ name.toList) :
    split (join owner name) = (owner, name) := by
  have hlast := lastSegment_join owner hname
  rw [split_of_segment (by rw [hlast]) howner, hlast]
  simp [lastSegment_parts]

/-- A package with a point in its last segment is cut there, and its rest goes to the member. -/
theorem split_join_of_isDotted (howner : IsDotted owner) (hname : '/' ∉ name.toList) :
    (split (join owner name)).1 ≠ owner ∧
      ∃ rest, (split (join owner name)).2 = join rest name := by
  obtain ⟨first, rest, hsegment, hfirst⟩ := List.eq_append_cons_of_mem howner
  have hparts := lastSegment_parts owner.toList
  have hlast := lastSegment_join owner hname
  rw [hsegment, List.append_assoc, List.cons_append] at hlast
  rw [split_of_segment (by rw [hlast]) hfirst, hlast]
  refine ⟨fun h => ?_, String.ofList rest, ?_⟩
  · have hshort := (congrArg String.toList h).trans hparts.symm
    rw [String.toList_ofList, hsegment] at hshort
    simp at hshort
  · rw [← String.toList_inj, toList_join]
    simp

theorem split_join_fst_iff (owner : String) (hname : '/' ∉ name.toList) :
    (split (join owner name)).1 = owner ↔ ¬ IsDotted owner := by
  refine ⟨fun h hdot => (split_join_of_isDotted hdot hname).1 h, fun h => ?_⟩
  rw [split_join h hname]

/-- The member that comes back ends in the one that went in. -/
theorem suffix_split_join (owner : String) (hname : '/' ∉ name.toList) :
    name.toList <:+ (split (join owner name)).2.toList := by
  by_cases howner : IsDotted owner
  · obtain ⟨rest, hrest⟩ := (split_join_of_isDotted howner hname).2
    rw [hrest, toList_join]
    exact ⟨rest.toList ++ ['.'], by simp⟩
  · exact ⟨[], by simp [split_join howner hname]⟩

end TypePath

end SchemaWeave
