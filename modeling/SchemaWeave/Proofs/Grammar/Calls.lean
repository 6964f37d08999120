import SchemaWeave.Proofs.Grammar.Data
import SchemaWeave.Proofs.Types.Path

/-!
Texts that are a member of a name, such as `zoo.Pet`, and calls of a function with one argument,
such as `schema(zoo.Pet)`. Their names end where a point, a bracket or the text ends.
-/

namespace SchemaWeave

/-- A letter, an underscore or a dollar sign, and further ones and digits. -/
def Expr.isName (cs : List Char) : Bool :=
  match cs with
  | c :: rest => isNameStart c && rest.all isNameChar
  | [] => false

namespace Grammar

open SchemaWeave.Expr (isName isNameStart isNameChar name? skipBlanks maxNesting)
open TypePath (join)

theorem exists_of_isName {cs : List Char} (h : isName cs = true) :
    ∃ c more, cs = c :: more ∧ isNameStart c = true ∧ ∀ d ∈ more, isNameChar d = true := by
  cases cs with
  | nil => cases h
  | cons c more =>
      obtain ⟨hc, hmore⟩ := Bool.and_eq_true_iff.1 h
      exact ⟨c, more, rfl, hc, List.all_eq_true.1 hmore⟩

/-- A character that names are not made of is in none of them. -/
theorem not_mem_of_isName {cs : List Char} (h : isName cs = true) {c : Char}
    (hc : isNameChar c = false) : c ∉ cs := by
  obtain ⟨d, more, rfl, hd, hmore⟩ := exists_of_isName h
  have hall : ∀ e ∈ d :: more, isNameChar e = true :=
    List.forall_mem_cons.2 ⟨by rw [isNameChar, hd, Bool.true_or], hmore⟩
  intro hmem
  rw [hall c hmem] at hc
  cases hc

/-- What follows a name does not go on with it. -/
def EndsName (rest : List Char) : Prop := ∀ c ∈ rest.head?, isNameChar c = false

variable {short name function : String} {rest : List Char}

theorem name?_of_isName (h : isName name.toList = true) (hrest : EndsName rest) :
    name? (name.toList ++ rest) = some (name, rest) := by
  obtain ⟨c, more, hname, hc, hmore⟩ := exists_of_isName h
  have hcut : rest.takeWhile isNameChar = [] ∧ rest.dropWhile isNameChar = rest := by
    cases rest with
    | nil => exact ⟨rfl, rfl⟩
    | cons d rest => simp [hrest d rfl]
  rw [hname, name?_append hc hmore, hcut.1, hcut.2, List.append_nil, ← hname,
    String.ofList_toList]

/-- A member of a name is three tokens, none of which is a bracket. -/
theorem member_spans (hshort : isName short.toList = true) (hname : isName name.toList = true)
    (rest : List Char) (hrest : EndsName rest) :
    Spans ((join short name).toList ++ rest) [.name short, .mark '.', .name name] rest ∧
      ∀ depth, Fits depth ((join short name).toList ++ rest) ↔ Fits depth rest := by
  have hmember := name?_of_isName hname hrest
  have hpoint : Token.read? ('.' :: (name.toList ++ rest)) =
      some (.mark '.', name.toList ++ rest) := by
    obtain ⟨c, more, hc, hstart, -⟩ := exists_of_isName hname
    have hskip := skipBlanks_of_read? (read?_of_name hmember)
    exact read?_of_member (hskip.symm ▸ hmember)
  have hfirst := read?_of_name (name?_of_isName hshort
    (show EndsName ('.' :: (name.toList ++ rest)) from by rintro c ⟨⟩; rfl))
  have htext : (join short name).toList ++ rest = short.toList ++ '.' :: (name.toList ++ rest) := by
    rw [TypePath.toList_join, List.append_assoc, List.cons_append]
  rw [htext]
  refine ⟨.cons hfirst (.cons hpoint (.token (read?_of_name hmember))), fun depth => ?_⟩
  rw [fits_token hfirst nofun, fits_cons (by decide), fits_token (read?_of_name hmember) nofun]

theorem derives_of_postfix {ts : List Token} {e : Expr} (h : Postfix Derives ts e) :
    Derives ts e := by
  have hsum : Sum Derives (ts ++ []) e := .mk h .nil
  rw [List.append_nil] at hsum
  exact .expression hsum

/-- The words that are no names of anything. -/
def reserved : List String := ["null", "undefined", "true", "false"]

theorem derives_member (hshort : short ∉ reserved) (name : String) :
    Derives [.name short, .mark '.', .name name] (.member (.identifier short) name) := by
  have hbase : Primary Derives [.name short] (.identifier short) := .identifier hshort
  exact derives_of_postfix (.mk hbase (.member .nil))

theorem derives_call (hfunction : function ∉ reserved) {ts : List Token} {e : Expr}
    (h : Derives ts e) :
    Derives (.name function :: (.mark '(' :: ts ++ [.mark ')']))
      (.call (.identifier function) [e]) := by
  have hbase : Primary Derives [.name function] (.identifier function) := .identifier hfunction
  have hargument : Entries Derives (ts ++ []) [e] := .exact (.cons h .nil)
  rw [List.append_nil] at hargument
  exact derives_of_postfix (.mk hbase (.call hargument .nil))

/-- **A member of a name is parsed as one.** -/
theorem parse_member (hshort : isName short.toList = true) (hname : isName name.toList = true)
    (hword : short ∉ reserved) :
    Expr.parse (join short name) = .ok (.member (.identifier short) name) := by
  obtain ⟨hspan, hfits⟩ := member_spans hshort hname [] nofun
  have hlexes := hspan [] (lexes_nil.2 rfl)
  have hroom := (hfits 0).2 rfl
  rw [List.append_nil] at hlexes hroom
  exact parse_of_lexes hlexes (derives_member hword name) hroom

/-- The text of a call with one argument. -/
def callText (function argument : String) : String := function ++ "(" ++ argument ++ ")"

/-- **A call with a member of a name is parsed as one.** -/
theorem parse_call_member (hfunction : isName function.toList = true)
    (hother : function ∉ reserved) (hshort : isName short.toList = true)
    (hname : isName name.toList = true) (hword : short ∉ reserved) :
    Expr.parse (callText function (join short name)) =
      .ok (.call (.identifier function) [.member (.identifier short) name]) := by
  obtain ⟨hspan, hfits⟩ := member_spans hshort hname [')'] (by rintro c ⟨⟩; rfl)
  have hread := read?_of_name (name?_of_isName hfunction
    (show EndsName ('(' :: ((join short name).toList ++ [')'])) from by rintro c ⟨⟩; rfl))
  have htext : (callText function (join short name)).toList =
      function.toList ++ '(' :: ((join short name).toList ++ [')']) := by
    simp [callText]
  have hopen := Spans.mark (c := '(') (by decide) (by decide) ((join short name).toList ++ [')'])
  have hclose := Spans.mark (c := ')') (by decide) (by decide) []
  have hlexes := (Spans.cons hread (hopen.append (hspan.append hclose))) [] (lexes_nil.2 rfl)
  have hroom : Fits 0 (function.toList ++ '(' :: ((join short name).toList ++ [')'])) := by
    refine (fits_token hread nofun 0).2 ((fits_open (.inr (.inr rfl))).2 ⟨by decide, ?_⟩)
    exact (hfits 1).2 ((fits_close (.inr (.inr rfl))).2 rfl)
  rw [← htext] at hlexes hroom
  refine parse_of_lexes hlexes ?_ hroom
  have hderives := derives_call hother (derives_member hword name)
  simpa using hderives

end Grammar

end SchemaWeave
