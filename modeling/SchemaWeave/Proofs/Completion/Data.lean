import SchemaWeave.Complete.Document
import SchemaWeave.Proofs.Document.Canonical
import SchemaWeave.Proofs.Grammar.Data

/-!
Data in expressions. The literals that spell a document evaluate to the document as a value, and no
scope is asked on the way (`Expr.eval_ofNode`); put back into a document, the value of a canonical
document is that document (`Setting.lower_ofNode`). So its JSON text is an expression for it
(`Environment.evaluate_toJson`).
-/

namespace SchemaWeave

namespace Expr

variable {m : Type → Type} [Monad m] [LawfulMonad m]

theorem evalElements_of_items (scope : Scope m) {items : List Node}
    (hitems : ∀ item ∈ items, eval scope (ofNode item) = pure (Value.ofNode item)) :
    evalElements scope (elementsOf items) = pure (Value.ofNodes items) := by
  induction items with
  | nil => rw [elementsOf, evalElements, Value.ofNodes]
  | cons item rest ih =>
      obtain ⟨hitem, hrest⟩ := List.forall_mem_cons.1 hitems
      rw [elementsOf, evalElements, hitem, ih hrest, pure_bind, pure_bind, Value.ofNodes]

theorem evalProperties_of_entries (scope : Scope m) {es : List (String × Node)}
    (hes : ∀ entry ∈ es, eval scope (ofNode entry.2) = pure (Value.ofNode entry.2)) :
    ∀ before : Bindings,
      evalProperties scope before (propertiesOf es) = pure (Value.ofEntries before es) := by
  induction es with
  | nil => intro before; rw [propertiesOf, evalProperties, Value.ofEntries]
  | cons entry rest ih =>
      intro before
      obtain ⟨hentry, hrest⟩ := List.forall_mem_cons.1 hes
      rw [propertiesOf, evalProperties, hentry, pure_bind, ih hrest, Value.ofEntries]

/-- **The literals of a document evaluate to it**, without a question to the scope. -/
theorem eval_ofNode (scope : Scope m) (n : Node) :
    eval scope (ofNode n) = pure (Value.ofNode n) := by
  induction n using Node.induction with
  | map es ih =>
      rw [ofNode, eval, evalProperties_of_entries scope ih, pure_bind, Value.ofNode]
  | list items ih =>
      rw [ofNode, eval, evalElements_of_items scope ih, pure_bind, Value.ofNode]
  | number x => cases x <;> rw [ofNode, eval, Literal.value, Value.ofNode]
  | null | bool | string => rw [ofNode, eval, Literal.value, Value.ofNode]

/-- The value of JSON text. -/
theorem evalText_toJson (scope : Scope m) {n : Node} (h : n.Throughout Node.IsSpellable)
    (hdepth : n.nesting ≤ maxNesting) :
    evalText scope n.toJson = pure (.ok (Value.ofNode n)) := by
  rw [evalText, Grammar.parse_toJson h hdepth]
  simp only [eval_ofNode, ExceptT.run_pure, pure_bind]
  rfl

end Expr

namespace Value

theorem insert_of_not_mem {key : String} {bindings : Bindings} (h : key ∉ bindings.map Prod.fst)
    (value : Value) : Bindings.insert key value bindings = bindings ++ [(key, value)] := by
  induction bindings with
  | nil => rfl
  | cons binding rest ih =>
      obtain ⟨k, v⟩ := binding
      obtain ⟨hk, hrest⟩ := not_or.1 fun hmem => h (List.mem_cons.2 hmem)
      rw [Bindings.insert, if_neg (Ne.symm hk), ih hrest, List.cons_append]

/-- Distinct keys stay where they are. -/
theorem ofEntries_of_nodup {es : List (String × Node)} : ∀ before : Bindings,
    (before.map Prod.fst ++ Entries.keys es).Nodup →
      ofEntries before es = before ++ es.map fun entry => (entry.1, ofNode entry.2) := by
  induction es with
  | nil => intro before _; rw [ofEntries, List.map_nil, List.append_nil]
  | cons entry rest ih =>
      intro before h
      obtain ⟨key, value⟩ := entry
      have hnew : key ∉ before.map Prod.fst := by
        intro hmem
        exact (List.nodup_append.1 h).2.2 key hmem key List.mem_cons_self rfl
      rw [ofEntries, insert_of_not_mem hnew, ih]
      · simp
      · simpa [Entries.keys] using h

end Value

namespace Setting

variable {s : Setting}

theorem lowerItems_of_nodes {items : List Node}
    (hitems : ∀ item ∈ items, s.lower (Value.ofNode item) = pure item) :
    s.lowerItems (Value.ofNodes items) = pure items := by
  induction items with
  | nil => rfl
  | cons item rest ih =>
      obtain ⟨hitem, hrest⟩ := List.forall_mem_cons.1 hitems
      rw [Value.ofNodes, lowerItems, hitem, ih hrest, pure_bind, pure_bind]

theorem lowerEntries_of_nodes {es : List (String × Node)}
    (hes : ∀ entry ∈ es, s.lower (Value.ofNode entry.2) = pure entry.2) :
    s.lowerEntries (es.map fun entry => (entry.1, Value.ofNode entry.2)) = pure es := by
  induction es with
  | nil => rfl
  | cons entry rest ih =>
      obtain ⟨hentry, hrest⟩ := List.forall_mem_cons.1 hes
      rw [List.map_cons, lowerEntries, hentry, ih hrest, pure_bind, pure_bind]

/-- **The value of a canonical document is put back as that document.** -/
theorem lower_ofNode (s : Setting) {n : Node} (h : n.IsCanonical) :
    s.lower (Value.ofNode n) = pure n := by
  induction n using Node.induction with
  | map es ih =>
      obtain ⟨hkeys, hvalues⟩ := Node.isCanonical_map.1 h
      rw [Value.ofNode, Value.ofEntries_of_nodup [] hkeys, List.nil_append, lower,
        lowerEntries_of_nodes fun entry hentry => ih entry hentry (hvalues entry hentry), pure_bind]
  | list items ih =>
      have hitems := Node.isCanonical_list.1 h
      rw [Value.ofNode, lower,
        lowerItems_of_nodes fun item hitem => ih item hitem (hitems item hitem), pure_bind]
  | null | bool | number | string => rfl

end Setting

/-- The value of JSON text in the document, or in a file. -/
theorem Environment.evaluate_toJson (e : Environment) (file : Option String) {n : Node}
    (h : n.Throughout Node.IsSpellable) (hdepth : n.nesting ≤ Expr.maxNesting)
    (hcanonical : n.IsCanonical) : e.evaluate n.toJson file = .ok n := by
  have hvalue : e.setting.evaluate n.toJson file = pure (.ok (Value.ofNode n)) := by
    rw [Setting.evaluate, Expr.evalText_toJson _ h hdepth]
    rfl
  rw [Environment.evaluate, hvalue, pure_bind]
  dsimp only
  rw [Setting.lower_ofNode _ hcanonical]
  rfl

namespace Node

/-- **The expression language contains JSON data.** The compact JSON text of a document evaluates to
the document as a value, in every scope and without a question to it; put back into a document, the
value of a document in which no map holds a key twice is that document. The limit is the one on
brackets in expressions. -/
theorem toJson_is_expression {m : Type → Type} [Monad m] [LawfulMonad m] {n : Node}
    (h : n.Throughout IsSpellable) (hdepth : n.nesting ≤ 32) :
    (∀ scope : Scope m, Expr.evalText scope n.toJson = pure (.ok (Value.ofNode n))) ∧
      (n.IsCanonical → ∀ (e : Environment) (file : Option String),
        e.evaluate n.toJson file = .ok n) :=
  ⟨fun scope => Expr.evalText_toJson scope h hdepth,
    fun hcanonical e file => e.evaluate_toJson file h hdepth hcanonical⟩

/-- The least integer, texts with every short escape, empty containers and keys that are no names;
nothing is asked of a scope that counts. A key that repeats is collapsed in the value. -/
theorem toJson_is_expression_escapes :
    let n : Node := .map [("", .list [.int (-9223372036854775808), .list [], .map []]),
      ("a \"b\"", .map [("null", .null), ("é", .string "\t\\\r\n")])]
    let repeated : Node := .list [.map [("a", .int 1), ("b", .bool true), ("a", .string "x")]]
    let counting : Scope (StateM Nat) :=
      ⟨.empty, fun _ => fun asked => (.null, asked + 1),
        fun _ _ => fun asked => (.ok .null, asked + 1)⟩
    (n.Throughout IsSpellable ∧ n.nesting ≤ 32 ∧ n.IsCanonical) ∧
      (repeated.Throughout IsSpellable ∧ repeated.nesting ≤ 32) ∧
      (Expr.evalText counting n.toJson).run 0 = (.ok (Value.ofNode n), 0) ∧
      (Expr.evalText counting repeated.toJson).run 0 =
        (.ok (.list [.map [("a", .string "x"), ("b", .bool true)]]), 0) ∧
      (⟨.empty, .identity, .default, []⟩ : Environment).evaluate n.toJson none = .ok n := by
  intro n repeated counting
  have hn : n.Throughout IsSpellable ∧ n.nesting ≤ 32 ∧ n.IsCanonical := by decide
  have hrepeated : repeated.Throughout IsSpellable ∧ repeated.nesting ≤ 32 := by decide
  have hvalue := (toJson_is_expression hn.1 hn.2.1).1 counting
  have hrepeatedValue := (toJson_is_expression hrepeated.1 hrepeated.2).1 counting
  refine ⟨hn, hrepeated, ?_, ?_, ?_⟩
  · rw [hvalue]
    rfl
  · rw [hrepeatedValue]
    rfl
  · exact (toJson_is_expression (m := StateM Nat) hn.1 hn.2.1).2 hn.2.2 _ none

end Node

end SchemaWeave
