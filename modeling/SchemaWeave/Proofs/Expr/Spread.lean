import Mathlib.Data.List.Nodup
import SchemaWeave.Expr.Eval

/-!
A literal that is spread into a literal of its own kind. Elements are evaluated from left to right
either way, so it makes no difference whether they stand in the outer literal or in the inner one.
An object literal collapses its keys as it goes, and the inner one does so before the outer: that
the result is the same rests on `Bindings.insertAll_insertAll`, which holds because the inner
literal never holds a key twice.
-/

namespace SchemaWeave

namespace Bindings

variable {bindings before : Bindings} {key k : String}

theorem keys_insert (key : String) (value : Value) (bindings : Bindings) :
    (insert key value bindings).map Prod.fst =
      if key ∈ bindings.map Prod.fst then bindings.map Prod.fst
      else bindings.map Prod.fst ++ [key] := by
  induction bindings with
  | nil => rfl
  | cons binding rest ih =>
      obtain ⟨k, v⟩ := binding
      by_cases hk : k = key
      · simp [insert, hk]
      · simp only [insert, if_neg hk, List.map_cons, ih, List.mem_cons, Ne.symm hk, false_or]
        split <;> rfl

theorem nodup_insert (h : (bindings.map Prod.fst).Nodup) (key : String) (value : Value) :
    ((insert key value bindings).map Prod.fst).Nodup := by
  rw [keys_insert]
  split
  · exact h
  · next hnew =>
      refine List.nodup_append.2 ⟨h, List.nodup_singleton key, fun k hk l hl => ?_⟩
      rw [List.mem_singleton.1 hl]
      rintro rfl
      exact hnew hk

/-- Of two values for one key the first leaves no trace. -/
theorem insert_insert (key : String) (value old : Value) (bindings : Bindings) :
    insert key value (insert key old bindings) = insert key value bindings := by
  induction bindings with
  | nil => simp [insert]
  | cons binding rest ih =>
      obtain ⟨k, v⟩ := binding
      by_cases hk : k = key
      · simp [insert, hk]
      · simp [insert, hk, ih]

/-- A key that has its place already may take its value before or after another key does. -/
theorem insert_comm (hmem : key ∈ bindings.map Prod.fst) (hne : k ≠ key) (value v : Value) :
    insert key value (insert k v bindings) = insert k v (insert key value bindings) := by
  induction bindings with
  | nil => cases hmem
  | cons binding rest ih =>
      obtain ⟨l, w⟩ := binding
      by_cases hl : l = key
      · subst hl
        simp [insert, Ne.symm hne]
      · have hrest : key ∈ rest.map Prod.fst := by simpa [Ne.symm hl] using hmem
        by_cases hlk : l = k
        · simp [insert, hlk, hne]
        · simp [insert, hl, hlk, ih hrest]

theorem insertAll_cons (before : Bindings) (key : String) (value : Value) (entries : Bindings) :
    insertAll before ((key, value) :: entries) = insertAll (insert key value before) entries := rfl

/-- A key that has its place already may take its value before or after entries under other keys. -/
theorem insert_insertAll (value : Value) {entries : Bindings} (hnew : key ∉ entries.map Prod.fst) :
    ∀ {before : Bindings}, key ∈ before.map Prod.fst →
      insert key value (insertAll before entries) =
        insertAll (insert key value before) entries := by
  induction entries with
  | nil => intro before _; rfl
  | cons entry rest ih =>
      obtain ⟨k, v⟩ := entry
      intro before hmem
      obtain ⟨hk, hrest⟩ := not_or.1 fun h => hnew (List.mem_cons.2 h)
      have hplace : key ∈ (insert k v before).map Prod.fst := by
        rw [keys_insert]
        split
        · exact hmem
        · exact List.mem_append_left _ hmem
      rw [insertAll_cons, insertAll_cons, ih hrest hplace, insert_comm hmem (Ne.symm hk)]

/-- Inserting an entry into distinct entries, and then all of them, is inserting them and then the
entry. -/
theorem insertAll_insert (key : String) (value : Value) {entries : Bindings}
    (hentries : (entries.map Prod.fst).Nodup) : ∀ before : Bindings,
      insertAll before (insert key value entries) =
        insert key value (insertAll before entries) := by
  induction entries with
  | nil => intro before; rfl
  | cons entry rest ih =>
      obtain ⟨k, v⟩ := entry
      intro before
      obtain ⟨hnew, hrest⟩ := List.nodup_cons.1 hentries
      by_cases hk : k = key
      · -- the value of the key is replaced in the inner entries, or behind them in the outer ones
        subst hk
        have hplace : k ∈ (insert k v before).map Prod.fst := by
          rw [keys_insert]
          split
          · assumption
          · exact List.mem_append_right _ List.mem_cons_self
        rw [insert, if_pos rfl, insertAll_cons, insertAll_cons,
          insert_insertAll value hnew hplace, insert_insert]
      · rw [insert, if_neg hk, insertAll_cons, insertAll_cons, ih hrest]

theorem nodup_insertAll (entries : Bindings) : ∀ {bindings : Bindings},
    (bindings.map Prod.fst).Nodup → ((insertAll bindings entries).map Prod.fst).Nodup := by
  induction entries with
  | nil => intro bindings h; exact h
  | cons entry rest ih => intro bindings h; exact ih (nodup_insert h _ _)

/-- **Collapsing twice is collapsing once**: entries may be collected into distinct entries before
all are inserted, or be inserted behind them. -/
theorem insertAll_insertAll (before entries : Bindings) : ∀ {bindings : Bindings},
    (bindings.map Prod.fst).Nodup →
      insertAll before (insertAll bindings entries) =
        insertAll (insertAll before bindings) entries := by
  induction entries with
  | nil => intro bindings _; rfl
  | cons entry rest ih =>
      intro bindings h
      rw [insertAll_cons, insertAll_cons, ih (nodup_insert h _ _), insertAll_insert _ _ h]

end Bindings

variable {m : Type → Type} [Monad m]

/-- What a scope is asked. -/
inductive Question where
  | resolve (name : String)
  | apply (f : Function) (arguments : List Value)

/-- The scope that writes down what it is asked, in order. -/
def Scope.recorded (scope : Scope m) : Scope (StateT (List Question) m) where
  graph := scope.graph
  resolve name := do
    modify (· ++ [.resolve name])
    scope.resolve name
  apply f arguments := do
    modify (· ++ [.apply f arguments])
    scope.apply f arguments

namespace Expr

/-- In the scope two expressions have the same result or the same error, with the same effects, and
ask the same questions in the same order. -/
def RunsAs (scope : Scope m) (e e' : Expr) : Prop :=
  eval scope e = eval scope e' ∧ eval scope.recorded e = eval scope.recorded e'

variable [LawfulMonad m]

theorem evalElements_append (scope : Scope m) (xs ys : List (Element Expr)) :
    evalElements scope (xs ++ ys) =
      evalElements scope xs >>= fun items =>
        evalElements scope ys >>= fun others => pure (items ++ others) := by
  induction xs with
  | nil => simp [evalElements]
  | cons x rest ih =>
      cases x with
      | item e => simp [evalElements, ih]
      | spread e =>
          simp only [List.cons_append, evalElements, ih, bind_assoc]
          refine bind_congr fun v => ?_
          cases v with
          | list items => simp only [bind_assoc, pure_bind, List.append_assoc]
          | null | bool | number | string | map | type | package | schema | function | missing =>
              simp

theorem evalProperties_append (scope : Scope m) (ps qs : List (Property Expr)) :
    ∀ before : Bindings, evalProperties scope before (ps ++ qs) =
      evalProperties scope before ps >>= fun bindings => evalProperties scope bindings qs := by
  induction ps with
  | nil => intro before; simp [evalProperties]
  | cons p rest ih =>
      intro before
      cases p with
      | entry key e => simp only [List.cons_append, evalProperties, ih, bind_assoc]
      | spread e =>
          simp only [List.cons_append, evalProperties, bind_assoc]
          refine bind_congr fun v => ?_
          cases v with
          | map entries => exact ih _
          | null | bool | number | string | list | type | package | schema | function | missing =>
              simp

/-- Properties that are collected into distinct entries may be evaluated behind any others. -/
theorem evalProperties_insertAll (scope : Scope m) (before : Bindings)
    (ps : List (Property Expr)) : ∀ {bindings : Bindings}, (bindings.map Prod.fst).Nodup →
      evalProperties scope (Bindings.insertAll before bindings) ps =
        evalProperties scope bindings ps >>= fun all => pure (Bindings.insertAll before all) := by
  induction ps with
  | nil => intro bindings _; simp [evalProperties]
  | cons p rest ih =>
      intro bindings h
      cases p with
      | entry key e =>
          simp only [evalProperties, bind_assoc]
          refine bind_congr fun v => ?_
          rw [← Bindings.insertAll_insert key v h, ih (Bindings.nodup_insert h key v)]
      | spread e =>
          simp only [evalProperties, bind_assoc]
          refine bind_congr fun v => ?_
          cases v with
          | map entries =>
              -- the entries are collapsed with those before them, in the inner literal or outside
              dsimp only
              rw [← Bindings.insertAll_insertAll before entries h,
                ih (Bindings.nodup_insertAll entries h)]
          | null | bool | number | string | list | type | package | schema | function | missing =>
              simp

/-- An array literal is spread by writing its elements. -/
theorem evalElements_spread (scope : Scope m) (ys zs : List (Element Expr)) :
    evalElements scope (.spread (.array ys) :: zs) = evalElements scope (ys ++ zs) := by
  rw [evalElements, eval, bind_assoc, evalElements_append]
  simp only [pure_bind]

/-- An object literal is spread by writing its properties. -/
theorem evalProperties_spread (scope : Scope m) (before : Bindings)
    (qs rs : List (Property Expr)) :
    evalProperties scope before (.spread (.object qs) :: rs) =
      evalProperties scope before (qs ++ rs) := by
  have hnil : (([] : Bindings).map Prod.fst).Nodup := List.nodup_nil
  have hqs : evalProperties scope before qs =
      evalProperties scope [] qs >>= fun all => pure (Bindings.insertAll before all) :=
    evalProperties_insertAll scope before qs hnil
  rw [evalProperties, eval, evalProperties_append, hqs]
  simp only [bind_assoc, pure_bind]

theorem eval_array_spread (scope : Scope m) (xs ys zs : List (Element Expr)) :
    eval scope (.array (xs ++ .spread (.array ys) :: zs)) =
      eval scope (.array (xs ++ ys ++ zs)) := by
  rw [eval, eval, List.append_assoc, evalElements_append, evalElements_append,
    evalElements_spread]

theorem eval_object_spread (scope : Scope m) (ps qs rs : List (Property Expr)) :
    eval scope (.object (ps ++ .spread (.object qs) :: rs)) =
      eval scope (.object (ps ++ qs ++ rs)) := by
  rw [eval, eval, List.append_assoc, evalProperties_append, evalProperties_append]
  simp only [evalProperties_spread]

/-- **Spreading a literal is writing its entries**, in an array and in an object, whatever the scope
keeps as its state, whatever fails and whichever keys repeat. -/
theorem spread_literal_runsAs (scope : Scope m) :
    (∀ xs ys zs, RunsAs scope (.array (xs ++ .spread (.array ys) :: zs))
        (.array (xs ++ ys ++ zs))) ∧
      ∀ ps qs rs, RunsAs scope (.object (ps ++ .spread (.object qs) :: rs))
        (.object (ps ++ qs ++ rs)) :=
  ⟨fun xs ys zs => ⟨eval_array_spread scope xs ys zs, eval_array_spread scope.recorded xs ys zs⟩,
    fun ps qs rs => ⟨eval_object_spread scope ps qs rs, eval_object_spread scope.recorded ps qs rs⟩⟩

/-- Names are numbered as they are asked for. Keys repeat before, in and behind the inner literal
and in one that is spread into it; of two failures, in the inner literal and behind it, the first
counts, and what is behind it is not asked for. -/
theorem spread_literal_runsAs_numbered :
    let numbered : Scope (StateM Nat) :=
      ⟨.empty, fun _ asked => (.number (.int asked), asked + 1),
        fun _ _ asked => (.ok .null, asked)⟩
    let entry (key : String) : Property Expr := .entry key (.identifier key)
    let inner := [entry "b", entry "a", .spread (.object [entry "c", entry "b"])]
    let outer : Expr := .object ([entry "a"] ++ .spread (.object inner) :: [entry "c"])
    let failing : Expr := .array ([.item (.identifier "a")] ++ .spread (.array
      [.item (.identifier "b"), .spread (.identifier "c")]) :: [.item (.call (.identifier "d") [])])
    RunsAs numbered outer (.object ([entry "a"] ++ inner ++ [entry "c"])) ∧
      RunsAs numbered failing (.array [.item (.identifier "a"), .item (.identifier "b"),
        .spread (.identifier "c"), .item (.call (.identifier "d") [])]) ∧
      (eval numbered outer).run.run 0 =
        (.ok (.map
          [("a", .number (.int 2)), ("b", .number (.int 4)), ("c", .number (.int 5))]), 6) ∧
      ((eval numbered.recorded failing).run.run []).run 0 =
        ((.error (.spreadMismatch "array" "an array" "number"),
          [.resolve "a", .resolve "b", .resolve "c"]), 3) := by
  intro numbered entry inner outer failing
  obtain ⟨harray, hobject⟩ := spread_literal_runsAs numbered
  exact ⟨hobject _ _ _, harray _ _ _, rfl, rfl⟩

end Expr

end SchemaWeave
