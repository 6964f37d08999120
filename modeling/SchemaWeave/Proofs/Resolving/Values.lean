import SchemaWeave.Proofs.Expr.Lifting
import SchemaWeave.Proofs.Resolving.Evaluation
import SchemaWeave.Proofs.Resolving.Faults

/-!
The schemas in the values of expressions. A value is made of data, of types, and of schemas that
some type was resolved to. So where nothing is overlooked in the schemas of types, nothing is
overlooked in those that a value holds (`Expr.evalText_gives`), nor in those that it stands for
(`Resolver.valueSchema_gives`). `Gives` is the contract of an action between two resolutions: what
it answers satisfies a predicate.
-/

namespace SchemaWeave

variable {α β : Type}

/-! ### Postconditions -/

/-- While no type is being resolved, what the action answers satisfies the predicate, and no type is
being resolved afterwards. -/
def Gives (a : Resolving α) (Q : α → Prop) : Prop :=
  ∀ v, Visits.Counts v [] → Q (a.run v).1 ∧ Visits.Counts (a.run v).2 []

theorem gives_pure {Q : α → Prop} {x : α} (h : Q x) : Gives (pure x) Q := fun _ hv => ⟨h, hv⟩

theorem Gives.bind {Q : α → Prop} {R : β → Prop} {a : Resolving α} {b : α → Resolving β}
    (ha : Gives a Q) (hb : ∀ x, Q x → Gives (b x) R) : Gives (a >>= b) R := by
  intro v hv
  obtain ⟨hx, hv'⟩ := ha v hv
  exact hb _ hx _ hv'

theorem Gives.foldlM {Q : β → Prop} {step : β → α → Resolving β}
    (h : ∀ b x, Q b → Gives (step b x) Q) : ∀ (xs : List α) (b : β), Q b →
      Gives (xs.foldlM step b) Q := by
  intro xs
  induction xs with
  | nil => intro b hb; exact gives_pure hb
  | cons x rest ih =>
      intro b hb
      rw [List.foldlM_cons]
      exact (h b x hb).bind ih

/-- A result satisfies the predicate, or is a failure. -/
def OrFails {ε : Type} (Q : α → Prop) (result : Except ε α) : Prop := ∀ x, result = .ok x → Q x

theorem orFails_ok {ε : Type} {Q : α → Prop} {x : α} (h : Q x) :
    OrFails Q (.ok x : Except ε α) := by
  rintro _ ⟨⟩
  exact h

theorem orFails_error {ε : Type} {Q : α → Prop} (e : ε) : OrFails Q (.error e : Except ε α) :=
  nofun

namespace Value

/-- In the schemas that a value holds, `hasError` overlooks nothing. -/
inductive Overt : Value → Prop where
  | null : Overt .null
  | bool (b : Bool) : Overt (.bool b)
  | number (n : Number) : Overt (.number n)
  | string (s : String) : Overt (.string s)
  | map {entries : List (String × Value)} (h : ∀ e ∈ entries, Overt e.2) : Overt (.map entries)
  | list {items : List Value} (h : ∀ item ∈ items, Overt item) : Overt (.list items)
  | type (t : TypeRef) : Overt (.type t)
  | package (name path : String) : Overt (.package name path)
  | schema {s : Schema} (h : s.Overt) : Overt (.schema s)
  | function {f : Function} (h : ∀ target name, f = .modify target name → target.Overt) :
      Overt (.function f)
  | missing (m : Missing) : Overt (.missing m)

variable {v w : Value} {entries : List (String × Value)} {items : List Value}

theorem overt_map : (map entries).Overt ↔ ∀ e ∈ entries, e.2.Overt :=
  ⟨fun h => by cases h with | map h => exact h, .map⟩

theorem overt_list : (list items).Overt ↔ ∀ item ∈ items, item.Overt :=
  ⟨fun h => by cases h with | list h => exact h, .list⟩

theorem overt_schema {s : Schema} : (schema s).Overt ↔ s.Overt :=
  ⟨fun h => by cases h with | schema h => exact h, .schema⟩

theorem IsData.overt (h : v.IsData) : v.Overt := by
  induction h with
  | null => exact .null
  | bool b => exact .bool b
  | number n => exact .number n
  | string s => exact .string s
  | map _ _ ih => exact .map ih
  | list _ ih => exact .list ih

theorem overt_ofNode (node : Node) : (ofNode node).Overt := (isData_ofNode node).overt

theorem overt_insert {bindings : Bindings} (key : String) (hv : v.Overt)
    (h : ∀ e ∈ bindings, e.2.Overt) : ∀ e ∈ Bindings.insert key v bindings, e.2.Overt := by
  induction bindings with
  | nil => simpa [Bindings.insert] using hv
  | cons entry rest ih =>
      obtain ⟨hentry, hrest⟩ := List.forall_mem_cons.1 h
      rw [Bindings.insert]
      split
      · exact List.forall_mem_cons.2 ⟨hv, hrest⟩
      · exact List.forall_mem_cons.2 ⟨hentry, ih hrest⟩

theorem overt_insertAll {bindings : Bindings} (h : ∀ e ∈ bindings, e.2.Overt)
    (hentries : ∀ e ∈ entries, e.2.Overt) :
    ∀ e ∈ Bindings.insertAll bindings entries, e.2.Overt := by
  induction entries generalizing bindings with
  | nil => exact h
  | cons entry rest ih =>
      obtain ⟨hentry, hrest⟩ := List.forall_mem_cons.1 hentries
      exact ih (overt_insert entry.1 hentry h) hrest

theorem overt_ofLookup (name context : String) (found : Option TypeRef) :
    (ofLookup name context found).Overt := by
  cases found with
  | some t => exact .type t
  | none => exact .missing _

theorem Overt.member (h : v.Overt) {g : Graph} {name : String} (hw : v.member? g name = some w) :
    w.Overt := by
  cases h with
  | type t => exact Option.some.inj hw ▸ overt_ofLookup ..
  | package _ path => exact Option.some.inj hw ▸ overt_ofLookup ..
  | @map entries h =>
      obtain rfl := Option.some.inj hw
      cases hget : Bindings.get? name entries with
      | none => exact .missing _
      | some found =>
          obtain ⟨before, after, rfl, -⟩ := List.lookup_eq_some_iff.1 hget
          exact h (name, found) (by simp)
  | schema hs =>
      obtain rfl := Option.some.inj hw
      exact .function fun _ _ heq => by cases heq; exact hs
  | missing m => exact Option.some.inj hw ▸ .missing _
  | null | bool | number | string | list | function => cases hw

theorem overt_add (v w : Value) : (v.add w).Overt := by
  unfold add
  split
  · split
    · exact .number _
    · exact .null
  · exact .string _

end Value

namespace Resolver

variable {r : Resolver}

/-- In the schemas of types nothing is overlooked. -/
def OvertTypes (r : Resolver) : Prop := ∀ t inline, (r.chainSchema [] t inline).Overt

theorem typeSchema_gives (hr : r.OvertTypes) (t : TypeRef) (inline : Bool) :
    Gives (r.typeSchema t inline) Schema.Overt := by
  intro v hv
  obtain ⟨heq, hv'⟩ := typeSchema_follows r t inline v [] hv
  exact ⟨heq ▸ hr t inline, hv'⟩

mutual

theorem valueSchema_gives (hr : r.OvertTypes) (inline : Bool) : ∀ v : Value, v.Overt →
    Gives (r.valueSchema inline v) Schema.Overt
  | .type t, _ => typeSchema_gives hr t inline
  | .map entries, h => (entrySchemas_gives hr entries (Value.overt_map.1 h)).bind fun _ hs =>
      gives_pure (Schema.overt_object hs)
  | .list [], _ => gives_pure (Schema.overt_array Schema.overt_any)
  | .list (first :: _), h =>
      have hfirst := Value.overt_list.1 h first List.mem_cons_self
      (valueSchema_gives hr false first hfirst).bind fun _ hs => gives_pure (Schema.overt_array hs)
  | .schema _, h => gives_pure (Value.overt_schema.1 h)
  | .null, _ => gives_pure Schema.overt_any
  | .bool _, _ => gives_pure (Schema.overt_scalar _)
  | .number _, _ => gives_pure (Schema.overt_scalar _)
  | .string _, _ => gives_pure (Schema.overt_scalar _)
  | .missing _, _ => gives_pure (Schema.overt_error _ _)
  | .package .., _ => gives_pure (Schema.overt_error _ _)
  | .function _, _ => gives_pure (Schema.overt_error _ _)

theorem entrySchemas_gives (hr : r.OvertTypes) : ∀ entries : List (String × Value),
    (∀ e ∈ entries, e.2.Overt) →
      Gives (r.entrySchemas entries) fun members => ∀ m ∈ members, m.schema.Overt
  | [], _ => gives_pure (List.forall_mem_nil _)
  | (_, v) :: rest, h => by
      obtain ⟨hv, hrest⟩ := List.forall_mem_cons.1 h
      exact (valueSchema_gives hr false v hv).bind fun _ hs =>
        (entrySchemas_gives hr rest hrest).bind fun _ hothers =>
          gives_pure (List.forall_mem_cons.2 ⟨hs, hothers⟩)

end

theorem param_gives (hr : r.OvertTypes) (place : Option Node) (file : String) (f : Field) :
    Gives (r.param place file f) fun found => ∀ v ∈ found, v.Overt := by
  unfold param
  cases r.paramName f with
  | none => exact gives_pure (by simp)
  | some name =>
      refine (typeSchema_gives hr _ _).bind fun s hs => gives_pure ?_
      rintro _ ⟨⟩
      have hentry (key : String) (node : Option Node) :
          ∀ e ∈ node.toList.map fun n => (key, Value.ofNode n), e.2.Overt := by
        simp [Value.overt_ofNode]
      simp only [Value.overt_map, List.forall_mem_append, List.forall_mem_cons]
      have hnone : ∀ e ∈ ([] : List (String × Value)), e.2.Overt := List.forall_mem_nil _
      exact ⟨⟨⟨⟨.string _, hentry _ _⟩, .string _, hnone⟩, hentry _ _⟩, .schema hs, hnone⟩

theorem collect_gives (hr : r.OvertTypes) (place : Option Node) (fuel : Nat) :
    ∀ (c : Collected) (t : TypeRef), (∀ v ∈ c.params, v.Overt) →
      Gives (r.collect place fuel c t) fun c => ∀ v ∈ c.params, v.Overt := by
  induction fuel with
  | zero => intro c t hc; exact gives_pure hc
  | succ fuel ih =>
      intro c t hc
      rw [collect]
      split
      · exact gives_pure hc
      · refine Gives.foldlM (fun c f hc => ?_) _ _ hc
        split
        · exact ih c _ hc
        · refine (param_gives hr place t.file f).bind fun entry hentry => gives_pure ?_
          exact List.forall_mem_append.2 ⟨hc, by simpa using hentry⟩

theorem params_gives (hr : r.OvertTypes) {v : Value} (h : v.Overt) :
    Gives (r.params v) (OrFails Value.Overt) := by
  cases v with
  | type t =>
      simp only [params]
      cases r.structOf? t with
      | none => exact gives_pure (orFails_error _)
      | some d =>
          exact (collect_gives hr _ _ ⟨[], []⟩ d (List.forall_mem_nil _)).bind fun _ hc =>
            gives_pure (orFails_ok (.list hc))
  | missing m => exact gives_pure (orFails_error _)
  | null | bool | number | string | map | list | package | schema | function =>
      exact gives_pure (orFails_ok h)

theorem apply_gives (hr : r.OvertTypes) (f : Function) (arguments : List Value)
    (h : ∀ v ∈ arguments, v.Overt) : Gives (r.apply f arguments) (OrFails Value.Overt) := by
  have hargument : (arguments.head?.getD .null).Overt := by
    cases arguments with
    | nil => exact .null
    | cons v rest => exact h v List.mem_cons_self
  cases f with
  | schema =>
      exact (valueSchema_gives hr false _ hargument).bind fun _ hs =>
        gives_pure (orFails_ok (.schema hs))
  | params => exact params_gives hr hargument
  | modify target name => exact gives_pure (orFails_error _)

end Resolver

namespace Expr

variable {ε : Type}

theorem gives_run_bind {Q : α → Prop} {R : β → Prop} {x : ExceptT ε Resolving α}
    {f : α → ExceptT ε Resolving β} (hx : Gives x.run (OrFails Q))
    (hf : ∀ a, Q a → Gives (f a).run (OrFails R)) : Gives (x >>= f).run (OrFails R) := by
  rw [ExceptT.run_bind]
  refine hx.bind fun result hresult => ?_
  cases result with
  | ok a => exact hf a (hresult a rfl)
  | error e => exact gives_pure (orFails_error e)

/-- A scope in which names and functions give values without overlooked errors. -/
structure OvertScope (scope : Scope Resolving) : Prop where
  resolve : ∀ name, Gives (scope.resolve name) Value.Overt
  apply : ∀ f arguments, (∀ v ∈ arguments, v.Overt) →
    Gives (scope.apply f arguments) (OrFails Value.Overt)

variable {scope : Scope Resolving}

theorem gives_ok {Q : α → Prop} {x : α} (h : Q x) :
    Gives (pure x : ExceptT ε Resolving α).run (OrFails Q) := gives_pure (orFails_ok h)

theorem gives_throw {Q : α → Prop} (e : ε) :
    Gives (throw e : ExceptT ε Resolving α).run (OrFails Q) := gives_pure (orFails_error e)

theorem applyFunction_gives (h : OvertScope scope) {f : Function} (hf : (Value.function f).Overt)
    {arguments : List Value} (harguments : ∀ v ∈ arguments, v.Overt) :
    Gives (applyFunction scope f arguments).run (OrFails Value.Overt) := by
  cases f with
  | schema => exact h.apply .schema arguments harguments
  | params => exact h.apply .params arguments harguments
  | modify target name =>
      have htarget : target.Overt := by cases hf with | function hf => exact hf target name rfl
      simp only [applyFunction]
      cases modifierArguments name arguments with
      | ok nodes => exact gives_pure (orFails_ok (.schema (htarget.modify _)))
      | error e => exact gives_pure (orFails_error e)

theorem overt_literal (l : Literal) : l.value.Overt := by
  cases l with
  | null => exact .null
  | bool b => exact .bool b
  | integer n => exact .number _
  | float x => exact .number _
  | infinity => exact .null
  | string s => exact .string s

theorem overt_function {f : Function} {name : String} (h : Function.ofName? name = some f) :
    (Value.function f).Overt := by
  refine .function fun target called heq => ?_
  subst heq
  unfold Function.ofName? at h
  split at h
  · cases h
  · split at h <;> cases h

mutual

theorem eval_gives (h : OvertScope scope) : ∀ e,
    Gives (eval scope e).run (OrFails Value.Overt)
  | .literal l => gives_ok (overt_literal l)
  | .identifier name => by
      unfold eval
      cases hname : Function.ofName? name with
      | some f => exact gives_ok (overt_function hname)
      | none => exact (h.resolve name).bind fun _ hv => gives_pure (orFails_ok hv)
  | .array elements => gives_run_bind (evalElements_gives h elements) fun _ hitems =>
      gives_ok (.list hitems)
  | .object properties =>
      have hproperties := evalProperties_gives h [] (List.forall_mem_nil _) properties
      gives_run_bind hproperties fun _ hentries => gives_ok (.map hentries)
  | .member base name => gives_run_bind (eval_gives h base) fun v hv => by
      cases hmember : v.member? scope.graph name with
      | some w => exact gives_ok (hv.member hmember)
      | none => exact gives_throw _
  | .call callee arguments => gives_run_bind (eval_gives h callee) fun v hv => by
      cases v with
      | function f =>
          exact gives_run_bind (evalArguments_gives h arguments) fun _ hvalues =>
            applyFunction_gives h hv hvalues
      | null | bool | number | string | map | list | type | package | schema | missing =>
          exact gives_throw _
  | .plus left right => gives_run_bind (eval_gives h left) fun _ _ =>
      gives_run_bind (eval_gives h right) fun _ _ => gives_ok (Value.overt_add _ _)

theorem evalElements_gives (h : OvertScope scope) : ∀ es,
    Gives (evalElements scope es).run (OrFails fun items => ∀ v ∈ items, v.Overt)
  | [] => gives_ok (List.forall_mem_nil _)
  | .item e :: rest => gives_run_bind (eval_gives h e) fun _ hv =>
      gives_run_bind (evalElements_gives h rest) fun _ hrest =>
        gives_ok (List.forall_mem_cons.2 ⟨hv, hrest⟩)
  | .spread e :: rest => gives_run_bind (eval_gives h e) fun v hv => by
      cases v with
      | list items =>
          exact gives_run_bind (evalElements_gives h rest) fun _ hrest =>
            gives_ok (List.forall_mem_append.2 ⟨Value.overt_list.1 hv, hrest⟩)
      | null | bool | number | string | map | type | package | schema | function | missing =>
          exact gives_throw _

theorem evalProperties_gives (h : OvertScope scope) : ∀ before : Bindings,
    (∀ e ∈ before, e.2.Overt) → ∀ ps, Gives (evalProperties scope before ps).run
      (OrFails fun entries => ∀ e ∈ entries, e.2.Overt)
  | _, hbefore, [] => gives_ok hbefore
  | before, hbefore, .entry key e :: rest => gives_run_bind (eval_gives h e) fun v hv =>
      evalProperties_gives h _ (Value.overt_insert key hv hbefore) rest
  | before, hbefore, .spread e :: rest => gives_run_bind (eval_gives h e) fun v hv => by
      cases v with
      | map entries =>
          exact evalProperties_gives h _ (Value.overt_insertAll hbefore (Value.overt_map.1 hv)) rest
      | null | bool | number | string | list | type | package | schema | function | missing =>
          exact gives_throw _

theorem evalArguments_gives (h : OvertScope scope) : ∀ es,
    Gives (evalArguments scope es).run (OrFails fun values => ∀ v ∈ values, v.Overt)
  | [] => gives_ok (List.forall_mem_nil _)
  | e :: rest => gives_run_bind (eval_gives h e) fun _ hv =>
      gives_run_bind (evalArguments_gives h rest) fun _ hrest =>
        gives_ok (List.forall_mem_cons.2 ⟨hv, hrest⟩)

end

/-- **In the schemas of a value nothing is overlooked**, if nothing is in what the scope gives. -/
theorem evalText_gives (h : OvertScope scope) (text : String) :
    Gives (evalText scope text) (OrFails Value.Overt) := by
  unfold evalText
  cases parse text with
  | error e => exact gives_pure (orFails_error _)
  | ok e =>
      refine (eval_gives h e).bind fun result hresult => gives_pure fun v hv => ?_
      cases result with
      | ok found => exact Except.ok.inj hv ▸ hresult found rfl
      | error e => cases hv

theorem overt_resolveName (g : Graph) (imports : Dictionary) (file : Option String)
    (name : String) : (g.resolveName imports file name).Overt := by
  unfold Graph.resolveName
  dsimp only
  split
  next v _ hv =>
    -- a name of the file is a package or a type
    obtain ⟨file, -, hv⟩ := Option.bind_eq_some_iff.1 hv
    split at hv
    · exact Option.some.inj hv ▸ .package _ _
    · exact Option.some.inj hv ▸ .type _
    · cases hv
  next => exact .package _ _
  next => exact .missing _

theorem fileScope_overt {r : Resolver} (hr : r.OvertTypes) (imports : Dictionary)
    (file : Option String) : OvertScope (fileScope r imports file) where
  resolve name := gives_pure (overt_resolveName r.graph imports file name)
  apply := Resolver.apply_gives hr

end Expr

end SchemaWeave
