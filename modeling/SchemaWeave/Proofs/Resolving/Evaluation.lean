import SchemaWeave.Complete.Scope
import SchemaWeave.Proofs.Resolving.Chain

/-!
Everything that resolves types on the way is steady: the schema of a value, the parameters of a
struct, and the value of an expression in a scope whose names and functions are.
-/

namespace SchemaWeave

namespace Resolver

variable (r : Resolver)

theorem typeSchema_steady (t : TypeRef) (inline : Bool) : Steady (r.typeSchema t inline) :=
  (typeSchema_follows r t inline).steady

mutual

theorem valueSchema_steady (inline : Bool) : ∀ v, Steady (r.valueSchema inline v)
  | .type t => r.typeSchema_steady t inline
  | .map entries => (entrySchemas_steady entries).bind fun _ => steady_pure _
  | .list (first :: _) => (valueSchema_steady false first).bind fun _ => steady_pure _
  | .list [] => steady_pure _
  | .schema _ => steady_pure _
  | .null => steady_pure _
  | .bool _ => steady_pure _
  | .number _ => steady_pure _
  | .string _ => steady_pure _
  | .missing _ => steady_pure _
  | .package .. => steady_pure _
  | .function _ => steady_pure _

theorem entrySchemas_steady : ∀ entries, Steady (r.entrySchemas entries)
  | [] => steady_pure _
  | (_, v) :: rest =>
      (valueSchema_steady false v).bind fun _ =>
        (entrySchemas_steady rest).bind fun _ => steady_pure _

end

theorem param_steady (place : Option Node) (file : String) (f : Field) :
    Steady (r.param place file f) := by
  unfold param
  cases r.paramName f with
  | none => exact steady_pure _
  | some name => exact (r.typeSchema_steady _ _).bind fun _ => steady_pure _

theorem collect_steady (place : Option Node) (fuel : Nat) : ∀ c t,
    Steady (r.collect place fuel c t) := by
  induction fuel with
  | zero => intro c t; exact steady_pure c
  | succ fuel ih =>
      intro c t
      rw [collect]
      split
      · exact steady_pure c
      · refine Steady.foldlM (fun c f => ?_) _ _
        split
        · exact ih c _
        · exact (r.param_steady place t.file f).bind fun _ => steady_pure _

theorem params_steady (v : Value) : Steady (r.params v) := by
  cases v with
  | type t =>
      simp only [params]
      cases r.structOf? t with
      | none => exact steady_pure _
      | some d => exact (r.collect_steady _ _ _ d).bind fun _ => steady_pure _
  | null | bool | number | string | map | list | package | schema | function | missing =>
      exact steady_pure _

theorem apply_steady (f : Function) (arguments : List Value) : Steady (r.apply f arguments) := by
  cases f with
  | schema => exact (r.valueSchema_steady false _).bind fun _ => steady_pure _
  | params => exact r.params_steady _
  | modify target name => exact steady_pure _

end Resolver

namespace Expr

variable {α β : Type} {ε : Type}

theorem steady_run_bind {x : ExceptT ε Resolving α} {f : α → ExceptT ε Resolving β}
    (hx : Steady x.run) (hf : ∀ a, Steady (f a).run) : Steady (x >>= f).run := by
  rw [ExceptT.run_bind]
  refine hx.bind fun result => ?_
  cases result with
  | ok a => exact hf a
  | error e => exact steady_pure _

/-- A scope in which neither names nor functions depend on what was resolved before. -/
structure SteadyScope (scope : Scope Resolving) : Prop where
  resolve : ∀ name, Steady (scope.resolve name)
  apply : ∀ f arguments, Steady (scope.apply f arguments)

variable {scope : Scope Resolving}

theorem applyFunction_steady (h : SteadyScope scope) (f : Function) (arguments : List Value) :
    Steady (applyFunction scope f arguments).run := by
  cases f with
  | schema => exact h.apply .schema arguments
  | params => exact h.apply .params arguments
  | modify target name => exact steady_pure _

mutual

theorem eval_steady (h : SteadyScope scope) : ∀ e, Steady (eval scope e).run
  | .literal _ => steady_pure _
  | .identifier name => by
      unfold eval
      cases Function.ofName? name with
      | some f => exact steady_pure _
      | none => exact (h.resolve name).bind fun _ => steady_pure _
  | .array elements => steady_run_bind (evalElements_steady h elements) fun _ => steady_pure _
  | .object properties =>
      steady_run_bind (evalProperties_steady h [] properties) fun _ => steady_pure _
  | .member base name => steady_run_bind (eval_steady h base) fun v => by
      cases v.member? scope.graph name <;> exact steady_pure _
  | .call callee arguments => steady_run_bind (eval_steady h callee) fun v => by
      cases v with
      | function f =>
          exact steady_run_bind (evalArguments_steady h arguments) (applyFunction_steady h f)
      | null | bool | number | string | map | list | type | package | schema | missing =>
          exact steady_pure _
  | .plus left right => steady_run_bind (eval_steady h left) fun _ =>
      steady_run_bind (eval_steady h right) fun _ => steady_pure _

theorem evalElements_steady (h : SteadyScope scope) : ∀ es, Steady (evalElements scope es).run
  | [] => steady_pure _
  | .item e :: rest => steady_run_bind (eval_steady h e) fun _ =>
      steady_run_bind (evalElements_steady h rest) fun _ => steady_pure _
  | .spread e :: rest => steady_run_bind (eval_steady h e) fun v => by
      cases v with
      | list items => exact steady_run_bind (evalElements_steady h rest) fun _ => steady_pure _
      | null | bool | number | string | map | type | package | schema | function | missing =>
          exact steady_pure _

theorem evalProperties_steady (h : SteadyScope scope) : ∀ before ps,
    Steady (evalProperties scope before ps).run
  | _, [] => steady_pure _
  | before, .entry key e :: rest => steady_run_bind (eval_steady h e) fun v =>
      evalProperties_steady h (Bindings.insert key v before) rest
  | before, .spread e :: rest => steady_run_bind (eval_steady h e) fun v => by
      cases v with
      | map entries => exact evalProperties_steady h (Bindings.insertAll before entries) rest
      | null | bool | number | string | list | type | package | schema | function | missing =>
          exact steady_pure _

theorem evalArguments_steady (h : SteadyScope scope) : ∀ es,
    Steady (evalArguments scope es).run
  | [] => steady_pure _
  | e :: rest => steady_run_bind (eval_steady h e) fun _ =>
      steady_run_bind (evalArguments_steady h rest) fun _ => steady_pure _

end

theorem evalText_steady (h : SteadyScope scope) (text : String) :
    Steady (evalText scope text) := by
  unfold evalText
  cases parse text with
  | error e => exact steady_pure _
  | ok e => exact (eval_steady h e).bind fun _ => steady_pure _

theorem fileScope_steady (r : Resolver) (imports : Dictionary) (file : Option String) :
    SteadyScope (fileScope r imports file) where
  resolve _ := steady_pure _
  apply := r.apply_steady

end Expr

end SchemaWeave
