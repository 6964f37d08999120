import SchemaWeave.Proofs.Resolving.Evaluation
import SchemaWeave.Proofs.Resolving.Fuel

/-!
A resolver in use keeps its counters from one call to the next. The invariant of a session is that
no type is being resolved between two calls, so all counters are back at zero: what a type resolves
to is then a matter of the resolver alone, whatever was asked before.
-/

namespace SchemaWeave

/-- A resolver in use, with the counters that the calls so far have left. -/
structure Session where
  resolver : Resolver
  visits : Visits

namespace Session

/-- A new resolver. -/
def start (graph : Graph) (options : ResolverOptions) : Session := ⟨.new graph options, []⟩

/-- What a resolver in use can be asked. -/
inductive Call where
  | register (key path : String)
  | typeSchema (t : TypeRef) (inline : Bool)
  | valueSchema (v : Value) (inline : Bool)
  | apply (f : Function) (arguments : List Value)
  | params (v : Value)

/-- Runs an action for its effect on the counters; what it answers, be it an error, is dropped. -/
def runs {α : Type} (s : Session) (action : Resolving α) : Session :=
  { s with visits := (action.run s.visits).2 }

/-- The session after a call. -/
def after (s : Session) : Call → Session
  | .register key path => { s with resolver := s.resolver.register key path }
  | .typeSchema t inline => s.runs (s.resolver.typeSchema t inline)
  | .valueSchema v inline => s.runs (s.resolver.valueSchema inline v)
  | .apply f arguments => s.runs (s.resolver.apply f arguments)
  | .params v => s.runs (s.resolver.params v)

/-- No type is being resolved. -/
def Settled (s : Session) : Prop := s.visits.Counts []

variable {s : Session}

theorem settled_start (graph : Graph) (options : ResolverOptions) :
    (start graph options).Settled := Visits.Counts.nil

theorem Settled.runs {α : Type} {action : Resolving α} (h : s.Settled) (ha : Steady action) :
    (s.runs action).Settled := by
  obtain ⟨f, hf⟩ := ha
  exact (hf s.visits [] h).2

theorem Settled.after (h : s.Settled) (call : Call) : (s.after call).Settled := by
  cases call with
  | register key path => exact h
  | typeSchema t inline => exact h.runs (s.resolver.typeSchema_steady t inline)
  | valueSchema v inline => exact h.runs (s.resolver.valueSchema_steady inline v)
  | apply f arguments => exact h.runs (s.resolver.apply_steady f arguments)
  | params v => exact h.runs (s.resolver.params_steady v)

theorem Settled.afterAll (h : s.Settled) (calls : List Call) :
    (calls.foldl Session.after s).Settled := by
  induction calls generalizing s with
  | nil => exact h
  | cons call rest ih => exact ih (h.after call)

/-- The resolver after a call: only a registration changes it. -/
def resolverAfter (r : Resolver) : Call → Resolver
  | .register key path => r.register key path
  | .typeSchema .. | .valueSchema .. | .apply .. | .params .. => r

/-- **Resolution knows only the chain**: after any calls, the schema of a type is that of the chain
function on the empty chain, which is the solution of the equation of resolution. A further call
leaves the resolver as it was, registrations apart, and every counter at zero. -/
theorem typeSchema_after_calls (graph : Graph) (options : ResolverOptions) (calls : List Call) :
    let s := calls.foldl Session.after (start graph options)
    (∀ t inline, ((s.resolver.typeSchema t inline).run s.visits).1 =
        s.resolver.chainSchema [] t inline) ∧
      (∀ chain t inline, s.resolver.chainSchema chain t inline =
        s.resolver.enterOnChain (s.resolver.shapeOnChain s.resolver.chainSchema) chain t inline) ∧
      ∀ call, (s.after call).resolver = resolverAfter s.resolver call ∧
        ∀ key, (s.after call).visits.count key = 0 := by
  intro s
  have hs : s.Settled := (settled_start graph options).afterAll calls
  refine ⟨fun t inline => ?_, fun chain t inline => ?_, fun call => ⟨?_, fun key => ?_⟩⟩
  · exact (Resolver.typeSchema_follows s.resolver t inline s.visits [] hs).1
  · exact Resolver.chainSchema_eq s.resolver chain t inline
  · cases call <;> rfl
  · simpa using hs.after call key

end Session

end SchemaWeave
