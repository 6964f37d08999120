import SchemaWeave.Proofs.Resolving.Fuel

/-!
A run of resolution, moment by moment. `Resolver.traceWithin` is resolution that keeps every state
its counters were in, and that does anything whatever once its fuel is spent. It is resolution with
a memory (`traceWithin_erases`), and from zero counters neither more fuel nor what would be done
without any can be told from its run (`traceWithin_settles`): resolution comes to its end by itself.
On the way no counter rises above the recursion bound.

The measure is the room of the chain. Entering a declared type lowers it; a loose type, which an
embedding may lead to, leaves it as it is, but its names lead to declared types again. So every unit
of room pays for two steps.
-/

namespace SchemaWeave

/-- Counters, with the states that they were in before, the latest first. -/
structure Trace where
  visits : Visits
  past : List Visits

/-- Resolving that keeps a trace of its counters. -/
abbrev Tracing := StateM Trace

namespace Trace

def change (f : Visits → Visits) (s : Trace) : Trace := ⟨f s.visits, s.visits :: s.past⟩

/-- All states of the counters up to now. -/
def moments (s : Trace) : List Visits := s.visits :: s.past

end Trace

namespace Resolver

open SchemaWeave.Graph (IsLoose)

variable {r : Resolver}

/-- Enters a type as `enterType` does, and keeps what the counters were. -/
def enterTraced (r : Resolver) (shape : TypeRef → Tracing Schema) (t : TypeRef) (inline : Bool) :
    Tracing Schema :=
  match t.key with
  | none => shape t
  | some key =>
    match if inline then none else r.target? key with
    | some target => return .ref target
    | none => do
      if r.options.recursionBound ≤ (← get).visits.count key then
        return .softError s!"recursive reference on '{key}'"
      else
        modify (Trace.change (Visits.enter key))
        let s ← shape t
        modify (Trace.change (Visits.leave key))
        return s

/-- Resolution with a trace. When its fuel is spent, `out` takes over. -/
def traceWithin (r : Resolver) (out : TypeRef → Tracing Schema) :
    Nat → TypeRef → Bool → Tracing Schema
  | 0 => enterTraced r out
  | fuel + 1 => enterTraced r (shapeSchema r (traceWithin r out fuel))

/-- A trace left out. -/
def erasure : Simulation Tracing Resolving where
  rel a b := ∀ s, b.run s.visits = ((a.run s).1, (a.run s).2.visits)
  rel_pure _ := fun _ => rfl
  rel_bind {_ _ a a' b b'} ha hb s := by
    have hrun : (a' >>= b').run s.visits =
        (b' (a'.run s.visits).1).run (a'.run s.visits).2 := rfl
    rw [hrun, ha s]
    exact hb _ _

theorem enterTraced_erases {shape : TypeRef → Tracing Schema} {shape' : TypeRef → Resolving Schema}
    (h : ∀ t, erasure.rel (shape t) (shape' t)) (t : TypeRef) (inline : Bool) :
    erasure.rel (r.enterTraced shape t inline) (r.enterType shape' t inline) := by
  intro s
  simp only [enterTraced, enterType]
  cases t.key with
  | none => exact h t s
  | some key =>
      dsimp only
      cases (if inline then none else r.target? key) with
      | some target => rfl
      | none =>
          by_cases hcut : r.options.recursionBound ≤ s.visits.count key
          · simp only [StateT.run_bind, StateT.run_get, pure_bind, hcut, if_true]
            rfl
          · have hs := h t (s.change (Visits.enter key))
            simp only [StateT.run_bind, StateT.run_get, pure_bind, hcut, if_false]
            exact congrArg (fun x : Schema × Visits => (x.1, x.2.leave key)) hs

/-- A trace changes nothing: resolution answers the same without it, and leaves the same
counters. -/
theorem traceWithin_erases (r : Resolver) (fuel : Nat) : ∀ t inline,
    erasure.rel (r.traceWithin (fun _ => return .softError "types nest too deep") fuel t inline)
      (r.typeSchemaWithin fuel t inline) := by
  induction fuel with
  | zero => exact enterTraced_erases fun _ => erasure.rel_pure _
  | succ fuel ih => exact enterTraced_erases (erasure.shapeSchema (.of_forall ih))

/-- No counter is above the recursion bound. -/
def WithinBound (r : Resolver) (v : Visits) : Prop := ∀ key, v.count key ≤ r.options.recursionBound

/-- A trace on a chain that has never left the recursion bound. -/
structure Tame (r : Resolver) (chain : List String) (s : Trace) : Prop where
  counts : s.visits.Counts chain
  bounded : ∀ v ∈ s.moments, r.WithinBound v

theorem Tame.enter {chain : List String} {s : Trace} (h : r.Tame chain s) {key : String}
    (hroom : s.visits.count key < r.options.recursionBound) :
    r.Tame (key :: chain) (s.change (Visits.enter key)) where
  counts := h.counts.enter key
  bounded := by
    refine List.forall_mem_cons.2 ⟨fun k => ?_, h.bounded⟩
    have hk := h.bounded s.visits List.mem_cons_self k
    simp only [Trace.change, Visits.count_enter]
    split
    · omega
    · exact hk

theorem Tame.leave {chain : List String} {s : Trace} {key : String} (h : r.Tame (key :: chain) s) :
    r.Tame chain (s.change (Visits.leave key)) where
  counts := h.counts.leave
  bounded := by
    refine List.forall_mem_cons.2 ⟨fun k => ?_, h.bounded⟩
    have hkey := h.bounded s.visits List.mem_cons_self key
    have hk := h.bounded s.visits List.mem_cons_self k
    simp only [Trace.change, Visits.count_leave]
    split
    · omega
    · exact hk

/-- On a tame trace two actions do the same, and leave a tame trace of the same chain. -/
def settles (r : Resolver) (chain : List String) : Simulation Tracing Tracing where
  rel a b := ∀ s, r.Tame chain s → a.run s = b.run s ∧ r.Tame chain (a.run s).2
  rel_pure _ := fun _ hs => ⟨rfl, hs⟩
  rel_bind {_ _ a a' b b'} ha hb s hs := by
    obtain ⟨heq, hs'⟩ := ha s hs
    have hrun : (a >>= b).run s = (b (a.run s).1).run (a.run s).2 := rfl
    have hrun' : (a' >>= b').run s = (b' (a'.run s).1).run (a'.run s).2 := rfl
    rw [hrun, hrun', ← heq]
    exact hb _ _ hs'

theorem enterTraced_settles {shape shape' : TypeRef → Tracing Schema} {chain : List String}
    {t : TypeRef} (hkeyless : t.key = none → (r.settles chain).rel (shape t) (shape' t))
    (hkeyed : ∀ key, t.key = some key → List.count key chain < r.options.recursionBound →
      (r.settles (key :: chain)).rel (shape t) (shape' t)) (inline : Bool) :
    (r.settles chain).rel (r.enterTraced shape t inline) (r.enterTraced shape' t inline) := by
  intro s hs
  simp only [enterTraced]
  cases hkey : t.key with
  | none => exact hkeyless hkey s hs
  | some key =>
      dsimp only
      cases (if inline then none else r.target? key) with
      | some target => exact ⟨rfl, hs⟩
      | none =>
          have hcount := hs.counts key
          by_cases hcut : r.options.recursionBound ≤ s.visits.count key
          · simp only [StateT.run_bind, StateT.run_get, pure_bind, hcut, if_true]
            exact ⟨trivial, hs⟩
          · have hroom : s.visits.count key < r.options.recursionBound := by omega
            obtain ⟨heq, hs'⟩ := hkeyed key hkey (by omega) _ (hs.enter hroom)
            simp only [StateT.run_bind, StateT.run_get, pure_bind, hcut, if_false]
            exact ⟨congrArg (fun x : Schema × Trace => (x.1, x.2.change (Visits.leave key))) heq,
              hs'.leave⟩

variable {out out' : TypeRef → Tracing Schema}

/-- A loose type asks for nothing but the declarations that its names lead to. -/
theorem shapeSchema_loose_settles {chain : List String} {next next' : Next Tracing} {t : TypeRef}
    (ht : IsLoose t) (h : ∀ u, r.graph.Declares u →
      (r.settles chain).rel (next u false) (next' u false)) :
    (r.settles chain).rel (r.shapeSchema next t) (r.shapeSchema next' t) := by
  obtain ⟨e, he⟩ : ∃ e, t.shape = .expr e := by
    obtain ⟨-, ⟨e, he⟩ | ⟨kind, he⟩ | he | he⟩ := ht
    · exact ⟨_, he⟩
    · exact ⟨_, he⟩
    · exact ⟨_, he⟩
    · exact ⟨_, he⟩
  simp only [shapeSchema, he]
  exact Simulation.exprSchema h e t

/-- Two steps of fuel pay for every unit of room that a chain has, and one more for a loose type. -/
def Covers (r : Resolver) (chain : List String) (fuel : Nat) (t : TypeRef) : Prop :=
  (r.graph.Declares t ∧ 2 * r.roomOf chain ≤ fuel) ∨ (IsLoose t ∧ 2 * r.roomOf chain < fuel)

theorem shapeSchema_settles {chain : List String} {next next' : Next Tracing} {k : Nat}
    (h : ∀ u inline, r.Covers chain k u → (r.settles chain).rel (next u inline) (next' u inline))
    (hroom : 2 * r.roomOf chain < k) (t : TypeRef) :
    (r.settles chain).rel (r.shapeSchema next t) (r.shapeSchema next' t) := by
  have hcovers {u : TypeRef} (hu : r.graph.Declares u ∨ IsLoose u) : r.Covers chain k u :=
    hu.imp (⟨·, Nat.le_of_lt hroom⟩) (⟨·, hroom⟩)
  refine Simulation.shapeSchema ⟨fun u hu => h u false (hcovers (.inl hu)), fun u hu => ?_⟩ t
  exact (r.settles chain).rel_bind (h u true (hcovers hu)) fun _ => (r.settles chain).rel_pure _

/-- A declared type that is cut off needs no fuel. -/
theorem traceWithin_settles_of_cut {d : Declaration} {chain : List String}
    (hcut : r.options.recursionBound ≤ List.count d.key chain) (n m : Nat) (inline : Bool) :
    (r.settles chain).rel (r.traceWithin out n d.ref inline)
      (r.traceWithin out' m d.ref inline) := by
  have henter (shape shape' : TypeRef → Tracing Schema) : (r.settles chain).rel
      (r.enterTraced shape d.ref inline) (r.enterTraced shape' d.ref inline) := by
    refine enterTraced_settles (fun hkey => ?_) (fun key hkey hroom => ?_) inline
    · cases hkey
    · obtain rfl : d.key = key := Option.some.inj hkey
      omega
  cases n <;> cases m <;> exact henter _ _

/-- **Fuel runs out nowhere**: what covers the room of the chain gives one run, whatever would be
done without fuel. -/
theorem traceWithin_settles (n : Nat) : ∀ {m : Nat} {chain : List String} {t : TypeRef}
    {inline : Bool}, r.Covers chain (min n m) t →
    (r.settles chain).rel (r.traceWithin out n t inline) (r.traceWithin out' m t inline) := by
  induction n with
  | zero =>
      intro m chain t inline hcovers
      obtain ⟨⟨d, hd, rfl⟩, hfuel⟩ | ⟨-, hfuel⟩ := hcovers
      · refine traceWithin_settles_of_cut (Nat.le_of_not_lt fun hcount => ?_) 0 m inline
        have := roomOf_cons_lt hd hcount
        omega
      · omega
  | succ n ih =>
      intro m chain t inline hcovers
      obtain ⟨⟨d, hd, rfl⟩, hfuel⟩ | ⟨hloose, hfuel⟩ := hcovers
      · by_cases hcount : List.count d.key chain < r.options.recursionBound
        · have hless := roomOf_cons_lt hd hcount
          obtain ⟨m, rfl⟩ : ∃ k, m = k + 1 := ⟨m - 1, by omega⟩
          refine enterTraced_settles (fun hkey => ?_) (fun key hkey _ => ?_) inline
          · cases hkey
          · obtain rfl : d.key = key := Option.some.inj hkey
            exact shapeSchema_settles (fun u inline hu => ih hu) (by omega) _
        · exact traceWithin_settles_of_cut (Nat.le_of_not_lt hcount) (n + 1) m inline
      · obtain ⟨m, rfl⟩ : ∃ k, m = k + 1 := ⟨m - 1, by omega⟩
        refine enterTraced_settles (fun _ => ?_) (fun key hkey => ?_) inline
        · exact shapeSchema_loose_settles hloose fun u hu => ih (.inl ⟨hu, by omega⟩)
        · rw [hloose.1] at hkey
          cases hkey

/-- Any type at all may be resolved first: it adds one step to those of the types it meets. -/
theorem traceWithin_settles_nil {n m : Nat} (hn : 2 * r.longestChain ≤ n)
    (hm : 2 * r.longestChain ≤ m) (t : TypeRef) (inline : Bool) :
    (r.settles []).rel (r.traceWithin out n t inline) (r.traceWithin out' m t inline) := by
  have hroom (chain : List String) := roomOf_le_longestChain r chain
  obtain ⟨n, rfl⟩ : ∃ k, n = k + 1 := ⟨n - 1, by have := hroom []; omega⟩
  obtain ⟨m, rfl⟩ : ∃ k, m = k + 1 := ⟨m - 1, by have := hroom []; omega⟩
  refine enterTraced_settles (fun _ => ?_) (fun key _ _ => ?_) inline
  · refine shapeSchema_settles (fun u inline hu => traceWithin_settles n hu) ?_ t
    have := hroom []
    omega
  · refine shapeSchema_settles (fun u inline hu => traceWithin_settles n hu) ?_ t
    have := hroom [key]
    omega

theorem tame_start {v : Visits} (hv : v.Counts []) : r.Tame [] ⟨v, []⟩ where
  counts := hv
  bounded := by
    refine List.forall_mem_singleton.2 fun key => ?_
    rw [hv key]
    exact Nat.zero_le _

theorem typeSchemaWithin_of_longestChain_le {n : Nat} (hn : r.longestChain ≤ n) (t : TypeRef)
    (inline : Bool) {v : Visits} (hv : v.Counts []) :
    ((r.typeSchemaWithin n t inline).run v).1 = ((r.typeSchema t inline).run v).1 := by
  rw [(typeSchemaWithin_follows r n t inline v [] hv).1, (typeSchema_follows r t inline v [] hv).1]
  exact chainSchemaWithin_of_longestChain_le hn [] t inline

/-- **Resolution ends on every graph**: from zero counters, fuel beyond the longest chain does not
change the schema. With twice as much there is one run and one trace, at any fuel and whatever
would be done once it is spent; the program has that run, and no moment of it shows a counter above
the recursion bound, so a counter of 32 bits does not overflow. -/
theorem typeSchema_terminates (r : Resolver) (t : TypeRef) (inline : Bool) {v : Visits}
    (hv : v.Counts []) :
    (∀ n, r.longestChain ≤ n →
      ((r.typeSchemaWithin n t inline).run v).1 = ((r.typeSchema t inline).run v).1) ∧
    ∃ answer trace,
      (∀ n, 2 * r.longestChain ≤ n → ∀ out,
        (r.traceWithin out n t inline).run ⟨v, []⟩ = (answer, trace)) ∧
      (∀ n, 2 * r.longestChain ≤ n →
        (r.typeSchemaWithin n t inline).run v = (answer, trace.visits)) ∧
      answer = ((r.typeSchema t inline).run v).1 ∧
      ∀ w ∈ trace.moments, ∀ key, w.count key ≤ r.options.recursionBound ∧
        (r.options.recursionBound < ResolverOptions.boundLimit →
          w.count key < ResolverOptions.boundLimit) := by
  refine ⟨fun n hn => typeSchemaWithin_of_longestChain_le hn t inline hv, ?_⟩
  let plain : TypeRef → Tracing Schema := fun _ => return .softError "types nest too deep"
  let run := (r.traceWithin plain (2 * r.longestChain) t inline).run ⟨v, []⟩
  have hend {n : Nat} (hn : 2 * r.longestChain ≤ n) (out : TypeRef → Tracing Schema) :
      (r.traceWithin out n t inline).run ⟨v, []⟩ = run :=
    (traceWithin_settles_nil hn (Nat.le_refl _) t inline _ (tame_start hv)).1
  have hprogram {n : Nat} (hn : 2 * r.longestChain ≤ n) :
      (r.typeSchemaWithin n t inline).run v = (run.1, run.2.visits) := by
    rw [← hend hn plain]
    exact traceWithin_erases r n t inline ⟨v, []⟩
  have hsettles : (r.settles []).rel (r.traceWithin plain (2 * r.longestChain) t inline)
      (r.traceWithin plain (2 * r.longestChain) t inline) :=
    traceWithin_settles_nil (Nat.le_refl _) (Nat.le_refl _) t inline
  have htame : r.Tame [] run.2 := (hsettles _ (tame_start hv)).2
  refine ⟨run.1, run.2, fun n hn out => hend hn out, fun n hn => hprogram hn, ?_, ?_⟩
  · rw [← typeSchemaWithin_of_longestChain_le (n := 2 * r.longestChain) (by omega) t inline hv,
      hprogram (Nat.le_refl _)]
  · intro w hw key
    have hle := htame.bounded w hw key
    exact ⟨hle, fun hlimit => Nat.lt_of_le_of_lt hle hlimit⟩

/-- Two types, each of which stands for the other. -/
theorem typeSchema_terminates_cycle :
    let a : Declaration := ⟨"zoo.A", "A", "zoo", .empty, .expr (.named "B"), []⟩
    let b : Declaration := ⟨"zoo.B", "B", "zoo", .empty, .expr (.named "A"), []⟩
    let g : Graph := ⟨"", ["zoo"], [("zoo", ⟨"zoo", []⟩)], [a, b], []⟩
    let r : Resolver := ⟨g, .default, []⟩
    let v : Visits := [("zoo.A", 0)]
    let cutOff := Schema.softError "recursive reference on 'zoo.A'"
    v.Counts [] ∧ (∀ n, 7 ≤ n → ((r.typeSchemaWithin n a.ref false).run v).1 = cutOff) ∧
      ∃ trace, (∀ n, 14 ≤ n → ∀ out,
          (r.traceWithin out n a.ref false).run ⟨v, []⟩ = (cutOff, trace)) ∧
        ∀ w ∈ trace.moments, ∀ key, w.count key ≤ 2 := by
  intro a b g r v cutOff
  have hv : v.Counts [] := fun key => by
    cases hkey : key == "zoo.A" <;> simp [v, Visits.count, List.lookup_cons, hkey]
  have hcut : ((r.typeSchema a.ref false).run v).1 = cutOff := rfl
  obtain ⟨hfuel, answer, trace, hend, -, hanswer, hbound⟩ := typeSchema_terminates r a.ref false hv
  rw [hcut] at hanswer
  refine ⟨hv, fun n hn => (hfuel n hn).trans hcut, trace, fun n hn out => ?_, ?_⟩
  · rw [← hanswer]
    exact hend n hn out
  · exact fun w hw key => (hbound w hw key).1

end Resolver

end SchemaWeave
