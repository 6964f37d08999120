import SchemaWeave.Proofs.Resolving.Counters
import SchemaWeave.Proofs.Resolving.Simulation

/-!
Resolution without counters. `Resolver.chainSchema` is a pure function that is handed the keys of
the types inside which a type is resolved, and cuts a type off when its key is on that chain as
often as the recursion bound allows. The shape of a type is the same on both sides: it is resolved
in any monad, here in the trivial one.

A type that comes up on a chain becomes a reference, or is entered, or is cut off
(`enterOnChain_cases`). The main statement is `typeSchemaWithin_follows`: on counters of a chain,
resolution with counters is resolution on that chain, and it leaves the counters as they were.
-/

namespace SchemaWeave.Resolver

/-- Enters a type inside the types whose keys are on the chain, the innermost first: the type
becomes a reference, or is cut off, or gets its schema from its shape with its key on the chain. -/
def enterOnChain (r : Resolver) (shape : List String → TypeRef → Schema) (chain : List String)
    (t : TypeRef) (inline : Bool) : Schema :=
  match t.key with
  | none => shape chain t
  | some key =>
    match if inline then none else r.target? key with
    | some target => .ref target
    | none =>
      if r.options.recursionBound ≤ List.count key chain then
        .softError s!"recursive reference on '{key}'"
      else shape (key :: chain) t

/-- The schema of a type's shape on a chain, by the schemas of the types met on the way. -/
def shapeOnChain (r : Resolver) (next : List String → TypeRef → Bool → Schema)
    (chain : List String) (t : TypeRef) : Schema :=
  Id.run (shapeSchema r (next chain) t)

/-- The schema of a type on a chain, as long as no more types than there is fuel are entered inside
one another. -/
def chainSchemaWithin (r : Resolver) : Nat → List String → TypeRef → Bool → Schema
  | 0 => r.enterOnChain fun _ _ => .softError "types nest too deep"
  | fuel + 1 => r.enterOnChain (r.shapeOnChain (chainSchemaWithin r fuel))

/-- The schema of a type inside the types whose keys are on the chain. -/
def chainSchema (r : Resolver) (chain : List String) (t : TypeRef) (inline : Bool) : Schema :=
  r.chainSchemaWithin r.longestChain chain t inline

section Enter

variable {r : Resolver} {shape : List String → TypeRef → Schema} {chain : List String}
  {t u : TypeRef} {inline : Bool} {target : String}

/-- The target of the references to a type, if it is registered. -/
def targetOf? (r : Resolver) (t : TypeRef) : Option String := t.key.bind r.target?

/-- On the chain a type is not yet being resolved as often as the recursion bound allows. -/
def HasRoom (r : Resolver) (chain : List String) (t : TypeRef) : Prop :=
  ∀ key ∈ t.key, List.count key chain < r.options.recursionBound

/-- A type is entered on the chain: it is not written as a reference, and there is room for it. -/
structure Opens (r : Resolver) (chain : List String) (t : TypeRef) (inline : Bool) : Prop where
  written : inline = true ∨ r.targetOf? t = none
  room : r.HasRoom chain t

/-- The chain on which the shape of a type is resolved that is entered on the given one. -/
def entered (chain : List String) (t : TypeRef) : List String := t.key.toList ++ chain

theorem HasRoom.of_key_ne (hu : r.HasRoom chain u)
    (hne : ∀ key, t.key = some key → u.key ≠ some key) : r.HasRoom (entered chain t) u := by
  intro key hkey
  have hroom := hu key hkey
  unfold entered
  cases ht : t.key with
  | none => exact hroom
  | some k =>
      have hk : k ≠ key := fun heq => hne k ht (heq ▸ hkey)
      simpa [List.count_cons, hk] using hroom

theorem enterOnChain_of_target (h : r.targetOf? t = some target) :
    r.enterOnChain shape chain t false = .ref target := by
  obtain ⟨key, hkey, htarget⟩ := Option.bind_eq_some_iff.1 h
  simp [enterOnChain, hkey, htarget]

theorem target_of_written {key : String} (hkey : t.key = some key)
    (h : inline = true ∨ r.targetOf? t = none) :
    (if inline then none else r.target? key) = none := by
  rcases h with rfl | htarget
  · rfl
  · rw [targetOf?, hkey, Option.bind_some] at htarget
    simp [htarget]

theorem enterOnChain_of_opens (h : r.Opens chain t inline) :
    r.enterOnChain shape chain t inline = shape (entered chain t) t := by
  unfold enterOnChain entered
  cases hkey : t.key with
  | none => rfl
  | some key =>
      simp only [target_of_written hkey h.written]
      exact if_neg (Nat.not_le.2 (h.room key hkey))

/-- A type becomes a reference, or is entered, or is cut off. -/
theorem enterOnChain_cases (r : Resolver) (shape : List String → TypeRef → Schema)
    (chain : List String) (t : TypeRef) (inline : Bool) :
    (inline = false ∧ ∃ target, r.targetOf? t = some target ∧
        r.enterOnChain shape chain t inline = .ref target) ∨
      (r.Opens chain t inline ∧
        r.enterOnChain shape chain t inline = shape (entered chain t) t) ∨
      ∃ message, r.enterOnChain shape chain t inline = .softError message := by
  by_cases hwritten : inline = true ∨ r.targetOf? t = none
  · by_cases hroom : r.HasRoom chain t
    · exact .inr (.inl ⟨⟨hwritten, hroom⟩, enterOnChain_of_opens ⟨hwritten, hroom⟩⟩)
    · cases hkey : t.key with
      | none => exact absurd (fun key h => by rw [hkey] at h; cases h) hroom
      | some key =>
          have hcut : r.options.recursionBound ≤ List.count key chain := by
            refine Nat.not_lt.1 fun hlt => hroom fun k hk => ?_
            rw [hkey] at hk
            obtain rfl := Option.some.inj hk
            exact hlt
          refine .inr (.inr ⟨s!"recursive reference on '{key}'", ?_⟩)
          simp only [enterOnChain, hkey, target_of_written hkey hwritten]
          exact if_pos hcut
  · obtain ⟨hinline, htarget⟩ := not_or.1 hwritten
    obtain ⟨target, htarget⟩ := Option.ne_none_iff_exists'.1 htarget
    obtain rfl : inline = false := by simpa using hinline
    exact .inl ⟨rfl, target, htarget, enterOnChain_of_target htarget⟩

end Enter

variable {r : Resolver} {next : Next Resolving} {nextC : List String → TypeRef → Bool → Schema}

/-- The contract of counters at one chain, as a relation to actions without counters. -/
def followsAt (chain : List String) : Simulation Resolving Id where
  rel a b := ∀ v, Visits.Counts v chain → (a.run v).1 = b.run ∧ Visits.Counts (a.run v).2 chain
  rel_pure x := fun v hv => follows_pure x v chain hv
  rel_bind {_ _ _ a' _ _} ha hb := AnswersOn.bind ha (hb a'.run)

theorem shapeSchema_follows (h : ∀ t inline, Follows (next t inline) (nextC · t inline))
    (t : TypeRef) : Follows (shapeSchema r next t) (r.shapeOnChain nextC · t) := fun v chain hv =>
  (followsAt chain).shapeSchema (.of_forall fun t inline v hv => h t inline v chain hv) t v hv

theorem enterType_follows {shape : TypeRef → Resolving Schema}
    {shapeC : List String → TypeRef → Schema} (h : ∀ t, Follows (shape t) (shapeC · t))
    (t : TypeRef) (inline : Bool) :
    Follows (enterType r shape t inline) (r.enterOnChain shapeC · t inline) := by
  intro v chain hv
  simp only [enterType, enterOnChain]
  cases t.key with
  | none => exact h t v chain hv
  | some key =>
      dsimp only
      cases (if inline then none else r.target? key) with
      | some target => exact ⟨rfl, hv⟩
      | none =>
          -- the counter of the key is its number of occurrences, so both sides cut off together
          by_cases hcut : r.options.recursionBound ≤ List.count key chain
          · simp only [StateT.run_bind, StateT.run_get, pure_bind, hv key, hcut, if_true]
            exact ⟨rfl, hv⟩
          · obtain ⟨hs, hv'⟩ := h t (v.enter key) (key :: chain) (hv.enter key)
            simp only [StateT.run_bind, StateT.run_get, pure_bind, hv key, hcut, if_false]
            exact ⟨hs, hv'.leave⟩

/-- **Counters stand for the chain**: on counters of a chain, resolution answers as it does on that
chain, and leaves counters of that chain. -/
theorem typeSchemaWithin_follows (r : Resolver) (fuel : Nat) : ∀ t inline,
    Follows (r.typeSchemaWithin fuel t inline) (r.chainSchemaWithin fuel · t inline) := by
  induction fuel with
  | zero => exact enterType_follows fun _ => follows_pure _
  | succ fuel ih => exact enterType_follows (shapeSchema_follows ih)

theorem typeSchema_follows (r : Resolver) (t : TypeRef) (inline : Bool) :
    Follows (r.typeSchema t inline) (r.chainSchema · t inline) :=
  typeSchemaWithin_follows r _ t inline

end SchemaWeave.Resolver
