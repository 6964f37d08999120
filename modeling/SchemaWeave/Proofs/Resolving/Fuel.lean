import SchemaWeave.Proofs.Resolving.Chain

/-!
Fuel does not show. Types met on the way are declared in the graph, or are such that nothing is
done with their properties (`Graph.IsLoose`). A declared type is entered only while its key is on
the chain less often than the recursion bound allows, so what is left of the bound, summed over the
declarations, falls with every type that is entered (`roomOf_cons_lt`). Whatever fuel covers that
room gives the same schema, and `chainSchema_eq` is the equation of resolution without fuel.
-/

namespace SchemaWeave

namespace Resolver

open SchemaWeave.Graph (IsLoose)

variable {r : Resolver} {next next' : TypeRef → Bool → Schema}

theorem properties?_describe (text : String) (s : Schema) :
    (s.describe text).properties? = s.properties? := by
  unfold Schema.describe
  split
  · rfl
  · cases s <;> rfl

/-- A loose type has no properties, whatever becomes of the types in it. -/
theorem properties?_shape_of_loose {t : TypeRef} (h : IsLoose t) :
    (Id.run (shapeSchema r next t)).properties? = none := by
  obtain ⟨-, ⟨e, he⟩ | ⟨kind, he⟩ | he | he⟩ := h <;>
    simp only [shapeSchema, exprSchema, he, Id.run_bind, Id.run_pure, properties?_describe]
  · rfl
  · rfl
  · rfl
  · rfl

/-- Equality of actions without counters. -/
def sameAnswer : Simulation Id Id where
  rel a b := a = b
  rel_pure _ := rfl
  rel_bind {_ _ a a' b b'} ha hb := by rw [ha, funext hb]

/-- Two ways to resolve the types met on the way that cannot be told apart. -/
structure Agree (r : Resolver) (next next' : TypeRef → Bool → Schema) : Prop where
  declared : ∀ t inline, r.graph.Declares t → next t inline = next' t inline
  loose : ∀ t, IsLoose t → (next t true).properties? = (next' t true).properties?

theorem shapeSchema_congr (h : Agree r next next') (t : TypeRef) :
    Id.run (shapeSchema r next t) = Id.run (shapeSchema r next' t) := by
  have hmeets : sameAnswer.Meets r next next' := by
    refine ⟨fun t ht => h.declared t false ht, ?_⟩
    rintro t (ht | ht)
    · exact congrArg (fun s : Schema => s.properties?.getD []) (h.declared t true ht)
    · exact congrArg (·.getD []) (h.loose t ht)
  exact sameAnswer.shapeSchema hmeets t

/-- What is left of the recursion bound on a chain, summed over the declared types. -/
def roomOf (r : Resolver) (chain : List String) : Nat :=
  r.graph.types.foldr (fun d room => r.options.recursionBound - List.count d.key chain + room) 0

theorem roomOf_le (r : Resolver) (chain : List String) :
    r.roomOf chain ≤ r.options.recursionBound * r.graph.types.length := by
  unfold roomOf
  induction r.graph.types with
  | nil => simp
  | cons d rest ih =>
      simp only [List.foldr_cons, List.length_cons, Nat.mul_succ]
      omega

private theorem room_cons_le (bound : Nat) (key : String) (chain : List String)
    (ds : List Declaration) :
    ds.foldr (fun d room => bound - List.count d.key (key :: chain) + room) 0 ≤
      ds.foldr (fun d room => bound - List.count d.key chain + room) 0 := by
  induction ds with
  | nil => simp
  | cons d rest ih =>
      have hcount : List.count d.key chain ≤ List.count d.key (key :: chain) :=
        List.count_le_count_cons
      simp only [List.foldr_cons]
      omega

/-- A declared type that is not cut off uses up room. -/
theorem roomOf_cons_lt {d : Declaration} (hd : d ∈ r.graph.types) {chain : List String}
    (hroom : List.count d.key chain < r.options.recursionBound) :
    r.roomOf (d.key :: chain) < r.roomOf chain := by
  unfold roomOf
  generalize r.graph.types = ds at hd
  induction ds with
  | nil => cases hd
  | cons e rest ih =>
      simp only [List.foldr_cons]
      rcases List.mem_cons.mp hd with rfl | hd
      · -- the type itself loses one place, and no other type gains one
        have hrest := room_cons_le r.options.recursionBound d.key chain rest
        have hself : List.count d.key (d.key :: chain) = List.count d.key chain + 1 :=
          List.count_cons_self
        omega
      · have hrest := ih hd
        have hcount : List.count e.key chain ≤ List.count e.key (d.key :: chain) :=
          List.count_le_count_cons
        omega

theorem properties?_within_of_loose {t : TypeRef} (h : IsLoose t) (n : Nat)
    (chain : List String) (inline : Bool) :
    (r.chainSchemaWithin n chain t inline).properties? = none := by
  cases n with
  | zero => simp only [chainSchemaWithin, enterOnChain, h.1]; rfl
  | succ n =>
      simp only [chainSchemaWithin, enterOnChain, h.1, shapeOnChain]
      exact properties?_shape_of_loose h

/-- A declared type that is cut off, unless it is a reference, gets by without fuel. -/
theorem chainSchemaWithin_of_cut (d : Declaration) {chain : List String}
    (hcut : r.options.recursionBound ≤ List.count d.key chain) (n m : Nat) (inline : Bool) :
    r.chainSchemaWithin n chain d.ref inline = r.chainSchemaWithin m chain d.ref inline := by
  cases n <;> cases m <;> simp [chainSchemaWithin, enterOnChain, Declaration.ref, hcut]

/-- **Fuel does not show**: fuel that covers the room of the chain gives one schema. -/
theorem chainSchemaWithin_eq (r : Resolver) (n : Nat) : ∀ {m : Nat} {chain : List String}
    {t : TypeRef} {inline : Bool}, r.roomOf chain ≤ n → r.roomOf chain ≤ m →
    r.graph.Declares t →
    r.chainSchemaWithin n chain t inline = r.chainSchemaWithin m chain t inline := by
  induction n with
  | zero =>
      intro m chain t inline hn _ ht
      obtain ⟨d, hd, rfl⟩ := ht
      -- no room is left, so on both sides the type is a reference or cut off
      have hcut : r.options.recursionBound ≤ List.count d.key chain := by
        by_cases hroom : List.count d.key chain < r.options.recursionBound
        · have := roomOf_cons_lt hd hroom
          omega
        · omega
      exact chainSchemaWithin_of_cut d hcut 0 m inline
  | succ n ih =>
      intro m chain t inline hn hm ht
      obtain ⟨d, hd, rfl⟩ := ht
      by_cases hroom : List.count d.key chain < r.options.recursionBound
      · have hless := roomOf_cons_lt hd hroom
        cases m with
        | zero => omega
        | succ m =>
            -- one step further in, both sides have fuel for the room that is left
            have hagree : Agree r (r.chainSchemaWithin n (d.key :: chain))
                (r.chainSchemaWithin m (d.key :: chain)) :=
              { declared := fun t inline ht => ih (by omega) (by omega) ht
                loose := fun t ht => by
                  rw [properties?_within_of_loose ht, properties?_within_of_loose ht] }
            simp only [chainSchemaWithin, enterOnChain, Declaration.ref, shapeOnChain,
              shapeSchema_congr hagree]
      · have hcut : r.options.recursionBound ≤ List.count d.key chain := by omega
        exact chainSchemaWithin_of_cut d hcut (n + 1) m inline

theorem roomOf_le_longestChain (r : Resolver) (chain : List String) :
    r.roomOf chain < r.longestChain := by
  have := roomOf_le r chain
  rw [longestChain, Nat.mul_succ]
  omega

/-- One step takes one unit of fuel, and what is left still covers every chain. -/
private theorem shapeOnChain_within {n : Nat} (hn : r.longestChain ≤ n + 1) :
    r.shapeOnChain (r.chainSchemaWithin n) = r.shapeOnChain r.chainSchema := by
  funext chain t
  have hroom := roomOf_le_longestChain r chain
  refine shapeSchema_congr ⟨fun t inline ht => ?_, fun t ht => ?_⟩ t
  · exact chainSchemaWithin_eq r n (by omega) (by omega) ht
  · rw [chainSchema, properties?_within_of_loose ht, properties?_within_of_loose ht]

/-- **Resolution on a chain, without fuel**: a type is entered, and the types met on the way are
resolved with its key on the chain. -/
theorem chainSchema_eq (r : Resolver) (chain : List String) (t : TypeRef) (inline : Bool) :
    r.chainSchema chain t inline =
      r.enterOnChain (r.shapeOnChain r.chainSchema) chain t inline := by
  obtain ⟨n, hn⟩ : ∃ n, r.longestChain = n + 1 := ⟨_, rfl⟩
  rw [chainSchema, hn, chainSchemaWithin, shapeOnChain_within (Nat.le_of_eq hn)]

/-- More fuel than the longest chain takes changes nothing. -/
theorem chainSchemaWithin_of_longestChain_le {n : Nat} (hn : r.longestChain ≤ n)
    (chain : List String) (t : TypeRef) (inline : Bool) :
    r.chainSchemaWithin n chain t inline = r.chainSchema chain t inline := by
  cases n with
  | zero => exact absurd hn (Nat.not_succ_le_zero _)
  | succ n => rw [chainSchema_eq, chainSchemaWithin, shapeOnChain_within hn]

end Resolver

end SchemaWeave
