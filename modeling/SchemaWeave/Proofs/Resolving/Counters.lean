import SchemaWeave.Schema.Resolve

/-!
Visit counters against the chain of types that are being resolved. The counters are a mutable
shadow of the chain: `Visits.Counts` says that every key is counted as often as it occurs on the
chain. `Follows` is the contract of every action on the counters: on counters of a chain it answers
from the chain alone, and it leaves counters of the same chain behind. The contract composes along
`>>=`, so each action proves it from those that it is made of.
-/

namespace SchemaWeave

namespace Visits

theorem count_nil (key : String) : Visits.count key [] = 0 := rfl

theorem count_put (key k : String) (n : Nat) (v : Visits) :
    (v.put key n).count k = if k = key then n else v.count k := by
  induction v with
  | nil =>
      by_cases hk : k = key
      · simp [put, count, hk]
      · simp [put, count, List.lookup_cons, hk, beq_false_of_ne hk]
  | cons entry rest ih =>
      obtain ⟨l, old⟩ := entry
      simp only [count] at ih
      by_cases hl : l = key
      · by_cases hk : k = key
        · simp [put, count, hl, hk]
        · simp [put, count, List.lookup_cons, hl, hk, beq_false_of_ne hk]
      · by_cases hk : k = l
        · simp [put, count, hk, hl]
        · simp [put, count, List.lookup_cons, hl, beq_false_of_ne hk, ih]

theorem count_enter (key k : String) (v : Visits) :
    (v.enter key).count k = if k = key then v.count key + 1 else v.count k :=
  count_put ..

theorem count_leave (key k : String) (v : Visits) :
    (v.leave key).count k = if k = key then v.count key - 1 else v.count k :=
  count_put ..

/-- Every key is counted as often as it occurs on the chain. -/
def Counts (v : Visits) (chain : List String) : Prop :=
  ∀ key, v.count key = List.count key chain

theorem Counts.nil : Counts [] [] := fun _ => rfl

theorem count_cons (key k : String) (n : Nat) (v : Visits) :
    Visits.count k ((key, n) :: v) = if k = key then n else v.count k := by
  by_cases hk : k = key
  · simp [count, hk]
  · simp [count, List.lookup_cons, hk, beq_false_of_ne hk]

/-- Whatever the counters are, they count some chain. -/
theorem exists_counts (v : Visits) : ∃ chain, v.Counts chain := by
  induction v with
  | nil => exact ⟨[], Counts.nil⟩
  | cons entry rest ih =>
      obtain ⟨key, n⟩ := entry
      obtain ⟨chain, hchain⟩ := ih
      -- the first counter of a key hides the others
      refine ⟨List.replicate n key ++ chain.filter (· != key), fun k => ?_⟩
      rw [count_cons, hchain, List.count_append, List.count_replicate]
      by_cases hk : k = key
      · have hnone : List.count key (chain.filter (· != key)) = 0 :=
          List.count_eq_zero.2 (by simp)
        simp [hk, hnone]
      · simp [hk, Ne.symm hk, List.count_filter]

theorem Counts.enter {v : Visits} {chain : List String} (h : v.Counts chain) (key : String) :
    (v.enter key).Counts (key :: chain) := by
  intro k
  rw [count_enter, h, h, List.count_cons]
  by_cases hk : k = key
  · simp [hk]
  · simp [hk, Ne.symm hk]

theorem Counts.leave {v : Visits} {chain : List String} {key : String}
    (h : v.Counts (key :: chain)) : (v.leave key).Counts chain := by
  intro k
  rw [count_leave, h, h, List.count_cons, List.count_cons]
  by_cases hk : k = key
  · simp [hk]
  · simp [hk, Ne.symm hk]

end Visits

variable {α β : Type}

/-- On counters of the chain the action answers `x`, and leaves counters of that chain. -/
def AnswersOn (chain : List String) (a : Resolving α) (x : α) : Prop :=
  ∀ v, Visits.Counts v chain → (a.run v).1 = x ∧ Visits.Counts (a.run v).2 chain

theorem answersOn_pure (chain : List String) (x : α) : AnswersOn chain (pure x) x :=
  fun _ hv => ⟨rfl, hv⟩

theorem AnswersOn.bind {chain : List String} {a : Resolving α} {x : α} {b : α → Resolving β} {y : β}
    (ha : AnswersOn chain a x) (hb : AnswersOn chain (b x) y) : AnswersOn chain (a >>= b) y := by
  intro v hv
  obtain ⟨hx, hv'⟩ := ha v hv
  have hrun : (a >>= b).run v = (b (a.run v).1).run (a.run v).2 := rfl
  rw [hrun, hx]
  exact hb _ hv'

/-- On counters of a chain the action answers `f chain` and leaves counters of that chain. -/
def Follows (a : Resolving α) (f : List String → α) : Prop :=
  ∀ v chain, Visits.Counts v chain → (a.run v).1 = f chain ∧ Visits.Counts (a.run v).2 chain

theorem Follows.answersOn {a : Resolving α} {f : List String → α} (h : Follows a f)
    (chain : List String) : AnswersOn chain a (f chain) := fun v hv => h v chain hv

theorem follows_pure (x : α) : Follows (pure x) fun _ => x :=
  fun v chain hv => answersOn_pure chain x v hv

theorem Follows.bind {a : Resolving α} {f : List String → α} {b : α → Resolving β}
    {g : α → List String → β} (ha : Follows a f) (hb : ∀ x, Follows (b x) (g x)) :
    Follows (a >>= b) fun chain => g (f chain) chain := by
  intro v chain hv
  exact (ha.answersOn chain).bind ((hb (f chain)).answersOn chain) v hv

/-- An action whose answer depends on nothing but the chain. -/
def Steady (a : Resolving α) : Prop := ∃ f, Follows a f

theorem Follows.steady {a : Resolving α} {f : List String → α} (h : Follows a f) : Steady a :=
  ⟨f, h⟩

/-- What such an action answers on some counters of the chain, it answers on all. -/
theorem Steady.answersOn {a : Resolving α} (ha : Steady a) {v : Visits} {chain : List String}
    (hv : v.Counts chain) : AnswersOn chain a (a.run v).1 := by
  obtain ⟨f, hf⟩ := ha
  rw [(hf v chain hv).1]
  exact hf.answersOn chain

theorem steady_pure (x : α) : Steady (pure x) := (follows_pure x).steady

theorem Steady.bind {a : Resolving α} {b : α → Resolving β} (ha : Steady a)
    (hb : ∀ x, Steady (b x)) : Steady (a >>= b) := by
  obtain ⟨f, hf⟩ := ha
  exact (hf.bind fun x => (hb x).choose_spec).steady

theorem Steady.foldlM {step : β → α → Resolving β} (h : ∀ b x, Steady (step b x)) :
    ∀ (xs : List α) (b : β), Steady (xs.foldlM step b) := by
  intro xs
  induction xs with
  | nil => intro b; exact steady_pure b
  | cons x rest ih =>
      intro b
      rw [List.foldlM_cons]
      exact (h b x).bind ih

end SchemaWeave
