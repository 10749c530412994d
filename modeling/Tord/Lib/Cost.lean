import Mathlib.Algebra.Order.BigOperators.Group.List
import Tord.Lib.Interaction

/-! What programs spend. Every request has a cost, and a program that may fail has two
budgets: for the paths on which it returns a value, and for all of them. -/
namespace Interaction

variable {Op : Type} {Res : Op → Type} {α β ε M : Type} [AddCommMonoid M]

def spent (cost : Op → M) (h : History Res) : M := (h.map fun event => cost event.1).sum

variable {cost : Op → M}

@[simp] theorem spent_nil : spent cost ([] : History Res) = 0 := rfl

@[simp] theorem spent_cons (event : Event Res) (h : History Res) :
    spent cost (event :: h) = cost event.1 + spent cost h := by
  simp [spent]

@[simp] theorem spent_append (h k : History Res) :
    spent cost (h ++ k) = spent cost h + spent cost k := by
  simp [spent]

variable [PartialOrder M]

structure Spends (cost : Op → M) (x : ExceptT ε (Prog Res) α) (done total : M) : Prop where
  done : ∀ h value, Path x.run h (.pure (.ok value)) → spent cost h ≤ done
  total : ∀ h q, Path x.run h q → spent cost h ≤ total

namespace Spends

variable {x : ExceptT ε (Prog Res) α} {f : α → ExceptT ε (Prog Res) β} {a b c d : M}

theorem mono (spends : Spends cost x a b) (done : a ≤ c) (total : b ≤ d) : Spends cost x c d :=
  ⟨fun h value path => (spends.done h value path).trans done,
    fun h q path => (spends.total h q path).trans total⟩

theorem of_pure {result : Except ε α} (returns : x.run = .pure result) : Spends cost x 0 0 := by
  have total (h q) (path : Path x.run h q) : spent cost h ≤ 0 := by
    rw [returns] at path
    obtain ⟨rfl, -⟩ := Path.pure_inv path
    exact le_rfl
  exact ⟨fun h value path => total h _ path, total⟩

theorem pure (value : α) : Spends cost (Pure.pure value : ExceptT ε (Prog Res) α) 0 0 := of_pure rfl

theorem throw (e : ε) : Spends cost (throw e : ExceptT ε (Prog Res) α) 0 0 := of_pure rfl

theorem ite {condition : Prop} [Decidable condition] {y : ExceptT ε (Prog Res) α}
    (left : Spends cost x a b) (right : Spends cost y a b) :
    Spends cost (if condition then x else y) a b := by
  by_cases holds : condition <;> simpa [holds]

/-- Results that are rewritten afterwards cost nothing more. -/
theorem mapError {y : ExceptT ε (Prog Res) α} {g : ε → ε} (first : Spends cost x a b)
    (rewrites : y.run = x.run >>= fun result => .pure (result.mapError g)) : Spends cost y a b := by
  constructor
  · intro h value path
    rw [rewrites] at path
    obtain ⟨front, back, middle, rfl, before, after⟩ := Path.of_bind path
    obtain ⟨rfl, same⟩ := Path.pure_inv after
    cases middle with
    | error e => cases same
    | ok middle => simpa using first.done front middle before
  · intro h q path
    rw [rewrites] at path
    rcases path.bind_cases with ⟨op, next, before, -⟩ | ⟨front, back, middle, rfl, before, after⟩
    · exact first.total h _ before
    · obtain ⟨rfl, -⟩ := Path.pure_inv after
      simpa using first.total front _ before

section Bind

variable [IsOrderedAddMonoid M]

theorem bind (first : Spends cost x a b) (rest : ∀ value, Spends cost (f value) c d)
    (early : b ≤ a + d) : Spends cost (x >>= f) (a + c) (a + d) := by
  constructor
  · intro h value path
    rw [ExceptT.run_bind] at path
    obtain ⟨front, back, middle, rfl, before, after⟩ := Path.of_bind path
    cases middle with
    | error e => cases (Path.pure_inv after).2
    | ok middle =>
      rw [spent_append]
      exact add_le_add (first.done front middle before) ((rest middle).done back value after)
  · intro h q path
    rw [ExceptT.run_bind] at path
    rcases path.bind_cases with ⟨op, next, before, -⟩ | ⟨front, back, middle, rfl, before, after⟩
    · exact (first.total h _ before).trans early
    · cases middle with
      | error e =>
        obtain ⟨rfl, -⟩ := Path.pure_inv after
        rw [List.append_nil]
        exact (first.total front _ before).trans early
      | ok middle =>
        rw [spent_append]
        exact add_le_add (first.done front middle before) ((rest middle).total back q after)

end Bind

variable [CanonicallyOrderedAdd M]

theorem request {op : Op} {next : Res op → Except ε α}
    (asks : x.run = .request op fun reply => .pure (next reply)) :
    Spends cost x (cost op) (cost op) := by
  have total (h q) (path : Path x.run h q) : spent cost h ≤ cost op := by
    rw [asks] at path
    cases path with
    | nil => exact zero_le
    | cons first rest =>
      cases first
      obtain ⟨rfl, -⟩ := Path.pure_inv rest
      simp
  exact ⟨fun h value path => total h _ path, total⟩

variable [IsOrderedAddMonoid M]

/-- Sequencing after a program without a budget of its own for success. -/
theorem andThen (first : Spends cost x a a) (rest : ∀ value, Spends cost (f value) c d) :
    Spends cost (x >>= f) (a + c) (a + d) :=
  first.bind rest le_self_add

theorem not_returns {clean : ExceptT ε (Prog Res) β} {e : ε} {value : α} :
    ¬ Path (clean >>= fun _ => (MonadExcept.throw e : ExceptT ε (Prog Res) α)).run h
      (.pure (.ok value)) := by
  intro path
  rw [ExceptT.run_bind] at path
  obtain ⟨_, _, cleaned, rfl, -, thrown⟩ := Path.of_bind path
  cases cleaned <;> cases (Path.pure_inv thrown).2

/-- What always throws in the end returns no value, whatever the budget for that. -/
theorem thenThrow {clean : ExceptT ε (Prog Res) β} (first : Spends cost clean c c) (e : ε) (done : M) :
    Spends cost (clean >>= fun _ => (MonadExcept.throw e : ExceptT ε (Prog Res) α)) done c := by
  refine ⟨fun h value path => absurd path not_returns, ?_⟩
  have whole := (first.andThen fun _ => (throw e : Spends cost (_ : ExceptT ε (Prog Res) α) 0 0)).total
  rwa [add_zero] at whole

theorem rethrow {clean : ExceptT ε (Prog Res) β} {g : ε → ε} (first : Spends cost x a b)
    (rest : Spends cost clean c c) :
    Spends cost (tryCatch x fun e => clean >>= fun _ => MonadExcept.throw (g e)) a (b + c) := by
  have run : (tryCatch x fun e => clean >>= fun _ => MonadExcept.throw (g e)).run = x.run >>= fun
      | .ok value => .pure (.ok value)
      | .error e => (clean >>= fun _ => (MonadExcept.throw (g e) : ExceptT ε (Prog Res) α)).run := by
    refine congrArg (x.run >>= ·) (funext fun result => ?_)
    cases result <;> rfl
  constructor
  · intro h value path
    rw [run] at path
    obtain ⟨front, back, middle, rfl, before, after⟩ := Path.of_bind path
    cases middle with
    | ok middle =>
      obtain ⟨rfl, -⟩ := Path.pure_inv after
      simpa using first.done front middle before
    | error e => exact absurd after not_returns
  · intro h q path
    rw [run] at path
    rcases path.bind_cases with ⟨op, next, before, -⟩ | ⟨front, back, middle, rfl, before, after⟩
    · exact (first.total h _ before).trans le_self_add
    · cases middle with
      | ok middle =>
        obtain ⟨rfl, -⟩ := Path.pure_inv after
        rw [List.append_nil]
        exact (first.total front _ before).trans le_self_add
      | error e =>
        rw [spent_append]
        exact add_le_add (first.total front _ before) ((rest.thenThrow (g e) a).total back q after)

/-- A request, a body that uses its reply, and a request whatever the body returned. -/
theorem bracket {op : Op} {body : Res op → ExceptT ε (Prog Res) α} {release : Res op → Op}
    {y : ExceptT ε (Prog Res) α} (within : ∀ reply, Spends cost (body reply) b b)
    (releases : ∀ reply, cost (release reply) ≤ c)
    (holds : y.run = .request op fun reply => (body reply).run >>= fun result =>
      .request (release reply) fun _ => .pure result) :
    Spends cost y (cost op + (b + c)) (cost op + (b + c)) := by
  have total (h q) (path : Path y.run h q) : spent cost h ≤ cost op + (b + c) := by
    rw [holds] at path
    cases path with
    | nil => exact zero_le
    | cons first rest =>
      cases first with
      | reply =>
        rename_i reply
        rw [spent_cons]
        apply add_le_add le_rfl
        rcases Path.bind_cases rest with ⟨_, _, before, -⟩ | ⟨front, back, middle, rfl, before, after⟩
        · exact ((within reply).total _ _ before).trans le_self_add
        · rw [spent_append]
          apply add_le_add ((within reply).total _ _ before)
          cases after with
          | nil => exact zero_le
          | cons released ended =>
            cases released
            obtain ⟨rfl, -⟩ := Path.pure_inv ended
            simpa using releases reply
  exact ⟨fun h value path => total h _ path, total⟩

end Spends

end Interaction
