import Mathlib.Data.List.AList
import Tord.Lib.Binary32
import Tord.Lib.Transition

/-! Circuit isolation: how `TorManager` resolves the `IsolationToken` of a stream.
`issue` is the order in which `IsolationToken::new` hands out its tokens; nothing is
known of it but that no token comes twice. -/
namespace Tord

open Binary32 Transition

inductive Isolation where
  | shared | perUpstream | perQuery
  deriving DecidableEq, Repr

/-- How many tokens these requests take besides the default one, with so many usernames
among them. -/
def Isolation.issues (mode : Isolation) (requests names : Nat) : Nat :=
  match mode with
  | .shared => 0
  | .perQuery => requests
  | .perUpstream => names

structure TorManager (τ : Type) where
  isolation : Isolation
  defaultToken : τ
  perUpstream : AList fun _ : String => τ
  /-- How many tokens were issued so far. -/
  issued : Nat

namespace TorManager

variable {τ : Type} {issue : Nat → τ}

def new (issue : Nat → τ) (isolation : Isolation) : TorManager τ :=
  ⟨isolation, issue 0, ∅, 1⟩

/-- `entry(user).or_insert_with(IsolationToken::new)`. -/
def entryOrInsert (issue : Nat → τ) (m : TorManager τ) (user : String) : τ × TorManager τ :=
  match m.perUpstream.lookup user with
  | some token => (token, m)
  | none =>
    let token := issue m.issued
    (token, { m with perUpstream := m.perUpstream.insert user token, issued := m.issued + 1 })

def isolationToken (issue : Nat → τ) (m : TorManager τ) (user : Option String) :
    τ × TorManager τ :=
  match m.isolation with
  | .shared => (m.defaultToken, m)
  | .perQuery => (issue m.issued, { m with issued := m.issued + 1 })
  | .perUpstream =>
    match user with
    | none => (m.defaultToken, m)
    | some user => entryOrInsert issue m user

/-- One request for a token, with the token that was set. -/
inductive Step (issue : Nat → τ) : TorManager τ → Option String × τ → TorManager τ → Prop where
  | resolved (user : Option String) :
      Step issue m (user, (isolationToken issue m user).1) (isolationToken issue m user).2

/-- What the policy says of two different requests. -/
def Law (mode : Isolation) (first second : Option String × τ) : Prop :=
  match mode with
  | .shared => first.2 = second.2
  | .perQuery => first.2 ≠ second.2
  | .perUpstream => first.2 = second.2 ↔ first.1 = second.1

theorem Law.symm {first second : Option String × τ} (law : Law mode first second) :
    Law mode second first := by
  cases mode with
  | shared => exact Eq.symm law
  | perQuery => exact Ne.symm law
  | perUpstream => exact ⟨fun same => (law.mp same.symm).symm, fun same => (law.mpr same.symm).symm⟩

def Kept (m : TorManager τ) : Option String → τ → Prop
  | none, token => token = m.defaultToken
  | some user, token => m.perUpstream.lookup user = some token

/-- Where a token that was set for `user` came from. -/
def Source (issue : Nat → τ) (m : TorManager τ) (granted : Option String × τ) : Prop :=
  match m.isolation with
  | .shared => granted.2 = m.defaultToken
  | .perQuery => ∃ k < m.issued, granted.2 = issue k
  | .perUpstream => m.Kept granted.1 granted.2

structure Invariant (issue : Nat → τ) (mode : Isolation) (granted : List (Option String × τ))
    (m : TorManager τ) : Prop where
  isolation : m.isolation = mode
  default : m.defaultToken = issue 0 ∧ 0 < m.issued
  /-- Tokens in the map are neither the default one nor yet to be issued. -/
  issued : ∀ user token, m.perUpstream.lookup user = some token →
    ∃ k, 0 < k ∧ k < m.issued ∧ token = issue k
  injective : ∀ user other token, m.perUpstream.lookup user = some token →
    m.perUpstream.lookup other = some token → user = other
  sources : ∀ grant ∈ granted, m.Source issue grant
  law : granted.Pairwise (Law mode)

namespace Invariant

variable {m : TorManager τ}

theorem new (issue : Nat → τ) (mode : Isolation) : Invariant issue mode [] (new issue mode) where
  isolation := rfl
  default := ⟨rfl, Nat.zero_lt_one⟩
  issued := by simp [TorManager.new]
  injective := by simp [TorManager.new]
  sources := by simp
  law := .nil

/-- Two kept tokens are the same exactly for one username. -/
theorem kept_iff (inv : Invariant issue mode granted m) (distinct : Function.Injective issue)
    (first : m.Kept user token) (second : m.Kept other witness) :
    token = witness ↔ user = other := by
  have fresh {name : String} (found : m.perUpstream.lookup name = some m.defaultToken) : False := by
    obtain ⟨k, positive, -, same⟩ := inv.issued _ _ found
    rw [inv.default.1] at same
    exact Nat.ne_of_gt positive (distinct same).symm
  cases user with
  | none =>
    cases other with
    | none => exact ⟨fun _ => rfl, fun _ => first.trans second.symm⟩
    | some other =>
      refine ⟨fun same => ?_, nofun⟩
      rw [← same, first] at second
      exact (fresh second).elim
  | some user =>
    cases other with
    | none =>
      refine ⟨fun same => ?_, nofun⟩
      rw [same, second] at first
      exact (fresh first).elim
    | some other =>
      constructor
      · rintro rfl
        exact congrArg some (inv.injective _ _ _ first second)
      · intro same
        rw [Option.some.inj same] at first
        exact Option.some.inj (first.symm.trans second)

/-- Asking again under a name the map knows changes nothing; a new name is bound to a
token that was never issued. -/
theorem entryOrInsert (inv : Invariant issue mode granted m) (distinct : Function.Injective issue)
    (perUpstream : mode = .perUpstream) (user : String) :
    let (token, next) := entryOrInsert issue m user
    Invariant issue mode granted next ∧ next.Kept (some user) token := by
  cases found : m.perUpstream.lookup user with
  | some token => simpa [TorManager.entryOrInsert, found] using ⟨inv, found⟩
  | none =>
    simp only [TorManager.entryOrInsert, found]
    have unused {name : String} (bound : m.perUpstream.lookup name = some (issue m.issued)) :
        False := by
      obtain ⟨k, -, small, same⟩ := inv.issued _ _ bound
      exact Nat.ne_of_gt small (distinct same)
    refine ⟨⟨inv.isolation, ⟨inv.default.1, Nat.succ_pos _⟩, ?_, ?_, ?_, inv.law⟩,
      AList.lookup_insert _⟩
    · intro name token bound
      by_cases here : name = user
      · subst here
        rw [AList.lookup_insert] at bound
        exact ⟨m.issued, inv.default.2, Nat.lt_succ_self _, (Option.some.inj bound).symm⟩
      · rw [AList.lookup_insert_ne here] at bound
        obtain ⟨k, positive, small, same⟩ := inv.issued _ _ bound
        exact ⟨k, positive, Nat.lt_succ_of_lt small, same⟩
    · intro name other token first second
      by_cases here : name = user <;> by_cases there : other = user
      · exact here.trans there.symm
      · rw [here, AList.lookup_insert] at first
        rw [AList.lookup_insert_ne there, ← first] at second
        exact (unused second).elim
      · rw [there, AList.lookup_insert] at second
        rw [AList.lookup_insert_ne here, ← second] at first
        exact (unused first).elim
      · rw [AList.lookup_insert_ne here] at first
        rw [AList.lookup_insert_ne there] at second
        exact inv.injective _ _ _ first second
    · intro grant member
      have source := inv.sources grant member
      simp only [Source, inv.isolation, perUpstream] at source ⊢
      obtain ⟨name, token⟩ := grant
      cases name with
      | none => exact source
      | some name =>
        have known : name ≠ user := by
          rintro rfl
          simp [Kept, found] at source
        exact (AList.lookup_insert_ne known).trans source

/-- The rule for one more grant. -/
theorem granting (inv : Invariant issue mode granted m) (source : m.Source issue (user, token))
    (law : ∀ earlier ∈ granted, Law mode earlier (user, token)) :
    Invariant issue mode (granted ++ [(user, token)]) m :=
  { inv with
    sources := by simpa [or_imp, forall_and] using ⟨fun a b h => inv.sources (a, b) h, source⟩
    law := List.pairwise_append.mpr ⟨inv.law, List.pairwise_singleton _ _, by simpa using law⟩ }

theorem source_shared (inv : Invariant issue .shared granted m) :
    m.Source issue earlier ↔ earlier.2 = m.defaultToken := by
  rw [Source, inv.isolation]

theorem source_perQuery (inv : Invariant issue .perQuery granted m) :
    m.Source issue earlier ↔ ∃ k < m.issued, earlier.2 = issue k := by
  rw [Source, inv.isolation]

theorem source_perUpstream (inv : Invariant issue .perUpstream granted m) :
    m.Source issue earlier ↔ m.Kept earlier.1 earlier.2 := by
  rw [Source, inv.isolation]

/-- Every call issues one more token. -/
theorem issue_next (inv : Invariant issue .perQuery granted m) :
    Invariant issue .perQuery granted { m with issued := m.issued + 1 } where
  isolation := inv.isolation
  default := ⟨inv.default.1, Nat.succ_pos _⟩
  issued user token bound := by
    obtain ⟨k, positive, small, same⟩ := inv.issued _ _ bound
    exact ⟨k, positive, Nat.lt_succ_of_lt small, same⟩
  injective := inv.injective
  sources earlier member := by
    obtain ⟨k, small, same⟩ := inv.source_perQuery.mp (inv.sources earlier member)
    rw [Source, inv.isolation]
    exact ⟨k, Nat.lt_succ_of_lt small, same⟩
  law := inv.law

theorem step (inv : Invariant issue mode granted m) (distinct : Function.Injective issue)
    (step : Step issue m grant next) : Invariant issue mode (granted ++ [grant]) next := by
  obtain ⟨user⟩ := step
  cases mode with
  | shared =>
    have eq : isolationToken issue m user = (m.defaultToken, m) := by
      simp only [isolationToken, inv.isolation]
    rw [eq]
    exact inv.granting (inv.source_shared.mpr rfl) fun earlier member =>
      inv.source_shared.mp (inv.sources earlier member)
  | perQuery =>
    have eq : isolationToken issue m user =
        (issue m.issued, { m with issued := m.issued + 1 }) := by
      simp only [isolationToken, inv.isolation]
    rw [eq]
    refine inv.issue_next.granting (inv.issue_next.source_perQuery.mpr
      ⟨m.issued, Nat.lt_succ_self _, rfl⟩) fun earlier member same => ?_
    obtain ⟨k, small, origin⟩ := inv.source_perQuery.mp (inv.sources earlier member)
    exact Nat.ne_of_gt small (distinct (same.symm.trans origin))
  | perUpstream =>
    have settled : Invariant issue .perUpstream granted (isolationToken issue m user).2 ∧
        (isolationToken issue m user).2.Kept user (isolationToken issue m user).1 := by
      simp only [isolationToken, inv.isolation]
      cases user with
      | none => exact ⟨inv, rfl⟩
      | some user => exact inv.entryOrInsert distinct rfl user
    obtain ⟨kept, here⟩ := settled
    exact kept.granting (kept.source_perUpstream.mpr here) fun earlier member =>
      kept.kept_iff distinct (kept.source_perUpstream.mp (kept.sources earlier member)) here

end Invariant

theorem run_invariant (distinct : Function.Injective issue)
    (run : Run (Step issue) (new issue mode) granted m) : Invariant issue mode granted m :=
  run.invariant (Invariant issue mode) (.new issue mode)
    fun _ _ _ _ _ inv step => inv.step distinct step

/-- The map has the usernames that were asked for, each once, and a token was issued for
each of them; only `perUpstream` keeps any. -/
structure Remembers (mode : Isolation) (granted : List (Option String × τ)) (m : TorManager τ) :
    Prop where
  isolation : m.isolation = mode
  keys : ∀ user, user ∈ m.perUpstream ↔ mode = .perUpstream ∧ ∃ token, (some user, token) ∈ granted
  issued : m.issued = 1 + mode.issues granted.length m.perUpstream.keys.length

theorem Remembers.step {m : TorManager τ} (inv : Remembers mode granted m)
    (step : Step issue m grant next) : Remembers mode (granted ++ [grant]) next := by
  obtain ⟨user⟩ := step
  obtain ⟨rfl, keys, issued⟩ := inv
  rcases m with ⟨mode, default, map, count⟩
  cases mode with
  | shared => exact ⟨rfl, by simpa [isolationToken] using keys, issued⟩
  | perQuery =>
    refine ⟨rfl, by simpa [isolationToken] using keys, ?_⟩
    simp only [isolationToken, Isolation.issues, List.length_append, List.length_singleton] at issued ⊢
    omega
  | perUpstream =>
    cases user with
    | none => exact ⟨rfl, by simpa [isolationToken] using keys, issued⟩
    | some user =>
      simp only [isolationToken, entryOrInsert]
      cases found : map.lookup user with
      | some token =>
        refine ⟨rfl, fun other => ?_, issued⟩
        have known : user ∈ map := AList.lookup_isSome.mp (by rw [found]; rfl)
        have asked := ((keys user).mp known).2
        have before := keys other
        simp only [true_and] at before ⊢
        rw [before]
        constructor
        · rintro ⟨token, member⟩
          exact ⟨token, List.mem_append_left _ member⟩
        · rintro ⟨other, member⟩
          rcases List.mem_append.mp member with old | new
          · exact ⟨other, old⟩
          · cases List.mem_singleton.mp new
            exact asked
      | none =>
        have new : user ∉ map := AList.lookup_eq_none.mp found
        refine ⟨rfl, fun other => ?_, ?_⟩
        · have before := keys other
          simp only [true_and] at before ⊢
          rw [AList.mem_insert, before]
          simp only [List.mem_append, List.mem_singleton, Prod.mk.injEq, Option.some.injEq]
          constructor
          · intro known
            rcases known with rfl | ⟨token, member⟩
            · exact ⟨_, .inr ⟨rfl, rfl⟩⟩
            · exact ⟨token, .inl member⟩
          · rintro ⟨token, old | ⟨rfl, -⟩⟩
            · exact .inr ⟨token, old⟩
            · exact .inl rfl
        · simp only [Isolation.issues, AList.keys_insert, List.length_cons, List.erase_of_not_mem
            (fun member => new (AList.mem_keys.mpr member))] at issued ⊢
          omega

theorem run_remembers (run : Run (Step issue) (new issue mode) granted m) :
    Remembers mode granted m :=
  run.invariant (Remembers mode) ⟨rfl, by simp [new], by cases mode <;> rfl⟩
    fun _ _ _ _ _ inv step => inv.step step

end TorManager

structure BootstrapSnapshot where
  ready : Bool
  fraction : Single
  blocked : Option String

structure BootstrapState where
  ready : Bool := false
  fracPermille : UInt32 := 0
  blocked : Option String := none

def BootstrapState.store (snap : BootstrapSnapshot) : BootstrapState :=
  ⟨snap.ready, ((snap.fraction.clamp (.finite 0) (.finite 1)).scale 1000).toUInt32, snap.blocked⟩

def BootstrapState.snapshot (state : BootstrapState) : BootstrapSnapshot :=
  ⟨state.ready, (Single.ofUInt32 state.fracPermille).divide 1000, state.blocked⟩

/-- How far a reading says that the bootstrap is; what is no number says nothing. -/
def progress : Single → ℚ
  | .nan => 0
  | .infinite true => 0
  | .infinite false => 1
  | .finite q => max 0 (min 1 q)

end Tord
