import Tord.Lib.Transition

/-! Programs that send requests to their environment and continue with its replies.
A program is a tree: a result, or a request with one continuation for each reply.
Three readings are given and related: the paths of events a program can take, its
run against a deterministic environment, and rely-guarantee contracts. -/
namespace Interaction

open Transition

variable {Op : Type} {Res : Op → Type} {α β σ τ ε : Type}

inductive Prog (Res : Op → Type) (α : Type) where
  | pure (value : α)
  | request (op : Op) (next : Res op → Prog Res α)

namespace Prog

def bind : Prog Res α → (α → Prog Res β) → Prog Res β
  | .pure value, f => f value
  | .request op next, f => .request op (fun reply => (next reply).bind f)

instance : Monad (Prog Res) where
  pure := .pure
  bind := bind

def perform (op : Op) : Prog Res (Res op) := .request op .pure

@[simp] theorem pure_bind (value : α) (f : α → Prog Res β) :
    (Prog.pure value : Prog Res α) >>= f = f value := rfl

@[simp] theorem request_bind (op : Op) (next : Res op → Prog Res α) (f : α → Prog Res β) :
    Prog.request op next >>= f = .request op (fun reply => next reply >>= f) := rfl

theorem bind_pure (p : Prog Res α) : p >>= Prog.pure = p := by
  induction p with
  | pure value => rfl
  | request op next ih => simp only [request_bind, ih]

theorem bind_assoc (p : Prog Res α) (f : α → Prog Res β) (g : β → Prog Res γ) :
    p >>= f >>= g = p >>= fun value => f value >>= g := by
  induction p with
  | pure value => rfl
  | request op next ih => simp only [request_bind, ih]

instance : LawfulMonad (Prog Res) :=
  LawfulMonad.mk' (Prog Res) bind_pure (fun _ _ => rfl) bind_assoc

end Prog

/-- One exchange: the request that was sent and the reply it got. -/
abbrev Event (Res : Op → Type) := Sigma Res

abbrev History (Res : Op → Type) := List (Event Res)

inductive Exchange : Prog Res α → Event Res → Prog Res α → Prop where
  | reply : Exchange (.request op next) ⟨op, reply⟩ (next reply)

/-- `Path p h q`: after the exchanges of `h` the program `p` is left with `q`. -/
abbrev Path (p : Prog Res α) (h : History Res) (q : Prog Res α) : Prop := Run Exchange p h q

theorem Path.bind {p q : Prog Res α} (path : Path p h q) (f : α → Prog Res β) :
    Path (p >>= f) h (q >>= f) := by
  induction path with
  | nil => exact .nil
  | cons first _ ih => cases first; exact .cons .reply ih

theorem Path.extend {p : Prog Res α} (path : Path p h (.request op next)) (reply : Res op) :
    Path p (h ++ [⟨op, reply⟩]) (next reply) :=
  path.snoc .reply

theorem Path.cons_inv {p q : Prog Res α} (path : Path p (⟨op, reply⟩ :: h) q) :
    ∃ next, p = .request op next ∧ Path (next reply) h q := by
  cases path with
  | cons first rest => cases first; exact ⟨_, rfl, rest⟩

theorem Path.pure_inv {value : α} (path : Path (.pure value : Prog Res α) h q) :
    h = [] ∧ q = .pure value := by
  cases path with
  | nil => exact ⟨rfl, rfl⟩
  | cons first _ => cases first

/-- A path of a sequence to its result goes through a result of the first program. -/
theorem Path.of_bind {p : Prog Res α} {f : α → Prog Res β} (path : Path (p >>= f) h (.pure value)) :
    ∃ front back middle, h = front ++ back ∧ Path p front (.pure middle) ∧
      Path (f middle) back (.pure value) := by
  induction p generalizing h with
  | pure middle => exact ⟨[], h, middle, rfl, .nil, path⟩
  | request op next ih =>
    cases path with
    | cons first rest =>
      cases first
      obtain ⟨front, back, middle, rfl, before, after⟩ := ih _ rest
      exact ⟨_ :: front, back, middle, rfl, .cons .reply before, after⟩

/-- A path of a sequence is still in the first program, or goes through a result of it. -/
theorem Path.bind_cases {p : Prog Res α} {f : α → Prog Res β} (path : Path (p >>= f) h r) :
    (∃ op next, Path p h (.request op next) ∧ r = .request op next >>= f) ∨
    ∃ front back middle, h = front ++ back ∧ Path p front (.pure middle) ∧ Path (f middle) back r := by
  induction p generalizing h with
  | pure middle => exact .inr ⟨[], h, middle, rfl, .nil, path⟩
  | request op next ih =>
    cases path with
    | nil => exact .inl ⟨op, next, .nil, rfl⟩
    | cons first rest =>
      cases first
      rcases ih _ rest with ⟨op', next', before, rfl⟩ | ⟨front, back, middle, rfl, before, after⟩
      · exact .inl ⟨op', next', .cons .reply before, rfl⟩
      · exact .inr ⟨_ :: front, back, middle, rfl, .cons .reply before, after⟩

def Prog.Uses (allowed : Op → Prop) : Prog Res α → Prop
  | .pure _ => True
  | .request op next => allowed op ∧ ∀ reply, (next reply).Uses allowed

theorem Prog.Uses.bind {allowed : Op → Prop} {p : Prog Res α} {f : α → Prog Res β}
    (first : p.Uses allowed) (rest : ∀ value, (f value).Uses allowed) :
    (p >>= f).Uses allowed := by
  induction p with
  | pure value => exact rest value
  | request op next ih => exact ⟨first.1, fun reply => ih reply (first.2 reply)⟩

theorem Prog.Uses.path {allowed : Op → Prop} {p q : Prog Res α} (uses : p.Uses allowed)
    (path : Path p h q) : ∀ event ∈ h, allowed event.1 := by
  induction path with
  | nil => simp
  | cons first _ ih =>
    cases first
    rw [List.forall_mem_cons]
    exact ⟨uses.1, ih (uses.2 _)⟩

/-- The environment answers from a state of its own, or not at all; the run stops at
the first request without an answer, which is returned in place of a result. -/
def Prog.run (answer : (op : Op) → σ → Option (Res op × σ)) : Prog Res α → σ → (α ⊕ Op) × σ
  | .pure value, s => (.inl value, s)
  | .request op next, s =>
    match answer op s with
    | some (reply, s') => (next reply).run answer s'
    | none => (.inr op, s)

section Run

variable {answer : (op : Op) → σ → Option (Res op × σ)}

@[simp] theorem run_pure (value : α) (s : σ) :
    (Prog.pure value : Prog Res α).run answer s = (.inl value, s) := rfl

theorem run_bind (p : Prog Res α) (f : α → Prog Res β) (s : σ) :
    (p >>= f).run answer s =
      match p.run answer s with
      | (.inl value, s') => (f value).run answer s'
      | (.inr op, s') => (.inr op, s') := by
  induction p generalizing s with
  | pure value => rfl
  | request op next ih =>
    simp only [Prog.request_bind, Prog.run]
    cases answer op s with
    | none => rfl
    | some result => exact ih result.1 result.2

def Answered (answer : (op : Op) → σ → Option (Res op × σ)) : σ → History Res → σ → Prop
  | s, [], t => s = t
  | s, ⟨op, reply⟩ :: h, t => ∃ m, answer op s = some (reply, m) ∧ Answered answer m h t

/-- Running the program is running what an answered path leaves of it. -/
theorem run_of_path {p q : Prog Res α} (path : Path p h q) (answered : Answered answer s h t) :
    p.run answer s = q.run answer t := by
  induction path generalizing s with
  | nil => rw [show s = t from answered]
  | cons first _ ih =>
    cases first
    obtain ⟨m, here, rest⟩ := answered
    simp only [Prog.run, here]
    exact ih rest

/-- A run that returns took an answered path. -/
theorem path_of_run {p : Prog Res α} (run : p.run answer s = (.inl value, t)) :
    ∃ h, Path p h (.pure value) ∧ Answered answer s h t := by
  induction p generalizing s with
  | pure result =>
    obtain ⟨same, rfl⟩ := Prod.mk.inj run
    obtain rfl := Sum.inl.inj same
    exact ⟨[], .nil, rfl⟩
  | request op next ih =>
    simp only [Prog.run] at run
    cases answered : answer op s with
    | none =>
      rw [answered] at run
      cases run
    | some result =>
      rw [answered] at run
      obtain ⟨h, path, rest⟩ := ih _ run
      exact ⟨_ :: h, .cons .reply path, _, answered, rest⟩

/-- Two environments that answer alike through a view of the state give the same run. -/
theorem run_view (view : σ → τ) {other : (op : Op) → τ → Option (Res op × τ)}
    (alike : ∀ op s, other op (view s) = (answer op s).map fun r => (r.1, view r.2))
    (p : Prog Res α) (s : σ) :
    p.run other (view s) = ((p.run answer s).1, view (p.run answer s).2) := by
  induction p generalizing s with
  | pure value => rfl
  | request op next ih =>
    simp only [Prog.run, alike op s]
    cases answer op s with
    | none => rfl
    | some result => exact ih result.1 result.2

end Run

/-- What is observed of a history is folded into `σ`. A contract relies on some
replies and demands something of every request. -/
structure Contract (Res : Op → Type) (σ : Type) where
  relies : σ → (op : Op) → Res op → Prop
  demands : σ → Op → Prop
  after : σ → (op : Op) → Res op → σ

namespace Contract

variable {c : Contract Res σ}

def Meets (c : Contract Res σ) (post : α → σ → Prop) : Prog Res α → σ → Prop
  | .pure value, s => post value s
  | .request op next, s => c.demands s op ∧
      ∀ reply, c.relies s op reply → c.Meets post (next reply) (c.after s op reply)

def observe (c : Contract Res σ) (s : σ) (h : History Res) : σ :=
  h.foldl (fun s event => c.after s event.1 event.2) s

@[simp] theorem observe_nil (s : σ) : c.observe s [] = s := rfl

@[simp] theorem observe_append (s : σ) (h k : History Res) :
    c.observe s (h ++ k) = c.observe (c.observe s h) k := by
  simp [observe, List.foldl_append]

@[simp] theorem observe_cons (s : σ) (event : Event Res) (h : History Res) :
    c.observe s (event :: h) = c.observe (c.after s event.1 event.2) h := rfl

def Relied (c : Contract Res σ) : σ → History Res → Prop
  | _, [] => True
  | s, event :: h => c.relies s event.1 event.2 ∧ c.Relied (c.after s event.1 event.2) h

theorem relied_of_unconditional (unconditional : ∀ s op reply, c.relies s op reply)
    (s : σ) (h : History Res) : c.Relied s h := by
  induction h generalizing s with
  | nil => trivial
  | cons event h ih => exact ⟨unconditional _ _ _, ih _⟩

/-- The rule for whole paths: what is left of a program that meets its contract
meets it from the state observed by then. -/
theorem Meets.path {p q : Prog Res α} (meets : c.Meets post p s) (path : Path p h q)
    (relied : c.Relied s h) : c.Meets post q (c.observe s h) := by
  induction path generalizing s with
  | nil => exact meets
  | cons first _ ih =>
    cases first
    exact ih (meets.2 _ relied.1) relied.2

theorem Meets.mono {p : Prog Res α} {post weaker : α → σ → Prop} (meets : c.Meets post p s)
    (implies : ∀ value t, post value t → weaker value t) : c.Meets weaker p s := by
  induction p generalizing s with
  | pure value => exact implies _ _ meets
  | request op next ih => exact ⟨meets.1, fun reply relied => ih reply (meets.2 reply relied)⟩

theorem meets_bind {p : Prog Res α} {f : α → Prog Res β} {post : β → σ → Prop} :
    c.Meets post (p >>= f) s ↔ c.Meets (fun value t => c.Meets post (f value) t) p s := by
  induction p generalizing s with
  | pure value => rfl
  | request op next ih => simp only [Prog.request_bind, Meets, ih]

/-- The sequencing rule for programs that may fail: a failure skips the rest. -/
theorem Meets.andThen {x : ExceptT ε (Prog Res) α} {f : α → ExceptT ε (Prog Res) β}
    {mid : Except ε α → σ → Prop} {post : Except ε β → σ → Prop}
    (first : c.Meets mid x.run s)
    (fails : ∀ e t, mid (.error e) t → post (.error e) t)
    (rest : ∀ value t, mid (.ok value) t → c.Meets post (f value).run t) :
    c.Meets post (x >>= f).run s := by
  rw [ExceptT.run_bind, meets_bind]
  refine first.mono fun result t reached => ?_
  cases result with
  | error e => exact fails e t reached
  | ok value => exact rest value t reached

/-- What is known of the results a program can reach may be added to its postcondition. -/
theorem Meets.strengthen {p : Prog Res α} {post known : α → σ → Prop} (meets : c.Meets post p s)
    (reached : ∀ h value, Path p h (.pure value) → known value (c.observe s h)) :
    c.Meets (fun value t => post value t ∧ known value t) p s := by
  induction p generalizing s with
  | pure value => exact ⟨meets, reached [] value .nil⟩
  | request op next ih =>
    exact ⟨meets.1, fun reply relied => ih reply (meets.2 reply relied)
      fun h value path => reached (⟨op, reply⟩ :: h) value (.cons .reply path)⟩

/-- A program whose requests the contract does not observe keeps any observed state. -/
theorem Meets.unobserved {p : Prog Res α} {allowed : Op → Prop} (uses : p.Uses allowed)
    (demanded : ∀ op, allowed op → c.demands s op)
    (unchanged : ∀ op, allowed op → ∀ reply, c.after s op reply = s)
    (done : ∀ value, post value s) : c.Meets post p s := by
  induction p with
  | pure value => exact done value
  | request op next ih =>
    refine ⟨demanded op uses.1, fun reply _ => ?_⟩
    rw [unchanged op uses.1 reply]
    exact ih reply (uses.2 reply)

/-- A contract on what is asked next, given every exchange so far. -/
def onHistory (demands : History Res → Op → Prop) : Contract Res (History Res) where
  relies _ _ _ := True
  demands := demands
  after h op reply := h ++ [⟨op, reply⟩]

section OnHistory

variable {demands : History Res → Op → Prop}

theorem onHistory_observe (h k : History Res) : (onHistory demands).observe h k = h ++ k := by
  induction k generalizing h with
  | nil => simp
  | cons event k ih =>
    rw [observe_cons, ih]
    simp [onHistory]

theorem Meets.at_path {p q : Prog Res α} (meets : (onHistory demands).Meets post p h)
    (path : Path p k q) : (onHistory demands).Meets post q (h ++ k) := by
  have observed : (onHistory demands).observe h k = h ++ k := onHistory_observe h k
  rw [← observed]
  exact meets.path path (relied_of_unconditional (fun _ _ _ => trivial) _ _)

end OnHistory

end Contract

/-- Whatever `p` exchanges, the other program exchanges its image, up to the same result. -/
def Prog.Maps (f : Event Res → Event Res) : Prog Res α → Prog Res α → Prop
  | .pure value, .pure other => value = other
  | .request op next, .request op' next' => ∀ reply, ∃ reply', f ⟨op, reply⟩ = ⟨op', reply'⟩ ∧
      (next reply).Maps f (next' reply')
  | _, _ => False

section Maps

variable {f : Event Res → Event Res}

/-- A program whose requests are kept maps to itself. -/
theorem Prog.Maps.refl {p : Prog Res α} {allowed : Op → Prop} (uses : p.Uses allowed)
    (kept : ∀ event, allowed event.1 → f event = event) : p.Maps f p := by
  induction p with
  | pure value => rfl
  | request op next ih => exact fun reply => ⟨reply, kept _ uses.1, ih reply (uses.2 reply)⟩

theorem Prog.Maps.bind {p q : Prog Res α} {g h : α → Prog Res β} (maps : p.Maps f q)
    (rest : ∀ value, (g value).Maps f (h value)) : (p >>= g).Maps f (q >>= h) := by
  induction p generalizing q with
  | pure value =>
    cases q with
    | pure other =>
      obtain rfl : value = other := maps
      exact rest value
    | request => exact maps.elim
  | request op next ih =>
    cases q with
    | pure => exact maps.elim
    | request op' next' =>
      intro reply
      obtain ⟨reply', image, later⟩ := maps reply
      exact ⟨reply', image, ih reply later⟩

/-- What is asked next has an image, and so has what is left after the reply. -/
theorem Prog.Maps.request {op : Op} {next : Res op → Prog Res α} {q : Prog Res α}
    (maps : (Prog.request op next).Maps f q) : ∃ op' next', q = .request op' next' ∧
      ∀ reply, ∃ reply', f ⟨op, reply⟩ = ⟨op', reply'⟩ ∧ (next reply).Maps f (next' reply') := by
  cases q with
  | pure => exact maps.elim
  | request op' next' => exact ⟨op', next', rfl, maps⟩

end Maps

end Interaction
