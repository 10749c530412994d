import Tord.Socks.FailClosed
import Tord.Socks.Metered
import Tord.Tor

/-! All connections of the server at once: every interleaving of accepts, of the
handlers' exchanges, of the polls of their splices and of tasks dropped unfinished.
What a client or Tor does is any label; what the daemon does in answer is the state. -/
namespace Tord.Socks

open Interaction Transition

variable {τ : Type} {issue : Nat → τ}

/-- One task of `spawn_connection`: what it has exchanged so far and, until it is
dropped, what it has left to do. -/
structure Task (τ : Type) where
  peer : SocketAddr
  rest : Option (Prog Op.Res (Except Error Unit))
  trace : Trace
  /-- The isolation set on the stream preferences of `TorManager::connect`. -/
  token : Option τ

namespace Task

def spawn (peer : SocketAddr) : Task τ := ⟨peer, some (handle peer).run, [], none⟩

def exchanged (task : Task τ) (op : Op) (reply : op.Res)
    (rest : Prog Op.Res (Except Error Unit)) : Task τ :=
  { task with rest := some rest, trace := task.trace ++ [⟨op, reply⟩] }

def isolated (task : Task τ) (token : τ) : Task τ := { task with token := some token }

def cancelled (task : Task τ) : Task τ := { task with rest := none }

def running (task : Task τ) : Bool :=
  match task.rest with
  | some (.request _ _) => true
  | _ => false

end Task

/-- The row of a handler: its `StreamHandle` is a local of `handle`. -/
inductive Hold where
  | unregistered
  | held (stream : StreamHandle)
  | dropped (stream : StreamHandle)
  deriving DecidableEq

def Hold.after (hold : Hold) : (op : Op) → op.Res → Hold
  | .register _ _ _, stream => .held stream
  | .dropStream stream, _ => .dropped stream
  | _, _ => hold

def Hold.live : Hold → Option StreamHandle
  | .held stream => some stream
  | _ => none

def Hold.stream : Hold → Option StreamHandle
  | .unregistered => none
  | .held stream => some stream
  | .dropped stream => some stream

def holding (h : Trace) : Hold := h.foldl (fun hold event => hold.after event.1 event.2) .unregistered

/-- The handle that is dropped with the task's locals. -/
def Task.live (task : Task τ) : Option StreamHandle :=
  match task.rest with
  | some _ => (holding task.trace).live
  | none => none

namespace Counters

def serve (s : Counters) (started : Nat) : Op → Counters
  | .fetchAdd counter n => { s with metrics := s.metrics.fetchAdd counter n }
  | .register peer target isolation =>
    { s with streams := (s.streams.register peer target isolation started).2 }
  | .dropStream stream => { s with streams := s.streams.dropHandle stream }
  | _ => s

def dropLocals (s : Counters) (task : Task τ) : Counters :=
  match task.live with
  | some stream => { s with streams := s.streams.dropHandle stream }
  | none => s

end Counters

/-- Connection `c` is `tasks[c]`, in order of acceptance. -/
structure Server (τ : Type) where
  counters : Counters := {}
  tor : TorManager τ
  tasks : List (Task τ) := []

inductive Label (τ : Type) where
  | accept (peer : SocketAddr)
  | exchange (c : Nat) (op : Op) (reply : op.Res)
  | isolate (c : Nat) (isoUser : Option String) (token : τ)
  | pollRead (c : Nat) (buf : ReadBuf) (inner : ReadBuf × Poll (Except IoError Unit))
  | pollWrite (c : Nat) (inner : Poll (Except IoError Nat))
  | cancel (c : Nat)

namespace Server

def start (issue : Nat → τ) (mode : Isolation) : Server τ := { tor := .new issue mode }

/-- The registry answers `register` itself, and `connect` resolves the isolation first. -/
def Answers (s : Server τ) (task : Task τ) (started : Nat) : (op : Op) → op.Res → Prop
  | .register peer target isolation, stream =>
    stream = (s.counters.streams.register peer target isolation started).1
  | .connect _ _ _, _ => task.token.isSome
  | _, _ => True

inductive Step (issue : Nat → τ) : Server τ → Label τ → Server τ → Prop where
  | accept : Step issue s (.accept peer) ⟨s.counters, s.tor, s.tasks ++ [.spawn peer]⟩
  | exchange (started : Nat) (here : s.tasks[c]? = some task)
      (pending : task.rest = some (.request op next)) (answers : s.Answers task started op reply) :
      Step issue s (.exchange c op reply)
        ⟨s.counters.serve started op, s.tor, s.tasks.set c (task.exchanged op reply (next reply))⟩
  | isolate (here : s.tasks[c]? = some task)
      (pending : task.rest = some (.request (.connect host port isoUser) next))
      (unset : task.token = none) :
      Step issue s (.isolate c isoUser (s.tor.isolationToken issue isoUser).1)
        ⟨s.counters, (s.tor.isolationToken issue isoUser).2,
          s.tasks.set c (task.isolated (s.tor.isolationToken issue isoUser).1)⟩
  | pollRead {inner : ReadBuf × Poll (Except IoError Unit)} (here : s.tasks[c]? = some task)
      (pending : task.rest = some (.request (.copyBidirectional entry) next))
      (promised : buf.Polled inner) :
      Step issue s (.pollRead c buf inner) ⟨s.counters.pollRead entry buf inner, s.tor, s.tasks⟩
  | pollWrite {inner : Poll (Except IoError Nat)} (here : s.tasks[c]? = some task)
      (pending : task.rest = some (.request (.copyBidirectional entry) next)) :
      Step issue s (.pollWrite c inner) ⟨s.counters.pollWrite entry inner, s.tor, s.tasks⟩
  | cancel (here : s.tasks[c]? = some task) (running : task.running) :
      Step issue s (.cancel c) ⟨s.counters.dropLocals task, s.tor, s.tasks.set c task.cancelled⟩

inductive Evolves (c : Nat) : Label τ → Task τ → Task τ → Prop where
  | same (unexchanged : ∀ op reply, l ≠ .exchange c op reply)
      (unasked : ∀ isoUser token, l ≠ .isolate c isoUser token) : Evolves c l task task
  | exchange (pending : task.rest = some (.request op next)) :
      Evolves c (.exchange c op reply) task (task.exchanged op reply (next reply))
  | isolate (pending : task.rest = some (.request (.connect host port isoUser) next))
      (unset : task.token = none) : Evolves c (.isolate c isoUser token) task (task.isolated token)
  | cancel : Evolves c (.cancel c) task task.cancelled

theorem Step.persists {c : Nat} (step : Step issue s l t) (here : s.tasks[c]? = some before) :
    ∃ after, t.tasks[c]? = some after ∧ Evolves c l before after := by
  have replaced {d : Nat} {task after : Task τ} (there : s.tasks[d]? = some task)
      (mine : d = c → Evolves c l task after) (others : d ≠ c → Evolves c l before before) :
      ∃ after', (s.tasks.set d after)[c]? = some after' ∧ Evolves c l before after' := by
    by_cases same : d = c
    · subst same
      obtain ⟨bound, -⟩ := List.getElem?_eq_some_iff.mp here
      obtain rfl := Option.some.inj (here.symm.trans there)
      exact ⟨after, List.getElem?_set_self bound, mine rfl⟩
    · exact ⟨before, by rwa [List.getElem?_set_ne same], others same⟩
  -- the impossible labels are left to `cases`, since `nofun` is slow on them
  cases step with
  | accept =>
    obtain ⟨bound, -⟩ := List.getElem?_eq_some_iff.mp here
    refine ⟨before, by rwa [List.getElem?_append_left bound], .same ?_ ?_⟩
    · intro _ _ same
      cases same
    · intro _ _ same
      cases same
  | exchange started there pending answers =>
    apply replaced there
    · rintro rfl
      exact .exchange pending
    · refine fun other => .same ?_ fun _ _ same => by cases same
      rintro _ _ ⟨⟩
      exact other rfl
  | isolate there pending unset =>
    apply replaced there
    · rintro rfl
      exact .isolate pending unset
    · refine fun other => .same (fun _ _ same => by cases same) ?_
      rintro _ _ ⟨⟩
      exact other rfl
  | pollRead there pending promised =>
    exact ⟨before, here, .same (fun _ _ same => by cases same) fun _ _ same => by cases same⟩
  | pollWrite there pending =>
    exact ⟨before, here, .same (fun _ _ same => by cases same) fun _ _ same => by cases same⟩
  | cancel there running =>
    apply replaced there
    · rintro rfl
      exact .cancel
    · exact fun _ => .same (fun _ _ same => by cases same) fun _ _ same => by cases same

/-- Every task after a step was there before, or was just spawned. -/
theorem Step.origin {c : Nat} (step : Step issue s l t) (found : t.tasks[c]? = some after) :
    (∃ before, s.tasks[c]? = some before ∧ Evolves c l before after) ∨
    ∃ peer, l = .accept peer ∧ c = s.tasks.length ∧ after = .spawn peer := by
  cases here : s.tasks[c]? with
  | some before =>
    obtain ⟨after', found', evolves⟩ := step.persists here
    obtain rfl := Option.some.inj (found.symm.trans found')
    exact .inl ⟨before, rfl, evolves⟩
  | none =>
    have beyond := List.getElem?_eq_none_iff.mp here
    obtain ⟨bound, -⟩ := List.getElem?_eq_some_iff.mp found
    cases step with
    | @accept _ peer =>
      rw [List.length_append, List.length_singleton] at bound
      obtain rfl : c = s.tasks.length := by omega
      refine .inr ⟨peer, rfl, rfl, ?_⟩
      rw [List.getElem?_concat_length] at found
      exact (Option.some.inj found).symm
    | pollRead | pollWrite => exact absurd bound (Nat.not_lt.mpr beyond)
    | _ =>
      rw [List.length_set] at bound
      exact absurd bound (Nat.not_lt.mpr beyond)

/-- The rule for what holds of every task, whatever the others do. -/
theorem tasks_invariant (property : Task τ → Prop)
    (spawned : ∀ peer, property (.spawn peer))
    (evolved : ∀ c l before after, property before → Evolves c l before after → property after)
    (run : Run (Step issue) (start issue mode) ls s) :
    ∀ (c : Nat) (task : Task τ), s.tasks[c]? = some task → property task := by
  refine run.invariant (fun _ (s : Server τ) =>
    ∀ (c : Nat) (task : Task τ), s.tasks[c]? = some task → property task) (by simp [start]) ?_
  intro _ s l t _ inv step c after found
  rcases step.origin found with ⟨before, here, evolves⟩ | ⟨peer, -, -, rfl⟩
  · exact evolved c l before after (inv c before here) evolves
  · exact spawned peer

def Reached (task : Task τ) : Prop :=
  ∃ p, Path (handle task.peer).run task.trace p ∧ ∀ rest, task.rest = some rest → rest = p

theorem reached {c : Nat} (run : Run (Step issue) (start issue mode) ls s)
    (here : s.tasks[c]? = some task) : Reached task := by
  refine tasks_invariant Reached ?_ ?_ run c task here
  · exact fun peer => ⟨_, .nil, by rintro _ ⟨⟩; rfl⟩
  · rintro c l before after ⟨p, path, left⟩ evolves
    cases evolves with
    | same => exact ⟨p, path, left⟩
    | exchange pending =>
      obtain rfl := left _ pending
      exact ⟨_, path.extend _, by rintro _ ⟨⟩; rfl⟩
    | isolate => exact ⟨p, path, left⟩
    | cancel => exact ⟨p, path, nofun⟩

/-- Asks for nothing whose answer depends on what the others did. -/
def Free (h : Trace) : Prop := ∀ event ∈ h, match event.1 with
  | .register _ _ _ | .connect _ _ _ => False
  | _ => True

def serveAll (s : Counters) (h : Trace) : Counters := h.foldl (fun s event => s.serve 0 event.1) s

def exchanges (c : Nat) (h : Trace) : List (Label τ) := h.map fun event => .exchange c event.1 event.2

theorem run_exchanges {s : Server τ} {c : Nat} (path : Path p h q) (free : Free h)
    (here : s.tasks[c]? = some ⟨peer, some p, trace, token⟩) :
    Run (Step issue) s (exchanges c h)
      ⟨serveAll s.counters h, s.tor, s.tasks.set c ⟨peer, some q, trace ++ h, token⟩⟩ := by
  induction path generalizing s trace with
  | nil =>
    obtain ⟨bound, same⟩ := List.getElem?_eq_some_iff.mp here
    rw [List.append_nil, ← same, List.set_getElem_self]
    exact .nil
  | @cons p event _ h q first _ ih =>
    cases first with
    | @reply op next reply =>
      obtain ⟨bound, -⟩ := List.getElem?_eq_some_iff.mp here
      have answers : s.Answers (⟨peer, some (.request op next), trace, token⟩ : Task τ) 0 op reply := by
        have := free _ (.head _)
        cases op <;> trivial
      refine .cons (.exchange 0 here rfl answers) ?_
      let next : Task τ := ⟨peer, some (next reply), trace ++ [⟨op, reply⟩], token⟩
      have rest := @ih _ ⟨s.counters.serve 0 op, s.tor, s.tasks.set c next⟩
        (fun event member => free event (.tail _ member)) (List.getElem?_set_self bound)
      rw [List.append_assoc, List.set_set] at rest
      exact rest

/-- A whole connection, from its accept to wherever its handler is. -/
theorem run_connection {s : Server τ} {front back : Trace}
    (path : Path (handle peer).run (front ++ ⟨.register peer target isoUser, stream⟩ ::
      ⟨.connect host port isoUser, opened⟩ :: back) q)
    (before : Free front) (after : Free back)
    (registered : stream = ((serveAll s.counters front).streams.register peer target isoUser 0).1) :
    Run (Step issue) s
      (.accept peer :: (exchanges s.tasks.length front ++
        .exchange s.tasks.length (.register peer target isoUser) stream ::
        .isolate s.tasks.length isoUser (s.tor.isolationToken issue isoUser).1 ::
        .exchange s.tasks.length (.connect host port isoUser) opened :: exchanges s.tasks.length back))
      { counters := serveAll ((serveAll s.counters front).serve 0 (.register peer target isoUser)) back
        tor := (s.tor.isolationToken issue isoUser).2
        tasks := s.tasks ++ [⟨peer, some q, front ++ ⟨.register peer target isoUser, stream⟩ ::
          ⟨.connect host port isoUser, opened⟩ :: back, some (s.tor.isolationToken issue isoUser).1⟩] } := by
  have last (task : Task τ) : (s.tasks ++ [task])[s.tasks.length]? = some task :=
    List.getElem?_concat_length
  have replace (task other : Task τ) :
      (s.tasks ++ [task]).set s.tasks.length other = s.tasks ++ [other] := by simp
  obtain ⟨m, path, left⟩ := path.split
  obtain ⟨next, rfl, registering⟩ := Path.cons_inv left
  obtain ⟨following, pending, rest⟩ := Path.cons_inv registering
  have handshake := @run_exchanges τ issue _ _ _ peer [] none
    ⟨s.counters, s.tor, s.tasks ++ [.spawn peer]⟩ _ path before (last _)
  have connected := @run_exchanges τ issue _ _ _ peer
    (front ++ [⟨.register peer target isoUser, stream⟩, ⟨.connect host port isoUser, opened⟩])
    (some (s.tor.isolationToken issue isoUser).1)
    ⟨(serveAll s.counters front).serve 0 (.register peer target isoUser),
      (s.tor.isolationToken issue isoUser).2, s.tasks ++ [_]⟩ _ rest after (last _)
  simp only [replace, List.append_assoc] at handshake connected
  refine .cons .accept (handshake.append ?_)
  refine .cons (.exchange 0 (last _) rfl registered) ?_
  simp only [replace, Task.exchanged, pending]
  refine .cons (.isolate (last _) rfl rfl) ?_
  simp only [replace, Task.isolated]
  refine .cons (.exchange 0 (last _) rfl rfl) ?_
  simp only [replace, Task.exchanged, List.append_assoc]
  exact connected

end Server

def knock : Trace := [⟨.readExact 2, .ok (.of [5, 1])⟩, ⟨.readExact 1, .ok (.of [0])⟩,
  ⟨.writeAll [5, 0], .ok ()⟩, ⟨.readExact 4, .ok (.of [5, 1, 0, 1])⟩,
  ⟨.readExact 4, .ok (.of [1, 1, 1, 1])⟩, ⟨.readExact 2, .ok (.of [0, 80])⟩,
  ⟨.fetchAdd .connectsTotal 1, ()⟩]

theorem path_knock (peer : SocketAddr) : Path (handle peer).run knock
    (withStream peer "1.1.1.1:80" none (proxy "1.1.1.1" 80 none)).run :=
  .cons .reply (.cons .reply (.cons .reply (.cons .reply (.cons .reply (.cons .reply
    (.cons .reply .nil))))))

theorem free_knock : Server.Free knock := by simp [Server.Free, knock]

/-- Its circuit fails. -/
theorem path_knock_failed (peer : SocketAddr) (stream : StreamHandle) (e : Error) :
    Path (handle peer).run (knock ++ ⟨.register peer "1.1.1.1:80" none, stream⟩ ::
      ⟨.connect "1.1.1.1" 80 none, .error e⟩ :: [⟨.fetchAdd .connectsFailed 1, ()⟩,
        ⟨.writeAll (replyBytes repGeneralFailure), .ok ()⟩, ⟨.dropStream stream, ()⟩])
      (.pure (.error (e.context "Tor CONNECT failed — failing closed"))) :=
  (path_knock peer).append (.cons .reply (.cons .reply (.cons .reply (.cons .reply
    (.cons .reply .nil)))))

end Tord.Socks
