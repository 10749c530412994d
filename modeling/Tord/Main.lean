import Tord.Socks.Connections

/-! `main`'s `run`: two accept loops and SIGTERM joined by one `select!`, with the
connection handlers as local tasks. When a branch of the select ends, `run` returns and
every task that is still there is dropped. -/
namespace Tord

open Interaction Transition Socks

variable {τ : Type} {issue : Nat → τ} {listen : SocketAddr} {path : String}

/-- Where an accept loop awaits: its bind, its listener, or the pause after a failed accept. -/
inductive AcceptLoop where
  | binding | accepting | pausing
  deriving DecidableEq, Repr

/-- The branch of the select that ended; a loop only ends with an error. -/
inductive Exit where
  | sigterm
  | socks (e : Error)
  | control (e : Error)
  deriving DecidableEq

structure Daemon (τ : Type) where
  socks : AcceptLoop := .binding
  control : AcceptLoop := .binding
  server : Server τ
  exit : Option Exit := none

/-- What `run` sees happen. `turn` is a step that one handler task takes by itself. -/
inductive Happening (τ : Type) where
  | socksBind (result : Except IoError Unit)
  | controlBind (result : Except IoError Unit)
  | socksAccept (result : Except IoError SocketAddr)
  | socksWake
  | controlAccept (result : Except IoError Unit)
  | controlDone (result : Except Error Unit)
  | turn (l : Label τ)
  | sigterm

def Socks.Label.isTurn : Label τ → Bool
  | .accept _ => false
  | .cancel _ => false
  | _ => true

/-- The local set drops its tasks. -/
def Socks.Server.dropped (s : Server τ) : Server τ :=
  { s with
    counters := s.tasks.foldl Counters.dropLocals s.counters
    tasks := s.tasks.map fun task => if task.running then task.cancelled else task }

namespace Daemon

def start (issue : Nat → τ) (mode : Isolation) : Daemon τ := { server := .start issue mode }

def returned (d : Daemon τ) (exit : Exit) : Daemon τ :=
  { d with exit := some exit, server := d.server.dropped }

/-- `SocksServer::serve`. -/
def socksBound (listen : SocketAddr) (d : Daemon τ) : Except IoError Unit → Daemon τ
  | .ok () => { d with socks := .accepting }
  | .error e => d.returned (.socks ((Error.ofIo e).context s!"binding SOCKS listener on {listen.toString}"))

/-- A failed accept only makes the SOCKS loop pause. -/
def socksAccepted (d : Daemon τ) : Except IoError SocketAddr → Daemon τ
  | .ok peer => { d with server := { d.server with tasks := d.server.tasks ++ [.spawn peer] } }
  | .error _ => { d with socks := .pausing }

/-- `control::serve`. -/
def controlBound (path : String) (d : Daemon τ) : Except IoError Unit → Daemon τ
  | .ok () => { d with control := .accepting }
  | .error e => d.returned (.control ((Error.ofIo e).context s!"binding control socket {path}"))

/-- `listener.accept().await.context("control accept")?` -/
def controlAccepted (d : Daemon τ) : Except IoError Unit → Daemon τ
  | .ok () => d
  | .error e => d.returned (.control ((Error.ofIo e).context "control accept"))

inductive Step (issue : Nat → τ) (listen : SocketAddr) (path : String) :
    Daemon τ → Happening τ → Daemon τ → Prop where
  | socksBind (serving : d.exit = none) (here : d.socks = .binding) :
      Step issue listen path d (.socksBind result) (d.socksBound listen result)
  | controlBind (serving : d.exit = none) (here : d.control = .binding) :
      Step issue listen path d (.controlBind result) (d.controlBound path result)
  | socksAccept (serving : d.exit = none) (here : d.socks = .accepting) :
      Step issue listen path d (.socksAccept result) (d.socksAccepted result)
  | socksWake (serving : d.exit = none) (here : d.socks = .pausing) :
      Step issue listen path d .socksWake { d with socks := .accepting }
  | controlAccept (serving : d.exit = none) (here : d.control = .accepting) :
      Step issue listen path d (.controlAccept result) (d.controlAccepted result)
  | controlDone (serving : d.exit = none) : Step issue listen path d (.controlDone result) d
  | turn (serving : d.exit = none) (own : l.isTurn) (moves : Server.Step issue d.server l s) :
      Step issue listen path d (.turn l) { d with server := s }
  | sigterm (serving : d.exit = none) :
      Step issue listen path d .sigterm (d.returned .sigterm)

def accepted (es : List (Happening τ)) : List SocketAddr := es.filterMap fun
  | .socksAccept (.ok peer) => some peer
  | _ => none

/-- Serving: `run` has not returned, no handler was dropped, and the handlers are those
of the accepted connections, one each. -/
structure Serving (es : List (Happening τ)) (d : Daemon τ) : Prop where
  up : d.exit = none
  kept : ∀ task ∈ d.server.tasks, task.rest.isSome
  handed : d.server.tasks.map (·.peer) = accepted es

/-- Both listeners bound and nobody sent SIGTERM. -/
structure Uninterrupted (es : List (Happening τ)) : Prop where
  unsignalled : .sigterm ∉ es
  socksBound : ∀ e, .socksBind (.error e) ∉ es
  controlBound : ∀ e, .controlBind (.error e) ∉ es

theorem accepted_snoc (es : List (Happening τ)) (e : Happening τ) :
    accepted (es ++ [e]) = accepted es ++ accepted [e] := by simp [accepted]

theorem map_peer_set {tasks : List (Socks.Task τ)} {c : Nat} (here : tasks[c]? = some before)
    (same : after.peer = before.peer) : (tasks.set c after).map (·.peer) = tasks.map (·.peer) := by
  obtain ⟨bound, rfl⟩ := List.getElem?_eq_some_iff.mp here
  have inside : c < (tasks.map (·.peer)).length := by rwa [List.length_map]
  have unchanged := List.set_getElem_self inside
  rw [List.getElem_map] at unchanged
  rw [List.map_set, same, unchanged]

/-- A handler's own step keeps every handler and its peer. -/
theorem turn_tasks {s t : Server τ} (own : l.isTurn) (step : Server.Step issue s l t)
    (kept : ∀ task ∈ s.tasks, task.rest.isSome) :
    (∀ task ∈ t.tasks, task.rest.isSome) ∧ t.tasks.map (·.peer) = s.tasks.map (·.peer) := by
  have replaced {c : Nat} {before after : Socks.Task τ} (here : s.tasks[c]? = some before)
      (alive : after.rest.isSome) (same : after.peer = before.peer) :
      (∀ task ∈ s.tasks.set c after, task.rest.isSome) ∧
        (s.tasks.set c after).map (·.peer) = s.tasks.map (·.peer) := by
    refine ⟨fun task member => ?_, map_peer_set here same⟩
    rcases List.mem_or_eq_of_mem_set member with old | rfl
    · exact kept task old
    · exact alive
  cases step with
  | accept => cases own
  | exchange started here pending answers => exact replaced here rfl rfl
  | isolate here pending unset => exact replaced here (by simp [Socks.Task.isolated, pending]) rfl
  | pollRead | pollWrite => exact ⟨kept, rfl⟩
  | cancel => cases own

theorem serving_step (serving : Serving es d) (step : Step issue listen path d e d')
    (uninterrupted : Uninterrupted (es ++ [e]))
    (calm : ∀ error, e ≠ .controlAccept (.error error)) : Serving (es ++ [e]) d' := by
  have idle (silent : accepted [e] = []) : Serving (es ++ [e]) d := by
    refine ⟨serving.up, serving.kept, ?_⟩
    rw [accepted_snoc, silent, List.append_nil, serving.handed]
  cases step with
  | @socksBind _ result up here =>
    cases result with
    | ok _ => exact { idle rfl with }
    | error error => exact (uninterrupted.socksBound error (by simp)).elim
  | @controlBind _ result up here =>
    cases result with
    | ok _ => exact { idle rfl with }
    | error error => exact (uninterrupted.controlBound error (by simp)).elim
  | @socksAccept _ result up here =>
    cases result with
    | ok peer =>
      refine ⟨serving.up, ?_, ?_⟩
      · simpa [socksAccepted, or_imp, forall_and, Socks.Task.spawn] using serving.kept
      · rw [accepted_snoc, ← serving.handed]
        simp [socksAccepted, accepted, Socks.Task.spawn]
    | error error => exact { idle rfl with }
  | socksWake => exact { idle rfl with }
  | @controlAccept _ result up here =>
    cases result with
    | ok _ => exact idle rfl
    | error error => exact (calm error rfl).elim
  | controlDone => exact idle rfl
  | turn up own moves =>
    obtain ⟨kept, peers⟩ := turn_tasks own moves serving.kept
    exact ⟨serving.up, kept, peers.trans (idle rfl).handed⟩
  | sigterm => exact (uninterrupted.unsignalled (by simp)).elim

/-- Once `run` has returned nothing happens any more. -/
theorem exit_of_controlAccept (run : Run (Step issue listen path) d es d')
    (failed : .controlAccept (.error e) ∈ es) : d'.exit ≠ none := by
  obtain ⟨front, back, m, n, -, -, here, rest⟩ := run.split_at failed
  cases here
  cases rest with
  | nil => simp [controlAccepted, returned]
  | cons next _ => cases next <;> simp_all [controlAccepted, returned]

/-- `run` serves exactly as long as no accept on the control socket fails. -/
theorem daemon_serves (run : Run (Step issue listen path) (start issue mode) es d)
    (uninterrupted : Uninterrupted es) :
    Serving es d ↔ ∀ e, .controlAccept (.error e) ∉ es := by
  constructor
  · exact fun serving e failed => exit_of_controlAccept run failed serving.up
  · intro calm
    refine run.invariant (fun es d => Uninterrupted es → (∀ e, .controlAccept (.error e) ∉ es) →
      Serving es d) (fun _ _ => ⟨rfl, by simp [start, Server.start], rfl⟩) ?_ uninterrupted calm
    intro es d e d' _ ih step uninterrupted calm
    have earlier : Uninterrupted es :=
      ⟨fun member => uninterrupted.unsignalled (List.mem_append_left _ member),
        fun _ member => uninterrupted.socksBound _ (List.mem_append_left _ member),
        fun _ member => uninterrupted.controlBound _ (List.mem_append_left _ member)⟩
    refine serving_step (ih earlier fun _ member => calm _ (List.mem_append_left _ member)) step
      uninterrupted ?_
    rintro error rfl
    exact calm error (by simp)

/-- A failed accept on the SOCKS listener and a client come and go. -/
theorem daemon_serves_client :
    ∃ (es : List (Happening Nat)) (d : Daemon Nat),
      Run (Step id (.v4 ⟨⟨[127, 0, 0, 1], rfl⟩⟩ 9050) "/run/tord.sock") (start id .shared) es d ∧
      es.length = 5 ∧ (Serving es d ↔ ∀ e, .controlAccept (.error e) ∉ es) := by
  have run : Run (Step id (.v4 ⟨⟨[127, 0, 0, 1], rfl⟩⟩ 9050) "/run/tord.sock") (start id .shared)
      [.controlBind (.ok ()), .socksBind (.ok ()),
        .socksAccept (.error ⟨.connectionAborted, "aborted", []⟩), .socksWake,
        .socksAccept (.ok (.v4 ⟨⟨[127, 0, 0, 1], rfl⟩⟩ 40000))] _ :=
    .cons (.controlBind rfl rfl) (.cons (.socksBind rfl rfl) (.cons (.socksAccept rfl rfl)
      (.cons (.socksWake rfl rfl) (.cons (.socksAccept rfl rfl) .nil))))
  exact ⟨_, _, run, rfl, daemon_serves run ⟨by simp, by simp, by simp⟩⟩

/-- One accept error on the control socket ends the daemon and the client it serves. -/
theorem daemon_stops_unsignalled :
    ∃ (es : List (Happening Nat)) (d : Daemon Nat),
      Run (Step id (.v4 ⟨⟨[127, 0, 0, 1], rfl⟩⟩ 9050) "/run/tord.sock") (start id .shared) es d ∧
      Uninterrupted es ∧ d.exit ≠ none ∧ ∃ task ∈ d.server.tasks, task.rest = none := by
  have run : Run (Step id (.v4 ⟨⟨[127, 0, 0, 1], rfl⟩⟩ 9050) "/run/tord.sock") (start id .shared)
      [.controlBind (.ok ()), .socksBind (.ok ()),
        .socksAccept (.ok (.v4 ⟨⟨[127, 0, 0, 1], rfl⟩⟩ 40000)),
        .controlAccept (.error ⟨.other, "Too many open files (os error 24)", []⟩)] _ :=
    .cons (.controlBind rfl rfl) (.cons (.socksBind rfl rfl) (.cons (.socksAccept rfl rfl)
      (.cons (.controlAccept rfl rfl) .nil)))
  exact ⟨_, _, run, ⟨by simp, by simp, by simp⟩, nofun, _, List.mem_cons_self, rfl⟩

end Daemon

end Tord
