import Tord.Process

/-! Nobody keeps the process from serving: wherever it is, with its clients, circuits and
sessions left as they are, it can go on to take the next client, and to take and answer
the next command. -/
namespace Tord

open Interaction Transition Text Socks Control

variable {τ : Type}

inductive Party where
  | listener | controlListener | newcomer | sigterm | arti
  | connection (c : Nat)
  | circuit (c : Nat)
  | session (k : Nat)
  deriving DecidableEq

/-- Whom the handler of connection `c` waits for; a splice ends at either end. -/
def Socks.Op.parties (c : Nat) : Op → List Tord.Party
  | .readExact _ => [.connection c]
  | .writeAll _ => [.connection c]
  | .connect _ _ _ => [.circuit c]
  | .copyBidirectional _ => [.connection c, .circuit c]
  | _ => []

def Socks.Label.parties : Label τ → List Tord.Party
  | .exchange c op _ => op.parties c
  | .pollRead c _ _ => [.connection c]
  | .pollWrite c _ => [.connection c]
  | _ => []

/-- Whom the process had to wait for. What a task does between two awaits takes nobody. -/
def Moment.parties : Moment τ → List Party
  | .daemon (.socksBind _) => [.listener]
  | .daemon (.socksAccept _) => [.newcomer]
  | .daemon .socksWake => [.listener]
  | .daemon (.controlBind _) => [.controlListener]
  | .daemon (.controlAccept _) => [.newcomer]
  | .daemon (.controlDone _) => []
  | .daemon (.turn l) => l.parties
  | .daemon .sigterm => [.sigterm]
  | .polled _ => [.arti]
  | .session k _ _ _ => [.session k]

def Within (parties : List Party) (ls : List (Moment τ)) : Prop := ∀ l ∈ ls, l.parties ⊆ parties

@[simp] theorem within_nil : Within parties ([] : List (Moment τ)) := by simp [Within]

@[simp] theorem within_cons {l : Moment τ} {ls : List (Moment τ)} : Within parties (l :: ls) ↔
    l.parties ⊆ parties ∧ Within parties ls := List.forall_mem_cons

@[simp] theorem within_append {xs ys : List (Moment τ)} :
    Within parties (xs ++ ys) ↔ Within parties xs ∧ Within parties ys := List.forall_mem_append

theorem Within.mono {parties more : List Party} {ls : List (Moment τ)} (within : Within parties ls)
    (subset : parties ⊆ more) : Within more ls :=
  fun l member => List.Subset.trans (within l member) subset

namespace Process

variable {setup : Setup τ} {ls : List (Moment τ)} {p : Process τ} {issue : Nat → τ}

theorem alone_of_parked {s : Server τ} (parked : s.Parked) (c : Nat) : Alone c s :=
  fun _ task rest _ here left => parked task (List.mem_of_getElem? here) rest left

theorem alone_accepted {s : Server τ} (parked : s.Parked) (peer : SocketAddr) :
    Alone s.tasks.length ⟨s.counters, s.tor, s.tasks ++ [.spawn peer]⟩ := by
  intro d task rest other here left
  obtain ⟨bound, -⟩ := List.getElem?_eq_some_iff.mp here
  rw [List.length_append, List.length_singleton] at bound
  rw [List.getElem?_append_left (by omega)] at here
  exact alone_of_parked parked _ d task rest other here left

theorem connection_of_turn {l : Label τ} (own : l.isTurn) : ∃ c, l.connection = some c := by
  cases l with
  | accept => cases own
  | _ => exact ⟨_, rfl⟩

/-- At most one handler is between two awaits. -/
theorem alone (run : Run (Step setup) (start setup) ls p) (serving : p.daemon.exit = none) :
    ∃ c, Alone c p.daemon.server := by
  refine run.invariant (fun _ p => p.daemon.exit = none → ∃ c, Alone c p.daemon.server)
    (fun _ => ⟨0, by simp [Alone, start, Daemon.start, Server.start]⟩) ?_ serving
  intro _ p l p' _ inv step serving
  cases step with
  | polled up parked => exact ⟨0, alone_of_parked parked 0⟩
  | session up parked here wakes => exact ⟨0, alone_of_parked parked 0⟩
  | @daemon e _ d other moves =>
    obtain ⟨step, scheduled⟩ := moves
    have unmoved (own : ∀ l, e ≠ .turn l) : ∃ c, Alone c p.daemon.server :=
      ⟨0, alone_of_parked (scheduled.parked own) 0⟩
    cases step with
    | @socksBind _ result up here =>
      cases result with
      | ok _ => exact unmoved (by simp)
      | error error => cases serving
    | @controlBind _ result up here =>
      cases result with
      | ok _ => exact unmoved (by simp)
      | error error => cases serving
    | @socksAccept _ result up here =>
      cases result with
      | ok peer => exact ⟨_, alone_accepted (scheduled.parked (by simp)) peer⟩
      | error error => exact unmoved (by simp)
    | socksWake => exact unmoved (by simp)
    | @controlAccept _ result up here =>
      cases result with
      | ok _ => exact unmoved (by simp)
      | error error => cases serving
    | controlDone => exact unmoved (by simp)
    | turn up own moves =>
      rename_i l s
      obtain ⟨c, turned⟩ := connection_of_turn own
      have before : Alone c p.daemon.server := by
        refine fun d task rest elsewhere here left => scheduled d task rest ?_ here left
        rw [Happening.handler, turned]
        exact fun same => elsewhere (Option.some.inj same).symm
      exact ⟨c, before.turn (by simp [Turns, own, turned]) moves⟩
    | sigterm => cases serving

theorem parked_of_alone {s : Server τ} {c : Nat} (alone : Alone c s)
    (own : ∀ task rest, s.tasks[c]? = some task → task.rest = some rest → Waits rest) : s.Parked := by
  intro task member rest left
  obtain ⟨d, here⟩ := List.mem_iff_getElem?.mp member
  by_cases same : d = c
  · subst same
    exact own task rest here left
  · exact alone d task rest same here left

@[simp] theorem turns_exchange {c : Nat} {op : Op} {reply : op.Res} :
    Turns c (.exchange c op reply : Label τ) := by
  simp [Turns, Socks.Label.isTurn, Socks.Label.connection]

@[simp] theorem turns_isolate {c : Nat} {isoUser : Option String} {token : τ} :
    Turns c (.isolate c isoUser token) := by
  simp [Turns, Socks.Label.isTurn, Socks.Label.connection]

/-- Handler `c` goes on by itself to where it waits. -/
structure Settles (issue : Nat → τ) (c : Nat) (s : Server τ) (ls : List (Label τ)) (t : Server τ) :
    Prop where
  run : Run (Server.Step issue) s ls t
  own : ∀ l ∈ ls, Turns c l
  unaided : ∀ l ∈ ls, l.parties = []
  parked : t.Parked
  count : t.tasks.length = s.tasks.length

theorem settles_task {s : Server τ} {c : Nat} {task : Socks.Task τ}
    {rest : Prog Op.Res (Except Error Unit)} (alone : Alone c s) (here : s.tasks[c]? = some task)
    (left : task.rest = some rest) : ∃ ls t, Settles issue c s ls t := by
  induction rest generalizing s task with
  | pure result =>
    refine ⟨[], s, .nil, by simp, by simp, parked_of_alone alone ?_, rfl⟩
    intro other rest' there left'
    obtain rfl := Option.some.inj (here.symm.trans there)
    obtain rfl := Option.some.inj (left.symm.trans left')
    nofun
  | request op next ih =>
    by_cases awaits : op.awaits
    · refine ⟨[], s, .nil, by simp, by simp, parked_of_alone alone ?_, rfl⟩
      intro other rest' there left'
      obtain rfl := Option.some.inj (here.symm.trans there)
      obtain rfl := Option.some.inj (left.symm.trans left')
      rintro _ _ ⟨⟩
      exact awaits
    · obtain ⟨reply, answers⟩ : ∃ reply, s.Answers task 0 op reply := by
        cases op with
        | fetchAdd => exact ⟨(), trivial⟩
        | register => exact ⟨_, rfl⟩
        | dropStream => exact ⟨(), trivial⟩
        | _ => exact absurd rfl awaits
      have step : Server.Step issue s (.exchange c op reply) _ := .exchange 0 here left answers
      have unaided : (Socks.Label.exchange c op reply : Label τ).parties = [] := by
        cases op <;> first | rfl | exact absurd rfl awaits
      obtain ⟨bound, -⟩ := List.getElem?_eq_some_iff.mp here
      obtain ⟨ls, t, later⟩ := ih reply (alone.turn turns_exchange step) (List.getElem?_set_self bound) rfl
      exact ⟨_ :: ls, t, .cons step later.run, List.forall_mem_cons.mpr ⟨turns_exchange, later.own⟩,
        List.forall_mem_cons.mpr ⟨unaided, later.unaided⟩, later.parked,
        later.count.trans List.length_set⟩

theorem settles {s : Server τ} {c : Nat} (alone : Alone c s) : ∃ ls t, Settles issue c s ls t := by
  by_cases busy : ∃ task rest, s.tasks[c]? = some task ∧ task.rest = some rest
  · obtain ⟨task, rest, here, left⟩ := busy
    exact settles_task alone here left
  · exact ⟨[], s, .nil, by simp, by simp,
      parked_of_alone alone fun task rest here left => absurd ⟨task, rest, here, left⟩ busy, rfl⟩

/-- From wherever it serves, the process goes on by itself to where every handler waits. -/
theorem settled (run : Run (Step setup) (start setup) ls p) (serving : p.daemon.exit = none) :
    ∃ more s, Run (Step setup) p more { p with daemon := { p.daemon with server := s } } ∧
      Within [] more ∧ s.Parked ∧ s.tasks.length = p.daemon.server.tasks.length := by
  obtain ⟨c, alone⟩ := alone run serving
  obtain ⟨ls, s, settles⟩ := @settles τ setup.issue _ c alone
  refine ⟨_, s, run_turns serving alone settles.own settles.run, ?_, settles.parked, settles.count⟩
  intro l member
  obtain ⟨turn, turned, rfl⟩ := List.mem_map.mp member
  rw [Moment.parties, settles.unaided turn turned]
  exact List.nil_subset _

/-- The SOCKS loop comes back to its listener. -/
theorem listens (serving : p.daemon.exit = none) (parked : p.daemon.server.Parked) :
    ∃ more, Run (Step setup) p more { p with daemon := { p.daemon with socks := .accepting } } ∧
      Within [.listener] more := by
  obtain ⟨⟨socks, control, server, exit⟩, bootstrap, sessions⟩ := p
  have scheduled := Daemon.scheduled_of_parked parked
  cases socks with
  | accepting => exact ⟨[], .nil, within_nil⟩
  | binding =>
    have step : Step setup ⟨⟨.binding, control, server, exit⟩, bootstrap, sessions⟩
        (.daemon (.socksBind (.ok ()))) _ := .daemon (by simp) ⟨.socksBind serving rfl, scheduled _⟩
    rw [show (Happening.socksBind (.ok ()) : Happening τ).opened = [] from rfl, List.append_nil] at step
    exact ⟨_, .single step, by simp [Moment.parties]⟩
  | pausing =>
    have step : Step setup ⟨⟨.pausing, control, server, exit⟩, bootstrap, sessions⟩
        (.daemon .socksWake) _ := .daemon (by simp) ⟨.socksWake serving rfl, scheduled _⟩
    rw [show (Happening.socksWake : Happening τ).opened = [] from rfl, List.append_nil] at step
    exact ⟨_, .single step, by simp [Moment.parties]⟩

theorem within_turns {ls : List (Label τ)} {c : Nat} (own : ∀ l ∈ ls, Turns c l) :
    Within [.connection c, .circuit c] (ls.map fun l => .daemon (.turn l)) := by
  intro l member
  obtain ⟨turn, turned, rfl⟩ := List.mem_map.mp member
  have mine := own turn turned
  simp only [Turns, Bool.and_eq_true, decide_eq_true_eq] at mine
  obtain ⟨-, mine⟩ := mine
  rw [Moment.parties]
  cases turn with
  | exchange d op reply =>
    obtain rfl := Option.some.inj mine
    cases op <;> simp [Socks.Label.parties, Op.parties]
  | pollRead | pollWrite =>
    obtain rfl := Option.some.inj mine
    simp [Socks.Label.parties]
  | _ => exact List.nil_subset _

theorem turns_connection {c : Nat} {front back : Trace} {isoUser : Option String} {token : τ} :
    ∀ l ∈ Server.exchanges c front ++ .isolate c isoUser token :: Server.exchanges c back, Turns c l := by
  simp only [Server.exchanges, List.forall_mem_append, List.forall_mem_cons, List.forall_mem_map,
    turns_exchange, turns_isolate, implies_true, and_self]

/-- `q` is `p` with one more client, at its splice. -/
structure Admits (p q : Process τ) (peer : SocketAddr) (hs : Handshake) (task : Socks.Task τ) : Prop where
  serving : q.daemon.exit = none
  listening : q.daemon.socks = .accepting
  sessions : q.sessions = p.sessions
  parked : q.daemon.server.Parked
  tasks : q.daemon.server.tasks = p.daemon.server.tasks ++ [task]
  entries : q.daemon.server.counters.streams.entries.length =
    p.daemon.server.counters.streams.entries.length + 1
  served : Served peer hs p.daemon.server.counters.streams.entries.length task

/-- Whoever was accepted can be served. -/
theorem serves (scheduled : Step setup p (.daemon (.socksAccept (.ok peer))) p') (hs : Handshake) :
    ∃ more q task, Run (Step setup) p' more q ∧
      Within [.connection p.daemon.server.tasks.length, .circuit p.daemon.server.tasks.length] more ∧
      Admits p q peer hs task := by
  obtain ⟨front, back, counters, task, whole, size, served⟩ :=
    p.daemon.server.run_served setup.issue peer hs
  cases scheduled with
  | daemon other moves =>
    obtain ⟨step, scheduled⟩ := moves
    have parked := scheduled.parked (by simp)
    cases step with
    | socksAccept serving listening =>
      obtain ⟨⟨socks, control, server, exit⟩, bootstrap, sessions⟩ := p
      cases whole with
      | cons first turns =>
        cases first
        refine ⟨_, _, task, run_turns serving (alone_accepted parked peer) turns_connection turns,
          within_turns turns_connection, serving, listening, List.append_nil _, ?_, rfl, size, served⟩
        intro other member rest left
        rcases List.mem_append.mp member with old | new
        · exact parked other old rest left
        · obtain rfl := List.mem_singleton.mp new
          obtain ⟨next, splices, -⟩ := served.splices
          obtain rfl := Option.some.inj (splices.symm.trans left)
          rintro _ _ ⟨⟩
          rfl

/-- Whatever the clients and circuits do not do, the accept loop comes back to its listener,
and whoever is accepted there can be served. -/
theorem service_available (run : Run (Step setup) (start setup) ls p) (serving : p.daemon.exit = none) :
    (∃ more p', Run (Step setup) p more p' ∧ Within [.listener] more ∧ p'.daemon.exit = none ∧
      p'.daemon.server.Parked ∧ p'.daemon.socks = .accepting) ∧
    ∀ (peer : SocketAddr) (accepted : Process τ),
      Step setup p (.daemon (.socksAccept (.ok peer))) accepted → ∀ hs : Handshake,
        ∃ more q task, Run (Step setup) accepted more q ∧
          Within [.connection p.daemon.server.tasks.length, .circuit p.daemon.server.tasks.length] more ∧
          q.daemon.exit = none ∧ q.daemon.server.tasks[p.daemon.server.tasks.length]? = some task ∧
          Served peer hs p.daemon.server.counters.streams.entries.length task := by
  constructor
  · obtain ⟨settling, s, settled, unaided, parked, -⟩ := settled run serving
    obtain ⟨listening, listens, listened⟩ := @listens τ setup
      { p with daemon := { p.daemon with server := s } } serving parked
    refine ⟨_, _, settled.append listens, ?_, serving, parked, rfl⟩
    rw [within_append]
    exact ⟨unaided.mono (by simp), listened⟩
  · intro peer accepted step hs
    obtain ⟨more, q, task, goes, within, admits⟩ := serves step hs
    refine ⟨more, q, task, goes, within, admits.serving, ?_, admits.served⟩
    rw [admits.tasks]
    exact List.getElem?_concat_length

/-- With a client on its splice and a session without a command another client is served. -/
theorem service_available_spliced : ∃ ls p accepted more q task, ∃ hs : Handshake,
    hs.bytes = [5, 1, 0, 5, 1, 0, 1, 1, 1, 1, 1, 0, 80] ∧
      Run (Step home) (start home) ls p ∧ Step home p (.daemon (.socksAccept (.ok home.listen))) accepted ∧
      Run (Step home) accepted more q ∧ Within [.connection 1, .circuit 1] more ∧
      q.daemon.server.tasks[1]? = some task ∧ Served home.listen hs 1 task := by
  obtain ⟨ls, p, first, spliced⟩ := exists_spliced
  have run : Run (Step home) (start home) ls p := spliced.run home.serde
  have accept : Step home p (.daemon (.socksAccept (.ok home.listen))) _ :=
    .daemon (by simp) ⟨.socksAccept spliced.serving spliced.listening,
      Daemon.scheduled_of_parked spliced.parked _⟩
  obtain ⟨more, q, task, goes, within, -, found, served⟩ :=
    (service_available run spliced.serving).2 _ _ accept knocking
  rw [spliced.tasks] at within found
  rw [spliced.entries] at served
  exact ⟨ls, p, _, more, q, task, knocking, by decide, run, accept, goes, within, found, served⟩

/-- The control loop does not pause, it ends the daemon instead. -/
theorem control_of_run (run : Run (Step setup) (start setup) ls p) : p.daemon.control ≠ .pausing := by
  apply run.invariant (fun _ p => p.daemon.control ≠ .pausing) (by simp [start, Daemon.start])
  intro _ p l p' _ inv step
  cases step with
  | polled | session => exact inv
  | daemon other moves =>
    obtain ⟨step, -⟩ := moves
    cases step with
    | @controlBind _ result up here =>
      cases result with
      | ok _ => simp [Daemon.controlBound]
      | error error => exact inv
    | @socksBind _ result up here => cases result <;> exact inv
    | @socksAccept _ result up here => cases result <;> exact inv
    | @controlAccept _ result up here => cases result <;> exact inv
    | _ => exact inv

/-- The control loop comes to its listener. -/
theorem attends (serving : p.daemon.exit = none) (parked : p.daemon.server.Parked)
    (steady : p.daemon.control ≠ .pausing) :
    ∃ more, Run (Step setup) p more { p with daemon := { p.daemon with control := .accepting } } ∧
      Within [.controlListener] more := by
  obtain ⟨⟨socks, control, server, exit⟩, bootstrap, sessions⟩ := p
  cases control with
  | accepting => exact ⟨[], .nil, within_nil⟩
  | binding =>
    have bind : Step setup ⟨⟨socks, .binding, server, exit⟩, bootstrap, sessions⟩
        (.daemon (.controlBind (.ok ()))) _ :=
      .daemon (by simp) ⟨.controlBind serving rfl, Daemon.scheduled_of_parked parked _⟩
    rw [show (Happening.controlBind (.ok ()) : Happening τ).opened = [] from rfl, List.append_nil] at bind
    exact ⟨_, .single bind, by simp [Moment.parties]⟩
  | pausing => exact absurd rfl steady

/-- Whatever the clients, circuits and sessions do not do, the control loop comes to its
listener, and whoever is accepted there has any command answered at once. -/
theorem command_available (run : Run (Step setup) (start setup) ls p) (serving : p.daemon.exit = none) :
    (∃ more p', Run (Step setup) p more p' ∧ Within [.controlListener] more ∧ p'.daemon.exit = none ∧
      p'.daemon.server.Parked ∧ p'.daemon.control = .accepting) ∧
    ∀ accepted, Step setup p (.daemon (.controlAccept (.ok ()))) accepted →
      ∀ (host : Host) (command : String),
        Answering setup (ls ++ [.daemon (.controlAccept (.ok ()))]) accepted p.sessions.length host
          (trim (firstLine command)) (setup.serde.toString
            (document host (accepted.state setup) (.ofText (trim (firstLine command)))) ++ "\n") := by
  constructor
  · obtain ⟨settling, s, settled, unaided, parked, -⟩ := settled run serving
    have steady : p.daemon.control ≠ .pausing := control_of_run run
    obtain ⟨attending, attends, attended⟩ := @attends τ setup
      { p with daemon := { p.daemon with server := s } } serving parked steady
    refine ⟨_, _, settled.append attends, ?_, serving, parked, rfl⟩
    rw [within_append]
    exact ⟨unaided.mono (by simp), attended⟩
  · intro accepted step host command
    have later := run.snoc step
    cases step with
    | daemon other moves =>
      obtain ⟨step, scheduled⟩ := moves
      have parked := scheduled.parked (by simp)
      cases step with
      | controlAccept up here =>
        exact answering_query later up parked List.getElem?_concat_length host command

theorem command_available_spliced : ∃ ls p accepted text, Run (Step home) (start home) ls p ∧
    Step home p (.daemon (.controlAccept (.ok ()))) accepted ∧
    Answering home (ls ++ [.daemon (.controlAccept (.ok ()))]) accepted 1 clock "stats" text := by
  obtain ⟨ls, p, task, spliced⟩ := exists_spliced
  have run : Run (Step home) (start home) ls p := spliced.run home.serde
  have accept : Step home p (.daemon (.controlAccept (.ok ()))) _ :=
    .daemon (by simp) ⟨.controlAccept spliced.serving spliced.attending,
      Daemon.scheduled_of_parked spliced.parked _⟩
  have word : trim (firstLine "stats") = "stats" := by decide
  have answering := (command_available run spliced.serving).2 _ accept clock "stats"
  have only : p.sessions.length = 1 := by
    rw [spliced.sessions]
    rfl
  rw [only, word] at answering
  exact ⟨ls, p, _, _, run, accept, answering⟩

end Process

end Tord
