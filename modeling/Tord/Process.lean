import Tord.Query
import Tord.Shutdown

/-! The whole process: `run`, the task that polls arti's bootstrap status, and a task for
each connection of the control socket. All run on one thread, so a task goes on until it
waits, and a command is answered where every other task waits. -/
namespace Tord

open Interaction Transition Text Socks

variable {τ : Type}

namespace Control

inductive Session where
  | reading (line : List UInt8)
  | writing (text : String)
  deriving DecidableEq

/-- What an await came to. No bytes at all are the end of the stream. -/
inductive Wake where
  | filled (result : Except IoError (List UInt8))
  | written (result : Except IoError Unit)

inductive Connection where
  | waits (session : Session)
  | returned (result : Except Error Unit)

def invalidUtf8 : IoError := ⟨.invalidData, "stream did not contain valid UTF-8", []⟩

/-- The line is whole. -/
def answer (serde : Serde) (host : Host) (state : ControlState) (line : List UInt8) : Connection :=
  match handle serde host state line with
  | some text => .waits (.writing text)
  | none => .returned (.error ((Error.ofIo invalidUtf8).context "reading command"))

/-- `handle` from one await to the next. -/
def Session.wake (serde : Serde) (host : Host) (state : ControlState) :
    Session → Wake → Option Connection
  | .reading line, .filled (.ok chunk) =>
    if chunk = [] ∨ 0x0a ∈ chunk then some (answer serde host state (line ++ chunk))
    else some (.waits (.reading (line ++ chunk)))
  | .reading _, .filled (.error e) =>
    some (.returned (.error ((Error.ofIo e).context "reading command")))
  | .writing _, .written (.ok ()) => some (.returned (.ok ()))
  | .writing _, .written (.error e) =>
    some (.returned (.error ((Error.ofIo e).context "writing reply")))
  | _, _ => none

/-- An answer is that to all the bytes so far. -/
theorem wake_writing {session : Session}
    (wakes : session.wake serde host state wake = some (.waits (.writing text))) :
    ∃ line chunk, session = .reading line ∧ wake = .filled (.ok chunk) ∧
      handle serde host state (line ++ chunk) = some text := by
  unfold Session.wake at wakes
  split at wakes
  · next line chunk =>
    refine ⟨line, chunk, rfl, rfl, ?_⟩
    split at wakes
    · cases answered : handle serde host state (line ++ chunk) with
      | none => simp [answer, answered] at wakes
      | some other => simpa [answer, answered] using wakes
    · simp at wakes
  all_goals cases wakes

theorem wake_reading {session : Session}
    (wakes : session.wake serde host state wake = some (.waits (.reading line))) :
    ∃ before chunk, session = .reading before ∧ wake = .filled (.ok chunk) ∧
      line = before ++ chunk := by
  unfold Session.wake at wakes
  split at wakes
  · next before chunk =>
    refine ⟨before, chunk, rfl, rfl, ?_⟩
    split at wakes
    · cases answered : handle serde host state (before ++ chunk) <;>
        simp [answer, answered] at wakes
    · simpa [eq_comm] using wakes
  all_goals cases wakes

end Control

open Control

structure Setup (τ : Type) where
  issue : Nat → τ
  mode : Isolation
  listen : SocketAddr
  path : String
  started : Nat
  serde : Serde

structure Process (τ : Type) where
  daemon : Daemon τ
  bootstrap : BootstrapState := {}
  sessions : List Connection := []

inductive Moment (τ : Type) where
  | daemon (e : Happening τ)
  | polled (reading : BootstrapSnapshot)
  | session (k : Nat) (host : Host) (wake : Wake) (after : Connection)

def Socks.Label.connection : Label τ → Option Nat
  | .accept _ => none
  | .exchange c _ _ => some c
  | .isolate c _ _ => some c
  | .pollRead c _ _ => some c
  | .pollWrite c _ => some c
  | .cancel c => some c

def Happening.handler : Happening τ → Option Nat
  | .turn l => l.connection
  | _ => none

namespace Daemon

/-- Every handler waits but the one whose turn it is. -/
def Scheduled (d : Daemon τ) (e : Happening τ) : Prop :=
  ∀ c task p, e.handler ≠ some c → d.server.tasks[c]? = some task → task.rest = some p → Waits p

def ScheduledStep (issue : Nat → τ) (listen : SocketAddr) (path : String) (d : Daemon τ)
    (e : Happening τ) (d' : Daemon τ) : Prop :=
  Step issue listen path d e d' ∧ d.Scheduled e

theorem scheduled_of_parked {d : Daemon τ} (parked : d.server.Parked) (e : Happening τ) :
    d.Scheduled e :=
  fun _ task p _ here left => parked task (List.mem_of_getElem? here) p left

theorem Scheduled.parked {d : Daemon τ} (scheduled : d.Scheduled e) (own : ∀ l, e ≠ .turn l) :
    d.server.Parked := by
  intro task member p left
  obtain ⟨c, here⟩ := List.mem_iff_getElem?.mp member
  refine scheduled c task p ?_ here left
  cases e with
  | turn l => exact absurd rfl (own l)
  | _ => nofun

end Daemon

def Happening.opened : Happening τ → List Connection
  | .controlAccept (.ok ()) => [.waits (.reading [])]
  | _ => []

namespace Process

def start (setup : Setup τ) : Process τ := { daemon := .start setup.issue setup.mode }

/-- The `ControlState` as a command finds it. -/
def state (setup : Setup τ) (p : Process τ) : ControlState :=
  ⟨setup.started, setup.listen, p.daemon.server.counters.metrics, p.bootstrap,
    p.daemon.server.counters.streams⟩

/-- That a session is done is a step of that session. -/
inductive Step (setup : Setup τ) : Process τ → Moment τ → Process τ → Prop where
  | daemon (other : ∀ result, e ≠ .controlDone result)
      (moves : Daemon.ScheduledStep setup.issue setup.listen setup.path p.daemon e d) :
      Step setup p (.daemon e) { p with daemon := d, sessions := p.sessions ++ e.opened }
  | polled {reading : BootstrapSnapshot} (serving : p.daemon.exit = none)
      (parked : p.daemon.server.Parked) :
      Step setup p (.polled reading) { p with bootstrap := .store reading }
  | session {session : Session} (serving : p.daemon.exit = none) (parked : p.daemon.server.Parked)
      (here : p.sessions[k]? = some (.waits session))
      (wakes : session.wake setup.serde host (p.state setup) wake = some after) :
      Step setup p (.session k host wake after) { p with sessions := p.sessions.set k after }

end Process

def Moment.happening : Moment τ → Option (Happening τ)
  | .daemon e => some e
  | .polled _ => none
  | .session _ _ _ (.waits _) => none
  | .session _ _ _ (.returned result) => some (.controlDone result)

def Moment.sent (k : Nat) : Moment τ → List UInt8
  | .session other _ (.filled (.ok chunk)) _ => if other = k then chunk else []
  | _ => []

def Moment.answers (k : Nat) : Moment τ → Bool
  | .session other _ _ (.waits (.writing _)) => other = k
  | _ => false

def Moment.reading : Moment τ → Option BootstrapSnapshot
  | .polled reading => some reading
  | _ => none

def happened (ls : List (Moment τ)) : List (Label τ) :=
  (ls.filterMap Moment.happening).flatMap Happening.labels

def sent (k : Nat) (ls : List (Moment τ)) : List UInt8 := ls.flatMap (Moment.sent k)

namespace Process

variable {setup : Setup τ} {ls : List (Moment τ)} {p p' : Process τ}

/-- `run` goes on by itself, whatever is asked on the control socket. -/
theorem run_daemon (run : Run (Step setup) p ls p') :
    Run (Daemon.ScheduledStep setup.issue setup.listen setup.path) p.daemon
      (ls.filterMap Moment.happening) p'.daemon := by
  refine run.project (·.daemon) Moment.happening ?_ ?_
  · intro p l p' e step seen
    cases step with
    | daemon other moves =>
      cases seen
      exact moves
    | polled => cases seen
    | session serving parked here wakes =>
      rename_i k host wake after session
      cases after with
      | waits => cases seen
      | returned result =>
        cases seen
        exact ⟨.controlDone serving, Daemon.scheduled_of_parked parked _⟩
  · intro p l p' step seen
    cases step with
    | daemon => cases seen
    | _ => rfl

/-- The connections as a command finds them. -/
theorem run_server (run : Run (Step setup) (start setup) ls p) (serving : p.daemon.exit = none) :
    Run (Server.YieldingStep setup.issue) (.start setup.issue setup.mode) (happened ls)
      p.daemon.server := by
  obtain ⟨last, serves⟩ := @Daemon.serves_run τ setup.issue setup.listen setup.path Waits _ _
    setup.mode _ (fun _ _ _ step => step.1)
    (fun _ _ _ step own task member => step.2.parked own task member) (run_daemon run)
  have run := serves.run
  rwa [serves.serving serving, List.append_nil] at run

/-- The connections from one command to the next. -/
theorem run_between (run : Run (Step setup) p ls p') (serving : p'.daemon.exit = none) :
    Run (Server.Step setup.issue) p.daemon.server (happened ls) p'.daemon.server :=
  Daemon.run_serving ((run_daemon run).mono fun _ _ _ _ step => step.1) serving

theorem happened_append (ls ms : List (Moment τ)) : happened (ls ++ ms) = happened ls ++ happened ms := by
  simp [happened]

@[simp] theorem sent_snoc (k : Nat) (ls : List (Moment τ)) (l : Moment τ) :
    sent k (ls ++ [l]) = sent k ls ++ l.sent k := by simp [sent]

/-- A session that still reads has all its bytes at hand. -/
structure Heard (ls : List (Moment τ)) (p : Process τ) : Prop where
  reading : ∀ k line, p.sessions[k]? = some (.waits (.reading line)) → line = sent k ls
  later : ∀ k, p.sessions.length ≤ k → sent k ls = []

theorem heard (run : Run (Step setup) (start setup) ls p) : Heard ls p := by
  refine run.invariant Heard ⟨by simp [start], fun _ _ => rfl⟩ ?_
  intro ls p l p' _ inv step
  cases step with
  | polled => exact ⟨by simpa [Moment.sent] using inv.reading, by simpa [Moment.sent] using inv.later⟩
  | daemon other moves =>
    rename_i e d
    refine ⟨fun k line here => ?_, fun k beyond => ?_⟩
    · simp only [sent_snoc, Moment.sent, List.append_nil]
      rcases Nat.lt_or_ge k p.sessions.length with old | new
      · rw [List.getElem?_append_left old] at here
        exact inv.reading k line here
      · rw [List.getElem?_append_right new] at here
        have fresh : ∀ session ∈ e.opened, session = .waits (.reading []) := by
          unfold Happening.opened
          split <;> simp
        cases fresh _ (List.mem_of_getElem? here)
        exact (inv.later k new).symm
    · simp only [sent_snoc, Moment.sent, List.append_nil]
      exact inv.later k (Nat.le_trans (by simp) beyond)
  | session serving parked here wakes =>
    rename_i k host wake after session
    obtain ⟨bound, -⟩ := List.getElem?_eq_some_iff.mp here
    have others {j : Nat} (other : k ≠ j) :
        (Moment.session k host wake after : Moment τ).sent j = [] := by
      unfold Moment.sent
      split <;> simp_all
    refine ⟨fun j line found => ?_, fun j beyond => ?_⟩
    · rw [sent_snoc]
      by_cases same : k = j
      · subst same
        rw [List.getElem?_set_self bound] at found
        obtain rfl := Option.some.inj found
        obtain ⟨before, chunk, rfl, rfl, rfl⟩ := wake_reading wakes
        simp [Moment.sent, inv.reading k before here]
      · rw [List.getElem?_set_ne same] at found
        rw [others same, List.append_nil]
        exact inv.reading j line found
    · rw [List.length_set] at beyond
      rw [sent_snoc, others (Nat.ne_of_lt (Nat.lt_of_lt_of_le bound beyond)), List.append_nil]
      exact inv.later j beyond

/-- A command is answered from the state of that moment, whatever pieces it came in. -/
theorem answered (run : Run (Step setup) (start setup) ls p)
    (step : Step setup p (.session k host wake (.waits (.writing text))) p') :
    p.daemon.exit = none ∧ p.daemon.server.Parked ∧
      handle setup.serde host (p.state setup)
        (sent k (ls ++ [.session k host wake (.waits (.writing text))])) = some text := by
  cases step with
  | session serving parked here wakes =>
    obtain ⟨line, chunk, rfl, rfl, answered⟩ := wake_writing wakes
    refine ⟨serving, parked, ?_⟩
    rw [sent_snoc, ← (heard run).reading k line here]
    simpa [Moment.sent] using answered

def Closed (k : Nat) (p : Process τ) : Prop :=
  ∃ connection, p.sessions[k]? = some connection ∧ ∀ line, connection ≠ .waits (.reading line)

theorem Closed.step (closed : Closed k p) (step : Step setup p l p') :
    Closed k p' ∧ l.answers k = false ∧ l.sent k = [] := by
  obtain ⟨connection, here, silent⟩ := closed
  obtain ⟨bound, -⟩ := List.getElem?_eq_some_iff.mp here
  cases step with
  | polled => exact ⟨⟨connection, here, silent⟩, rfl, rfl⟩
  | daemon other moves =>
    exact ⟨⟨connection, by rwa [List.getElem?_append_left bound], silent⟩, rfl, rfl⟩
  | session serving parked there wakes =>
    rename_i j host wake after session
    by_cases same : j = k
    · subst same
      obtain rfl := Option.some.inj (here.symm.trans there)
      cases session with
      | reading line => exact absurd rfl (silent line)
      | writing text =>
        cases wake with
        | filled result => simp [Session.wake] at wakes
        | written result =>
          obtain ⟨outcome, rfl⟩ : ∃ outcome, after = .returned outcome := by
            cases result with
            | ok => exact ⟨_, (Option.some.inj wakes).symm⟩
            | error e => exact ⟨_, (Option.some.inj wakes).symm⟩
          exact ⟨⟨_, List.getElem?_set_self bound, by simp⟩, rfl, rfl⟩
    · refine ⟨⟨connection, by rwa [List.getElem?_set_ne same], silent⟩, ?_, ?_⟩
      · unfold Moment.answers
        split <;> simp_all
      · unfold Moment.sent
        split <;> simp_all

theorem Closed.run (closed : Closed k p) (run : Run (Step setup) p ls p') :
    Closed k p' ∧ (∀ l ∈ ls, l.answers k = false) ∧ sent k ls = [] := by
  induction run with
  | nil => exact ⟨closed, by simp, rfl⟩
  | cons first _ ih =>
    obtain ⟨closed, silent, nothing⟩ := closed.step first
    obtain ⟨closed, later, more⟩ := ih closed
    refine ⟨closed, List.forall_mem_cons.mpr ⟨silent, later⟩, ?_⟩
    rw [sent, List.flatMap_cons, nothing]
    exact more

/-- An answer comes while the session reads, and closes it. -/
theorem closed_of_answers (step : Step setup p l p') (answers : l.answers k) :
    ¬ Closed k p ∧ Closed k p' := by
  cases step with
  | daemon => cases answers
  | polled => cases answers
  | session serving parked here wakes =>
    rename_i j host wake after session
    cases after with
    | returned => cases answers
    | waits after =>
      cases after with
      | reading => cases answers
      | writing text =>
        obtain rfl : j = k := by simpa [Moment.answers] using answers
        obtain ⟨bound, -⟩ := List.getElem?_eq_some_iff.mp here
        obtain ⟨line, chunk, rfl, -, -⟩ := wake_writing wakes
        refine ⟨?_, _, List.getElem?_set_self bound, by simp⟩
        rintro ⟨connection, there, silent⟩
        exact silent line (Option.some.inj (there.symm.trans here))

/-- A session is answered once at most, on all that it ever sends, from the state of that
moment. -/
theorem answered_once (run : Run (Step setup) (start setup)
      (front ++ .session k host wake (.waits (.writing text)) :: back) p) :
    (∀ l ∈ front ++ back, l.answers k = false) ∧
      ∃ q, Run (Step setup) (start setup) front q ∧ handle setup.serde host (q.state setup)
        (sent k (front ++ .session k host wake (.waits (.writing text)) :: back)) = some text := by
  obtain ⟨q, before, rest⟩ := run.split
  cases rest with
  | cons step after =>
    have answers : (Moment.session k host wake (.waits (.writing text)) : Moment τ).answers k := by
      simp [Moment.answers]
    obtain ⟨reads, closed⟩ := closed_of_answers step answers
    obtain ⟨-, later, nothing⟩ := closed.run after
    refine ⟨fun l member => ?_, q, before, ?_⟩
    · rcases List.mem_append.mp member with earlier | member
      · by_contra answered
        obtain ⟨_, _, m, n, rfl, -, here, rest⟩ := before.split_at earlier
        have closed := (closed_of_answers here (by simpa using answered)).2
        exact reads (closed.run rest).1
      · exact later l member
    · have whole := (answered before step).2.2
      rw [sent, List.flatMap_append, List.flatMap_cons]
      rw [sent, List.flatMap_append, List.flatMap_singleton] at whole
      rw [show back.flatMap (Moment.sent k) = [] from nothing, List.append_nil]
      exact whole

/-- Session `k` has sent a line that asks for `cmd`, and `text` is to be written. -/
structure Answering (setup : Setup τ) (ls : List (Moment τ)) (p : Process τ) (k : Nat) (host : Host)
    (cmd text : String) : Prop where
  step : ∃ wake p', Step setup p (.session k host wake (.waits (.writing text))) p' ∧
    ∃ line, readLine (sent k (ls ++ [.session k host wake (.waits (.writing text))])) = some line ∧
      trim line = cmd

theorem text_eq (run : Run (Step setup) (start setup) ls p)
    (answering : Answering setup ls p k host cmd text) :
    p.daemon.exit = none ∧ p.daemon.server.Parked ∧
      text = setup.serde.toString (document host (p.state setup) (.ofText cmd)) ++ "\n" := by
  obtain ⟨wake, p', step, line, request, rfl⟩ := answering.step
  obtain ⟨serving, parked, answered⟩ := answered run step
  refine ⟨serving, parked, ?_⟩
  rw [handle_eq_some request (document_eq host (p.state setup) (trim line))] at answered
  exact (Option.some.inj answered).symm

noncomputable def metricsOf (ls : List (Label τ)) (s : Server τ) : Metrics where
  connectsTotal := .ofNat {c | Understands (s.traceOf c)}.ncard
  connectsOk := .ofNat {c | served (s.traceOf c)}.ncard
  connectsFailed := .ofNat {c | denied (s.traceOf c)}.ncard
  bytesToUpstream := .ofNat (Server.totalled ls s.tasks.length).1
  bytesToClient := .ofNat (Server.totalled ls s.tasks.length).2

/-- The answer to `stats` counts the connections whose client sent a whole handshake, those
that Tor failed, those told of success, the bytes moved and the handlers still at it. -/
theorem stats_truthful (run : Run (Step setup) (start setup) ls p)
    (answering : Answering setup ls p k host "stats" text)
    (room : p.daemon.server.counters.streams.entries.length ≤ 2 ^ 64) :
    text = setup.serde.toString (okDocument (statsMembers
      (metricsOf (happened ls) p.daemon.server) p.daemon.server.proxied.ncard)) ++ "\n" := by
  obtain ⟨serving, parked, whole⟩ := text_eq run answering
  have counted := Server.counted (run_server run serving) parked
  have metrics : p.daemon.server.counters.metrics = metricsOf (happened ls) p.daemon.server := by
    obtain ⟨total, failed, ok, -, up, down, -⟩ := counted
    cases here : p.daemon.server.counters.metrics
    simp_all [metricsOf]
  rw [← metrics, ← counted.active room]
  exact whole

/-- The answer to `streams` has a row for each connection whose handshake is over and whose
handler runs, in the order of their ids. -/
theorem streams_truthful (run : Run (Step setup) (start setup) ls p)
    (answering : Answering setup ls p k host "streams" text)
    (room : p.daemon.server.counters.streams.entries.length ≤ 2 ^ 64) :
    ∃ rows order, text = setup.serde.toString (okDocument (streamsMembers rows)) ++ "\n" ∧
      rows.Pairwise (·.id < ·.id) ∧ order.Nodup ∧ (∀ c, c ∈ order ↔ c ∈ p.daemon.server.proxied) ∧
      List.Forall₂ (Server.Pictures (happened ls) p.daemon.server) order rows := by
  obtain ⟨serving, parked, whole⟩ := text_eq run answering
  obtain ⟨increasing, order, distinct, proxied, rows⟩ :=
    Server.pictured (run_server run serving) parked room host.now (.refl _)
  exact ⟨_, order, whole, increasing, distinct, proxied, rows⟩

/-- A command that comes in one piece is answered. -/
theorem answering_query (run : Run (Step setup) (start setup) ls p) (serving : p.daemon.exit = none)
    (parked : p.daemon.server.Parked) (here : p.sessions[k]? = some (.waits (.reading [])))
    (host : Host) (command : String) : Answering setup ls p k host (trim (firstLine command))
      (setup.serde.toString (document host (p.state setup) (.ofText (trim (firstLine command)))) ++ "\n") := by
  have answered := handle_utf8 setup.serde host (p.state setup) command
  have newline : 0x0a ∈ utf8 (command ++ "\n") := by
    rw [utf8_append]
    exact List.mem_append_right _ (by decide)
  refine ⟨.filled (.ok (utf8 (command ++ "\n"))), _, .session serving parked here ?_,
    firstLine command ++ "\n", ?_, trim_newline _⟩
  · rw [Session.wake, if_pos (.inr newline), List.nil_append]
    rw [answer, answered]
  · rw [sent_snoc, ← (heard run).reading k [] here]
    simpa [Moment.sent] using readLine_utf8 command

theorem answering_word (run : Run (Step setup) (start setup) ls p) (serving : p.daemon.exit = none)
    (parked : p.daemon.server.Parked) (here : p.sessions[k]? = some (.waits (.reading [])))
    (host : Host) (cmd : String) (word : trim (firstLine cmd) = cmd) : Answering setup ls p k host cmd
      (setup.serde.toString (document host (p.state setup) (.ofText cmd)) ++ "\n") := by
  have answering := answering_query run serving parked here host cmd
  rwa [word] at answering

/-- Every handler waits but that of connection `c`. -/
def Alone (c : Nat) (s : Server τ) : Prop :=
  ∀ d task rest, d ≠ c → s.tasks[d]? = some task → task.rest = some rest → Waits rest

def Turns (c : Nat) (l : Label τ) : Bool := l.isTurn && l.connection = some c

theorem getElem?_turn {issue : Nat → τ} {s t : Server τ} {l : Label τ} {c d : Nat}
    (own : Turns c l) (step : Server.Step issue s l t) (other : d ≠ c) :
    t.tasks[d]? = s.tasks[d]? := by
  simp only [Turns, Bool.and_eq_true, decide_eq_true_eq] at own
  obtain ⟨turn, mine⟩ := own
  cases step with
  | accept => cases turn
  | exchange | isolate =>
    obtain rfl := Option.some.inj mine
    exact List.getElem?_set_ne (Ne.symm other)
  | pollRead | pollWrite => rfl
  | cancel => cases turn

theorem Alone.turn {issue : Nat → τ} {s t : Server τ} {l : Label τ} {c : Nat} (alone : Alone c s)
    (own : Turns c l) (step : Server.Step issue s l t) : Alone c t := by
  intro d task rest other here left
  rw [getElem?_turn own step other] at here
  exact alone d task rest other here left

/-- One handler takes all the turns. -/
theorem run_turns {s t : Server τ} {ls : List (Label τ)} {c : Nat} {d : Daemon τ}
    {boot : BootstrapState} {sessions : List Connection} (serving : d.exit = none)
    (alone : Alone c s) (own : ∀ l ∈ ls, Turns c l) (run : Run (Server.Step setup.issue) s ls t) :
    Run (Step setup) ⟨{ d with server := s }, boot, sessions⟩
      (ls.map fun l => .daemon (.turn l)) ⟨{ d with server := t }, boot, sessions⟩ := by
  induction run with
  | nil => exact .nil
  | @cons s l m ls t first _ ih =>
    rw [List.forall_mem_cons] at own
    have mine := own.1
    simp only [Turns, Bool.and_eq_true, decide_eq_true_eq] at mine
    have scheduled : Daemon.Scheduled { d with server := s } (.turn l) := by
      intro other task rest elsewhere here left
      refine alone other task rest ?_ here left
      rintro rfl
      exact elsewhere mine.2
    have step : Step setup ⟨{ d with server := s }, boot, sessions⟩ (.daemon (.turn l)) _ :=
      .daemon (by simp) ⟨.turn serving mine.1 first, scheduled⟩
    have quiet : (Happening.turn l).opened = [] := rfl
    rw [quiet, List.append_nil] at step
    exact .cons step (ih (alone.turn own.1 first) own.2)

def home : Setup Nat :=
  ⟨id, .shared, .v4 ⟨.of [127, 0, 0, 1]⟩ 9050, "/run/tord.sock", 0, .printing (fun _ => "1.0") .null⟩

/-- Both listeners are bound, and there is a client at the control socket. -/
theorem run_listening (setup : Setup τ) : Run (Step setup) (start setup)
    [.daemon (.controlBind (.ok ())), .daemon (.socksBind (.ok ())), .daemon (.controlAccept (.ok ()))]
    ⟨⟨.accepting, .accepting, .start setup.issue setup.mode, none⟩, {}, [.waits (.reading [])]⟩ := by
  have idle (d : Daemon τ) (nobody : d.server.tasks = []) (e : Happening τ) : d.Scheduled e := by
    refine Daemon.scheduled_of_parked (fun task member => ?_) e
    rw [nobody] at member
    cases member
  exact .cons (.daemon (by simp) ⟨.controlBind rfl rfl, idle _ rfl _⟩)
    (.cons (.daemon (by simp) ⟨.socksBind rfl rfl, idle _ rfl _⟩)
      (.single (.daemon (by simp) ⟨.controlAccept rfl rfl, idle _ rfl _⟩)))

theorem parked_start (issue : Nat → τ) (mode : Isolation) : (Server.start issue mode).Parked := by
  simp [Server.Parked, Server.start]

/-- There is a client on each. -/
theorem run_accepted (setup : Setup τ) (peer : SocketAddr) : Run (Step setup) (start setup)
    [.daemon (.controlBind (.ok ())), .daemon (.socksBind (.ok ())),
      .daemon (.controlAccept (.ok ())), .daemon (.socksAccept (.ok peer))]
    ⟨⟨.accepting, .accepting, ⟨{}, .new setup.issue setup.mode, [.spawn peer]⟩, none⟩, {},
      [.waits (.reading [])]⟩ :=
  (run_listening setup).append (.single (.daemon (by simp)
    ⟨.socksAccept rfl rfl, Daemon.scheduled_of_parked (parked_start _ _) _⟩))

/-- One client is at its splice and a session has read nothing yet, however documents are
written. -/
structure Spliced (ls : List (Moment Nat)) (p : Process Nat) (task : Socks.Task Nat) : Prop where
  run : ∀ serde, Run (Step { home with serde := serde }) (start home) ls p
  serving : p.daemon.exit = none
  listening : p.daemon.socks = .accepting
  attending : p.daemon.control = .accepting
  sessions : p.sessions = [.waits (.reading [])]
  parked : p.daemon.server.Parked
  tasks : p.daemon.server.tasks = [task]
  live : task.live.isSome
  received : Socks.received task.trace = [5, 1, 0, 5, 1, 0, 1, 1, 1, 1, 1, 0, 80]
  entries : p.daemon.server.counters.streams.entries.length = 1
  idle : Server.totalled (happened ls) p.daemon.server.tasks.length = (0, 0)

theorem exists_spliced : ∃ ls p task, Spliced ls p task := by
  let peer : SocketAddr := .v4 ⟨.of [127, 0, 0, 1]⟩ 40000
  obtain ⟨next, route⟩ := Server.path_knock_spliced peer ⟨0⟩
  have whole : Run (Server.Step home.issue) (.start home.issue home.mode) _ _ :=
    Server.run_connection route free_knock (by simp [Server.Free]) rfl
  cases whole with
  | cons first turns =>
    cases first
    have alone : Alone 0 (⟨{}, .new id .shared, [.spawn peer]⟩ : Server Nat) := by
      intro d task rest other here
      obtain ⟨bound, -⟩ := List.getElem?_eq_some_iff.mp here
      exact absurd (Nat.lt_one_iff.mp bound) other
    have spliced (serde : Serde) := @run_turns Nat { home with serde := serde } _ _ _ 0
      ⟨.accepting, .accepting, ⟨{}, .new id .shared, []⟩, none⟩ {} [.waits (.reading [])] rfl alone
      (List.all_eq_true.mp rfl) turns
    refine ⟨_, _, _, fun serde => (run_accepted { home with serde := serde } peer).append
      (spliced serde), rfl, rfl, rfl, rfl, ?_, rfl, rfl, rfl, rfl, ?_⟩
    · simp only [Server.Parked, Server.start, List.nil_append, List.mem_singleton, forall_eq]
      rintro p ⟨⟩ op next ⟨⟩
      rfl
    · simp [Server.totalled, happened, Moment.happening, Happening.labels, Server.start, delivered,
        Socks.accepted, Server.exchanges, knock, Label.delivered, Label.accepted]

namespace Spliced

variable {ls : List (Moment Nat)} {p : Process Nat} {task : Socks.Task Nat}

theorem here (spliced : Spliced ls p task) : p.sessions[0]? = some (.waits (.reading [])) := by
  rw [spliced.sessions]
  rfl

theorem room (spliced : Spliced ls p task) :
    p.daemon.server.counters.streams.entries.length ≤ 2 ^ 64 := by
  rw [spliced.entries]
  decide

theorem answering (spliced : Spliced ls p task) (serde : Serde) (cmd : String)
    (word : trim (firstLine cmd) = cmd) : Answering { home with serde := serde } ls p 0 clock cmd
      (serde.toString (document clock (p.state home) (.ofText cmd)) ++ "\n") :=
  answering_word (spliced.run serde) spliced.serving spliced.parked spliced.here clock cmd word

end Spliced

theorem stats_truthful_spliced : ∃ ls p text, Run (Step home) (start home) ls p ∧
    Answering home ls p 0 clock "stats" text ∧
    text = home.serde.toString (okDocument (statsMembers
      (metricsOf (happened ls) p.daemon.server) p.daemon.server.proxied.ncard)) ++ "\n" := by
  obtain ⟨ls, p, task, spliced⟩ := exists_spliced
  have run : Run (Step home) (start home) ls p := spliced.run home.serde
  have answering := spliced.answering home.serde "stats" (by decide)
  exact ⟨ls, p, _, run, answering, stats_truthful run answering spliced.room⟩

theorem streams_truthful_spliced : ∃ ls p rows order, Run (Step home) (start home) ls p ∧
    Answering home ls p 0 clock "streams"
      (home.serde.toString (okDocument (streamsMembers rows)) ++ "\n") ∧
    (∀ c, c ∈ order ↔ c ∈ p.daemon.server.proxied) ∧
    List.Forall₂ (Server.Pictures (happened ls) p.daemon.server) order rows := by
  obtain ⟨ls, p, task, spliced⟩ := exists_spliced
  have run : Run (Step home) (start home) ls p := spliced.run home.serde
  have answering := spliced.answering home.serde "streams" (by decide)
  obtain ⟨rows, order, text, -, -, proxied, pictured⟩ := streams_truthful run answering spliced.room
  rw [text] at answering
  exact ⟨ls, p, rows, order, run, answering, proxied, pictured⟩

theorem answered_once_stats : ∃ front wake text p q,
    Run (Step home) (start home) (front ++ [.session 0 clock wake (.waits (.writing text))]) p ∧
    (∀ l ∈ front ++ [], l.answers 0 = false) ∧ Run (Step home) (start home) front q ∧
    handle home.serde clock (q.state home)
      (sent 0 (front ++ [.session 0 clock wake (.waits (.writing text))])) = some text := by
  obtain ⟨ls, p, task, spliced⟩ := exists_spliced
  obtain ⟨wake, p', step, -⟩ := (spliced.answering home.serde "stats" (by decide)).step
  have whole := (spliced.run home.serde).snoc step
  obtain ⟨once, q, before, answered⟩ := answered_once whole
  exact ⟨ls, wake, _, p', q, whole, once, before, answered⟩

end Process

end Tord
