import Tord.Main
import Tord.Socks.Listing

/-! The daemon as a server: what happens to `run` is a run of the connections, also its
end, which drops every handler that is left. Whatever the handlers were doing then, no
row is left in the table. -/
namespace Tord

open Interaction Transition Socks

variable {τ : Type} {issue : Nat → τ} {listen : SocketAddr} {path : String}

namespace Socks.Server

def cancels (i : Nat) : List (Socks.Task τ) → List (Label τ)
  | [] => []
  | task :: rest => (if task.running then [.cancel i] else []) ++ cancels (i + 1) rest

theorem mem_cancels {tasks : List (Socks.Task τ)} (member : l ∈ cancels i tasks) :
    ∃ c, l = .cancel c := by
  induction tasks generalizing i with
  | nil => cases member
  | cons task rest ih =>
    rcases List.mem_append.mp member with here | later
    · split at here
      · exact ⟨i, List.mem_singleton.mp here⟩
      · cases here
    · exact ih later

theorem run_cancels {allowed : Prog Op.Res (Except Error Unit) → Prop} {front back : List (Socks.Task τ)}
    (idle : ∀ task ∈ back, task.running = false → task.live = none)
    (may : ∀ task ∈ back, ∀ p, task.rest = some p → allowed p) (s : Server τ)
    (here : s.tasks = front ++ back) :
    Run (DropStep allowed issue) s (cancels front.length back)
      ⟨back.foldl Counters.dropLocals s.counters, s.tor,
        front ++ back.map fun task => if task.running then task.cancelled else task⟩ := by
  induction back generalizing front s with
  | nil =>
    obtain ⟨counters, tor, tasks⟩ := s
    obtain rfl : tasks = front := by simpa using here
    simpa [cancels] using Run.nil
  | cons task rest ih =>
    rw [List.forall_mem_cons] at idle may
    have found : s.tasks[front.length]? = some task := by simp [here]
    by_cases runs : task.running
    · have drop : DropStep allowed issue s (.cancel front.length)
          ⟨s.counters.dropLocals task, s.tor, s.tasks.set front.length task.cancelled⟩ := by
        refine ⟨.cancel found runs, ?_⟩
        rintro _ other p ⟨⟩ same left
        obtain rfl := Option.some.inj (found.symm.trans same)
        exact may.1 p left
      have later := @ih (front ++ [task.cancelled]) idle.2 may.2
        ⟨s.counters.dropLocals task, s.tor, s.tasks.set front.length task.cancelled⟩ (by simp [here])
      simp only [List.length_append, List.length_singleton, List.append_assoc] at later
      simpa [cancels, runs] using Run.cons drop later
    · have kept : s.counters.dropLocals task = s.counters := by
        rw [Counters.dropLocals, idle.1 (by simpa using runs)]
      have later := @ih (front ++ [task]) idle.2 may.2 s (by simp [here])
      simp only [List.length_append, List.length_singleton, List.append_assoc] at later
      simpa [cancels, runs, kept] using later

/-- A handler that does not run holds no row. -/
theorem live_of_idle {c : Nat} (run : Run (Step issue) (start issue mode) ls s)
    (here : s.tasks[c]? = some task) (idle : task.running = false) : task.live = none := by
  have owns := owns run here
  unfold Task.live
  split
  · next p left =>
    cases p with
    | pure result => exact owns _ left
    | request op next => simp [Task.running, left] at idle
  · rfl

theorem run_dropped {allowed : Prog Op.Res (Except Error Unit) → Prop}
    (run : Run (Step issue) (start issue mode) ls s)
    (may : ∀ task ∈ s.tasks, ∀ p, task.rest = some p → allowed p) :
    Run (DropStep allowed issue) s (cancels 0 s.tasks) s.dropped := by
  refine @run_cancels τ issue allowed [] s.tasks ?_ may s rfl
  intro task member idle
  obtain ⟨c, here⟩ := List.mem_iff_getElem?.mp member
  exact live_of_idle run here idle

end Socks.Server

/-- What the connections have of a happening, unless it ends them. -/
def Happening.labels : Happening τ → List (Label τ)
  | .socksAccept (.ok peer) => [.accept peer]
  | .turn l => [l]
  | _ => []

namespace Daemon

/-- What has happened to the daemon has happened to its connections. -/
structure Serves (allowed : Prog Op.Res (Except Error Unit) → Prop) (issue : Nat → τ)
    (mode : Isolation) (es : List (Happening τ)) (d : Daemon τ) (last : List (Label τ)) : Prop where
  run : Run (Server.DropStep allowed issue) (.start issue mode) (es.flatMap Happening.labels ++ last)
    d.server
  /-- Tasks are only dropped at the very end. -/
  drops : ∀ l ∈ last, ∃ c, l = .cancel c
  serving : d.exit = none → last = []

theorem dropStep_of_turn {allowed : Prog Op.Res (Except Error Unit) → Prop} (own : l.isTurn)
    (moves : Server.Step issue s l t) : Server.DropStep allowed issue s l t := by
  refine ⟨moves, ?_⟩
  rintro c task p rfl
  cases own

variable {allowed : Prog Op.Res (Except Error Unit) → Prop} {es : List (Happening τ)} {d : Daemon τ}

theorem Serves.returned (serves : Serves allowed issue mode es d []) (e : Happening τ) (exit : Exit)
    (quiet : e.labels = [])
    (may : ∀ task ∈ d.server.tasks, ∀ p, task.rest = some p → allowed p) :
    Serves allowed issue mode (es ++ [e]) (d.returned exit) (Server.cancels 0 d.server.tasks) where
  run := by
    have run := serves.run
    rw [List.append_nil] at run
    rw [List.flatMap_append, List.flatMap_singleton, quiet, List.append_nil]
    exact run.append (Server.run_dropped (run.mono fun _ _ _ _ step => step.1) may)
  drops l member := Server.mem_cancels member
  serving := nofun

/-- In a step either the connections go on, or `run` returns. -/
theorem step_cases (step : Step issue listen path d e d') :
    (d'.exit = none ∧ Run (Server.DropStep allowed issue) d.server e.labels d'.server) ∨
      ∃ exit, d' = d.returned exit ∧ e.labels = [] ∧ ∀ l, e ≠ .turn l := by
  cases step with
  | @socksBind _ result up here | @controlBind _ result up here | @controlAccept _ result up here =>
    cases result with
    | ok _ => exact .inl ⟨up, .nil⟩
    | error error => exact .inr ⟨_, rfl, rfl, by simp⟩
  | @socksAccept _ result up here =>
    cases result with
    | ok peer => exact .inl ⟨up, .single ⟨.accept, by rintro _ _ _ ⟨⟩⟩⟩
    | error error => exact .inl ⟨up, .nil⟩
  | socksWake up here => exact .inl ⟨up, .nil⟩
  | controlDone up => exact .inl ⟨up, .nil⟩
  | turn up own moves => exact .inl ⟨up, .single (dropStep_of_turn own moves)⟩
  | sigterm up => exact .inr ⟨_, rfl, rfl, by simp⟩

theorem serves_step (serves : Serves allowed issue mode es d []) (step : Step issue listen path d e d')
    (may : (∀ l, e ≠ .turn l) → ∀ task ∈ d.server.tasks, ∀ p, task.rest = some p → allowed p) :
    ∃ last, Serves allowed issue mode (es ++ [e]) d' last := by
  rcases step_cases step with ⟨-, moves⟩ | ⟨exit, rfl, quiet, own⟩
  · have run := serves.run
    rw [List.append_nil] at run
    refine ⟨[], ?_, by simp, fun _ => rfl⟩
    rw [List.flatMap_append, List.flatMap_singleton, List.append_nil]
    exact run.append moves
  · exact ⟨_, serves.returned e exit quiet (may own)⟩

/-- Nothing happens before the end of `run` that is not a step of it. -/
theorem exit_of_step (step : Step issue listen path d e d') : d.exit = none := by
  cases step <;> assumption

/-- As long as `run` does not return its connections go on. -/
theorem run_serving (run : Run (Step issue listen path) d es d') (up : d'.exit = none) :
    Run (Server.Step issue) d.server (es.flatMap Happening.labels) d'.server := by
  induction run with
  | nil => exact .nil
  | @cons d e m es d' first rest ih =>
    have still : m.exit = none := by
      cases rest with
      | nil => exact up
      | cons next _ => exact exit_of_step next
    rcases @step_cases _ _ _ _ (fun _ => True) _ _ _ first with ⟨-, here⟩ | ⟨exit, rfl, -, -⟩
    · exact (here.mono fun _ _ _ _ step => step.1).append (ih up)
    · cases still

/-- For runs whose steps drop tasks as allowed. -/
theorem serves_run {step : Daemon τ → Happening τ → Daemon τ → Prop}
    (taken : ∀ d e d', step d e d' → Step issue listen path d e d')
    (may : ∀ d e d', step d e d' → (∀ l, e ≠ .turn l) →
      ∀ task ∈ d.server.tasks, ∀ p, task.rest = some p → allowed p)
    (run : Run step (start issue mode) es d) : ∃ last, Serves allowed issue mode es d last := by
  refine run.invariant (fun es d => ∃ last, Serves allowed issue mode es d last)
    ⟨[], .nil, by simp, fun _ => rfl⟩ ?_
  rintro es d e d' _ ⟨last, serves⟩ step
  obtain rfl := serves.serving (exit_of_step (taken d e d' step))
  exact serves_step serves (taken d e d' step) (may d e d' step)

theorem returned_of_exit (step : Step issue listen path d e d') (ended : d'.exit ≠ none) :
    ∃ exit, d' = d.returned exit := by
  cases step with
  | @socksBind _ result up here =>
    cases result with
    | ok _ => exact absurd up ended
    | error error => exact ⟨_, rfl⟩
  | @controlBind _ result up here =>
    cases result with
    | ok _ => exact absurd up ended
    | error error => exact ⟨_, rfl⟩
  | @socksAccept _ result up here => cases result <;> exact absurd up ended
  | @controlAccept _ result up here =>
    cases result with
    | ok _ => exact absurd up ended
    | error error => exact ⟨_, rfl⟩
  | sigterm up => exact ⟨_, rfl⟩
  | _ => exact absurd ‹d.exit = none› ended

theorem idle_of_exit (run : Run (Step issue listen path) (start issue mode) es d)
    (ended : d.exit ≠ none) : ∀ task ∈ d.server.tasks, task.running = false := by
  refine run.invariant (fun _ (d : Daemon τ) =>
    d.exit ≠ none → ∀ task ∈ d.server.tasks, task.running = false) (fun up => absurd rfl up) ?_ ended
  intro _ d e d' _ _ step ended task member
  obtain ⟨exit, rfl⟩ := returned_of_exit step ended
  obtain ⟨before, -, rfl⟩ := List.mem_map.mp member
  split
  · rfl
  · next idle => exact Bool.eq_false_iff.mpr idle

/-- However the daemon ends, no handler runs, the table is empty and nothing follows. -/
theorem shutdown_clean (run : Run (Step issue listen path) (start issue mode) es d)
    (ended : d.exit ≠ none) : (∀ task ∈ d.server.tasks, task.running = false) ∧
      d.server.counters.streams.isEmpty ∧ ∀ e d', ¬ Step issue listen path d e d' := by
  have idle := idle_of_exit run ended
  obtain ⟨last, serves⟩ := @serves_run τ issue listen path (fun _ => True) es d mode _
    (fun _ _ _ step => step) (fun _ _ _ _ _ _ _ _ _ => trivial) run
  have server : Run (Server.Step issue) (.start issue mode) _ d.server :=
    serves.run.mono fun _ _ _ _ step => step.1
  refine ⟨idle, ?_, fun e d' step => ended (exit_of_step step)⟩
  obtain ⟨calls, live, history, perm⟩ := Server.refines server
  have nothing : d.server.live = [] := by
    refine List.flatMap_eq_nil_iff.mpr fun task member => ?_
    obtain ⟨c, here⟩ := List.mem_iff_getElem?.mp member
    rw [Server.live_of_idle server here (idle task member)]
    rfl
  obtain rfl : live = [] := by simpa [nothing] using perm
  have rowless (id : UInt64) : d.server.counters.streams.inner.lookup id = none := by
    cases row : d.server.counters.streams.inner.lookup id with
    | none => rfl
    | some arc => cases (World.rows_live history id arc row).1
  have empty : d.server.counters.streams.inner.entries = [] :=
    List.eq_nil_iff_forall_not_mem.mpr fun ⟨id, arc⟩ member => by
      have found := AList.mem_lookup_iff.mpr member
      rw [rowless id] at found
      cases found
  simp [StreamRegistry.isEmpty, StreamRegistry.len, empty]

theorem run_turns {d : Daemon τ} {s t : Server τ} (serving : d.exit = none)
    (own : ∀ l ∈ ls, l.isTurn) (run : Run (Server.Step issue) s ls t) :
    Run (Step issue listen path) { d with server := s } (ls.map .turn) { d with server := t } := by
  induction run with
  | nil => exact .nil
  | cons first _ ih =>
    rw [List.forall_mem_cons] at own
    exact .cons (.turn serving own.1 first) (ih own.2)

/-- The daemon with both listeners bound and one client. -/
theorem run_accepted (issue : Nat → τ) (mode : Isolation) (peer : SocketAddr) :
    Run (Step issue listen path) (start issue mode)
      [.controlBind (.ok ()), .socksBind (.ok ()), .socksAccept (.ok peer)]
      ⟨.accepting, .accepting, ⟨{}, .new issue mode, [.spawn peer]⟩, none⟩ :=
  .cons (.controlBind rfl rfl) (.cons (.socksBind rfl rfl) (.single (.socksAccept rfl rfl)))

/-- SIGTERM while the splice of a client runs. -/
theorem shutdown_clean_spliced : ∃ (es : List (Happening Nat)) (d : Daemon Nat),
    Run (Step id (.v4 ⟨.of [127, 0, 0, 1]⟩ 9050) "/run/tord.sock") (start id .shared) es d ∧
      d.server.counters.metrics.connectsOk = 1 ∧ d.server.counters.streams.isEmpty := by
  let peer : SocketAddr := .v4 ⟨.of [127, 0, 0, 1]⟩ 40000
  obtain ⟨next, route⟩ := Server.path_knock_spliced peer ⟨0⟩
  have whole : Run (Server.Step id) (.start id .shared) _ _ :=
    Server.run_connection route free_knock (by simp [Server.Free]) rfl
  cases whole with
  | cons first turns =>
    cases first
    have spliced := @run_turns Nat id (.v4 ⟨.of [127, 0, 0, 1]⟩ 9050) "/run/tord.sock" _
      ⟨.accepting, .accepting, ⟨{}, .new id .shared, []⟩, none⟩ _ _ rfl
      (List.all_eq_true.mp rfl) turns
    have run := (run_accepted id .shared peer).append (spliced.snoc (.sigterm rfl))
    exact ⟨_, _, run, rfl, (shutdown_clean run (Option.some_ne_none _)).2.1⟩

end Daemon

end Tord
