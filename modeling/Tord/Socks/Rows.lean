import Tord.Socks.Connections
import Tord.StreamsHistory

/-! The rows of the connection table: each handler registers once, holds its row over
the whole splice and drops it once. So a run of the server is a run of the registry. -/
namespace Tord.Socks

open Interaction Transition

variable {τ : Type} {issue : Nat → τ}

@[simp] theorem holding_snoc (h : Trace) (event : Event Op.Res) :
    holding (h ++ [event]) = (holding h).after event.1 event.2 := by simp [holding]

/-- One handler registers at most one row and uses no other; it leaves the byte totals to
the polls of its splice. -/
def ownership : Contract Op.Res Hold where
  relies _ _ _ := True
  demands hold op := match op with
    | .fetchAdd counter _ => counter ≠ .bytesToUpstream ∧ counter ≠ .bytesToClient
    | .register _ _ _ => hold = .unregistered
    | .copyBidirectional entry => hold = .held ⟨entry⟩
    | .dropStream stream => hold = .held stream
    | _ => True
  after := Hold.after

def Released (_ : Except Error Unit) (hold : Hold) : Prop := hold.live = none

theorem handle_ownership (peer : SocketAddr) :
    ownership.Meets Released (handle peer).run .unregistered := by
  rw [handle_eq]
  have decoded : ownership.Meets (fun _ hold => hold = .unregistered) decode.run .unregistered := by
    refine Contract.Meets.unobserved talks_decode ?_ ?_ fun _ => rfl
    · rintro (_ | _ | _ | _ | _ | _ | _) talks <;> trivial
    · rintro (_ | _ | _ | _ | _ | _ | _) talks _ <;> first | rfl | exact talks.elim
  apply decoded.andThen (by rintro _ _ rfl; rfl)
  rintro ⟨isoUser, host, port⟩ _ rfl
  refine ⟨⟨nofun, nofun⟩, fun _ _ => ⟨rfl, fun stream _ => ⟨trivial, fun opened _ => ?_⟩⟩⟩
  cases opened with
  | error e =>
    refine ⟨⟨nofun, nofun⟩, fun _ _ => ⟨trivial, fun reply _ => ?_⟩⟩
    cases reply <;> exact ⟨rfl, fun _ _ => rfl⟩
  | ok opened =>
    refine ⟨trivial, fun reply _ => ?_⟩
    cases reply with
    | error e => exact ⟨rfl, fun _ _ => rfl⟩
    | ok _ =>
      refine ⟨⟨nofun, nofun⟩, fun _ _ => ⟨rfl, fun copied _ => ?_⟩⟩
      cases copied <;> exact ⟨rfl, fun _ _ => rfl⟩

namespace Server

def Owns (task : Task τ) : Prop :=
  ∀ p, task.rest = some p → ownership.Meets Released p (holding task.trace)

theorem owns {c : Nat} (run : Run (Step issue) (start issue mode) ls s)
    (here : s.tasks[c]? = some task) : Owns task := by
  intro p left
  obtain ⟨q, path, whole⟩ := reached run here
  obtain rfl := whole p left
  have relied := ownership.relied_of_unconditional (fun _ _ _ => trivial) .unregistered task.trace
  exact (handle_ownership task.peer).path path relied

def live (s : Server τ) : List StreamHandle := s.tasks.flatMap fun task => task.live.toList

theorem live_set {tasks : List (Task τ)} {c : Nat} (after : Task τ) (here : tasks[c]? = some before) :
    ((tasks.set c after).flatMap (fun task => task.live.toList) ++ before.live.toList).Perm
      (tasks.flatMap (fun task => task.live.toList) ++ after.live.toList) := by
  induction tasks generalizing c with
  | nil => simp at here
  | cons task tasks ih =>
    cases c with
    | zero =>
      obtain rfl : task = before := by simpa using here
      simp only [List.set_cons_zero, List.flatMap_cons, List.append_assoc]
      exact (List.perm_append_comm_assoc _ _ _).trans
        ((List.perm_append_comm.append_left _).trans (List.perm_append_comm_assoc _ _ _))
    | succ c =>
      simp only [List.set_cons_succ, List.flatMap_cons, List.append_assoc]
      exact (ih (by simpa using here)).append_left _

theorem live_set_same {tasks : List (Task τ)} {c : Nat} (here : tasks[c]? = some before)
    (same : after.live = before.live) :
    ((tasks.set c after).flatMap fun task => task.live.toList).Perm
      (tasks.flatMap fun task => task.live.toList) := by
  have moved := live_set after here
  rw [same] at moved
  exact (List.perm_append_right_iff _).mp moved

theorem mem_live {s : Server τ} {c : Nat} (here : s.tasks[c]? = some task)
    (held : task.live = some stream) : stream ∈ s.live :=
  List.mem_flatMap.mpr ⟨task, List.mem_of_getElem? here, by simp [held]⟩

theorem live_pending {task : Task τ} (pending : task.rest = some p) :
    task.live = (holding task.trace).live := by
  rw [Task.live, pending]

/-- The registry calls of a run, and the handles that have not been dropped. -/
def Refines (s : Server τ) : Prop := ∃ calls live,
  Run World.Step {} calls ⟨s.counters.streams, live⟩ ∧ live.Perm s.live

namespace Refines

theorem idle {s t : Server τ} (refines : Refines s) (streams : t.counters.streams = s.counters.streams)
    (same : t.live.Perm s.live) : Refines t := by
  obtain ⟨calls, live, run, perm⟩ := refines
  exact ⟨calls, live, streams ▸ run, perm.trans same.symm⟩

theorem counted {s t : Server τ} (refines : Refines s)
    (streams : t.counters.streams = s.counters.streams.count arc up down)
    (tasks : t.tasks = s.tasks) : Refines t := by
  obtain ⟨calls, live, run, perm⟩ := refines
  refine ⟨calls ++ [.count arc up down], live, ?_, by rwa [Server.live, tasks]⟩
  rw [streams]
  exact run.snoc (.taken nofun)

theorem registered {s t : Server τ} (refines : Refines s)
    (streams : t.counters.streams = (s.counters.streams.register peer target isolation started).2)
    (same : t.live.Perm (s.live ++ [(s.counters.streams.register peer target isolation started).1])) :
    Refines t := by
  obtain ⟨calls, live, run, perm⟩ := refines
  refine ⟨calls ++ [.register peer target isolation started], _, ?_,
    (perm.append_right _).trans same.symm⟩
  rw [streams]
  exact run.snoc (.taken nofun)

theorem dropped {s t : Server τ} (refines : Refines s) (held : stream ∈ s.live)
    (streams : t.counters.streams = s.counters.streams.dropHandle stream)
    (same : (t.live ++ [stream]).Perm s.live) : Refines t := by
  obtain ⟨calls, live, run, perm⟩ := refines
  refine ⟨calls ++ [.drop stream], live.erase stream, ?_, ?_⟩
  · rw [streams]
    refine run.snoc (.taken ?_)
    rintro _ ⟨⟩
    exact perm.mem_iff.mpr held
  · have left := (List.perm_append_comm.trans (same.trans perm.symm)).erase stream
    simpa using left.symm

end Refines

theorem refines_exchange {s : Server τ} {c : Nat} (refines : Refines s)
    (here : s.tasks[c]? = some task) (pending : task.rest = some (.request op next))
    (answers : s.Answers task started op reply) (owns : Owns task) :
    Refines ⟨s.counters.serve started op, s.tor, s.tasks.set c (task.exchanged op reply (next reply))⟩ := by
  have moved := live_set (task.exchanged op reply (next reply)) here
  have demands := (owns _ pending).1
  have before := live_pending pending
  have after : (task.exchanged op reply (next reply)).live = ((holding task.trace).after op reply).live :=
    (live_pending rfl).trans (by rw [Task.exchanged, holding_snoc])
  rw [before, after] at moved
  cases op with
  | register peer target isolation =>
    obtain rfl := answers
    have demands : holding task.trace = .unregistered := demands
    apply refines.registered rfl
    simpa [Server.live, demands, Hold.after, Hold.live] using moved
  | dropStream stream =>
    have demands : holding task.trace = .held stream := demands
    rw [demands] at before moved
    apply refines.dropped (mem_live here before) rfl
    simpa [Server.live, Hold.after, Hold.live] using moved
  | _ => exact refines.idle rfl (live_set_same here (after.trans before.symm))

/-- A dropped task drops its locals. -/
theorem refines_cancel {s : Server τ} {c : Nat} (refines : Refines s)
    (here : s.tasks[c]? = some task) :
    Refines ⟨s.counters.dropLocals task, s.tor, s.tasks.set c task.cancelled⟩ := by
  have moved := live_set task.cancelled here
  cases held : task.live with
  | none => exact refines.idle (by simp [Counters.dropLocals, held]) (live_set_same here held.symm)
  | some stream =>
    apply refines.dropped (mem_live here held) (by simp [Counters.dropLocals, held])
    rw [held] at moved
    simpa [Server.live, Task.live, Task.cancelled] using moved

theorem refines_step {s t : Server τ} (refines : Refines s) (step : Step issue s l t)
    (owns : ∀ (c : Nat) (task : Task τ), s.tasks[c]? = some task → Owns task) : Refines t := by
  cases step with
  | accept =>
    refine refines.idle rfl ?_
    simp [live, Task.spawn, Task.live, holding, Hold.live]
  | exchange started here pending answers =>
    exact refines_exchange refines here pending answers (owns _ _ here)
  | isolate here pending unset => exact refines.idle rfl (live_set_same here rfl)
  | pollRead here pending promised => exact refines.counted (by rw [Counters.pollRead_eq promised]) rfl
  | pollWrite here pending => exact refines.counted (by rw [Counters.pollWrite_eq]) rfl
  | cancel here running => exact refines_cancel refines here

/-- A run of the server is a run of its registry. -/
theorem refines (run : Run (Step issue) (start issue mode) ls s) : Refines s := by
  refine run.invariant (fun _ => Refines) ⟨[], [], .nil, .refl _⟩ ?_
  intro _ s l t front inv step
  exact refines_step inv step fun c task here => owns front here

end Server

end Tord.Socks
