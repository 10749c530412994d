import Tord.Socks.Connections

/-! CONNECT accounting: the three connect counters against the handlers that are between
counting a CONNECT and counting its outcome. -/
namespace Tord.Socks

open Interaction Transition

variable {τ : Type} {issue : Nat → τ}

inductive Stage where
  | fresh | counted | resolved
  deriving DecidableEq

def Stage.after (stage : Stage) : Op → Stage
  | .fetchAdd .connectsTotal _ => .counted
  | .fetchAdd .connectsOk _ => .resolved
  | .fetchAdd .connectsFailed _ => .resolved
  | _ => stage

def stage (h : Trace) : Stage := h.foldl (fun stage event => stage.after event.1) .fresh

@[simp] theorem stage_snoc (h : Trace) (event : Event Op.Res) :
    stage (h ++ [event]) = (stage h).after event.1 := by simp [stage]

def Task.owing (task : Task τ) : Bool := task.running && stage task.trace = .counted

def LostReply : (op : Op) → op.Res → Prop
  | .writeAll bytes, .error _ => bytes = replyBytes repSuccess
  | _, _ => False

/-- One handler counts its CONNECT at most once, then its outcome at most once, and
does not return in between while the replies of success go out. -/
def accounting : Contract Op.Res Stage where
  relies _ op reply := ¬ LostReply op reply
  demands stage op := match op with
    | .fetchAdd .connectsTotal n => stage = .fresh ∧ n = 1
    | .fetchAdd .connectsOk n => stage = .counted ∧ n = 1
    | .fetchAdd .connectsFailed n => stage = .counted ∧ n = 1
    | .fetchAdd _ _ => False
    | _ => True
  after stage op _ := stage.after op

def Settles (_ : Except Error Unit) (stage : Stage) : Prop := stage ≠ .counted

theorem handle_accounting (peer : SocketAddr) : accounting.Meets Settles (handle peer).run .fresh := by
  rw [handle_eq]
  have decoded : accounting.Meets (fun _ stage => stage = .fresh) decode.run .fresh := by
    refine Contract.Meets.unobserved talks_decode ?_ ?_ fun _ => rfl
    · rintro (_ | _ | _ | _ | _ | _ | _) talks <;> trivial
    · rintro (_ | _ | _ | _ | _ | _ | _) talks _ <;> first | rfl | exact talks.elim
  apply decoded.andThen (by rintro _ _ rfl; exact nofun)
  rintro ⟨isoUser, host, port⟩ _ rfl
  refine ⟨⟨rfl, rfl⟩, fun _ _ => ⟨trivial, fun stream _ => ⟨trivial, fun opened _ => ?_⟩⟩⟩
  cases opened with
  | error e =>
    refine ⟨⟨rfl, rfl⟩, fun _ _ => ⟨trivial, fun reply _ => ?_⟩⟩
    cases reply <;> exact ⟨trivial, fun _ _ => nofun⟩
  | ok opened =>
    refine ⟨trivial, fun reply delivered => ?_⟩
    cases reply with
    | error e => exact (delivered rfl).elim
    | ok _ =>
      refine ⟨⟨rfl, rfl⟩, fun _ _ => ⟨trivial, fun copied _ => ?_⟩⟩
      cases copied <;> exact ⟨trivial, fun _ _ => nofun⟩

theorem running_of_counted {p : Prog Op.Res (Except Error Unit)}
    (meets : accounting.Meets Settles p .counted) : ∃ op next, p = .request op next := by
  cases p with
  | pure result => exact (meets rfl).elim
  | request op next => exact ⟨op, next, rfl⟩

namespace Server

/-- An outcome that is never counted: its reply was lost, or its handler was dropped. -/
def LosesOutcome (s : Server τ) : Label τ → Prop
  | .exchange _ op reply => LostReply op reply
  | .cancel c => ∃ task, s.tasks[c]? = some task ∧ task.owing
  | _ => False

def KeepingStep (issue : Nat → τ) (s : Server τ) (l : Label τ) (t : Server τ) : Prop :=
  Step issue s l t ∧ ¬ s.LosesOutcome l

def owed (s : Server τ) : Nat := s.tasks.countP Task.owing

structure Accounted (s : Server τ) : Prop where
  balance : s.counters.metrics.connectsTotal =
    s.counters.metrics.connectsOk + s.counters.metrics.connectsFailed + .ofNat s.owed
  settles : ∀ (c : Nat) (task : Task τ) p, s.tasks[c]? = some task → task.rest = some p →
    accounting.Meets Settles p (stage task.trace)

theorem owed_set {tasks : List (Task τ)} {c : Nat} (after : Task τ) (here : tasks[c]? = some before) :
    (tasks.set c after).countP Task.owing + before.owing.toNat =
      tasks.countP Task.owing + after.owing.toNat := by
  obtain ⟨bound, rfl⟩ := List.getElem?_eq_some_iff.mp here
  have positive (owes : tasks[c].owing = true) : 0 < tasks.countP Task.owing :=
    List.countP_pos_iff.mpr ⟨_, List.getElem_mem bound, owes⟩
  rw [List.countP_set bound]
  cases owes : tasks[c].owing <;> cases after.owing <;> simp
  all_goals have := positive owes; omega

theorem owed_set_same {tasks : List (Task τ)} {c : Nat} (here : tasks[c]? = some before)
    (same : after.owing = before.owing) :
    (tasks.set c after).countP Task.owing = tasks.countP Task.owing := by
  have moved := owed_set after here
  rw [same] at moved
  exact Nat.add_right_cancel moved

theorem owing_pending {task : Task τ} (pending : task.rest = some (.request op next)) :
    task.owing = decide (stage task.trace = .counted) := by
  simp [Task.owing, Task.running, pending]

/-- A handler in between is running, since it may not return there. -/
theorem owing_exchanged {task : Task τ} {reply : op.Res}
    (meets : accounting.Meets Settles rest ((stage task.trace).after op)) :
    (task.exchanged op reply rest).owing = decide ((stage task.trace).after op = .counted) := by
  by_cases counted : (stage task.trace).after op = .counted
  · rw [counted] at meets
    obtain ⟨op', next, rfl⟩ := running_of_counted meets
    simp [Task.owing, Task.running, Task.exchanged]
  · simp [Task.owing, Task.exchanged, counted]

namespace Accounted

theorem start (issue : Nat → τ) (mode : Isolation) : Accounted (start issue mode) where
  balance := rfl
  settles := by simp [Server.start]

theorem settles_step {s t : Server τ} (acc : Accounted s) (step : KeepingStep issue s l t) (c : Nat)
    (task : Task τ) (p : Prog Op.Res (Except Error Unit)) (found : t.tasks[c]? = some task)
    (left : task.rest = some p) : accounting.Meets Settles p (stage task.trace) := by
  obtain ⟨step, kept⟩ := step
  rcases step.origin found with ⟨before, here, evolves⟩ | ⟨peer, -, -, rfl⟩
  · cases evolves with
    | same => exact acc.settles c _ p here left
    | exchange pending =>
      cases left
      rw [Task.exchanged, stage_snoc]
      exact (acc.settles c _ _ here pending).2 _ kept
    | isolate pending => exact acc.settles c before p here left
    | cancel => cases left
  · cases left
    exact handle_accounting peer

/-- One exchange moves a counter exactly when it moves its handler's stage. -/
theorem balance_exchange {s : Server τ} {c : Nat} (acc : Accounted s) (here : s.tasks[c]? = some task)
    (pending : task.rest = some (.request op next)) (kept : ¬ LostReply op reply) :
    let metrics := (s.counters.serve started op).metrics
    metrics.connectsTotal = metrics.connectsOk + metrics.connectsFailed +
      .ofNat ((s.tasks.set c (task.exchanged op reply (next reply))).countP Task.owing) := by
  have meets := acc.settles c task _ here pending
  have moved := owed_set (task.exchanged op reply (next reply)) here
  rw [owing_exchanged (meets.2 reply kept), owing_pending pending] at moved
  have demands := meets.1
  have balance := acc.balance
  generalize (s.tasks.set c _).countP Task.owing = owed at moved ⊢
  change owed + _ = s.owed + _ at moved
  have unmoved (same : (stage task.trace).after op = stage task.trace) : owed = s.owed := by
    rw [same] at moved
    omega
  cases op with
  | fetchAdd counter n =>
    cases counter with
    | connectsTotal =>
      obtain ⟨fresh, rfl⟩ := demands
      obtain rfl : owed = s.owed + 1 := by simpa [fresh, Stage.after] using moved
      simp only [Counters.serve, Metrics.fetchAdd, balance, UInt64.ofNat_add]
      ac_rfl
    | connectsOk =>
      obtain ⟨counted, rfl⟩ := demands
      have owes : s.owed = owed + 1 := by simpa [counted, Stage.after] using moved.symm
      simp only [Counters.serve, Metrics.fetchAdd, balance, owes, UInt64.ofNat_add]
      ac_rfl
    | connectsFailed =>
      obtain ⟨counted, rfl⟩ := demands
      have owes : s.owed = owed + 1 := by simpa [counted, Stage.after] using moved.symm
      simp only [Counters.serve, Metrics.fetchAdd, balance, owes, UInt64.ofNat_add]
      ac_rfl
    | bytesToUpstream => exact demands.elim
    | bytesToClient => exact demands.elim
  | _ =>
    rw [unmoved rfl]
    exact balance

theorem step {s t : Server τ} (acc : Accounted s) (step : KeepingStep issue s l t) : Accounted t where
  settles := acc.settles_step step
  balance := by
    obtain ⟨step, kept⟩ := step
    cases step with
    | accept =>
      have idle (peer : SocketAddr) : (Task.spawn peer : Task τ).owing = false := by
        simp [Task.owing, Task.spawn, stage]
      simpa [owed, List.countP_append, idle] using acc.balance
    | exchange started here pending answers => exact acc.balance_exchange here pending kept
    | isolate here pending unset =>
      rw [owed, owed_set_same here (by rfl)]
      exact acc.balance
    | pollRead here pending promised => simpa [Counters.pollRead_eq promised, Metrics.fetchAdd, owed] using acc.balance
    | pollWrite => simpa [Counters.pollWrite_eq, Metrics.fetchAdd, owed] using acc.balance
    | cancel here running =>
      have settled : _ = false := Bool.eq_false_iff.mpr fun owes => kept ⟨_, here, owes⟩
      rw [owed, owed_set_same here (by rw [settled]; rfl)]
      unfold Counters.dropLocals
      split <;> exact acc.balance

end Accounted

/-- Every CONNECT is counted as ok or failed, or its handler is about to, in every state
that a run without lost outcomes reaches. -/
theorem connects_accounted (run : Run (KeepingStep issue) (start issue mode) ls s) :
    s.counters.metrics.connectsTotal =
      s.counters.metrics.connectsOk + s.counters.metrics.connectsFailed + .ofNat s.owed :=
  (run.invariant (fun _ => Accounted) (.start issue mode) fun _ _ _ _ _ acc step => acc.step step).balance

/-- After a client whose circuit failed. -/
theorem connects_accounted_failed :
    ∃ (ls : List (Label Nat)) (s : Server Nat), Run (KeepingStep id) (start id .shared) ls s ∧
      s.counters.metrics.connectsTotal = 1 ∧ s.owed = 0 ∧
      s.counters.metrics.connectsTotal =
        s.counters.metrics.connectsOk + s.counters.metrics.connectsFailed + .ofNat s.owed := by
  have run : Run (Step id) (start id .shared) _ _ := run_connection
    (path_knock_failed (.v4 ⟨⟨[127, 0, 0, 1], rfl⟩⟩ 40000) ⟨0⟩ (.msg "no circuit")) free_knock
    (by simp [Free]) rfl
  have kept : Run (KeepingStep id) (start id .shared) _ _ :=
    run.mono fun s l _ member step => ⟨step, ?_⟩
  · exact ⟨_, _, kept, rfl, rfl, connects_accounted kept⟩
  · revert s l
    simp [exchanges, knock, LosesOutcome, LostReply]

/-- A client that hangs up while its circuit is built: the reply of success is lost, no
handler is left, and the CONNECT is counted neither as ok nor as failed. -/
theorem connects_unaccounted :
    ∃ (ls : List (Label Nat)) (s : Server Nat), Run (Step id) (start id .shared) ls s ∧
      (∀ task ∈ s.tasks, task.running = false) ∧ s.owed = 0 ∧
      s.counters.metrics.connectsTotal = 1 ∧
      s.counters.metrics.connectsOk = 0 ∧ s.counters.metrics.connectsFailed = 0 := by
  have path : Path (handle (.v4 ⟨⟨[127, 0, 0, 1], rfl⟩⟩ 40000)).run
      (knock ++ ⟨.register _ "1.1.1.1:80" none, ⟨0⟩⟩ :: ⟨.connect "1.1.1.1" 80 none, .ok ()⟩ ::
        [⟨.writeAll (replyBytes repSuccess), .error ⟨.brokenPipe, "broken pipe", []⟩⟩,
          ⟨.dropStream ⟨0⟩, ()⟩]) (.pure (.error (.ofIo ⟨.brokenPipe, "broken pipe", []⟩))) :=
    (path_knock _).append (.cons .reply (.cons .reply (.cons .reply (.cons .reply .nil))))
  exact ⟨_, _, run_connection path free_knock (by simp [Free]) rfl, by simp [start, Task.running],
    rfl, rfl, rfl, rfl⟩

end Server

end Tord.Socks
