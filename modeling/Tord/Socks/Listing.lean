import Mathlib.Data.Set.Card
import Tord.Socks.ByteCounts
import Tord.Socks.Ledger

/-! What the registry and the connect counters say, wherever every handler waits: each
counter is the number of connections of its kind, and the rows are the connections whose
handshake is over and whose handler still runs, one each, under what the client sent. -/
namespace Tord.Socks

open Interaction Transition

variable {τ : Type} {issue : Nat → τ}

theorem finite_indices (p : α → Prop) (l : List α) :
    {i : Nat | ∃ a, l[i]? = some a ∧ p a}.Finite := by
  apply (Set.finite_lt_nat l.length).subset
  rintro i ⟨a, found, -⟩
  exact (List.getElem?_eq_some_iff.mp found).1

theorem ncard_indices (p : α → Bool) (l : List α) :
    {i : Nat | ∃ a, l[i]? = some a ∧ p a}.ncard = l.countP p := by
  induction l with
  | nil => simp
  | cons a l ih =>
    have split : {i : Nat | ∃ b, (a :: l)[i]? = some b ∧ p b} =
        {i | i = 0 ∧ p a} ∪ Nat.succ '' {i : Nat | ∃ b, l[i]? = some b ∧ p b} := by
      ext i
      cases i with
      | zero => simp
      | succ i => simp
    have apart : Disjoint {i | i = 0 ∧ p a} (Nat.succ '' {i : Nat | ∃ b, l[i]? = some b ∧ p b}) := by
      rw [Set.disjoint_left]
      rintro _ ⟨rfl, -⟩ ⟨i, -, same⟩
      cases same
    have finite : {i | i = 0 ∧ p a}.Finite := (Set.finite_singleton 0).subset fun i here => here.1
    rw [split, Set.ncard_union_eq apart finite ((finite_indices _ l).image _),
      Set.ncard_image_of_injective _ Nat.succ_injective, ih, List.countP_cons, Nat.add_comm]
    by_cases counted : p a <;> simp [counted]

open Classical in
theorem sum_counts {l : List α} {p : α → Prop} {f : α → UInt64} (each : ∀ a ∈ l, Counts (p a) (f a)) :
    (l.map f).sum = .ofNat {i : Nat | ∃ a, l[i]? = some a ∧ p a}.ncard := by
  have indices := ncard_indices (fun a => decide (p a)) l
  simp only [decide_eq_true_eq] at indices
  rw [indices]
  clear indices
  induction l with
  | nil => rfl
  | cons a l ih =>
    rw [List.map_cons, List.sum_cons, ih fun b member => each b (.tail _ member), List.countP_cons]
    obtain ⟨one, zero⟩ := each a (.head _)
    by_cases holds : p a
    · simp [one holds, holds, UInt64.ofNat_add, UInt64.add_comm]
    · simp [zero holds, holds]

theorem map_set_same {l : List α} {f : α → β} (here : l[i]? = some before) (same : f after = f before) :
    (l.set i after).map f = l.map f := by
  obtain ⟨bound, rfl⟩ := List.getElem?_eq_some_iff.mp here
  have inside : i < (l.map f).length := by rwa [List.length_map]
  have unchanged := List.set_getElem_self inside
  rw [List.getElem_map] at unchanged
  rw [List.map_set, same, unchanged]

theorem sum_map_set {l : List α} {f : α → UInt64} (here : l[i]? = some before)
    (moved : f after = f before + n) : ((l.set i after).map f).sum = (l.map f).sum + n := by
  rw [List.set_eq_modify]
  exact sum_map_modify here moved

namespace Server

def traceOf (s : Server τ) (c : Nat) : Trace := (s.tasks[c]?).elim [] (·.trace)

def running (s : Server τ) (c : Nat) : Bool := (s.tasks[c]?).any (·.running)

theorem load_serve (s : Counters) (started : Nat) (counter : Counter) (op : Op) (reply : op.Res) :
    (s.serve started op).metrics.load counter = s.metrics.load counter + added counter ⟨op, reply⟩ := by
  cases op with
  | fetchAdd other n =>
    apply (s.metrics.load_fetchAdd other counter n).trans
    by_cases same : other = counter
    · simp [added, same]
    · simp [added, same, Ne.symm same]
  | _ => exact (UInt64.add_zero _).symm

theorem metrics_dropLocals (s : Counters) (task : Task τ) :
    (s.dropLocals task).metrics = s.metrics := by
  unfold Counters.dropLocals
  split <;> rfl

theorem tally_exchanged (task : Task τ) (counter : Counter) (op : Op) (reply : op.Res)
    (rest : Prog Op.Res (Except Error Unit)) : tally counter (task.exchanged op reply rest).trace =
      tally counter task.trace + added counter ⟨op, reply⟩ := by
  rw [Task.exchanged, tally_append]
  simp [tally]

/-- The connect counters are the handlers' own doing. -/
theorem tallied (run : Run (Step issue) (start issue mode) ls s) (counter : Counter)
    (notUp : counter ≠ .bytesToUpstream) (notDown : counter ≠ .bytesToClient) :
    s.counters.metrics.load counter = (s.tasks.map fun task => tally counter task.trace).sum := by
  refine run.invariant (fun _ (s : Server τ) => s.counters.metrics.load counter =
    (s.tasks.map fun task => tally counter task.trace).sum) (by cases counter <;> rfl) ?_
  intro _ s l t _ inv step
  cases step with
  | accept => simpa [Task.spawn, tally] using inv
  | exchange started here pending answers =>
    rename_i task op reply next
    refine (load_serve s.counters started counter op reply).trans ?_
    rw [inv]
    exact (sum_map_set here (tally_exchanged task counter op reply _)).symm
  | isolate here pending unset =>
    refine inv.trans (congrArg List.sum (Eq.symm ?_))
    exact map_set_same here rfl
  | pollRead here pending promised =>
    rw [Counters.pollRead_eq promised]
    exact (Metrics.load_fetchAdd _ _ _ _).trans ((if_neg notUp).trans inv)
  | pollWrite here pending =>
    rw [Counters.pollWrite_eq]
    exact (Metrics.load_fetchAdd _ _ _ _).trans ((if_neg notDown).trans inv)
  | cancel here running =>
    refine Eq.trans ?_ (inv.trans (congrArg List.sum (Eq.symm ?_)))
    · exact congrArg (fun metrics : Metrics => metrics.load counter) (metrics_dropLocals _ _)
    · exact map_set_same here rfl

def totalled (ls : List (Label τ)) (n : Nat) : Nat × Nat :=
  (((List.range n).map fun c => delivered c ls).sum, ((List.range n).map fun c => accepted c ls).sum)

structure Totals (ls : List (Label τ)) (s : Server τ) : Prop where
  up : s.counters.metrics.bytesToUpstream = .ofNat (totalled ls s.tasks.length).1
  down : s.counters.metrics.bytesToClient = .ofNat (totalled ls s.tasks.length).2
  later : ∀ c, s.tasks.length ≤ c → delivered c ls = 0 ∧ accepted c ls = 0

theorem sum_range_bump {f g : Nat → Nat} {c : Nat} (bound : c < n) (here : g c = f c + k)
    (others : ∀ d ≠ c, g d = f d) : ((List.range n).map g).sum = ((List.range n).map f).sum + k := by
  induction n with
  | zero => exact absurd bound (Nat.not_lt_zero c)
  | succ n ih =>
    simp only [List.range_succ, List.map_append, List.sum_append, List.map_singleton,
      List.sum_singleton]
    by_cases last : c = n
    · subst last
      have before : (List.range c).map g = (List.range c).map f :=
        List.map_congr_left fun d member => others d (Nat.ne_of_lt (List.mem_range.mp member))
      rw [before, here, Nat.add_assoc]
    · rw [ih (by omega), others n (Ne.symm last)]
      omega

namespace Totals

variable {s t : Server τ} {ls : List (Label τ)} {l : Label τ}

theorem quiet (inv : Totals ls s) (still : ∀ c, l.delivered c = 0 ∧ l.accepted c = 0)
    (metrics : t.counters.metrics.bytesToUpstream = s.counters.metrics.bytesToUpstream ∧
      t.counters.metrics.bytesToClient = s.counters.metrics.bytesToClient)
    (tasks : s.tasks.length ≤ t.tasks.length) : Totals (ls ++ [l]) t := by
  have same (c : Nat) : delivered c (ls ++ [l]) = delivered c ls ∧
      accepted c (ls ++ [l]) = accepted c ls := by simp [still]
  have longer (k : Nat) : totalled ls (s.tasks.length + k) = totalled ls s.tasks.length := by
    induction k with
    | zero => rfl
    | succ k ih =>
      have idle := inv.later (s.tasks.length + k) (Nat.le_add_right _ _)
      rw [← ih]
      simp [totalled, ← Nat.add_assoc, List.range_succ, idle]
  have total : totalled (ls ++ [l]) t.tasks.length = totalled ls s.tasks.length := by
    rw [← longer (t.tasks.length - s.tasks.length), Nat.add_sub_cancel' tasks]
    simp [totalled, same]
  refine ⟨?_, ?_, fun c beyond => ?_⟩
  · rw [metrics.1, total, inv.up]
  · rw [metrics.2, total, inv.down]
  · rw [(same c).1, (same c).2]
    exact inv.later c (Nat.le_trans tasks beyond)

theorem polled {c : Nat} (inv : Totals ls s) (bound : c < s.tasks.length)
    (tasks : t.tasks = s.tasks)
    (upstream : t.counters.metrics.bytesToUpstream =
      s.counters.metrics.bytesToUpstream + .ofNat (l.delivered c))
    (client : t.counters.metrics.bytesToClient =
      s.counters.metrics.bytesToClient + .ofNat (l.accepted c))
    (others : ∀ d ≠ c, l.delivered d = 0 ∧ l.accepted d = 0) : Totals (ls ++ [l]) t := by
  refine ⟨?_, ?_, fun d beyond => ?_⟩
  · rw [upstream, inv.up, ← UInt64.ofNat_add, tasks]
    exact congrArg UInt64.ofNat (sum_range_bump bound (delivered_snoc c ls l)
      fun d other => by simp [others d other]).symm
  · rw [client, inv.down, ← UInt64.ofNat_add, tasks]
    exact congrArg UInt64.ofNat (sum_range_bump bound (accepted_snoc c ls l)
      fun d other => by simp [others d other]).symm
  · rw [tasks] at beyond
    have idle := inv.later d beyond
    simp [idle, others d (Nat.ne_of_gt (Nat.lt_of_lt_of_le bound beyond))]

end Totals

theorem totals (run : Run (Step issue) (start issue mode) ls s) : Totals ls s := by
  refine run.invariant Totals ⟨rfl, rfl, fun _ _ => ⟨rfl, rfl⟩⟩ ?_
  intro ls s l t front inv step
  have bound {c : Nat} {task : Task τ} (here : s.tasks[c]? = some task) : c < s.tasks.length :=
    (List.getElem?_eq_some_iff.mp here).1
  cases step with
  | accept => exact inv.quiet (fun _ => ⟨rfl, rfl⟩) ⟨rfl, rfl⟩ (by simp)
  | exchange started here pending answers =>
    rename_i task op reply next
    refine inv.quiet (fun _ => ⟨rfl, rfl⟩) ?_ (by simp)
    have demands := (owns front here _ pending).1
    cases op with
    | fetchAdd counter n =>
      obtain ⟨notUp, notDown⟩ := demands
      exact ⟨(Metrics.load_fetchAdd _ counter .bytesToUpstream n).trans (if_neg notUp.symm),
        (Metrics.load_fetchAdd _ counter .bytesToClient n).trans (if_neg notDown.symm)⟩
    | _ => exact ⟨rfl, rfl⟩
  | isolate here pending unset => exact inv.quiet (fun _ => ⟨rfl, rfl⟩) ⟨rfl, rfl⟩ (by simp)
  | pollRead here pending promised =>
    refine inv.polled (bound here) rfl ?_ ?_ ?_
    · simp [Counters.pollRead_eq promised, Label.delivered, Metrics.fetchAdd]
    · simp [Counters.pollRead_eq promised, Label.accepted, Metrics.fetchAdd]
    · exact fun d other => ⟨if_neg (Ne.symm other), rfl⟩
  | pollWrite here pending =>
    refine inv.polled (bound here) rfl ?_ ?_ ?_
    · simp [Counters.pollWrite_eq, Label.delivered, Metrics.fetchAdd]
    · simp [Counters.pollWrite_eq, Label.accepted, Metrics.fetchAdd]
    · exact fun d other => ⟨rfl, if_neg (Ne.symm other)⟩
  | cancel here running =>
    refine inv.quiet (fun _ => ⟨rfl, rfl⟩) ?_ (by simp)
    rw [metrics_dropLocals]
    exact ⟨rfl, rfl⟩

/-- A step that drops a task only with something left that `allowed` holds of. -/
def DropStep (allowed : Prog Op.Res (Except Error Unit) → Prop) (issue : Nat → τ) (s : Server τ)
    (l : Label τ) (t : Server τ) : Prop :=
  Step issue s l t ∧
    ∀ c task p, l = .cancel c → s.tasks[c]? = some task → task.rest = some p → allowed p

abbrev YieldingStep (issue : Nat → τ) := DropStep Waits issue

def Parked (s : Server τ) : Prop := ∀ task ∈ s.tasks, ∀ p, task.rest = some p → Waits p

theorem run_step (run : Run (YieldingStep issue) s ls t) : Run (Step issue) s ls t :=
  run.mono fun _ _ _ _ step => step.1

def Left (task : Task τ) (p : Prog Op.Res (Except Error Unit)) : Prop :=
  Path (handle task.peer).run task.trace p ∧ (task.rest = some p ∨ task.rest = none ∧ Waits p)

theorem left {c : Nat} (run : Run (YieldingStep issue) (start issue mode) ls s)
    (here : s.tasks[c]? = some task) : ∃ p, Left task p := by
  refine run.invariant (fun _ (s : Server τ) => ∀ (c : Nat) (task : Task τ),
    s.tasks[c]? = some task → ∃ p, Left task p) (by simp [start]) ?_ c task here
  intro _ s l t _ inv step c after found
  obtain ⟨step, yields⟩ := step
  rcases step.origin found with ⟨before, here, evolves⟩ | ⟨peer, -, -, rfl⟩
  · obtain ⟨p, path, rest⟩ := inv c before here
    cases evolves with
    | same => exact ⟨p, path, rest⟩
    | exchange pending =>
      rcases rest with rest | ⟨gone, -⟩
      · obtain rfl := Option.some.inj (pending.symm.trans rest)
        exact ⟨_, path.extend _, .inl rfl⟩
      · rw [gone] at pending
        cases pending
    | isolate pending unset => exact ⟨p, path, rest⟩
    | cancel =>
      refine ⟨p, path, .inr ⟨rfl, ?_⟩⟩
      rcases rest with rest | ⟨-, waits⟩
      · exact yields c before p rfl here rest
      · exact waits
  · exact ⟨_, .nil, .inl rfl⟩

/-- Where a handler waits its books are right, and it has a row exactly from the end of
its handshake to its own end. -/
theorem books {c : Nat} (run : Run (YieldingStep issue) (start issue mode) ls s) (parked : s.Parked)
    (here : s.tasks[c]? = some task) : Ledger task.peer task.trace ∧
      (task.live.isSome ↔ Understands task.trace ∧ task.running) := by
  obtain ⟨p, path, rest⟩ := left run here
  have waits : Waits p := by
    rcases rest with rest | ⟨-, waits⟩
    · exact parked task (List.mem_of_getElem? here) p rest
    · exact waits
  obtain ⟨ledger, held⟩ := ledger_of_path path waits
  refine ⟨ledger, ?_⟩
  rcases rest with rest | ⟨gone, -⟩
  · have owns := owns (run_step run) here p rest
    rw [Task.live, rest]
    cases p with
    | pure result =>
      have released : (holding task.trace).live = none := owns
      simp [released, Task.running, rest]
    | request op next =>
      by_cases known : Understands task.trace
      · simp [held op next rfl known, known, Task.running, rest]
      · simp [ledger.unregistered known, known, Hold.live]
  · simp [Task.live, Task.running, gone]

theorem not_understands_nil : ¬ Understands [] := by
  rintro ⟨hs, bytes⟩
  cases bytes

theorem indices_traceOf (s : Server τ) {p : Trace → Prop} (never : ¬ p []) :
    {c | p (s.traceOf c)} = {c | ∃ task, s.tasks[c]? = some task ∧ p task.trace} := by
  ext c
  simp only [Set.mem_ofPred_eq, traceOf]
  cases s.tasks[c]? <;> simp [never]

theorem sum_traces {s : Server τ} {p : Trace → Prop} {f : Trace → UInt64} (never : ¬ p [])
    (each : ∀ task ∈ s.tasks, Counts (p task.trace) (f task.trace)) :
    (s.tasks.map fun task => f task.trace).sum = .ofNat {c | p (s.traceOf c)}.ncard := by
  rw [indices_traceOf s never]
  exact sum_counts each

theorem length_live (s : Server τ) :
    s.live.length = {c : Nat | ∃ task : Task τ, s.tasks[c]? = some task ∧ task.live.isSome}.ncard := by
  rw [ncard_indices fun task : Task τ => task.live.isSome, live]
  induction s.tasks with
  | nil => rfl
  | cons task tasks ih =>
    rw [List.flatMap_cons, List.length_append, ih, List.countP_cons, Nat.add_comm]
    cases task.live <;> rfl

/-- The connections whose handshake is over and whose handler still runs. -/
def proxied (s : Server τ) : Set Nat := {c | Understands (s.traceOf c) ∧ s.running c}

theorem proxied_eq (run : Run (YieldingStep issue) (start issue mode) ls s) (parked : s.Parked) :
    s.proxied = {c : Nat | ∃ task : Task τ, s.tasks[c]? = some task ∧ task.live.isSome} := by
  ext c
  simp only [proxied, Set.mem_ofPred_eq, traceOf, running]
  cases here : s.tasks[c]? with
  | none => simp [not_understands_nil]
  | some task => simp [(books run parked here).2]

structure Counted (ls : List (Label τ)) (s : Server τ) : Prop where
  /-- Connections whose client has sent a whole handshake. -/
  total : s.counters.metrics.connectsTotal = .ofNat {c | Understands (s.traceOf c)}.ncard
  /-- Connections that `connect` failed for. -/
  failed : s.counters.metrics.connectsFailed = .ofNat {c | denied (s.traceOf c)}.ncard
  /-- Connections whose client was told of its stream. -/
  ok : s.counters.metrics.connectsOk = .ofNat {c | served (s.traceOf c)}.ncard
  active : s.counters.streams.entries.length ≤ 2 ^ 64 → s.counters.streams.len = s.proxied.ncard
  totals : Totals ls s

theorem counted (run : Run (YieldingStep issue) (start issue mode) ls s) (parked : s.Parked) :
    Counted ls s := by
  have ledgers : ∀ task ∈ s.tasks, Ledger task.peer task.trace := by
    intro task member
    obtain ⟨c, here⟩ := List.mem_iff_getElem?.mp member
    exact (books run parked here).1
  have tallied := tallied (run_step run)
  refine ⟨?_, ?_, ?_, fun room => ?_, totals (run_step run)⟩
  · exact (tallied .connectsTotal nofun nofun).trans
      (sum_traces not_understands_nil fun task member => (ledgers task member).total)
  · exact (tallied .connectsFailed nofun nofun).trans
      (sum_traces (p := fun h => denied h) nofun fun task member => (ledgers task member).failed)
  · exact (tallied .connectsOk nofun nofun).trans
      (sum_traces (p := fun h => served h) nofun fun task member => (ledgers task member).ok)
  · obtain ⟨calls, live, history, perm⟩ := refines (run_step run)
    rw [(World.run_inv history room).tracks.len_eq, perm.length_eq, length_live, proxied_eq run parked]

/-- Entries keep what they were registered with. -/
theorem given_step (step : Step issue s l t) : s.counters.streams.entries.map StreamEntry.given <+:
    t.counters.streams.entries.map StreamEntry.given := by
  cases step with
  | exchange started here pending answers =>
    rename_i task op reply next
    cases op with
    | register peer target isolation =>
      simp [Counters.serve, StreamRegistry.snd_register]
    | dropStream stream => simp [Counters.serve]
    | _ => exact List.prefix_rfl
  | pollRead here pending promised => rw [Counters.pollRead_eq promised, given_count]
  | pollWrite => rw [Counters.pollWrite_eq, given_count]
  | @cancel _ _ task here running =>
    unfold Counters.dropLocals
    split <;> simp
  | _ => exact List.prefix_rfl

/-- The entry of a row is what its handler registered. -/
theorem registered {c : Nat} (run : Run (Step issue) (start issue mode) ls s)
    (here : s.tasks[c]? = some task)
    (event : ⟨.register peer target isoUser, stream⟩ ∈ task.trace) :
    (s.counters.streams.entries.map StreamEntry.given)[stream.entry]? = some (peer, target, isoUser) := by
  refine run.invariant (fun _ (s : Server τ) => ∀ (c : Nat) (task : Task τ),
    s.tasks[c]? = some task → ⟨.register peer target isoUser, stream⟩ ∈ task.trace →
    (s.counters.streams.entries.map StreamEntry.given)[stream.entry]? = some (peer, target, isoUser))
    (by simp [start]) ?_ c task here event
  intro _ s l t _ inv step c after found event
  have kept (old : (s.counters.streams.entries.map StreamEntry.given)[stream.entry]? =
      some (peer, target, isoUser)) :
      (t.counters.streams.entries.map StreamEntry.given)[stream.entry]? =
        some (peer, target, isoUser) := by
    obtain ⟨bound, -⟩ := List.getElem?_eq_some_iff.mp old
    obtain ⟨later, same⟩ := given_step step
    rwa [← same, List.getElem?_append_left bound]
  rcases step.origin found with ⟨before, here, evolves⟩ | ⟨_, -, -, rfl⟩
  · cases evolves with
    | same => exact kept (inv c _ here event)
    | isolate => exact kept (inv c before here event)
    | cancel => exact kept (inv c before here event)
    | exchange pending =>
      rcases List.mem_append.mp event with old | new
      · exact kept (inv c before here old)
      · cases List.mem_singleton.mp new
        cases step with
        | exchange started there pending answers =>
          have answers : stream = (s.counters.streams.register peer target isoUser started).1 := answers
          rw [answers]
          simp [Counters.serve, StreamRegistry.register, StreamEntry.given]
  · cases event

/-- A row of the table is that of connection `c`. -/
structure Pictures (ls : List (Label τ)) (s : Server τ) (c : Nat) (row : StreamSnapshot) : Prop where
  peer : ∃ task, s.tasks[c]? = some task ∧
    row.peer = if task.peer.ipIsUnspecified then "local" else task.peer.toString
  request : ∃ hs : Handshake, Socks.received (s.traceOf c) = hs.bytes ∧ row.target = hs.target ∧
    row.isolation = hs.negotiation.user
  up : row.bytesToUpstream = .ofNat (delivered c ls)
  down : row.bytesToClient = .ofNat (accepted c ls)

theorem streamOf_live {s : Server τ} {c : Nat} (here : s.tasks[c]? = some task)
    (held : task.live = some stream) : s.streamOf c = some stream := by
  rw [streamOf, here, Option.bind_some]
  unfold Task.live at held
  split at held
  · cases holds : holding task.trace <;> simp_all [Hold.stream, Hold.live]
  · cases held

theorem pictures {c : Nat} (run : Run (YieldingStep issue) (start issue mode) ls s)
    (parked : s.Parked) (here : s.tasks[c]? = some task) (held : task.live = some stream) (now : Nat) :
    ∃ entry, s.counters.streams.entries[stream.entry]? = some entry ∧
      Pictures ls s c (entry.view now) := by
  obtain ⟨ledger, held_iff⟩ := books run parked here
  obtain ⟨⟨hs, bytes⟩, -⟩ := held_iff.mp (by simp [held])
  obtain ⟨other, holds, event⟩ := ledger.row hs bytes
  have streamOf := streamOf_live here held
  obtain rfl : other = stream := by simpa [Server.streamOf, here, holds] using streamOf
  obtain ⟨entry, found, up, down⟩ := (conserved (run_step run)).rows c other streamOf
  have given := registered (run_step run) here event
  rw [List.getElem?_map, found, Option.map_some, Option.some.injEq] at given
  obtain ⟨peer, target, isolation⟩ : entry.peer = task.peer ∧ entry.target = hs.target ∧
      entry.isolation = hs.negotiation.user := by simpa [StreamEntry.given] using given
  refine ⟨entry, found, ⟨task, here, ?_⟩, ⟨hs, ?_, target, isolation⟩, up, down⟩
  · rw [← peer]
    rfl
  · simpa [traceOf, here] using bytes

/-- The rows, each with the connection that has it and the entry it shows. -/
theorem pictured_entries (run : Run (YieldingStep issue) (start issue mode) ls s) (parked : s.Parked)
    (room : s.counters.streams.entries.length ≤ 2 ^ 64) (now : Nat) {values : List Arc}
    (listing : values.Perm s.counters.streams.values) :
    (s.counters.streams.snapshotOf now values).Pairwise (·.id < ·.id) ∧
    ∃ order : List Nat, order.Nodup ∧ (∀ c, c ∈ order ↔ c ∈ s.proxied) ∧
      List.Forall₂ (fun c row => ∃ stream entry, s.streamOf c = some stream ∧
          s.counters.streams.entries[stream.entry]? = some entry ∧
          entry.id = .ofNat stream.entry ∧ row = entry.view now ∧ Pictures ls s c row)
        order (s.counters.streams.snapshotOf now values) := by
  obtain ⟨calls, live, history, perm⟩ := refines (run_step run)
  have inv := World.run_inv history room
  obtain ⟨rows, increasing⟩ := inv.tracks.snapshotOf_eq room inv.ordered listing now
  refine ⟨increasing, ?_⟩
  have owner : ∀ stream : StreamHandle, stream ∈ live →
      ∃ (c : Nat), ∃ task : Task τ, s.tasks[c]? = some task ∧ task.live = some stream := by
    intro stream member
    obtain ⟨task, inside, held⟩ := List.mem_flatMap.mp (perm.mem_iff.mp member)
    obtain ⟨c, here⟩ := List.mem_iff_getElem?.mp inside
    exact ⟨c, task, here, by simpa using held⟩
  choose! connection owned using owner
  have apart := (conserved (run_step run)).apart
  refine ⟨live.map connection, ?_, ?_, ?_⟩
  · refine inv.tracks.unique.map_on fun first inFirst second inSecond same => ?_
    obtain ⟨task, here, held⟩ := owned first inFirst
    obtain ⟨other, there, holds⟩ := owned second inSecond
    rw [same] at here
    obtain rfl := Option.some.inj (here.symm.trans there)
    exact Option.some.inj (held.symm.trans holds)
  · intro c
    rw [List.mem_map, proxied_eq run parked]
    constructor
    · rintro ⟨stream, member, rfl⟩
      obtain ⟨task, here, held⟩ := owned stream member
      exact ⟨task, here, by simp [held]⟩
    · rintro ⟨task, here, lives⟩
      obtain ⟨stream, held⟩ := Option.isSome_iff_exists.mp lives
      have member := perm.mem_iff.mpr (mem_live here held)
      obtain ⟨other, there, holds⟩ := owned stream member
      exact ⟨stream, member, apart _ _ stream (streamOf_live there holds) (streamOf_live here held)⟩
  · rw [rows, List.forall₂_map_left_iff]
    apply forall₂_filterMap
    intro stream member
    obtain ⟨task, here, held⟩ := owned stream member
    obtain ⟨entry, found, pictured⟩ := pictures run parked here held now
    exact ⟨entry.view now, by simp [found], stream, entry, streamOf_live here held, found,
      inv.tracks.numbered _ _ found, rfl, pictured⟩

theorem pictured (run : Run (YieldingStep issue) (start issue mode) ls s) (parked : s.Parked)
    (room : s.counters.streams.entries.length ≤ 2 ^ 64) (now : Nat) {values : List Arc}
    (listing : values.Perm s.counters.streams.values) :
    (s.counters.streams.snapshotOf now values).Pairwise (·.id < ·.id) ∧
    ∃ order : List Nat, order.Nodup ∧ (∀ c, c ∈ order ↔ c ∈ s.proxied) ∧
      List.Forall₂ (Pictures ls s) order (s.counters.streams.snapshotOf now values) := by
  obtain ⟨increasing, order, distinct, proxied, rows⟩ := pictured_entries run parked room now listing
  refine ⟨increasing, order, distinct, proxied, rows.imp ?_⟩
  rintro c row ⟨-, -, -, -, -, -, pictures⟩
  exact pictures

end Server

end Tord.Socks
