import Tord.Socks.Rows

/-! Connections do not depend on one another. Of what a connection gets from the others
its handler only sees the handle of its row, which it never looks into, so whatever it
does in a run it also does when it is alone. -/
namespace Tord.Socks

open Interaction Transition

variable {τ : Type} {issue : Nat → τ} {mode : Isolation}

def onRow (row : StreamHandle) : Event Op.Res → Event Op.Res
  | ⟨.register peer target isolation, _⟩ => ⟨.register peer target isolation, row⟩
  | ⟨.copyBidirectional _, copied⟩ => ⟨.copyBidirectional row.entry, copied⟩
  | ⟨.dropStream _, dropped⟩ => ⟨.dropStream row, dropped⟩
  | event => event

/-- The handler does the same with any row. -/
theorem maps_handle (row : StreamHandle) (peer : SocketAddr) :
    (handle peer).run.Maps (onRow row) (handle peer).run := by
  rw [handle_eq, ExceptT.run_bind]
  have decodes : decode.run.Maps (onRow row) decode.run := by
    refine .refl talks_decode ?_
    rintro ⟨_ | _ | _ | _ | _ | _ | _, _⟩ talks <;> first | rfl | exact talks.elim
  refine decodes.bind fun decoded => ?_
  cases decoded with
  | error e => rfl
  | ok request =>
    obtain ⟨isoUser, host, port⟩ := request
    refine fun _ => ⟨(), rfl, fun stream => ⟨row, rfl, fun opened => ⟨opened, rfl, ?_⟩⟩⟩
    cases opened with
    | error e =>
      refine fun _ => ⟨(), rfl, fun written => ⟨written, rfl, ?_⟩⟩
      cases written <;> exact fun _ => ⟨(), rfl, rfl⟩
    | ok _ =>
      refine fun written => ⟨written, rfl, ?_⟩
      cases written with
      | error e => exact fun _ => ⟨(), rfl, rfl⟩
      | ok _ =>
        refine fun _ => ⟨(), rfl, fun copied => ⟨copied, rfl, ?_⟩⟩
        cases copied <;> exact fun _ => ⟨(), rfl, rfl⟩

abbrev firstRow : StreamHandle := ⟨0⟩

/-- What is left of connection `c` as the only one. -/
def Label.alone (issue : Nat → τ) (mode : Isolation) (c : Nat) : Label τ → Option (Label τ)
  | .accept _ => none
  | .exchange d op reply =>
    if d = c then some (.exchange 0 (onRow firstRow ⟨op, reply⟩).1 (onRow firstRow ⟨op, reply⟩).2)
    else none
  | .isolate d isoUser _ =>
    if d = c then
      some (.isolate 0 isoUser ((TorManager.new issue mode).isolationToken issue isoUser).1)
    else none
  | .pollRead d buf inner => if d = c then some (.pollRead 0 buf inner) else none
  | .pollWrite d inner => if d = c then some (.pollWrite 0 inner) else none
  | .cancel d => if d = c then some (.cancel 0) else none

/-- A server with one connection, which has done what the task has done among others. -/
structure Lone (issue : Nat → τ) (mode : Isolation) (task : Task τ) (t : Server τ) (lone : Task τ) :
    Prop where
  only : t.tasks = [lone]
  peer : lone.peer = task.peer
  trace : lone.trace = task.trace.map (onRow firstRow)
  rest : Option.Rel (Prog.Maps (onRow firstRow)) task.rest lone.rest
  token : lone.token.isSome = task.token.isSome
  unregistered : holding task.trace = .unregistered → t.counters.streams.entries = []
  unasked : task.token = none → t.tor = .new issue mode

namespace Lone

variable {s t : Server τ} {task solo : Task τ}

theorem here (lone : Lone issue mode task t solo) : t.tasks[0]? = some solo := by
  rw [lone.only]
  rfl

/-- The only handler is where the task is. -/
theorem pending (lone : Lone issue mode task t solo) {op : Op}
    {next : op.Res → Prog Op.Res (Except Error Unit)} (left : task.rest = some (.request op next)) :
    ∃ op' next', solo.rest = some (.request op' next') ∧ ∀ reply, ∃ reply',
      onRow firstRow ⟨op, reply⟩ = ⟨op', reply'⟩ ∧ (next reply).Maps (onRow firstRow) (next' reply') := by
  have rest := lone.rest
  rw [left] at rest
  generalize same : solo.rest = other at rest
  cases rest with
  | some maps =>
    obtain ⟨op', next', rfl, replies⟩ := maps.request
    exact ⟨op', next', rfl, replies⟩

theorem running (lone : Lone issue mode task t solo) : solo.running = task.running := by
  have rest := lone.rest
  unfold Task.running
  generalize task.rest = left at rest
  generalize solo.rest = other at rest
  cases rest with
  | none => rfl
  | @some p q maps => cases p <;> cases q <;> first | rfl | exact maps.elim

theorem returned (lone : Lone issue mode task t solo) (left : task.rest = some (.pure result)) :
    solo.rest = some (.pure result) := by
  have rest := lone.rest
  rw [left] at rest
  generalize solo.rest = other at rest
  cases rest with
  | @some _ q maps =>
    cases q with
    | pure other =>
      obtain rfl : result = other := maps
      rfl
    | request => exact maps.elim

theorem exchange (lone : Lone issue mode task t solo) {op : Op} {reply : op.Res}
    {next : op.Res → Prog Op.Res (Except Error Unit)} (left : task.rest = some (.request op next))
    (owned : ownership.demands (holding task.trace) op) (answers : s.Answers task started op reply) :
    ∃ t' solo', Server.Step issue t (.exchange 0 (onRow firstRow ⟨op, reply⟩).1
        (onRow firstRow ⟨op, reply⟩).2) t' ∧
      Lone issue mode (task.exchanged op reply (next reply)) t' solo' := by
  obtain ⟨op', next', left', replies⟩ := lone.pending left
  obtain ⟨reply', image, later⟩ := replies reply
  have answers' : t.Answers solo 0 op' reply' := by
    cases op with
    | register =>
      cases image
      rw [Server.Answers, StreamRegistry.register, lone.unregistered owned]
      rfl
    | connect =>
      cases image
      exact lone.token.trans answers
    | _ =>
      cases image
      trivial
  rw [image]
  refine ⟨_, solo.exchanged op' reply' (next' reply'), .exchange 0 lone.here left' answers', ?_,
    lone.peer, ?_, .some later, lone.token, ?_, lone.unasked⟩
  · rw [lone.only]
    rfl
  · simp [Task.exchanged, lone.trace, image]
  · intro unregistered
    have unregistered : (holding task.trace).after op reply = .unregistered := by
      simpa [Task.exchanged] using unregistered
    cases op with
    | register => cases unregistered
    | dropStream => cases unregistered
    | _ =>
      cases image
      exact lone.unregistered unregistered

theorem isolate (lone : Lone issue mode task t solo)
    {next : Op.Res (.connect host port isoUser) → Prog Op.Res (Except Error Unit)} (token : τ)
    (left : task.rest = some (.request (.connect host port isoUser) next)) (unset : task.token = none) :
    ∃ t' solo', Server.Step issue t
        (.isolate 0 isoUser ((TorManager.new issue mode).isolationToken issue isoUser).1) t' ∧
      Lone issue mode (task.isolated token) t' solo' := by
  obtain ⟨op', next', left', replies⟩ := lone.pending left
  obtain ⟨reply', image, -⟩ := replies (.ok ())
  cases image
  have unset' : solo.token = none := by
    have same := lone.token
    rw [unset] at same
    simpa using same
  rw [← lone.unasked unset]
  refine ⟨_, solo.isolated (t.tor.isolationToken issue isoUser).1, .isolate lone.here left' unset', ?_, lone.peer, lone.trace,
    lone.rest, rfl, lone.unregistered, nofun⟩
  rw [lone.only]
  rfl

/-- Where the task splices, so does the only handler. -/
theorem splicing (lone : Lone issue mode task t solo)
    {next : Op.Res (.copyBidirectional entry) → Prog Op.Res (Except Error Unit)}
    (left : task.rest = some (.request (.copyBidirectional entry) next)) :
    ∃ next', solo.rest = some (.request (.copyBidirectional firstRow.entry) next') := by
  obtain ⟨op', next', left', replies⟩ := lone.pending left
  obtain ⟨reply', image, -⟩ := replies (.ok (0, 0))
  cases image
  exact ⟨next', left'⟩

theorem counted (lone : Lone issue mode task t solo) {counters : Counters}
    (entries : counters.streams.entries.length = t.counters.streams.entries.length) :
    Lone issue mode task ⟨counters, t.tor, t.tasks⟩ solo where
  __ := lone
  unregistered unregistered := by
    rw [lone.unregistered unregistered] at entries
    exact List.eq_nil_of_length_eq_zero entries

theorem cancel (lone : Lone issue mode task t solo) (running : task.running) :
    ∃ t' solo', Server.Step issue t (.cancel 0) t' ∧ Lone issue mode task.cancelled t' solo' := by
  refine ⟨_, solo.cancelled, .cancel lone.here (lone.running.trans running), ?_, lone.peer,
    lone.trace, .none, lone.token, fun unregistered => ?_, lone.unasked⟩
  · rw [lone.only]
    rfl
  · have entries := lone.unregistered unregistered
    unfold Counters.dropLocals
    split
    · simpa using entries
    · exact entries

end Lone

namespace Server

variable {s s' t : Server τ} {task solo : Task τ} {c : Nat} {l : Label τ} {ls : List (Label τ)}

/-- The only connection takes the step if it is one of its own. -/
theorem lone_step (step : Step issue s l s') (here : s.tasks[c]? = some task) (owns : Owns task)
    (lone : Lone issue mode task t solo) : ∃ after t' solo', s'.tasks[c]? = some after ∧
      after.peer = task.peer ∧ Run (Step issue) t (l.alone issue mode c).toList t' ∧
      Lone issue mode after t' solo' := by
  obtain ⟨bound, -⟩ := List.getElem?_eq_some_iff.mp here
  have unmoved (silent : l.alone issue mode c = none) (same : s'.tasks[c]? = s.tasks[c]?) :
      ∃ after t' solo', s'.tasks[c]? = some after ∧ after.peer = task.peer ∧
        Run (Step issue) t (l.alone issue mode c).toList t' ∧ Lone issue mode after t' solo' := by
    rw [silent]
    exact ⟨task, t, solo, same.trans here, rfl, .nil, lone⟩
  cases step with
  | accept => exact unmoved rfl (List.getElem?_append_left bound)
  | exchange started there left answers =>
    rename_i d before op next reply
    by_cases mine : d = c
    · subst mine
      obtain rfl := Option.some.inj (here.symm.trans there)
      obtain ⟨t', solo', takes, after⟩ := lone.exchange left (owns _ left).1 answers
      rw [Label.alone, if_pos rfl]
      exact ⟨_, t', solo', List.getElem?_set_self bound, rfl, .single takes, after⟩
    · exact unmoved (if_neg mine) (List.getElem?_set_ne mine)
  | isolate there left unset =>
    rename_i d before host port isoUser next
    by_cases mine : d = c
    · subst mine
      obtain rfl := Option.some.inj (here.symm.trans there)
      obtain ⟨t', solo', takes, after⟩ := lone.isolate _ left unset
      rw [Label.alone, if_pos rfl]
      exact ⟨_, t', solo', List.getElem?_set_self bound, rfl, .single takes, after⟩
    · exact unmoved (if_neg mine) (List.getElem?_set_ne mine)
  | pollRead there left promised =>
    rename_i d before entry next buf inner
    by_cases mine : d = c
    · subst mine
      obtain rfl := Option.some.inj (here.symm.trans there)
      obtain ⟨next', left'⟩ := lone.splicing left
      rw [Label.alone, if_pos rfl]
      refine ⟨_, _, _, here, rfl, .single (.pollRead lone.here left' promised), lone.counted ?_⟩
      rw [Counters.pollRead_eq promised, StreamRegistry.length_count]
    · exact unmoved (if_neg mine) rfl
  | pollWrite there left =>
    rename_i d before entry next inner
    by_cases mine : d = c
    · subst mine
      obtain rfl := Option.some.inj (here.symm.trans there)
      obtain ⟨next', left'⟩ := lone.splicing left
      rw [Label.alone, if_pos rfl]
      refine ⟨_, _, _, here, rfl, .single (.pollWrite lone.here left'), lone.counted ?_⟩
      rw [Counters.pollWrite_eq, StreamRegistry.length_count]
    · exact unmoved (if_neg mine) rfl
  | cancel there running =>
    rename_i d before
    by_cases mine : d = c
    · subst mine
      obtain rfl := Option.some.inj (here.symm.trans there)
      obtain ⟨t', solo', takes, after⟩ := lone.cancel running
      rw [Label.alone, if_pos rfl]
      exact ⟨_, t', solo', List.getElem?_set_self bound, rfl, .single takes, after⟩
    · exact unmoved (if_neg mine) (List.getElem?_set_ne mine)

/-- Nothing happens to a connection that is not there yet. -/
theorem alone_of_later (step : Step issue s l s') (later : s.tasks.length ≤ c) :
    l.alone issue mode c = none := by
  have other {d : Nat} {before : Task τ} (there : s.tasks[d]? = some before) : d ≠ c := by
    obtain ⟨bound, -⟩ := List.getElem?_eq_some_iff.mp there
    exact Nat.ne_of_lt (Nat.lt_of_lt_of_le bound later)
  cases step with
  | accept => rfl
  | exchange started there => exact if_neg (other there)
  | isolate there => exact if_neg (other there)
  | pollRead there => exact if_neg (other there)
  | pollWrite there => exact if_neg (other there)
  | cancel there => exact if_neg (other there)

theorem length_le_of_step (step : Step issue s l s') : s.tasks.length ≤ s'.tasks.length := by
  cases step with
  | accept => simp
  | _ => simp

theorem lone_spawn (peer : SocketAddr) : Lone issue mode (.spawn peer)
    ⟨{}, .new issue mode, [.spawn peer]⟩ (.spawn peer) where
  only := rfl
  peer := rfl
  trace := rfl
  rest := .some (maps_handle firstRow peer)
  token := rfl
  unregistered _ := rfl
  unasked _ := rfl

/-- Every connection of a run has a run of its own, and later ones have no part in it. -/
structure Separates (issue : Nat → τ) (mode : Isolation) (ls : List (Label τ)) (s : Server τ) : Prop where
  lone : ∀ (c : Nat) (task : Task τ), s.tasks[c]? = some task → ∃ t solo, Run (Step issue)
    (start issue mode) (.accept task.peer :: ls.filterMap (Label.alone issue mode c)) t ∧
    Lone issue mode task t solo
  later : ∀ c, s.tasks.length ≤ c → ls.filterMap (Label.alone issue mode c) = []

theorem separates (run : Run (Step issue) (start issue mode) ls s) : Separates issue mode ls s := by
  refine run.invariant (Separates issue mode) ⟨by simp [start], fun _ _ => rfl⟩ ?_
  intro ls s l s' run inv step
  constructor
  · intro c after found
    rw [List.filterMap_append]
    rcases step.origin found with ⟨before, here, -⟩ | ⟨peer, rfl, rfl, rfl⟩
    · obtain ⟨t, solo, goes, lone⟩ := inv.lone c before here
      obtain ⟨after', t', solo', found', peer, takes, lone'⟩ := lone_step step here (owns run here) lone
      obtain rfl := Option.some.inj (found.symm.trans found')
      refine ⟨t', solo', ?_, lone'⟩
      have own : [l].filterMap (Label.alone issue mode c) = (l.alone issue mode c).toList := by
        cases mine : l.alone issue mode c <;> simp [mine]
      rw [peer, own, ← List.cons_append]
      exact goes.append takes
    · rw [inv.later _ le_rfl]
      exact ⟨_, _, .single .accept, lone_spawn peer⟩
  · intro c later
    have before := (length_le_of_step step).trans later
    rw [List.filterMap_append, inv.later c before,
      List.filterMap_cons_none (alone_of_later step before)]
    rfl

/-- Whatever a connection does among others, it also does as the only one: its own steps
are a run by themselves, in which its handler takes the same exchanges, with another row,
and comes to the same end. -/
theorem connection_alone (run : Run (Step issue) (start issue mode) ls s)
    (here : s.tasks[c]? = some task) : ∃ t solo,
      Run (Step issue) (start issue mode)
        (.accept task.peer :: ls.filterMap (Label.alone issue mode c)) t ∧
      t.tasks = [solo] ∧ solo.trace = task.trace.map (onRow firstRow) ∧
      solo.running = task.running ∧
      ∀ result, task.rest = some (.pure result) → solo.rest = some (.pure result) := by
  obtain ⟨t, solo, goes, lone⟩ := (separates run).lone c task here
  exact ⟨t, solo, goes, lone.only, lone.trace, lone.running, fun result => lone.returned⟩

/-- The second of two clients, whose circuit fails while the first one has not said a word. -/
theorem connection_alone_second : ∃ (ls : List (Label Nat)) (s t : Server Nat) (task solo : Task Nat),
    Run (Step id) (start id .perQuery) ls s ∧ s.tasks[1]? = some task ∧
      task.trace.length = 12 ∧ t.tasks = [solo] ∧ solo.trace = task.trace.map (onRow firstRow) ∧
      Run (Step id) (start id .perQuery)
        (.accept task.peer :: ls.filterMap (Label.alone id .perQuery 1)) t := by
  let peer : SocketAddr := .v4 ⟨.of [127, 0, 0, 1]⟩ 40000
  have run : Run (Step id) (start id .perQuery) _ _ := .cons (@Step.accept _ id _ peer) (run_connection
    (path_knock_failed peer ⟨0⟩ (.msg "offline")) free_knock (by simp [Free]) rfl)
  obtain ⟨t, solo, goes, only, trace, -⟩ := @connection_alone Nat id .perQuery _ _ 1 _ run rfl
  exact ⟨_, _, t, _, solo, run, rfl, rfl, only, trace, goes⟩

end Server

end Tord.Socks
