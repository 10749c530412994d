import Mathlib.Algebra.BigOperators.Group.List.Basic
import Tord.Socks.Rows

/-! Byte-count conservation: the per-row counters, the process totals and the bytes that
the polls of the metered client streams really moved. After `2 ^ 64` registrations an id comes
again, and the new row replaces a live one. -/
namespace Tord.Socks

open Interaction Transition

variable {τ : Type} {issue : Nat → τ}

/-- Bytes that one step moved from the client stream of connection `c` into a buffer. -/
def Label.delivered (c : Nat) : Label τ → Nat
  | .pollRead d buf inner => if d = c then deliveredBytes buf inner else 0
  | _ => 0

def Label.accepted (c : Nat) : Label τ → Nat
  | .pollWrite d inner => if d = c then acceptedBytes inner else 0
  | _ => 0

def Label.polls (c : Nat) : Label τ → Prop
  | .pollRead d _ _ => d = c
  | .pollWrite d _ => d = c
  | _ => False

def delivered (c : Nat) (ls : List (Label τ)) : Nat := (ls.map (Label.delivered c)).sum

def accepted (c : Nat) (ls : List (Label τ)) : Nat := (ls.map (Label.accepted c)).sum

@[simp] theorem delivered_snoc (c : Nat) (ls : List (Label τ)) (l : Label τ) :
    delivered c (ls ++ [l]) = delivered c ls + l.delivered c := by simp [delivered]

@[simp] theorem accepted_snoc (c : Nat) (ls : List (Label τ)) (l : Label τ) :
    accepted c (ls ++ [l]) = accepted c ls + l.accepted c := by simp [accepted]

theorem sum_map_modify {M : Type} [AddCommMonoid M] {l : List α} {i : Nat} {f : α → α} {g : α → M}
    {δ : M}
    (here : l[i]? = some a) (moved : g (f a) = g a + δ) :
    ((l.modify i f).map g).sum = (l.map g).sum + δ := by
  induction l generalizing i with
  | nil => simp at here
  | cons b l ih =>
    cases i with
    | zero =>
      obtain rfl : b = a := by simpa using here
      simp only [List.modify_zero_cons, List.map_cons, List.sum_cons, moved]
      exact add_right_comm _ _ _
    | succ i =>
      simp only [List.modify_succ_cons, List.map_cons, List.sum_cons, ih (by simpa using here),
        add_assoc]

namespace Server

/-- The handle that connection `c` got from the registry, dropped or not. -/
def streamOf (s : Server τ) (c : Nat) : Option StreamHandle :=
  (s.tasks[c]?).bind fun task => (holding task.trace).stream

structure Conserved (ls : List (Label τ)) (s : Server τ) : Prop where
  rows : ∀ c stream, s.streamOf c = some stream →
    ∃ entry, s.counters.streams.entries[stream.entry]? = some entry ∧
      entry.toUpstream = .ofNat (delivered c ls) ∧ entry.toClient = .ofNat (accepted c ls)
  /-- Every entry ever registered is some connection's. -/
  owned : ∀ arc < s.counters.streams.entries.length, ∃ c, s.streamOf c = some ⟨arc⟩
  apart : ∀ c d stream, s.streamOf c = some stream → s.streamOf d = some stream → c = d
  idle : ∀ c, s.streamOf c = none → delivered c ls = 0 ∧ accepted c ls = 0
  upstream : s.counters.metrics.bytesToUpstream =
    (s.counters.streams.entries.map (·.toUpstream)).sum
  client : s.counters.metrics.bytesToClient = (s.counters.streams.entries.map (·.toClient)).sum

namespace Conserved

theorem start (issue : Nat → τ) (mode : Isolation) : Conserved [] (start issue mode) where
  rows := by simp [streamOf, Server.start]
  owned := by simp [Server.start]
  apart := by simp [streamOf, Server.start]
  idle _ _ := ⟨rfl, rfl⟩
  upstream := rfl
  client := rfl

variable {s t : Server τ} {ls : List (Label τ)} {l : Label τ}

theorem quiet (inv : Conserved ls s) (streams : t.streamOf = s.streamOf)
    (entries : t.counters.streams.entries = s.counters.streams.entries)
    (upstream : t.counters.metrics.bytesToUpstream = s.counters.metrics.bytesToUpstream)
    (client : t.counters.metrics.bytesToClient = s.counters.metrics.bytesToClient)
    (still : ∀ c, l.delivered c = 0 ∧ l.accepted c = 0) : Conserved (ls ++ [l]) t where
  rows := by simpa [streams, entries, still] using inv.rows
  owned := by simpa [streams, entries] using inv.owned
  apart := by simpa [streams] using inv.apart
  idle := by simpa [streams, still] using inv.idle
  upstream := by rw [upstream, entries, inv.upstream]
  client := by rw [client, entries, inv.client]

theorem registered {c : Nat} (inv : Conserved ls s) (fresh : s.streamOf c = none)
    (here : t.streamOf c = some ⟨s.counters.streams.entries.length⟩)
    (others : ∀ d ≠ c, t.streamOf d = s.streamOf d)
    (entries : t.counters.streams.entries = s.counters.streams.entries ++ [entry])
    (zero : entry.toUpstream = 0 ∧ entry.toClient = 0)
    (metrics : t.counters.metrics = s.counters.metrics)
    (still : ∀ c, l.delivered c = 0 ∧ l.accepted c = 0) : Conserved (ls ++ [l]) t := by
  have old {d : Nat} {stream : StreamHandle} (found : s.streamOf d = some stream) :
      stream.entry < s.counters.streams.entries.length := by
    obtain ⟨entry, inside, -⟩ := inv.rows d stream found
    exact (List.getElem?_eq_some_iff.mp inside).1
  refine ⟨?_, ?_, ?_, ?_, ?_, ?_⟩
  · intro d stream found
    simp only [delivered_snoc, accepted_snoc, still, Nat.add_zero, entries]
    by_cases same : d = c
    · subst same
      obtain rfl := Option.some.inj (here.symm.trans found)
      obtain ⟨delivered, accepted⟩ := inv.idle d fresh
      exact ⟨entry, by simp, by simp [delivered, zero.1], by simp [accepted, zero.2]⟩
    · rw [others d same] at found
      rw [List.getElem?_append_left (old found)]
      exact inv.rows d stream found
  · intro arc bound
    rw [entries, List.length_append, List.length_singleton] at bound
    by_cases new : arc = s.counters.streams.entries.length
    · exact ⟨c, new ▸ here⟩
    · obtain ⟨d, found⟩ := inv.owned arc (by omega)
      refine ⟨d, ?_⟩
      rw [others d (by rintro rfl; simp [fresh] at found), found]
  · intro d e stream first second
    by_cases one : d = c <;> by_cases two : e = c
    · exact one.trans two.symm
    · rw [one, here] at first
      rw [others e two, ← first] at second
      exact (Nat.lt_irrefl _ (old second)).elim
    · rw [two, here] at second
      rw [others d one, ← second] at first
      exact (Nat.lt_irrefl _ (old first)).elim
    · rw [others d one] at first
      rw [others e two] at second
      exact inv.apart d e stream first second
  · intro d none
    simp only [delivered_snoc, accepted_snoc, still, Nat.add_zero]
    have other : d ≠ c := by rintro rfl; simp [here] at none
    exact inv.idle d (by rw [← others d other, none])
  · simp [metrics, entries, inv.upstream, zero.1]
  · simp [metrics, entries, inv.client, zero.2]

/-- A poll of the metered stream of connection `c`. -/
theorem polled {c : Nat} (inv : Conserved ls s) (here : s.streamOf c = some ⟨arc⟩)
    (streams : t.streamOf = s.streamOf)
    (registry : t.counters.streams =
      s.counters.streams.count arc (.ofNat (l.delivered c)) (.ofNat (l.accepted c)))
    (upstream : t.counters.metrics.bytesToUpstream =
      s.counters.metrics.bytesToUpstream + .ofNat (l.delivered c))
    (client : t.counters.metrics.bytesToClient =
      s.counters.metrics.bytesToClient + .ofNat (l.accepted c))
    (others : ∀ d ≠ c, l.delivered d = 0 ∧ l.accepted d = 0) : Conserved (ls ++ [l]) t := by
  obtain ⟨entry, inside, up, down⟩ := inv.rows c _ here
  have entries : t.counters.streams.entries = s.counters.streams.entries.modify arc fun e =>
      { e with
        toUpstream := e.toUpstream + .ofNat (l.delivered c)
        toClient := e.toClient + .ofNat (l.accepted c) } := by
    rw [registry]
    rfl
  refine ⟨?_, ?_, ?_, ?_, ?_, ?_⟩
  · intro d stream found
    rw [streams] at found
    rw [entries, List.getElem?_modify]
    by_cases same : d = c
    · subst same
      obtain rfl := Option.some.inj (here.symm.trans found)
      simp [inside, up, down]
    · have elsewhere : arc ≠ stream.entry := by
        rintro rfl
        exact same (inv.apart d c stream found here)
      simpa [elsewhere, others d same] using inv.rows d stream found
  · simpa [streams, entries] using inv.owned
  · simpa [streams] using inv.apart
  · intro d none
    rw [streams] at none
    have other : d ≠ c := by rintro rfl; simp [here] at none
    simpa [others d other] using inv.idle d none
  · rw [upstream, inv.upstream, entries]
    exact (sum_map_modify inside rfl).symm
  · rw [client, inv.client, entries]
    exact (sum_map_modify inside rfl).symm

end Conserved

theorem streamOf_set {s : Server τ} {c : Nat} (here : s.tasks[c]? = some before) (counters : Counters)
    (tor : TorManager τ) (after : Task τ) (d : Nat) :
    streamOf ⟨counters, tor, s.tasks.set c after⟩ d =
      if d = c then (holding after.trace).stream else s.streamOf d := by
  obtain ⟨bound, -⟩ := List.getElem?_eq_some_iff.mp here
  by_cases same : d = c
  · subst same
    simp [streamOf, bound]
  · simp [streamOf, List.getElem?_set_ne (Ne.symm same), same]

theorem streamOf_set_same {s : Server τ} {c : Nat} (here : s.tasks[c]? = some before)
    (same : (holding after.trace).stream = (holding before.trace).stream) (counters : Counters)
    (tor : TorManager τ) : streamOf ⟨counters, tor, s.tasks.set c after⟩ = s.streamOf := by
  funext d
  rw [streamOf_set here]
  split
  · next mine => simp [mine, streamOf, here, same]
  · rfl

/-- Handlers leave the byte counters alone; one of them registers a row of zeros. -/
theorem conserved_exchange {s : Server τ} {c : Nat} (inv : Conserved ls s)
    (here : s.tasks[c]? = some task) (pending : task.rest = some (.request op next))
    (answers : s.Answers task started op reply) (owns : Owns task) :
    Conserved (ls ++ [.exchange c op reply])
      ⟨s.counters.serve started op, s.tor, s.tasks.set c (task.exchanged op reply (next reply))⟩ := by
  have demands := (owns _ pending).1
  have still (d : Nat) : (Label.exchange c op reply : Label τ).delivered d = 0 ∧
      (Label.exchange c op reply : Label τ).accepted d = 0 := ⟨rfl, rfl⟩
  have kept (same : (holding (task.exchanged op reply (next reply)).trace).stream =
      (holding task.trace).stream) := streamOf_set_same here same (s.counters.serve started op) s.tor
  simp only [Task.exchanged, holding_snoc] at kept
  cases op with
  | register peer target isolation =>
    obtain rfl := answers
    have demands : holding task.trace = .unregistered := demands
    refine inv.registered (c := c) (by simp [streamOf, here, demands, Hold.stream]) ?_ ?_ rfl
      ⟨rfl, rfl⟩ rfl still
    · simp [streamOf_set here, Task.exchanged, Hold.after, Hold.stream, StreamRegistry.register]
    · intro d other
      simp [streamOf_set here, other]
  | dropStream stream =>
    have demands : holding task.trace = .held stream := demands
    exact inv.quiet (kept (by simp [demands, Hold.after, Hold.stream]))
      (StreamRegistry.dropHandle_entries _ _) rfl rfl still
  | fetchAdd counter n =>
    obtain ⟨notUp, notDown⟩ := demands
    refine inv.quiet (kept rfl) rfl ?_ ?_ still
    · exact (Metrics.load_fetchAdd s.counters.metrics counter .bytesToUpstream n).trans
        (if_neg notUp.symm)
    · exact (Metrics.load_fetchAdd s.counters.metrics counter .bytesToClient n).trans
        (if_neg notDown.symm)
  | _ => exact inv.quiet (kept rfl) rfl rfl rfl still

/-- A splice polls the client stream of the row its handler holds. -/
theorem streamOf_splice {s : Server τ} {c : Nat} (here : s.tasks[c]? = some task)
    (pending : task.rest = some (.request (.copyBidirectional entry) next)) (owns : Owns task) :
    holding task.trace = .held ⟨entry⟩ ∧ s.streamOf c = some ⟨entry⟩ := by
  have demands : holding task.trace = .held ⟨entry⟩ := (owns _ pending).1
  exact ⟨demands, by simp [streamOf, here, demands, Hold.stream]⟩

theorem conserved_step {s t : Server τ} (inv : Conserved ls s) (step : Step issue s l t)
    (owns : ∀ (c : Nat) (task : Task τ), s.tasks[c]? = some task → Owns task) :
    Conserved (ls ++ [l]) t := by
  cases step with
  | accept =>
    refine inv.quiet (funext fun d => ?_) rfl rfl rfl fun _ => ⟨rfl, rfl⟩
    rcases Nat.lt_trichotomy d s.tasks.length with old | rfl | beyond
    · simp [streamOf, List.getElem?_append_left old]
    · simp [streamOf, Task.spawn, holding, Hold.stream]
    · rw [streamOf, streamOf, List.getElem?_eq_none (by simp; omega),
        List.getElem?_eq_none (by omega)]
  | exchange started here pending answers =>
    exact conserved_exchange inv here pending answers (owns _ _ here)
  | isolate here pending unset =>
    exact inv.quiet (streamOf_set_same here (by rfl) _ _) rfl rfl rfl fun _ => ⟨rfl, rfl⟩
  | pollRead here pending promised =>
    refine inv.polled (streamOf_splice here pending (owns _ _ here)).2 rfl ?_ ?_ ?_ ?_
    · simp [Counters.pollRead_eq promised, Label.delivered, Label.accepted]
    · simp [Counters.pollRead_eq promised, Label.delivered, Metrics.fetchAdd]
    · simp [Counters.pollRead_eq promised, Label.accepted, Metrics.fetchAdd]
    · exact fun d other => ⟨if_neg (Ne.symm other), rfl⟩
  | pollWrite here pending =>
    refine inv.polled (streamOf_splice here pending (owns _ _ here)).2 rfl ?_ ?_ ?_ ?_
    · simp [Counters.pollWrite_eq, Label.delivered, Label.accepted]
    · simp [Counters.pollWrite_eq, Label.delivered, Metrics.fetchAdd]
    · simp [Counters.pollWrite_eq, Label.accepted, Metrics.fetchAdd]
    · exact fun d other => ⟨rfl, if_neg (Ne.symm other)⟩
  | cancel here running =>
    refine inv.quiet (streamOf_set_same here (by rfl) _ _) ?_ ?_ ?_ fun _ => ⟨rfl, rfl⟩
    all_goals
      unfold Counters.dropLocals
      split <;> simp

theorem conserved (run : Run (Step issue) (start issue mode) ls s) : Conserved ls s :=
  run.invariant Conserved (.start issue mode) fun _ _ _ _ front inv step =>
    conserved_step inv step fun _ _ here => owns front here

def Listed (s : Server τ) (c : Nat) : Prop := ∃ stream entry, s.streamOf c = some stream ∧
  s.counters.streams.entries[stream.entry]? = some entry ∧
  s.counters.streams.inner.lookup entry.id = some stream.entry

theorem listed_of_poll (run : Run (Step issue) (start issue mode) ls s)
    (room : s.counters.streams.entries.length ≤ 2 ^ 64) (step : Step issue s l t)
    (polls : l.polls c) : s.Listed c := by
  obtain ⟨calls, live, history, perm⟩ := refines run
  have tracks := (World.run_inv history room).tracks
  have held {task : Task τ} {entry : Arc} {next} (here : s.tasks[c]? = some task)
      (pending : task.rest = some (.request (.copyBidirectional entry) next)) : s.Listed c := by
    obtain ⟨holds, stream⟩ := streamOf_splice here pending (owns run here)
    have live : ⟨entry⟩ ∈ live := perm.mem_iff.mpr
      (mem_live here (by rw [live_pending pending, holds]; rfl))
    obtain ⟨row, found, id⟩ := tracks.entry_id live
    exact ⟨⟨entry⟩, row, stream, found, (tracks.rows _ _).mpr ⟨live, id⟩⟩
  cases step with
  | pollRead here pending promised => exact held (polls ▸ here) pending
  | pollWrite here pending => exact held (polls ▸ here) pending
  | _ => exact polls.elim

/-- A client without a username whose splice has begun. -/
theorem path_knock_spliced (peer : SocketAddr) (stream : StreamHandle) : ∃ next,
    Path (handle peer).run (knock ++ ⟨.register peer "1.1.1.1:80" none, stream⟩ ::
      ⟨.connect "1.1.1.1" 80 none, .ok ()⟩ :: [⟨.writeAll (replyBytes repSuccess), .ok ()⟩,
        ⟨.fetchAdd .connectsOk 1, ()⟩]) (.request (.copyBidirectional stream.entry) next) :=
  ⟨_, (path_knock peer).append (.cons .reply (.cons .reply (.cons .reply (.cons .reply .nil))))⟩

/-- Connection 0 is at its splice, only id 0 leads to its entry, and `n` is the next id. -/
structure Spliced (task : Task τ) (n : Nat) (s : Server τ) : Prop where
  here : s.tasks[0]? = some task
  nextId : s.counters.streams.nextId = .ofNat n
  rows : ∀ id, s.counters.streams.inner.lookup id = some 0 → id = 0
  entries : 0 < s.counters.streams.entries.length

theorem dropHandle_register (r : StreamRegistry) :
    (r.register peer target isolation started).2.dropHandle
        (r.register peer target isolation started).1 =
      ⟨(r.inner.insert r.nextId r.entries.length).erase r.nextId, r.nextId + 1,
        r.entries ++ [⟨r.nextId, peer, target, isolation, started, 0, 0⟩]⟩ := by
  simp [StreamRegistry.dropHandle, StreamRegistry.register]

/-- One more connection comes and goes. -/
theorem Spliced.churn {s : Server τ} (spliced : Spliced task n s) (issue : Nat → τ) :
    ∃ ls t, Run (Step issue) s ls t ∧ Spliced task (n + 1) t := by
  have peer : SocketAddr := .v4 ⟨⟨[127, 0, 0, 1], rfl⟩⟩ 40000
  have run : Run (Step issue) s _ _ := run_connection
    (path_knock_failed peer ⟨s.counters.streams.entries.length⟩ (.msg "no circuit")) free_knock
    (by simp [Free]) rfl
  refine ⟨_, _, run, ?_⟩
  generalize after : serveAll _ _ = counters
  have streams : counters.streams = _ :=
    (congrArg Counters.streams after.symm).trans (dropHandle_register s.counters.streams)
  obtain ⟨bound, -⟩ := List.getElem?_eq_some_iff.mp spliced.here
  refine ⟨?_, ?_, ?_, ?_⟩
  · rw [List.getElem?_append_left bound]
    exact spliced.here
  · simp [streams, spliced.nextId]
  · intro id found
    rw [streams] at found
    by_cases here : id = s.counters.streams.nextId
    · subst here
      rw [AList.lookup_erase] at found
      contradiction
    · rw [AList.lookup_erase_ne here, AList.lookup_insert_ne here] at found
      exact spliced.rows id found
  · simp [streams]

theorem Spliced.churn_all {s : Server τ} (spliced : Spliced task n s) (issue : Nat → τ) (k : Nat) :
    ∃ ls t, Run (Step issue) s ls t ∧ Spliced task (n + k) t := by
  induction k with
  | zero => exact ⟨[], s, .nil, spliced⟩
  | succ k ih =>
    obtain ⟨front, m, run, reached⟩ := ih
    obtain ⟨back, t, rest, reached⟩ := reached.churn issue
    exact ⟨front ++ back, t, run.append rest, reached⟩

/-- The next connection takes the one id that leads to the entry of connection 0. -/
theorem Spliced.replaced {s : Server τ} (spliced : Spliced task n s) (wrapped : UInt64.ofNat n = 0)
    (issue : Nat → τ) : ∃ ls t, Run (Step issue) s ls t ∧ t.tasks[0]? = some task ∧
      ∀ id, t.counters.streams.inner.lookup id ≠ some 0 := by
  have peer : SocketAddr := .v4 ⟨⟨[127, 0, 0, 1], rfl⟩⟩ 40000
  obtain ⟨next, path⟩ := path_knock_spliced peer ⟨s.counters.streams.entries.length⟩
  have run : Run (Step issue) s _ _ := run_connection path free_knock (by simp [Free]) rfl
  refine ⟨_, _, run, ?_⟩
  generalize after : serveAll _ _ = counters
  have inner : counters.streams.inner =
      s.counters.streams.inner.insert s.counters.streams.nextId s.counters.streams.entries.length :=
    (congrArg (·.streams.inner) after.symm).trans rfl
  obtain ⟨bound, -⟩ := List.getElem?_eq_some_iff.mp spliced.here
  refine ⟨(List.getElem?_append_left bound).trans spliced.here, fun id found => ?_⟩
  rw [inner, spliced.nextId, wrapped] at found
  by_cases here : id = 0
  · subst here
    rw [AList.lookup_insert] at found
    exact Nat.ne_of_gt spliced.entries (Option.some.inj found)
  · rw [AList.lookup_insert_ne here] at found
    exact here (spliced.rows id found)

theorem spliced_first (issue : Nat → τ) (mode : Isolation) :
    ∃ ls s task next, Run (Step issue) (start issue mode) ls s ∧ Spliced task 1 s ∧
      task.rest = some (.request (.copyBidirectional 0) next) ∧
      (holding task.trace).stream = some ⟨0⟩ := by
  obtain ⟨next, path⟩ := path_knock_spliced (.v4 ⟨⟨[127, 0, 0, 1], rfl⟩⟩ 40000) ⟨0⟩
  refine ⟨_, _, _, next, run_connection path free_knock (by simp [Free]) rfl,
    ⟨rfl, rfl, fun id found => ?_, Nat.zero_lt_one⟩, rfl, rfl⟩
  have inner : ((∅ : AList fun _ : UInt64 => Arc).insert 0 0).lookup id = some 0 := found
  by_contra other
  rw [AList.lookup_insert_ne other] at inner
  contradiction

/-- Byte counts after any run, and where a poll of any next step counts. -/
theorem bytes_conserved (run : Run (Step issue) (start issue mode) ls s) :
    Conserved ls s ∧ (s.counters.streams.entries.length ≤ 2 ^ 64 →
      ∀ c l t, Step issue s l t → l.polls c → s.Listed c) := by
  refine ⟨conserved run, fun room c l t step polls => ?_⟩
  exact listed_of_poll run room step polls

/-- One byte of a client is on its way to the circuit. -/
theorem bytes_conserved_splice :
    ∃ (ls : List (Label Nat)) (s : Server Nat), Run (Step id) (start id .shared) ls s ∧
      (∃ l ∈ ls, l.delivered 0 = 1) ∧ Conserved ls s ∧
      (s.counters.streams.entries.length ≤ 2 ^ 64 →
        ∀ c l t, Step id s l t → l.polls c → s.Listed c) := by
  obtain ⟨front, m, task, next, run, spliced, pending, -⟩ := spliced_first id .shared
  have poll : Step id m (.pollRead 0 ⟨[], 1⟩ (⟨[7], 1⟩, .ready (.ok ()))) _ :=
    .pollRead spliced.here pending ⟨by simp, ⟨rfl, by simp⟩, by simp⟩
  have run := run.snoc poll
  exact ⟨_, _, run, ⟨_, List.mem_append_right _ (.head _), rfl⟩, bytes_conserved run⟩

/-- A byte is counted against an entry whose row was replaced by a newer connection's. -/
theorem bytes_counted_unlisted :
    ∃ (ls : List (Label Nat)) (s : Server Nat) (l : Label Nat) (t : Server Nat),
      Run (Step id) (start id .shared) ls s ∧ Step id s l t ∧ l.polls 0 ∧ l.delivered 0 = 1 ∧
        ¬ s.Listed 0 := by
  obtain ⟨front, m, task, next, run, spliced, pending, stream⟩ := spliced_first id .shared
  obtain ⟨churning, n, churned, spliced⟩ := spliced.churn_all id (2 ^ 64 - 1)
  obtain ⟨back, s, replaced, here, unlisted⟩ := spliced.replaced (by decide) id
  refine ⟨_, s, .pollRead 0 ⟨[], 1⟩ (⟨[7], 1⟩, .ready (.ok ())), _,
    run.append (churned.append replaced), .pollRead here pending ⟨by simp, ⟨rfl, by simp⟩, by simp⟩, rfl, rfl, ?_⟩
  rintro ⟨other, entry, found, -, listed⟩
  obtain rfl : other = ⟨0⟩ := by simpa [streamOf, here, stream, eq_comm] using found
  exact unlisted _ listed

end Server

end Tord.Socks
