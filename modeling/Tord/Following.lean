import Mathlib.Algebra.Order.BigOperators.Group.Finset
import Tord.Availability

/-! Answers held against each other: an id is the position of a connection among all that
were ever registered, so `streams` agrees with `stats`, and a row can be followed by its id
from one answer to the next. -/
namespace Tord

open Interaction Transition Text Socks

variable {τ : Type} {issue : Nat → τ}

namespace Socks

def Label.enrols : Label τ → Option (Nat × SocketAddr × String × Option String)
  | .exchange c (.register peer target isolation) _ => some (c, peer, target, isolation)
  | _ => none

def enrolments (ls : List (Label τ)) : List (Nat × SocketAddr × String × Option String) :=
  ls.filterMap Label.enrols

theorem enrolments_append (ls ms : List (Label τ)) :
    enrolments (ls ++ ms) = enrolments ls ++ enrolments ms := List.filterMap_append

namespace Server

structure Enrolled (ls : List (Label τ)) (s : Server τ) : Prop where
  given : s.counters.streams.entries.map StreamEntry.given = (enrolments ls).map (·.2)
  owner : ∀ c stream, s.streamOf c = some stream →
    ((enrolments ls).map (·.1))[stream.entry]? = some c

theorem Enrolled.length_eq {s : Server τ} {ls : List (Label τ)} (inv : Enrolled ls s) :
    s.counters.streams.entries.length = (enrolments ls).length := by
  simpa using congrArg List.length inv.given

theorem Enrolled.quiet {s t : Server τ} {ls : List (Label τ)} {l : Label τ} (inv : Enrolled ls s)
    (silent : l.enrols = none) (streams : t.streamOf = s.streamOf)
    (given : t.counters.streams.entries.map StreamEntry.given =
      s.counters.streams.entries.map StreamEntry.given) : Enrolled (ls ++ [l]) t := by
  have same : enrolments (ls ++ [l]) = enrolments ls := by simp [enrolments, silent]
  exact ⟨by rw [given, same, inv.given], by rw [streams, same]; exact inv.owner⟩

theorem enrolled_exchange {s : Server τ} {ls : List (Label τ)} {c : Nat} (inv : Enrolled ls s)
    (here : s.tasks[c]? = some task) (pending : task.rest = some (.request op next))
    (answers : s.Answers task started op reply) (owns : Owns task) :
    Enrolled (ls ++ [.exchange c op reply])
      ⟨s.counters.serve started op, s.tor, s.tasks.set c (task.exchanged op reply (next reply))⟩ := by
  have demands := (owns _ pending).1
  have kept (same : (holding (task.exchanged op reply (next reply)).trace).stream =
      (holding task.trace).stream) := streamOf_set_same here same (s.counters.serve started op) s.tor
  simp only [Task.exchanged, holding_snoc] at kept
  cases op with
  | register peer target isolation =>
    obtain rfl := answers
    have more : enrolments (ls ++ [.exchange c (.register peer target isolation)
        (s.counters.streams.register peer target isolation started).1]) =
        enrolments ls ++ [(c, peer, target, isolation)] := by
      simp [enrolments, Label.enrols]
    refine ⟨?_, fun d stream found => ?_⟩
    · rw [more, List.map_append, ← inv.given]
      simp [Counters.serve, StreamRegistry.snd_register, StreamEntry.given]
    · rw [more, List.map_append]
      rw [streamOf_set here] at found
      split at found
      · next same =>
        simp only [Task.exchanged, holding_snoc, Hold.after, Hold.stream, Option.some.injEq] at found
        rw [same, ← found]
        simp [StreamRegistry.register, inv.length_eq]
      · have old := inv.owner d stream found
        rwa [List.getElem?_append_left (List.getElem?_eq_some_iff.mp old).1]
  | dropStream stream =>
    have demands : holding task.trace = .held stream := demands
    exact inv.quiet rfl (kept (by simp [demands, Hold.after, Hold.stream]))
      (by simp [Counters.serve])
  | fetchAdd counter n => exact inv.quiet rfl (kept rfl) rfl
  | _ => exact inv.quiet rfl (kept rfl) rfl

theorem enrolled (run : Run (Step issue) (start issue mode) ls s) : Enrolled ls s := by
  refine run.invariant Enrolled ⟨rfl, by simp [streamOf, start]⟩ ?_
  intro ls s l t front inv step
  cases step with
  | accept =>
    refine inv.quiet rfl (funext fun d => ?_) rfl
    rcases Nat.lt_trichotomy d s.tasks.length with old | rfl | beyond
    · simp [streamOf, List.getElem?_append_left old]
    · simp [streamOf, Task.spawn, holding, Hold.stream]
    · rw [streamOf, streamOf, List.getElem?_eq_none (by simp; omega),
        List.getElem?_eq_none (by omega)]
  | exchange started here pending answers =>
    exact enrolled_exchange inv here pending answers (owns front here)
  | isolate here pending unset => exact inv.quiet rfl (streamOf_set_same here (by rfl) _ _) rfl
  | pollRead here pending promised =>
    exact inv.quiet rfl rfl (by rw [Counters.pollRead_eq promised, given_count])
  | pollWrite here pending => exact inv.quiet rfl rfl (by rw [Counters.pollWrite_eq, given_count])
  | cancel here running =>
    apply inv.quiet rfl (streamOf_set_same here (by rfl) _ _)
    unfold Counters.dropLocals
    split <;> simp

/-- Whose enrolment stands where is for good. -/
theorem enrolled_iff (run : Run (Step issue) (start issue mode) ls s) (c : Nat) (arc : Arc) :
    ((enrolments ls).map (·.1))[arc]? = some c ↔ s.streamOf c = some ⟨arc⟩ := by
  have inv := enrolled run
  refine ⟨fun here => ?_, fun own => inv.owner c ⟨arc⟩ own⟩
  obtain ⟨bound, -⟩ := List.getElem?_eq_some_iff.mp here
  rw [List.length_map, ← inv.length_eq] at bound
  obtain ⟨d, own⟩ := (conserved run).owned arc bound
  obtain rfl := Option.some.inj ((inv.owner d ⟨arc⟩ own).symm.trans here)
  exact own

def Ended (s : Server τ) (c : Nat) : Prop :=
  ∃ task, s.tasks[c]? = some task ∧ (holding task.trace).stream.isSome ∧ task.live = none

theorem Ended.step {s t : Server τ} {c : Nat} (ended : Ended s c) (step : Step issue s l t)
    (owns : ∀ task, s.tasks[c]? = some task → Owns task) : Ended t c := by
  obtain ⟨task, here, had, gone⟩ := ended
  obtain ⟨after, there, evolves⟩ := step.persists here
  refine ⟨after, there, ?_⟩
  cases evolves with
  | same => exact ⟨had, gone⟩
  | isolate => exact ⟨had, gone⟩
  | cancel => exact ⟨had, rfl⟩
  | exchange pending =>
    rename_i op reply next
    have demands := (owns task here _ pending).1
    rw [live_pending pending] at gone
    have dropped : ∃ stream, holding task.trace = .dropped stream := by
      cases hold : holding task.trace <;> simp_all [Hold.stream, Hold.live]
    obtain ⟨stream, hold⟩ := dropped
    have kept : (holding task.trace).after op reply = .dropped stream := by
      cases op <;> simp_all [ownership, Hold.after]
    simp [Task.exchanged, Task.live, holding_snoc, kept, Hold.stream, Hold.live]

theorem Ended.run {s t : Server τ} {c : Nat} (ended : Ended s c)
    (front : Run (Step issue) (start issue mode) ls s) (back : Run (Step issue) s ms t) : Ended t c := by
  induction back generalizing ls with
  | nil => exact ended
  | cons first _ ih =>
    exact ih (ended.step first fun task here => owns front here) (front.snoc first)

theorem streamOf_later {t : Server τ} {ls ms : List (Label τ)} {c : Nat} {arc : Arc}
    (run : Run (Step issue) (start issue mode) (ls ++ ms) t)
    (here : ((enrolments ls).map (·.1))[arc]? = some c) : t.streamOf c = some ⟨arc⟩ := by
  apply (enrolled_iff run c arc).mp
  rwa [enrolments_append, List.map_append,
    List.getElem?_append_left (List.getElem?_eq_some_iff.mp here).1]

/-- The row of connection `c` has the place of its enrolment as its id. -/
def Numbered (ls : List (Label τ)) (c : Nat) (row : StreamSnapshot) : Prop :=
  ∃ peer, (enrolments ls)[row.id.toNat]? = some (c, peer, row.target, row.isolation) ∧
    row.peer = if peer.ipIsUnspecified then "local" else peer.toString

theorem Numbered.streamOf {t : Server τ} {ls ms : List (Label τ)} {c : Nat} {row : StreamSnapshot}
    (numbered : Numbered ls c row) (run : Run (Step issue) (start issue mode) (ls ++ ms) t) :
    t.streamOf c = some ⟨row.id.toNat⟩ := by
  obtain ⟨peer, here, -⟩ := numbered
  exact streamOf_later run (by simp [here])

theorem Enrolled.numbered {s : Server τ} {ls : List (Label τ)} {c : Nat} (inv : Enrolled ls s)
    (room : s.counters.streams.entries.length ≤ 2 ^ 64) (own : s.streamOf c = some stream)
    (found : s.counters.streams.entries[stream.entry]? = some entry)
    (id : entry.id = .ofNat stream.entry) (now : Nat) : Numbered ls c (entry.view now) := by
  obtain ⟨bound, -⟩ := List.getElem?_eq_some_iff.mp found
  have place : (entry.view now).id.toNat = stream.entry := by
    rw [StreamEntry.view, id, UInt64.toNat_ofNat', Nat.mod_eq_of_lt (by omega)]
  have given := congrArg (·[stream.entry]?) inv.given
  have owner := inv.owner c stream own
  simp only [List.getElem?_map, found, Option.map_some] at given owner
  refine ⟨entry.peer, ?_, rfl⟩
  rw [place]
  cases here : (enrolments ls)[stream.entry]? with
  | none => simp [here] at given
  | some enrolment =>
    rw [here, Option.map_some, Option.some.injEq] at given owner
    rw [← owner]
    exact congrArg (fun rest => some (enrolment.1, rest)) given.symm

structure Follows (ms : List (Label τ)) (c : Nat) (before after : StreamSnapshot) : Prop where
  peer : after.peer = before.peer
  target : after.target = before.target
  isolation : after.isolation = before.isolation
  up : after.bytesToUpstream = before.bytesToUpstream + .ofNat (delivered c ms)
  down : after.bytesToClient = before.bytesToClient + .ofNat (Socks.accepted c ms)

theorem follows {s t : Server τ} {ls ms : List (Label τ)} {c d : Nat} {row later : StreamSnapshot}
    (run : Run (Step issue) (start issue mode) (ls ++ ms) t)
    (first : Pictures ls s c row ∧ Numbered ls c row)
    (second : Pictures (ls ++ ms) t d later ∧ Numbered (ls ++ ms) d later) :
    (later.id = row.id ↔ d = c) ∧ (d = c → Follows ms c row later) := by
  have place := first.2.streamOf run
  have laterPlace := @Numbered.streamOf _ _ _ t _ [] _ _ second.2 (by rwa [List.append_nil])
  obtain ⟨pictured, peer, here, shown⟩ := first
  obtain ⟨laterPictured, laterPeer, there, laterShown⟩ := second
  have kept : (enrolments (ls ++ ms))[row.id.toNat]? = some (c, peer, row.target, row.isolation) := by
    rw [enrolments_append, List.getElem?_append_left (List.getElem?_eq_some_iff.mp here).1]
    exact here
  have same (ids : later.id = row.id) :
      (d, laterPeer, later.target, later.isolation) = (c, peer, row.target, row.isolation) := by
    rw [ids, kept] at there
    exact (Option.some.inj there).symm
  have mine (own : d = c) : later.id = row.id := by
    rw [own, place, Option.some.injEq, StreamHandle.mk.injEq] at laterPlace
    exact UInt64.toNat_inj.mp laterPlace.symm
  refine ⟨⟨fun ids => (Prod.mk.inj (same ids)).1, mine⟩, fun own => ?_⟩
  have whole := same (mine own)
  simp only [Prod.mk.injEq] at whole
  obtain ⟨-, rfl, target, isolation⟩ := whole
  subst own
  refine ⟨laterShown.trans shown.symm, target, isolation, ?_, ?_⟩
  · rw [laterPictured.up, pictured.up, ← UInt64.ofNat_add, delivered, List.map_append, List.sum_append]
    rfl
  · rw [laterPictured.down, pictured.down, ← UInt64.ofNat_add, Socks.accepted, List.map_append,
      List.sum_append]
    rfl

theorem numbered_rows (run : Run (YieldingStep issue) (start issue mode) ls s) (parked : s.Parked)
    (room : s.counters.streams.entries.length ≤ 2 ^ 64) (now : Nat) :
    (s.counters.streams.snapshot now).Pairwise (·.id < ·.id) ∧
    ∃ order : List Nat, order.Nodup ∧ (∀ c, c ∈ order ↔ c ∈ s.proxied) ∧
      List.Forall₂ (fun c row => Pictures ls s c row ∧ Numbered ls c row) order
        (s.counters.streams.snapshot now) := by
  obtain ⟨increasing, order, distinct, proxied, rows⟩ := pictured_entries run parked room now (.refl _)
  refine ⟨increasing, order, distinct, proxied, rows.imp ?_⟩
  rintro c _ ⟨stream, entry, own, found, id, rfl, pictures⟩
  exact ⟨pictures, (enrolled (run_step run)).numbered room own found id now⟩

theorem nodup_enrolments (run : Run (Step issue) (start issue mode) ls s) :
    ((enrolments ls).map (·.1)).Nodup := by
  refine List.nodup_iff_getElem?_ne_getElem?.mpr fun i j below bound same => ?_
  have there := List.getElem?_eq_getElem bound
  rw [there] at same
  have first := (enrolled_iff run _ i).mp same
  have second := (enrolled_iff run _ j).mp there
  rw [first, Option.some.injEq, StreamHandle.mk.injEq] at second
  exact absurd second (Nat.ne_of_lt below)

theorem ncard_of_nodup {l : List Nat} {members : Set Nat} (distinct : l.Nodup)
    (each : ∀ c, c ∈ l ↔ c ∈ members) : members.ncard = l.length := by
  have same : members = l.toFinset := by
    ext c
    simp [each]
  rw [same, Set.ncard_coe_finset, List.toFinset_card_of_nodup distinct]

theorem understands_iff (run : Run (YieldingStep issue) (start issue mode) ls s) (parked : s.Parked)
    (c : Nat) : c ∈ (enrolments ls).map (·.1) ↔ Understands (s.traceOf c) := by
  have enrolled : c ∈ (enrolments ls).map (·.1) ↔ ∃ stream, s.streamOf c = some stream := by
    rw [List.mem_iff_getElem?]
    exact ⟨fun ⟨arc, here⟩ => ⟨⟨arc⟩, (enrolled_iff (run_step run) c arc).mp here⟩,
      fun ⟨stream, own⟩ => ⟨stream.entry, (enrolled_iff (run_step run) c stream.entry).mpr own⟩⟩
  rw [enrolled, traceOf, streamOf]
  cases here : s.tasks[c]? with
  | none => simp [not_understands_nil]
  | some task =>
    obtain ⟨ledger, -⟩ := books run parked here
    simp only [Option.bind_some, Option.elim_some]
    constructor
    · rintro ⟨stream, held⟩
      by_contra unknown
      rw [ledger.unregistered unknown] at held
      cases held
    · rintro ⟨hs, bytes⟩
      obtain ⟨stream, held, -⟩ := ledger.row hs bytes
      exact ⟨stream, held⟩

/-- Every request is registered once, and the counter of requests is the next id. -/
theorem connectsTotal_eq (run : Run (YieldingStep issue) (start issue mode) ls s) (parked : s.Parked) :
    s.counters.metrics.connectsTotal = .ofNat (enrolments ls).length := by
  have size : {c | Understands (s.traceOf c)}.ncard = ((enrolments ls).map (·.1)).length :=
    ncard_of_nodup (nodup_enrolments (run_step run)) (understands_iff run parked)
  rw [(counted run parked).total, size, List.length_map]

theorem sum_le_range {order : List Nat} (distinct : order.Nodup) (bound : ∀ c ∈ order, c < n)
    (f : Nat → Nat) : (order.map f).sum ≤ ((List.range n).map f).sum := by
  rw [← List.sum_toFinset f distinct, ← List.sum_toFinset f List.nodup_range]
  refine Finset.sum_le_sum_of_subset fun c member => ?_
  simpa using bound c (List.mem_toFinset.mp member)

theorem sum_rows {up : StreamSnapshot → UInt64} {f : Nat → Nat}
    {order : List Nat} {rows : List StreamSnapshot}
    (pictured : List.Forall₂ (fun c row => up row = .ofNat (f c)) order rows) (distinct : order.Nodup)
    (bound : ∀ c ∈ order, c < n) : (rows.map fun row => (up row).toNat).sum ≤ ((List.range n).map f).sum := by
  refine Nat.le_trans ?_ (sum_le_range distinct bound f)
  clear distinct bound
  induction pictured with
  | nil => simp
  | @cons c row _ _ first _ ih =>
    have most : (up row).toNat ≤ f c := by
      rw [first, UInt64.toNat_ofNat']
      exact Nat.mod_le _ _
    simp only [List.map_cons, List.sum_cons]
    omega

def Holds (s : Server τ) (c : Nat) : Prop := ∃ task, s.tasks[c]? = some task ∧ task.live.isSome

def place (s : Server τ) (c : Nat) : Nat := (s.streamOf c).elim 0 (·.entry)

theorem Holds.streamOf {s : Server τ} {c : Nat} (holds : Holds s c) :
    ∃ stream, s.streamOf c = some stream := by
  obtain ⟨task, here, lives⟩ := holds
  obtain ⟨stream, held⟩ := Option.isSome_iff_exists.mp lives
  exact ⟨stream, streamOf_live here held⟩

/-- Who has had a row and has one now has had it all the time. -/
theorem Holds.earlier {s t : Server τ} {c : Nat} (later : Holds t c)
    (front : Run (Step issue) (start issue mode) ls s) (back : Run (Step issue) s ms t)
    (own : s.streamOf c = some stream) : Holds s c := by
  obtain ⟨task, here, had⟩ : ∃ task, s.tasks[c]? = some task ∧
      (holding task.trace).stream = some stream := Option.bind_eq_some_iff.mp own
  by_contra gone
  have ended : Ended s c := by
    refine ⟨task, here, by simp [had], ?_⟩
    cases live : task.live with
    | none => rfl
    | some other => exact absurd ⟨task, here, by simp [live]⟩ gone
  obtain ⟨after, there, -, none⟩ := ended.run front back
  obtain ⟨other, found, lives⟩ := later
  obtain rfl := Option.some.inj (there.symm.trans found)
  simp [none] at lives

theorem pairwise_place {t : Server τ} {ls ms : List (Label τ)} {rows : List StreamSnapshot}
    (run : Run (Step issue) (start issue mode) (ls ++ ms) t)
    (increasing : rows.Pairwise (·.id < ·.id)) (numbered : List.Forall₂ (Numbered ls) order rows) :
    order.Pairwise fun c d => t.place c < t.place d := by
  have same : List.Forall₂ (· = ·) (order.map t.place) (rows.map (·.id.toNat)) := by
    rw [List.forall₂_map_left_iff, List.forall₂_map_right_iff]
    refine numbered.imp fun c row number => ?_
    rw [place, number.streamOf run]
    rfl
  rw [List.forall₂_eq_eq_eq] at same
  have places : (rows.map (·.id.toNat)).Pairwise (· < ·) := List.pairwise_map.mpr increasing
  rw [← same] at places
  exact List.pairwise_map.mp places

/-- The connections with a row, in order of their rows: first those that had one already. -/
theorem kept_and_fresh {s t : Server τ} {ls ms : List (Label τ)} {order later : List Nat}
    (front : Run (Step issue) (start issue mode) ls s) (back : Run (Step issue) s ms t)
    (held : ∀ c, c ∈ order ↔ Holds s c) (laterHeld : ∀ c, c ∈ later ↔ Holds t c)
    (sorted : order.Pairwise fun c d => t.place c < t.place d)
    (laterSorted : later.Pairwise fun c d => t.place c < t.place d) :
    ∃ kept fresh, later = kept ++ fresh ∧ kept.Sublist order ∧ ∀ c ∈ fresh, c ∉ order := by
  have run := front.append back
  have old {c : Nat} (member : c ∈ order) : t.place c < (enrolments ls).length := by
    obtain ⟨stream, own⟩ := ((held c).mp member).streamOf
    have here := (enrolled_iff front c stream.entry).mpr own
    rw [place, streamOf_later run here]
    simpa using (List.getElem?_eq_some_iff.mp here).1
  have new {c : Nat} (member : c ∈ later) (unknown : c ∉ order) :
      (enrolments ls).length ≤ t.place c := by
    have holds := (laterHeld c).mp member
    obtain ⟨stream, own⟩ := holds.streamOf
    by_contra early
    rw [place, own, Option.elim_some, not_le] at early
    have there := (enrolled_iff run c stream.entry).mpr own
    rw [enrolments_append, List.map_append, List.getElem?_append_left (by simpa using early)] at there
    exact unknown ((held c).mpr (holds.earlier front back ((enrolled_iff front c _).mp there)))
  refine ⟨order.filter (· ∈ later), later.filter (· ∉ order), ?_, List.filter_sublist,
    fun c member => by simpa using (List.mem_filter.mp member).2⟩
  have antisymm : Std.Antisymm fun c d => t.place c < t.place d :=
    ⟨fun _ _ below above => absurd above (Nat.lt_asymm below)⟩
  have irrefl : Std.Irrefl fun c d => t.place c < t.place d := ⟨fun _ => Nat.lt_irrefl _⟩
  refine laterSorted.eq_of_mem_iff ?_ fun c => ?_
  · refine List.pairwise_append.mpr ⟨sorted.sublist List.filter_sublist,
      laterSorted.sublist List.filter_sublist, fun c inOrder d inLater => ?_⟩
    have fresh := List.mem_filter.mp inLater
    exact Nat.lt_of_lt_of_le (old (List.mem_filter.mp inOrder).1) (new fresh.1 (by simpa using fresh.2))
  · by_cases known : c ∈ order <;> simp [known]

end Server

end Socks

namespace Process

variable {setup : Setup τ} {ls ms : List (Moment τ)} {p q : Process τ}

/-- The answers to `stats` and to `streams` agree: as many streams are active as there are
rows, every id is below the number of requests, and the bytes of the rows are among the
totals. -/
theorem answers_agree (run : Run (Step setup) (start setup) ls p)
    (asked : Answering setup ls p k host "stats" text)
    (also : Answering setup ls p j otherHost "streams" other)
    (room : p.daemon.server.counters.streams.entries.length ≤ 2 ^ 64)
    (fewUp : (Server.totalled (happened ls) p.daemon.server.tasks.length).1 < 2 ^ 64)
    (fewDown : (Server.totalled (happened ls) p.daemon.server.tasks.length).2 < 2 ^ 64) :
    ∃ m rows, text = setup.serde.toString (okDocument (statsMembers m rows.length)) ++ "\n" ∧
      other = setup.serde.toString (okDocument (streamsMembers rows)) ++ "\n" ∧
      m.connectsTotal = .ofNat (enrolments (happened ls)).length ∧
      (∀ row ∈ rows, row.id.toNat < (enrolments (happened ls)).length) ∧
      (rows.map fun row => row.bytesToUpstream.toNat).sum ≤ m.bytesToUpstream.toNat ∧
      (rows.map fun row => row.bytesToClient.toNat).sum ≤ m.bytesToClient.toNat := by
  obtain ⟨serving, parked, whole⟩ := text_eq run asked
  obtain ⟨-, -, otherWhole⟩ := text_eq run also
  have first := run_server run serving
  have counted := Server.counted first parked
  obtain ⟨-, order, distinct, proxied, rows⟩ := Server.numbered_rows first parked room otherHost.now
  have bound : ∀ c ∈ order, c < p.daemon.server.tasks.length := by
    intro c member
    obtain ⟨-, runs⟩ := (proxied c).mp member
    by_contra beyond
    rw [Server.running, List.getElem?_eq_none (not_lt.mp beyond)] at runs
    cases runs
  have active : ((p.state setup).streams.snapshot otherHost.now).length =
      p.daemon.server.counters.streams.len := by
    rw [counted.active room, Server.ncard_of_nodup distinct proxied, rows.length_eq]
    rfl
  refine ⟨p.daemon.server.counters.metrics, _, ?_, otherWhole,
    Server.connectsTotal_eq first parked, ?_, ?_, ?_⟩
  · rw [active]
    exact whole
  · intro row member
    obtain ⟨i, inside, rfl⟩ := List.getElem_of_mem member
    obtain ⟨-, peer, here, -⟩ := (List.forall₂_iff_get.mp rows).2 i (by rwa [rows.length_eq]) inside
    exact (List.getElem?_eq_some_iff.mp here).1
  · rw [counted.totals.up, UInt64.toNat_ofNat', Nat.mod_eq_of_lt fewUp]
    exact Server.sum_rows (rows.imp fun _ _ both => both.1.up) distinct bound
  · rw [counted.totals.down, UInt64.toNat_ofNat', Nat.mod_eq_of_lt fewDown]
    exact Server.sum_rows (rows.imp fun _ _ both => both.1.down) distinct bound

/-- Two answers to `streams` in one run: the second table is the first without the
connections that ended, and then the new ones. Rows have the same id exactly if they are of
the same connection, and then only the bytes moved in between have been added. -/
theorem rows_followed (run : Run (Step setup) (start setup) ls p)
    (asked : Answering setup ls p k host "streams" text) (between : Run (Step setup) p ms q)
    (again : Answering setup (ls ++ ms) q j laterHost "streams" laterText)
    (room : q.daemon.server.counters.streams.entries.length ≤ 2 ^ 64) :
    ∃ rows order laterRows kept fresh,
      text = setup.serde.toString (okDocument (streamsMembers rows)) ++ "\n" ∧
      laterText = setup.serde.toString (okDocument (streamsMembers laterRows)) ++ "\n" ∧
      List.Forall₂ (Server.Pictures (happened ls) p.daemon.server) order rows ∧
      List.Forall₂ (Server.Pictures (happened (ls ++ ms)) q.daemon.server) (kept ++ fresh) laterRows ∧
      (∀ c, c ∈ order ↔ c ∈ p.daemon.server.proxied) ∧
      (∀ c, c ∈ kept ++ fresh ↔ c ∈ q.daemon.server.proxied) ∧
      kept.Sublist order ∧ (∀ c ∈ fresh, c ∉ order) ∧
      ∀ c row d later, (c, row) ∈ order.zip rows → (d, later) ∈ (kept ++ fresh).zip laterRows →
        (later.id = row.id ↔ d = c) ∧ (d = c → Server.Follows (happened ms) c row later) := by
  obtain ⟨serving, parked, whole⟩ := text_eq run asked
  obtain ⟨laterServing, laterParked, laterWhole⟩ := text_eq (run.append between) again
  have first := run_server run serving
  have second := run_server (run.append between) laterServing
  rw [happened_append] at second
  have earlier : p.daemon.server.counters.streams.entries.length ≤ 2 ^ 64 := by
    have size := (Server.enrolled (Server.run_step first)).length_eq
    have laterSize := (Server.enrolled (Server.run_step second)).length_eq
    rw [enrolments_append, List.length_append] at laterSize
    omega
  obtain ⟨increasing, order, -, proxied, rows⟩ := Server.numbered_rows first parked earlier host.now
  obtain ⟨laterIncreasing, laterOrder, -, laterProxied, laterRows⟩ :=
    Server.numbered_rows second laterParked room laterHost.now
  have held (c : Nat) : c ∈ order ↔ Server.Holds p.daemon.server c := by
    rw [proxied, Server.proxied_eq first parked]
    rfl
  have laterHeld (c : Nat) : c ∈ laterOrder ↔ Server.Holds q.daemon.server c := by
    rw [laterProxied, Server.proxied_eq second laterParked]
    rfl
  obtain ⟨kept, fresh, rfl, sub, new⟩ := Server.kept_and_fresh (Server.run_step first)
    (run_between between laterServing) held laterHeld
    (Server.pairwise_place (Server.run_step second) increasing (rows.imp fun _ _ => And.right))
    (@Server.pairwise_place _ _ _ _ _ _ [] _ (by simpa using Server.run_step second) laterIncreasing
      (laterRows.imp fun _ _ => And.right))
  refine ⟨_, order, _, kept, fresh, whole, laterWhole, rows.imp fun _ _ => And.left, ?_, proxied,
    laterProxied, sub, new, ?_⟩
  · rw [happened_append]
    exact laterRows.imp fun _ _ => And.left
  · intro c row d later here there
    exact Server.follows (Server.run_step second) ((List.forall₂_iff_zip.mp rows).2 here)
      ((List.forall₂_iff_zip.mp laterRows).2 there)

theorem answers_agree_spliced : ∃ ls p m rows, Run (Step home) (start home) ls p ∧
    Answering home ls p 0 Control.clock "stats"
      (home.serde.toString (okDocument (statsMembers m rows.length)) ++ "\n") ∧
    Answering home ls p 0 Control.clock "streams"
      (home.serde.toString (okDocument (streamsMembers rows)) ++ "\n") ∧
    m.connectsTotal = .ofNat (enrolments (happened ls)).length ∧
    ∀ row ∈ rows, row.id.toNat < (enrolments (happened ls)).length := by
  obtain ⟨ls, p, task, spliced⟩ := exists_spliced
  have run : Run (Step home) (start home) ls p := spliced.run home.serde
  have asked := spliced.answering home.serde "stats" (by decide)
  have also := spliced.answering home.serde "streams" (by decide)
  obtain ⟨m, rows, text, other, total, ids, -, -⟩ := answers_agree run asked also
    spliced.room (by rw [spliced.idle]; decide) (by rw [spliced.idle]; decide)
  rw [text] at asked
  rw [other] at also
  exact ⟨ls, p, m, rows, run, asked, also, total, ids⟩

/-- The splice of connection `c` ends and its row goes. -/
theorem ends {c : Nat} {entry : Arc} {task : Socks.Task τ} (serving : p.daemon.exit = none)
    (parked : p.daemon.server.Parked) (here : p.daemon.server.tasks[c]? = some task)
    (served : Served peer hs entry task) :
    ∃ ls s ended, Run (Step setup) p ls { p with daemon := { p.daemon with server := s } } ∧
      s.Parked ∧ s.tasks = p.daemon.server.tasks.set c ended ∧ ended.live = none ∧
      s.counters.streams.entries.length = p.daemon.server.counters.streams.entries.length := by
  obtain ⟨next, splices, leaves⟩ := served.splices
  obtain ⟨result, left⟩ := leaves (.ok (0, 0))
  obtain ⟨bound, -⟩ := List.getElem?_eq_some_iff.mp here
  have copied : Server.Step setup.issue p.daemon.server
      (.exchange c (.copyBidirectional entry) (.ok (0, 0))) _ := .exchange 0 here splices trivial
  rw [left] at copied
  have goes : Run (Server.Step setup.issue) p.daemon.server
      [.exchange c (.copyBidirectional entry) (.ok (0, 0)), .exchange c (.dropStream ⟨entry⟩) ()] _ :=
    .cons copied (.single (.exchange 0 (List.getElem?_set_self bound) rfl trivial))
  have turns := @run_turns τ setup _ _ _ c p.daemon p.bootstrap p.sessions serving
    (alone_of_parked parked c) (by simp) goes
  refine ⟨_, _, _, turns, ?_, List.set_set _, ?_, ?_⟩
  · refine parked_of_alone (c := c) (fun d other rest elsewhere there => ?_) fun other rest there left => ?_
    · rw [List.set_set, List.getElem?_set_ne (Ne.symm elsewhere)] at there
      exact alone_of_parked parked c d other rest elsewhere there
    · rw [List.set_set, List.getElem?_set_self bound] at there
      obtain rfl := Option.some.inj there
      obtain rfl := Option.some.inj left
      nofun
  · simp only [Task.exchanged, Task.live, holding_snoc, Hold.after, Hold.live]
  · simp [Counters.serve]

/-- One more client is accepted and comes to its splice. -/
theorem comes (serving : p.daemon.exit = none) (parked : p.daemon.server.Parked)
    (listening : p.daemon.socks = .accepting) (peer : SocketAddr) (hs : Handshake) :
    ∃ ls q task, Run (Step setup) p ls q ∧ Admits p q peer hs task := by
  have accept : Step setup p (.daemon (.socksAccept (.ok peer))) _ :=
    .daemon (by simp) ⟨.socksAccept serving listening, Daemon.scheduled_of_parked parked _⟩
  obtain ⟨more, q, task, goes, -, admits⟩ := serves accept hs
  exact ⟨_, q, task, .cons accept goes, admits⟩

/-- The client of a splice sends a byte. -/
theorem sends {c : Nat} {entry : Arc} {task : Socks.Task τ} (serving : p.daemon.exit = none)
    (parked : p.daemon.server.Parked) (here : p.daemon.server.tasks[c]? = some task)
    (served : Served peer hs entry task) (byte : UInt8) :
    ∃ s, Run (Step setup) p [.daemon (.turn (.pollRead c ⟨[], 1⟩ (⟨[byte], 1⟩, .ready (.ok ()))))]
        { p with daemon := { p.daemon with server := s } } ∧
      s.Parked ∧ s.tasks = p.daemon.server.tasks ∧
      s.counters.streams.entries.length = p.daemon.server.counters.streams.entries.length := by
  obtain ⟨next, splices, -⟩ := served.splices
  have promised : ReadBuf.Polled ⟨[], 1⟩ (⟨[byte], 1⟩, .ready (.ok ())) :=
    ⟨by simp, ⟨rfl, by simp⟩, by simp⟩
  have poll : Run (Server.Step setup.issue) p.daemon.server _ _ := .single (.pollRead here splices promised)
  refine ⟨_, @run_turns τ setup _ _ _ c p.daemon p.bootstrap p.sessions serving
    (alone_of_parked parked c) (by simp [Turns, Socks.Label.isTurn, Socks.Label.connection]) poll,
    parked, rfl, ?_⟩
  rw [Counters.pollRead_eq promised]
  exact StreamRegistry.length_count _

/-- Between the answers connection 0 ends, 1 sends a byte and 2 comes. -/
theorem rows_followed_turnover : ∃ ls ms p q text rows order laterText laterRows kept fresh,
    Run (Step home) (start home) ls p ∧ Answering home ls p 0 Control.clock "streams" text ∧
    Run (Step home) p ms q ∧ Answering home (ls ++ ms) q 0 Control.clock "streams" laterText ∧
    .daemon (.turn (.pollRead 1 ⟨[], 1⟩ (⟨[7], 1⟩, .ready (.ok ())))) ∈ ms ∧
    text = home.serde.toString (okDocument (streamsMembers rows)) ++ "\n" ∧
    laterText = home.serde.toString (okDocument (streamsMembers laterRows)) ++ "\n" ∧
    (∀ c, c ∈ order ↔ c = 0 ∨ c = 1) ∧ (∀ c, c ∈ kept ++ fresh ↔ c = 1 ∨ c = 2) ∧
    kept.Sublist order ∧ (∀ c ∈ fresh, c ∉ order) ∧
    ∀ c row d later, (c, row) ∈ List.zip order rows → (d, later) ∈ List.zip (kept ++ fresh) laterRows →
      (later.id = row.id ↔ d = c) ∧ (d = c → Server.Follows (happened ms) c row later) := by
  have peer : SocketAddr := .v4 ⟨.of [127, 0, 0, 1]⟩ 40000
  obtain ⟨_, _, zero, first, came⟩ := @comes Nat home ⟨⟨.accepting, .accepting,
    .start home.issue home.mode, none⟩, {}, [.waits (.reading [])]⟩ rfl (parked_start _ _) rfl peer knocking
  obtain ⟨_, p, one, second, joined⟩ := comes came.serving came.parked came.listening peer knocking
  have run := ((run_listening home).append first).append second
  have tasks : p.daemon.server.tasks = [zero, one] := by
    rw [joined.tasks, came.tasks]
    rfl
  have here : p.sessions[0]? = some (.waits (.reading [])) := by
    rw [joined.sessions, came.sessions]
    rfl
  have leaver : p.daemon.server.tasks[0]? = some zero := by simp [tasks]
  obtain ⟨_, s, ended, leaving, parked, left, gone, kept⟩ :=
    @ends _ home p _ _ _ _ _ joined.serving joined.parked leaver came.served
  rw [tasks, List.set_cons_zero] at left
  obtain ⟨s', sending, parked', same, kept'⟩ :=
    @sends _ home { p with daemon := { p.daemon with server := s } } _ _ 1 _ _ joined.serving parked
      (by simp [left]) joined.served 7
  obtain ⟨_, q, two, third, arrived⟩ :=
    @comes _ home { p with daemon := { p.daemon with server := s' } } joined.serving parked'
      joined.listening peer knocking
  have between := (leaving.append sending).append third
  have laterTasks : q.daemon.server.tasks = [ended, one, two] := by
    rw [arrived.tasks, same, left]
    rfl
  have laterHere : q.sessions[0]? = some (.waits (.reading [])) := by rw [arrived.sessions, here]
  have asked := answering_word run joined.serving joined.parked here Control.clock "streams" (by decide)
  have again := answering_word (run.append between) arrived.serving arrived.parked laterHere
    Control.clock "streams" (by decide)
  have room : q.daemon.server.counters.streams.entries.length = 3 := by
    rw [arrived.entries, kept', kept, joined.entries, came.entries]
    rfl
  obtain ⟨rows, order, laterRows, keep, fresh, text, laterText, -, -, held, laterHeld, sub, new, followed⟩ :=
    rows_followed run asked between again (by rw [room]; decide)
  refine ⟨_, _, p, q, _, rows, order, _, laterRows, keep, fresh, run, asked, between, again, ?_, text,
    laterText, fun c => ?_, fun c => ?_, sub, new, followed⟩
  · exact List.mem_append_left _ (List.mem_append_right _ (.head _))
  · rw [held, Server.proxied_eq (run_server run joined.serving) joined.parked, tasks]
    rcases c with _ | _ | c <;> simp [came.served.live, joined.served.live]
  · rw [laterHeld, Server.proxied_eq (run_server (run.append between) arrived.serving) arrived.parked,
      laterTasks]
    rcases c with _ | _ | _ | c <;> simp [gone, joined.served.live, arrived.served.live]

end Process

end Tord
