import Tord.Socks.Rows
import Tord.Socks.Whole

/-! The books of one handler where it waits: what it has added to the connect counters and
which row it holds, against what its client sent and what became of the request. A task
runs until it waits, so nothing else of the daemon ever sees it elsewhere. -/
namespace Tord.Socks

open Interaction Transition

variable {α β : Type}

def Op.awaits : Op → Bool
  | .readExact _ | .writeAll _ | .connect _ _ _ | .copyBidirectional _ => true
  | _ => false

/-- At an await, or at its end. -/
def Waits (p : Prog Op.Res (Except Error Unit)) : Prop :=
  ∀ op next, p = .request op next → op.awaits

def added (counter : Counter) : Event Op.Res → UInt64
  | ⟨.fetchAdd other n, _⟩ => if other = counter then n else 0
  | _ => 0

def tally (counter : Counter) (h : Trace) : UInt64 := (h.map (added counter)).sum

def denied (h : Trace) : Bool := h.any fun
  | ⟨.connect _ _ _, .error _⟩ => true
  | _ => false

def served (h : Trace) : Bool := h.any fun
  | ⟨.writeAll bytes, .ok _⟩ => bytes = replyBytes repSuccess
  | _ => false

def Counts (p : Prop) (n : UInt64) : Prop := (p → n = 1) ∧ (¬ p → n = 0)

theorem Counts.one (holds : p) : Counts p 1 := ⟨fun _ => rfl, fun fails => absurd holds fails⟩

theorem Counts.zero (fails : ¬ p) : Counts p 0 := ⟨fun holds => absurd holds fails, fun _ => rfl⟩

def Handshake.target (hs : Handshake) : String := s!"{hs.request.address.host}:{hs.request.port}"

/-- The row of a request, registered under what its client asked for. -/
def RowOf (peer : SocketAddr) (target : String) (isoUser : Option String) (h : Trace) : Prop :=
  ∃ stream, (holding h).stream = some stream ∧ ⟨.register peer target isoUser, stream⟩ ∈ h

structure Ledger (peer : SocketAddr) (h : Trace) : Prop where
  total : Counts (Understands h) (tally .connectsTotal h)
  failed : Counts (denied h) (tally .connectsFailed h)
  ok : Counts (served h) (tally .connectsOk h)
  row : ∀ hs : Handshake, received h = hs.bytes → RowOf peer hs.target hs.negotiation.user h
  unregistered : ¬ Understands h → holding h = .unregistered

@[simp] theorem tally_append (counter : Counter) (h k : Trace) :
    tally counter (h ++ k) = tally counter h + tally counter k := by
  simp [tally, List.sum_append]

/-- What is asked for up to the request: reads, and messages other than a success. -/
def Op.Declines : Op → Prop
  | .readExact _ => True
  | .writeAll bytes => bytes ≠ replyBytes repSuccess
  | _ => False

theorem declines_decode : Asks Op.Declines decode := by
  have reads (n : Nat) : Op.Declines (.readExact n) := trivial
  refine .bind (asks_negotiate reads ?_) fun _ => .bind ?_ fun _ => .pure _
  · rintro bytes two rfl
    cases two
  · refine .bind (.context _ (.readExact 4 (reads _))) fun _ => .bind (.ensure _ _) fun _ => ?_
    refine .ite (.tryCatch (asks_readTarget reads _) fun _ => ?_) ?_
    · exact .bind (.writeAll _ (by simp +decide [Op.Declines])) fun _ => .throw _
    · exact .bind (.writeAll _ (by simp +decide [Op.Declines])) fun _ => .throw _

structure Blank (h : Trace) : Prop where
  tally : ∀ counter, tally counter h = 0
  denied : denied h = false
  served : served h = false
  holding : holding h = .unregistered

theorem blank_of_declines {h : Trace} (declines : ∀ event ∈ h, event.1.Declines) : Blank h := by
  induction h using List.reverseRecOn with
  | nil => exact ⟨fun _ => rfl, rfl, rfl, rfl⟩
  | append_singleton h event ih =>
    obtain ⟨earlier, last⟩ := List.forall_mem_append.mp declines
    obtain ⟨tallied, denied, served, holding⟩ := ih earlier
    obtain ⟨op, reply⟩ := event
    have last := last _ (List.mem_singleton_self _)
    cases op with
    | readExact n =>
      refine ⟨fun counter => ?_, ?_, ?_, ?_⟩
      · rw [tally_append, tallied]
        rfl
      · simpa [Socks.denied] using denied
      · simpa [Socks.served] using served
      · rw [holding_snoc, holding]
        rfl
    | writeAll bytes =>
      have other : bytes ≠ replyBytes repSuccess := last
      refine ⟨fun counter => ?_, ?_, ?_, ?_⟩
      · rw [tally_append, tallied]
        rfl
      · simpa [Socks.denied] using denied
      · cases reply <;> simpa [Socks.served, other] using served
      · rw [holding_snoc, holding]
        rfl
    | _ => exact last.elim

theorem Blank.ledger (blank : Blank h) (unknown : ¬ Understands h) (peer : SocketAddr) :
    Ledger peer h where
  total := ⟨fun known => absurd known unknown, fun _ => blank.tally _⟩
  failed := ⟨by simp [blank.denied], fun _ => blank.tally _⟩
  ok := ⟨by simp [blank.served], fun _ => blank.tally _⟩
  row hs bytes := absurd ⟨hs, bytes⟩ unknown
  unregistered _ := blank.holding

/-- The books of what follows the request. -/
structure Entered (peer : SocketAddr) (target : String) (isoUser : Option String) (h : Trace) :
    Prop where
  unread : received h = []
  total : tally .connectsTotal h = 1
  failed : Counts (denied h) (tally .connectsFailed h)
  ok : Counts (served h) (tally .connectsOk h)
  row : RowOf peer target isoUser h

/-- Entered wherever the handler waits, and there it still has its row. -/
abbrev bookkeeping (peer : SocketAddr) (target : String) (isoUser : Option String) :
    Contract Op.Res Trace :=
  .onHistory fun h op => op.awaits → Entered peer target isoUser h ∧ (holding h).live.isSome

theorem bookkeeping_serve (peer : SocketAddr) (target host : String) (port : UInt16)
    (isoUser : Option String) :
    (bookkeeping peer target isoUser).Meets (fun _ h => Entered peer target isoUser h)
      (do fetchAdd .connectsTotal
          withStream peer target isoUser (proxy host port isoUser) : Handler Unit).run [] := by
  have row (first : Event Op.Res) (stream : StreamHandle) (later : Trace)
      (held : (holding (first :: ⟨.register peer target isoUser, stream⟩ :: later)).stream =
        some stream) :
      RowOf peer target isoUser (first :: ⟨.register peer target isoUser, stream⟩ :: later) :=
    ⟨stream, held, .tail _ (.head _)⟩
  refine ⟨nofun, fun _ _ => ⟨nofun, fun stream _ => ⟨fun _ => ?_, fun opened _ => ?_⟩⟩⟩
  · exact ⟨⟨rfl, rfl, .zero nofun, .zero nofun, row _ stream _ rfl⟩, rfl⟩
  cases opened with
  | error e =>
    refine ⟨nofun, fun _ _ => ⟨fun _ => ?_, fun reply _ => ?_⟩⟩
    · exact ⟨⟨rfl, rfl, .one rfl, .zero nofun, row _ stream _ rfl⟩, rfl⟩
    · cases reply <;> refine ⟨nofun, fun _ _ => ?_⟩
      · exact ⟨rfl, rfl, .one rfl, .zero nofun, row _ stream _ rfl⟩
      · exact ⟨rfl, rfl, .one rfl, .zero nofun, row _ stream _ rfl⟩
  | ok opened =>
    refine ⟨fun _ => ?_, fun reply _ => ?_⟩
    · exact ⟨⟨rfl, rfl, .zero nofun, .zero nofun, row _ stream _ rfl⟩, rfl⟩
    cases reply with
    | error e =>
      refine ⟨nofun, fun _ _ => ?_⟩
      exact ⟨rfl, rfl, .zero nofun, .zero nofun, row _ stream _ rfl⟩
    | ok _ =>
      refine ⟨nofun, fun _ _ => ⟨fun _ => ?_, fun copied _ => ?_⟩⟩
      · exact ⟨⟨rfl, rfl, .zero nofun, .one rfl, row _ stream _ rfl⟩, rfl⟩
      cases copied <;> refine ⟨nofun, fun _ _ => ?_⟩
      · exact ⟨rfl, rfl, .zero nofun, .one rfl, row _ stream _ rfl⟩
      · exact ⟨rfl, rfl, .zero nofun, .one rfl, row _ stream _ rfl⟩

theorem Blank.holding_append (blank : Blank front) (back : Trace) :
    Socks.holding (front ++ back) = Socks.holding back := by
  have from_front : Socks.holding (front ++ back) =
      back.foldl (fun hold event => hold.after event.1 event.2) (Socks.holding front) :=
    List.foldl_append
  rw [from_front, blank.holding]
  rfl

theorem target_of_call {first second : Handshake} (same : first.call = second.call) :
    first.target = second.target ∧ first.negotiation.user = second.negotiation.user := by
  obtain ⟨host, port, user⟩ := Op.connect.inj same
  rw [Handshake.target, Handshake.target, host, port]
  exact ⟨rfl, user⟩

theorem Entered.ledger {hs : Handshake} (blank : Blank front) (bytes : received front = hs.bytes)
    (entered : Entered peer hs.target hs.negotiation.user back) : Ledger peer (front ++ back) := by
  have whole : received (front ++ back) = hs.bytes := by
    rw [received_append, entered.unread, List.append_nil, bytes]
  refine ⟨?_, ?_, ?_, ?_, ?_⟩
  · rw [tally_append, blank.tally, entered.total]
    exact .one ⟨hs, whole⟩
  · have same : denied (front ++ back) = (denied front || denied back) := List.any_append
    rw [tally_append, blank.tally, same, blank.denied, UInt64.zero_add, Bool.false_or]
    exact entered.failed
  · have same : served (front ++ back) = (served front || served back) := List.any_append
    rw [tally_append, blank.tally, same, blank.served, UInt64.zero_add, Bool.false_or]
    exact entered.ok
  · intro other same
    obtain ⟨-, call, -⟩ := handshake_prefix_free (congrArg (· ++ []) (whole.symm.trans same))
    obtain ⟨target, user⟩ := target_of_call call
    obtain ⟨stream, held, registered⟩ := entered.row
    rw [← target, ← user]
    exact ⟨stream, by rwa [blank.holding_append], List.mem_append_right _ registered⟩
  · exact fun unknown => (unknown ⟨hs, whole⟩).elim

/-- The books are right wherever a handler waits or has returned, and one that has the
whole handshake waits with its row. -/
theorem ledger_of_path (path : Path (handle peer).run h p) (waits : Waits p) :
    Ledger peer h ∧
      ∀ op next, p = .request op next → Understands h → (holding h).live.isSome := by
  have unread (blank : Blank h) (unknown : ¬ Understands h) : Ledger peer h ∧
      ∀ op next, p = .request op next → Understands h → (holding h).live.isSome :=
    ⟨blank.ledger unknown peer, fun _ _ _ known => (unknown known).elim⟩
  rw [handle_eq, ExceptT.run_bind] at path
  rcases path.bind_cases with ⟨op, next, before, rfl⟩ | ⟨front, back, result, rfl, before, after⟩
  · refine unread (blank_of_declines (Prog.Uses.path declines_decode before)) fun known => ?_
    obtain ⟨_, same⟩ := (decoded_iff before).mpr known
    cases same
  have blank := blank_of_declines (Prog.Uses.path declines_decode before)
  cases result with
  | error e =>
    obtain ⟨rfl, rfl⟩ := Path.pure_inv after
    rw [List.append_nil] at unread
    rw [List.append_nil]
    refine unread blank fun known => ?_
    obtain ⟨_, same⟩ := (decoded_iff before).mpr known
    cases same
  | ok value =>
    obtain ⟨isoUser, host, port⟩ := value
    obtain ⟨hs, bytes, call⟩ := handshake_of_decode before
    obtain ⟨rfl, rfl, rfl⟩ := Op.connect.inj call
    have meets := (bookkeeping_serve peer hs.target _ _ _).at_path after
    cases p with
    | pure result => exact ⟨Entered.ledger blank bytes meets, fun _ _ same => by cases same⟩
    | request op next =>
      obtain ⟨entered, held⟩ := meets.1 (waits op next rfl)
      refine ⟨Entered.ledger blank bytes entered, fun _ _ _ _ => ?_⟩
      rwa [blank.holding_append]

theorem free_of_talks {h : Trace} (talks : ∀ event ∈ h, event.1.Talks) : Server.Free h := by
  intro event member
  obtain ⟨op, reply⟩ := event
  have talk := talks _ member
  cases op <;> first | exact talk.elim | trivial

def Leaves (entry : Arc) (next : (Op.copyBidirectional entry).Res → Prog Op.Res (Except Error Unit)) :
    Prop :=
  ∀ copied, ∃ result, next copied = .request (.dropStream ⟨entry⟩) fun _ => .pure result

/-- A handler whose client sends this handshake, and whose circuit is opened, comes to the
splice. -/
theorem path_served (peer : SocketAddr) (hs : Handshake) :
    ∃ front, Server.Free front ∧ received front = hs.bytes ∧ ∀ stream, ∃ next,
      Path (handle peer).run (front ++ ⟨.register peer hs.target hs.negotiation.user, stream⟩ ::
        ⟨.connect hs.request.address.host hs.request.port hs.negotiation.user, .ok ()⟩ ::
        [⟨.writeAll (replyBytes repSuccess), .ok ()⟩, ⟨.fetchAdd .connectsOk 1, ()⟩])
        (.request (.copyBidirectional stream.entry) next) ∧ Leaves stream.entry next := by
  obtain ⟨h, path, bytes⟩ := path_decode hs
  have talks := Prog.Uses.path talks_decode path
  refine ⟨h ++ [⟨.fetchAdd .connectsTotal 1, ()⟩], ?_, ?_, fun stream => ?_⟩
  · simpa [Server.Free, or_imp, forall_and] using free_of_talks talks
  · rw [received_append, bytes]
    exact List.append_nil _
  obtain ⟨next, rest, leaves⟩ : ∃ next, Path (fetchAdd .connectsTotal >>= fun _ =>
        withStream peer hs.target hs.negotiation.user
          (proxy hs.request.address.host hs.request.port hs.negotiation.user)).run
      (⟨.fetchAdd .connectsTotal 1, ()⟩ :: ⟨.register peer hs.target hs.negotiation.user, stream⟩ ::
        ⟨.connect hs.request.address.host hs.request.port hs.negotiation.user, .ok ()⟩ ::
        [⟨.writeAll (replyBytes repSuccess), .ok ()⟩, ⟨.fetchAdd .connectsOk 1, ()⟩])
      (.request (.copyBidirectional stream.entry) next) ∧ Leaves stream.entry next := by
    refine ⟨_, .cons .reply (.cons .reply (.cons .reply (.cons .reply (.cons .reply .nil)))), ?_⟩
    rintro (_ | _) <;> exact ⟨_, rfl⟩
  refine ⟨next, ?_, leaves⟩
  rw [handle_eq, ExceptT.run_bind, List.append_assoc]
  exact (path.bind _).append rest

theorem length_serveAll {h : Trace} (free : Server.Free h) (s : Counters) :
    (Server.serveAll s h).streams.entries.length = s.streams.entries.length := by
  induction h generalizing s with
  | nil => rfl
  | cons event h ih =>
    obtain ⟨first, rest⟩ := List.forall_mem_cons.mp free
    obtain ⟨op, reply⟩ := event
    apply (ih rest (s.serve 0 op)).trans
    cases op <;> first | rfl | exact first.elim | simp [Counters.serve]

theorem selected_noauth : if methodUserpass ∈ [methodNoauth] then (none : Option Credentials).isSome
    else methodNoauth ∈ [methodNoauth] ∧ (none : Option Credentials) = none := by decide

/-- The handshake of `knock`. -/
def knocking : Handshake :=
  ⟨⟨[methodNoauth], none, Nat.le_of_ble_eq_true rfl, selected_noauth⟩,
    ⟨0, .ipv4 ⟨.of [1, 1, 1, 1]⟩, 80⟩⟩

/-- A client at its splice: it sent this handshake, its circuit was opened, it was told, and
its row is this one. -/
structure Served (peer : SocketAddr) (hs : Handshake) (entry : Arc) (task : Task τ) : Prop where
  peer : task.peer = peer
  heard : received task.trace = hs.bytes
  opened : ⟨hs.call, .ok ()⟩ ∈ task.trace
  told : served task.trace
  held : holding task.trace = .held ⟨entry⟩
  splices : ∃ next, task.rest = some (.request (.copyBidirectional entry) next) ∧ Leaves entry next

theorem Served.live {peer : SocketAddr} {task : Task τ} (served : Served peer hs entry task) :
    task.live = some ⟨entry⟩ := by
  obtain ⟨next, splices, -⟩ := served.splices
  rw [Server.live_pending splices, served.held]
  rfl

/-- One more client, that sends this handshake and comes to its splice. -/
theorem Server.run_served (s : Server τ) (issue : Nat → τ) (peer : SocketAddr) (hs : Handshake) :
    ∃ front back counters task, Run (Step issue) s
        (.accept peer :: (exchanges s.tasks.length front ++
          .isolate s.tasks.length hs.negotiation.user (s.tor.isolationToken issue hs.negotiation.user).1 ::
          exchanges s.tasks.length back))
        ⟨counters, (s.tor.isolationToken issue hs.negotiation.user).2, s.tasks ++ [task]⟩ ∧
      counters.streams.entries.length = s.counters.streams.entries.length + 1 ∧
      Served peer hs s.counters.streams.entries.length task := by
  obtain ⟨front, free, bytes, routes⟩ := path_served peer hs
  have handle : ((serveAll s.counters front).streams.register peer hs.target hs.negotiation.user 0).1 =
      ⟨s.counters.streams.entries.length⟩ := by
    rw [← length_serveAll free s.counters]
    rfl
  obtain ⟨next, route, leaves⟩ := routes ⟨s.counters.streams.entries.length⟩
  let before : Trace := front ++ [⟨.register peer hs.target hs.negotiation.user,
    (⟨s.counters.streams.entries.length⟩ : StreamHandle)⟩]
  let after : Trace :=
    [⟨hs.call, .ok ()⟩, ⟨.writeAll (replyBytes repSuccess), .ok ()⟩, ⟨.fetchAdd .connectsOk 1, ()⟩]
  have run : Run (Step issue) s _ _ := run_connection route free (by simp [Free]) handle.symm
  have labels (c : Nat) : exchanges c before = exchanges (τ := τ) c front ++ [.exchange c _ _] :=
    List.map_append
  refine ⟨before, after, ?_, ⟨peer, ?_, before ++ after, ?_⟩, ?run, ?size, rfl, ?heard, ?opened, ?told,
    ?held, next, ?rest, leaves⟩
  case run =>
    rw [labels, List.append_assoc, List.append_assoc]
    exact run
  case rest => rfl
  case size =>
    apply (length_serveAll (by simp [Free]) _).trans
    simp [Counters.serve, StreamRegistry.register, length_serveAll free]
  case heard =>
    rw [List.append_assoc, received_append, bytes]
    exact List.append_nil _
  case opened => simp [after]
  case told => simp [after, Socks.served]
  case held => simp [before, after, holding, Hold.after, Handshake.call]

end Tord.Socks
