import Tord.Socks.Connections
import Tord.Socks.Turns

/-! The client and `handle` with bytes in flight. Each party takes or adds any fragment
at any time; a read or write of the handler is done when its last byte has moved, and
nothing fails but what the daemon asks of Tor. -/
namespace Tord.Socks

open Interaction Transition

variable {c : Client} {peer : SocketAddr}

structure Dialogue where
  rest : Prog Op.Res (Except Error Unit)
  trace : Trace
  /-- What the current read has got and the current write has put. -/
  got : List UInt8
  put : List UInt8
  /-- All that the client has sent and read. -/
  sent : List UInt8
  inbox : List UInt8
  toServer : List UInt8
  toClient : List UInt8

inductive Party where
  | client
  | server

namespace Dialogue

def start (peer : SocketAddr) : Dialogue := ⟨(handle peer).run, [], [], [], [], [], [], []⟩

inductive Step (c : Client) (d : Dialogue) : Party → Dialogue → Prop where
  | send (some : bytes ≠ []) (ready : d.sent ++ bytes <+: c.may d.inbox) :
      Step c d .client { d with sent := d.sent ++ bytes, toServer := d.toServer ++ bytes }
  | receive (some : bytes ≠ []) (front : d.toClient = bytes ++ more) :
      Step c d .client { d with inbox := d.inbox ++ bytes, toClient := more }
  | fill (some : bytes ≠ []) (reading : d.rest = .request (.readExact n) next)
      (front : d.toServer = bytes ++ more) (room : d.got.length + bytes.length ≤ n) :
      Step c d .server { d with got := d.got ++ bytes, toServer := more }
  | filled (reading : d.rest = .request (.readExact n) next) (full : d.got.length = n) :
      Step c d .server { d with
        rest := next (.ok ⟨d.got, full⟩)
        trace := d.trace ++ [⟨.readExact n, .ok ⟨d.got, full⟩⟩]
        got := [] }
  | flush (some : bytes ≠ []) (writing : d.rest = .request (.writeAll message) next)
      (part : d.put ++ bytes <+: message) :
      Step c d .server { d with put := d.put ++ bytes, toClient := d.toClient ++ bytes }
  | flushed (writing : d.rest = .request (.writeAll d.put) next) :
      Step c d .server { d with
        rest := next (.ok ())
        trace := d.trace ++ [⟨.writeAll d.put, .ok ()⟩]
        put := [] }
  | act (acting : d.rest = .request op next) (own : ¬ op.Talks) (before : op.isSplice = false)
      (reply : op.Res) :
      Step c d .server { d with rest := next reply, trace := d.trace ++ [⟨op, reply⟩] }

/-- The handler has returned, or goes on to the splice. -/
def Finished (d : Dialogue) : Prop :=
  (∃ result, d.rest = .pure result) ∨ ∃ entry next, d.rest = .request (.copyBidirectional entry) next

/-- The messages of the handler, with the one it is writing. -/
def messages (d : Dialogue) : List (List UInt8) :=
  writes d.trace ++ match d.rest with
    | .request (.writeAll message) _ => [message]
    | _ => []

def selection (d : Dialogue) : Option UInt8 := d.messages.head?.bind (·[1]?)

/-- The handler takes its turns, and has put the front of the message it is writing. -/
structure InTurn (c : Client) (rest : Prog Op.Res (Except Error Unit)) (h : Trace)
    (put : List UInt8) : Prop where
  turn : (turns c).Meets (fun _ _ => True) rest h
  writing : put ≠ [] → ∃ message next, rest = .request (.writeAll message) next ∧ put <+: message
  selects : ∀ first others, writes h = first :: others → first = [socks5, c.selected]
  asked : ∀ event ∈ h, event.1.isConnect → c.cmd = cmdConnect ∧ event.1 = c.call
  hears : c.Hears (said h ++ put)
  answered : ∀ code, said h ++ put = c.prelude ++ replyBytes code → (code = repSuccess ↔ Opened h)

structure Invariant (c : Client) (d : Dialogue) : Prop where
  inTurn : InTurn c d.rest d.trace d.put
  reading : d.got ≠ [] → ∃ n next, d.rest = .request (.readExact n) next ∧ d.got.length ≤ n
  sent : d.sent = received d.trace ++ d.got ++ d.toServer
  inbox : d.inbox ++ d.toClient = said d.trace ++ d.put
  ready : d.sent <+: c.may d.inbox

theorem prelude_ne_nil : c.prelude ≠ [] := by simp [Client.prelude]

namespace InTurn

theorem start (c : Client) (peer : SocketAddr) : InTurn c (handle peer).run [] [] where
  turn := turns_handle peer
  writing some := (some rfl).elim
  selects _ _ empty := (List.cons_ne_nil _ _ empty.symm).elim
  asked := List.forall_mem_nil _
  hears := ⟨0, List.nil_prefix⟩
  answered code same := by simp [said, writes, Client.prelude] at same

/-- What it puts of the message that is due. -/
theorem flush {earlier : List UInt8}
    (inTurn : InTurn c (.request (.writeAll message) next) h earlier)
    (part : front <+: message) : InTurn c (.request (.writeAll message) next) h front where
  turn := inTurn.turn
  writing _ := ⟨message, next, rfl, part⟩
  selects := inTurn.selects
  asked := inTurn.asked
  hears := by
    have due : Says c h message := inTurn.turn.1
    rcases due with ⟨first, rfl⟩ | ⟨userpass, second, rfl⟩ | ⟨code, last, rfl, -⟩
    · refine ⟨0, List.IsPrefix.trans ?_ (List.prefix_append c.prelude _)⟩
      rw [first]
      exact part.trans (List.prefix_append _ _)
    · refine ⟨0, List.IsPrefix.trans ?_ (List.prefix_append c.prelude _)⟩
      rw [second, Client.prelude, if_pos userpass]
      exact (List.prefix_append_right_inj _).mpr part
    · refine ⟨code, ?_⟩
      rw [last]
      exact (List.prefix_append_right_inj _).mpr part
  answered := by
    intro code same
    have due : Says c h message := inTurn.turn.1
    have size := congrArg List.length same
    have most := part.length_le
    rcases due with ⟨first, rfl⟩ | ⟨userpass, second, rfl⟩ | ⟨other, last, rfl, verdict⟩
    · simp [first, Client.prelude, replyBytes] at size most
      omega
    · simp [second, Client.prelude, replyBytes] at size most
      omega
    · rw [last, List.append_cancel_left_eq] at same
      obtain rfl : code = other := by
        have whole := part.eq_of_length (by simp [same, replyBytes])
        simpa [same, replyBytes] using whole
      exact verdict

theorem flushed {message : List UInt8}
    {next : Except IoError Unit → Prog Op.Res (Except Error Unit)}
    (inTurn : InTurn c (.request (.writeAll message) next) h message) :
    InTurn c (next (.ok ())) (h ++ [⟨.writeAll message, .ok ()⟩]) [] where
  turn := inTurn.turn.2 _ rfl
  writing some := (some rfl).elim
  selects := by
    have due : Says c h message := inTurn.turn.1
    intro first others same
    rw [writes_append] at same
    cases here : writes h with
    | nil =>
      rw [here] at same
      obtain rfl : message = first := (List.cons.inj same).1
      rcases due with ⟨-, rfl⟩ | ⟨-, second, -⟩ | ⟨_, last, -⟩
      · rfl
      · simp [said, here] at second
      · exact (prelude_ne_nil (by simpa [said, here] using last.symm)).elim
    | cons message rest =>
      simp only [here, List.cons_append, List.cons.injEq] at same
      exact same.1 ▸ inTurn.selects _ _ here
  asked := by
    simpa [or_imp, forall_and, Op.isConnect] using inTurn.asked
  hears := by simpa [said_snoc_write] using inTurn.hears
  answered := by
    intro code same
    rw [said_snoc_write, List.append_nil] at same
    simpa [Opened] using inTurn.answered code same

/-- Any other reply. -/
theorem act {op : Op} {next : op.Res → Prog Op.Res (Except Error Unit)} {reply : op.Res}
    (inTurn : InTurn c (.request op next) h []) (silent : attempted ⟨op, reply⟩ = none)
    (relied : (turns c).relies h op reply) : InTurn c (next reply) (h ++ [⟨op, reply⟩]) [] where
  turn := inTurn.turn.2 _ relied
  writing some := (some rfl).elim
  selects := by
    intro first others same
    apply inTurn.selects first others
    simpa [writes_append, writes, silent] using same
  asked := by
    intro event member called
    rcases List.mem_append.mp member with earlier | here
    · exact inTurn.asked event earlier called
    · obtain rfl := List.mem_singleton.mp here
      cases op with
      | connect host port isoUser => exact inTurn.turn.1.2
      | _ => cases called
  hears := by rw [said_snoc_silent silent]; exact inTurn.hears
  answered := by
    intro code same
    rw [said_snoc_silent silent] at same
    have verdict := inTurn.answered code same
    cases op with
    | connect host port isoUser =>
      -- no call of `connect` follows the reply
      have before : said h = c.prelude := inTurn.turn.1.1
      simp [before, replyBytes] at same
    | _ => simpa [Opened] using verdict

end InTurn

namespace Invariant

variable {d : Dialogue}

theorem put_nil (inv : Invariant c d) (acting : d.rest = .request op next)
    (other : ∀ message, op ≠ .writeAll message) : d.put = [] := by
  by_contra some
  obtain ⟨message, _, writing, -⟩ := inv.inTurn.writing some
  rw [acting] at writing
  cases writing
  exact other message rfl

theorem got_nil (inv : Invariant c d) (acting : d.rest = .request op next)
    (other : ∀ n, op ≠ .readExact n) : d.got = [] := by
  by_contra some
  obtain ⟨n, _, reading, -⟩ := inv.reading some
  rw [acting] at reading
  cases reading
  exact other n rfl

theorem start (c : Client) (peer : SocketAddr) : Invariant c (Dialogue.start peer) where
  inTurn := .start c peer
  reading some := (some rfl).elim
  sent := rfl
  inbox := rfl
  ready := List.nil_prefix

theorem send (inv : Invariant c d) (ready : d.sent ++ bytes <+: c.may d.inbox) :
    Invariant c { d with sent := d.sent ++ bytes, toServer := d.toServer ++ bytes } :=
  { inv with
    sent := by simp [inv.sent]
    ready := ready }

theorem receive (inv : Invariant c d) (front : d.toClient = bytes ++ more) :
    Invariant c { d with inbox := d.inbox ++ bytes, toClient := more } := by
  have whole : d.inbox ++ bytes ++ more = said d.trace ++ d.put := by
    rw [← inv.inbox, front, List.append_assoc]
  exact { inv with
    inbox := whole
    ready := inv.ready.trans (Client.may_mono (inv.inTurn.hears.earlier ⟨more, whole⟩)
      (List.prefix_append _ _)) }

theorem fill (inv : Invariant c d) (reading : d.rest = .request (.readExact n) next)
    (front : d.toServer = bytes ++ more) (room : d.got.length + bytes.length ≤ n) :
    Invariant c { d with got := d.got ++ bytes, toServer := more } :=
  { inv with
    reading := fun _ => ⟨n, next, reading, by simpa using room⟩
    sent := by rw [inv.sent, front]; simp }

theorem filled (inv : Invariant c d) (reading : d.rest = .request (.readExact n) next)
    (full : d.got.length = n) : Invariant c { d with
      rest := next (.ok ⟨d.got, full⟩)
      trace := d.trace ++ [⟨.readExact n, .ok ⟨d.got, full⟩⟩]
      got := [] } := by
  have quiet : d.put = [] := inv.put_nil reading nofun
  have inTurn := inv.inTurn
  rw [reading, quiet] at inTurn
  have within : received d.trace ++ d.got <+: c.script := by
    refine List.IsPrefix.trans ?_ (inv.ready.trans (Client.may_le_script (inv.inTurn.hears.earlier
      ⟨_, inv.inbox⟩)))
    rw [inv.sent]
    exact List.prefix_append _ _
  exact {
    inTurn := by simp only [quiet]; exact inTurn.act rfl ⟨_, rfl, within⟩
    reading := fun some => (some rfl).elim
    sent := by simp [inv.sent, received, readBytes]
    inbox := by rw [said_snoc_silent rfl]; exact inv.inbox
    ready := inv.ready }

theorem flush (inv : Invariant c d) (writing : d.rest = .request (.writeAll message) next)
    (part : d.put ++ bytes <+: message) :
    Invariant c { d with put := d.put ++ bytes, toClient := d.toClient ++ bytes } :=
  { inv with
    inTurn := by
      have inTurn := inv.inTurn
      rw [writing] at inTurn
      exact writing ▸ inTurn.flush part
    inbox := by rw [← List.append_assoc, ← List.append_assoc, inv.inbox] }

theorem flushed (inv : Invariant c d) (writing : d.rest = .request (.writeAll d.put) next) :
    Invariant c { d with
      rest := next (.ok ())
      trace := d.trace ++ [⟨.writeAll d.put, .ok ()⟩]
      put := [] } where
  inTurn := InTurn.flushed (writing ▸ inv.inTurn)
  reading some := (some (inv.got_nil writing nofun)).elim
  sent := by simpa [received, readBytes] using inv.sent
  inbox := by rw [said_snoc_write, List.append_nil]; exact inv.inbox
  ready := inv.ready

theorem act (inv : Invariant c d) (acting : d.rest = .request op next) (own : ¬ op.Talks)
    (reply : op.Res) :
    Invariant c { d with rest := next reply, trace := d.trace ++ [⟨op, reply⟩] } := by
  have unread (n : Nat) : op ≠ .readExact n := by rintro rfl; exact own trivial
  have silent (message : List UInt8) : op ≠ .writeAll message := by rintro rfl; exact own trivial
  have quiet : d.put = [] := inv.put_nil acting silent
  have inTurn := inv.inTurn
  rw [acting, quiet] at inTurn
  have nothing : attempted ⟨op, reply⟩ = none ∧ readBytes ⟨op, reply⟩ = [] ∧
      (turns c).relies d.trace op reply := by
    cases op with
    | readExact n => exact (unread n rfl).elim
    | writeAll message => exact (silent message rfl).elim
    | _ => exact ⟨rfl, rfl, trivial⟩
  exact {
    inTurn := by simp only [quiet]; exact inTurn.act nothing.1 nothing.2.2
    reading := fun some => (some (inv.got_nil acting unread)).elim
    sent := by simpa [received, nothing.2.1] using inv.sent
    inbox := by rw [said_snoc_silent nothing.1]; exact inv.inbox
    ready := inv.ready }

theorem step (inv : Invariant c d) (step : Step c d party next) : Invariant c next := by
  cases step with
  | send _ ready => exact inv.send ready
  | receive _ front => exact inv.receive front
  | fill _ reading front room => exact inv.fill reading front room
  | filled reading full => exact inv.filled reading full
  | flush _ writing part => exact inv.flush writing part
  | flushed writing => exact inv.flushed writing
  | act acting own _ reply => exact inv.act acting own reply

end Invariant

theorem run_invariant (run : Run (Step c) (start peer) moves d) : Invariant c d :=
  Run.invariant (fun _ d => Invariant c d) (Invariant.start c peer)
    (fun _ _ _ _ _ inv step => inv.step step) run

/-- A handler that waits for bytes gets them: from the channel, from the client, or from
the client once it has read what is on its way. -/
theorem progress_reading (inv : Invariant c d) (reading : d.rest = .request (.readExact n) next) :
    ∃ party after, Step c d party after := by
  by_cases full : d.got.length = n
  · exact ⟨_, _, .filled reading full⟩
  have room : d.got.length < n := by
    by_cases some : d.got = []
    · have : d.got.length = 0 := by simp [some]
      omega
    · obtain ⟨_, _, same, most⟩ := inv.reading some
      rw [reading] at same
      cases same
      omega
  match waiting : d.toServer with
  | byte :: more => exact ⟨_, _, .fill (List.cons_ne_nil byte []) reading waiting room⟩
  | [] =>
    match coming : d.toClient with
    | byte :: more => exact ⟨_, _, .receive (List.cons_ne_nil byte []) coming⟩
    | [] =>
      have heard : d.inbox = said d.trace := by
        have inbox := inv.inbox
        rwa [coming, List.append_nil, inv.put_nil reading nofun, List.append_nil] at inbox
      obtain ⟨more, whole⟩ := inv.ready
      have wait : (received d.trace).length + n ≤ (c.may (said d.trace)).length :=
        (reading ▸ inv.inTurn.turn).1
      have some : more ≠ [] := by
        rintro rfl
        rw [← heard, ← whole, inv.sent, waiting] at wait
        simp only [List.append_nil, List.length_append] at wait
        omega
      exact ⟨_, _, .send some (whole ▸ List.prefix_rfl)⟩

theorem progress_writing (inv : Invariant c d) (writing : d.rest = .request (.writeAll message) next) :
    ∃ party after, Step c d party after := by
  have part : d.put <+: message := by
    by_cases some : d.put = []
    · exact some ▸ List.nil_prefix
    · obtain ⟨_, _, same, part⟩ := inv.inTurn.writing some
      rw [writing] at same
      cases same
      exact part
  obtain ⟨more, whole⟩ := part
  match more with
  | [] =>
    obtain rfl : message = d.put := by simpa using whole.symm
    exact ⟨_, _, .flushed writing⟩
  | byte :: more => exact ⟨_, _, .flush (List.cons_ne_nil byte more) writing (whole ▸ List.prefix_rfl)⟩

theorem progress (inv : Invariant c d) : Finished d ∨ ∃ party after, Step c d party after := by
  cases here : d.rest with
  | pure result => exact .inl (.inl ⟨result, here⟩)
  | request op next =>
    cases op with
    | readExact n => exact .inr (progress_reading inv here)
    | writeAll message => exact .inr (progress_writing inv here)
    | copyBidirectional entry => exact .inl (.inr ⟨entry, next, here⟩)
    | fetchAdd counter n => exact .inr ⟨_, _, .act here id rfl ()⟩
    | register peer target isolation => exact .inr ⟨_, _, .act here id rfl ⟨0⟩⟩
    | connect host port isoUser => exact .inr ⟨_, _, .act here id rfl (.ok ())⟩
    | dropStream stream => exact .inr ⟨_, _, .act here id rfl ()⟩

/-- Both go by the method of the first message. -/
theorem agreement (inv : Invariant c d) (read : d.inbox = version :: method :: more) :
    version = socks5 ∧ method = c.selected ∧ d.selection = some method := by
  have heard : c.Hears (version :: method :: more) :=
    inv.inTurn.hears.earlier ⟨d.toClient, by rw [← read, inv.inbox]⟩
  obtain ⟨five, same⟩ := heard.selection
  refine ⟨five, same, ?_⟩
  have first : d.messages.head? = some [socks5, c.selected] := by
    cases spoken : writes d.trace with
    | cons message others => simp [messages, spoken, inv.inTurn.selects _ _ spoken]
    | nil =>
      have some : d.put ≠ [] := by
        intro nothing
        have inbox := inv.inbox
        simp [read, said, spoken, nothing] at inbox
      obtain ⟨message, next, writing, -⟩ := inv.inTurn.writing some
      have due : Says c d.trace message := (writing ▸ inv.inTurn.turn).1
      rcases due with ⟨-, rfl⟩ | ⟨-, second, -⟩ | ⟨_, last, -⟩
      · simp [messages, spoken, writing]
      · simp [said, spoken] at second
      · exact (prelude_ne_nil (by simpa [said, spoken] using last.symm)).elim
  simp [selection, first, same]

theorem opened_iff (inv : Invariant c d) : Opened d.trace ↔
    c.cmd = cmdConnect ∧ ⟨.connect c.address.host c.port c.user, .ok ()⟩ ∈ d.trace := by
  constructor
  · rintro ⟨host, port, isoUser, member⟩
    obtain ⟨command, call⟩ := inv.inTurn.asked _ member rfl
    obtain ⟨rfl, rfl, rfl⟩ := Op.connect.inj call
    exact ⟨command, member⟩
  · rintro ⟨-, member⟩
    exact ⟨_, _, _, member⟩

theorem verdict (inv : Invariant c d) (answered : Client.replyCode d.inbox = some code) :
    code = repSuccess ↔
      c.cmd = cmdConnect ∧ ⟨.connect c.address.host c.port c.user, .ok ()⟩ ∈ d.trace := by
  obtain ⟨other, within⟩ := inv.inTurn.hears
  have earlier : d.inbox <+: said d.trace ++ d.put := ⟨d.toClient, inv.inbox⟩
  obtain ⟨rfl, whole⟩ := Client.replyCode_eq_some (earlier.trans within) answered
  have spoken : said d.trace ++ d.put = c.prelude ++ replyBytes code :=
    within.eq_of_length_le (whole ▸ earlier.length_le)
  exact (inv.inTurn.answered code spoken).trans (opened_iff inv)

/-- Deadlock-freedom and agreement, for every client and every interleaving. -/
theorem handshake_agrees (run : Run (Step c) (start peer) moves d) :
    (Finished d ∨ ∃ party after, Step c d party after) ∧
    (∀ n next, d.rest = .request (.readExact n) next →
      (received d.trace).length + n ≤ (c.may (said d.trace)).length) ∧
    (∀ version method more, d.inbox = version :: method :: more →
      version = socks5 ∧ method = c.selected ∧ d.selection = some method) ∧
    ∀ code, Client.replyCode d.inbox = some code → (code = repSuccess ↔
      c.cmd = cmdConnect ∧ ⟨.connect c.address.host c.port c.user, .ok ()⟩ ∈ d.trace) := by
  have inv := run_invariant run
  exact ⟨progress inv, fun _ _ reading => (reading ▸ inv.inTurn.turn).1,
    fun _ _ _ read => agreement inv read, fun _ answered => verdict inv answered⟩

/-- Nothing fails on the client's stream, and there is no splice yet. -/
inductive Smooth : Event Op.Res → Prop where
  | read (filled : Buffer n) : Smooth ⟨.readExact n, .ok filled⟩
  | write (message : List UInt8) : Smooth ⟨.writeAll message, .ok ()⟩
  | act (own : ¬ op.Talks) (before : op.isSplice = false) (reply : op.Res) : Smooth ⟨op, reply⟩

section Exchanges

variable {p q : Prog Op.Res (Except Error Unit)} {fore : Trace} {all read more out : List UInt8}

theorem dialogue_of_exchange (first : Exchange p event q) (smooth : Smooth event) :
    ∃ moves, Run (Step c) ⟨p, fore, [], [], all, read, readBytes event ++ more, out⟩ moves
      ⟨q, fore ++ [event], [], [], all, read, more, out ++ said [event]⟩ := by
  cases first with
  | @reply op next reply =>
  cases smooth with
  | read filled =>
    obtain ⟨bytes, full⟩ := filled
    have whole : Step c ⟨.request (.readExact _) next, fore, bytes, [], all, read, more, out⟩ .server
        ⟨next (.ok ⟨bytes, full⟩), fore ++ [⟨.readExact _, .ok ⟨bytes, full⟩⟩], [], [], all, read,
          more, out⟩ := .filled rfl full
    rw [show said [⟨.readExact _, .ok ⟨bytes, full⟩⟩] = [] from rfl, List.append_nil]
    by_cases none : bytes = []
    · subst none
      exact ⟨_, .single whole⟩
    · exact ⟨_, .cons (.fill none rfl rfl (by simp [full])) (.single whole)⟩
  | write message =>
    have whole : Step c ⟨.request (.writeAll message) next, fore, [], message, all, read, more,
          out ++ message⟩ .server
        ⟨next (.ok ()), fore ++ [⟨.writeAll message, .ok ()⟩], [], [], all, read, more,
          out ++ message⟩ := .flushed rfl
    rw [show said [⟨.writeAll message, .ok ()⟩] = message from List.append_nil _]
    by_cases none : message = []
    · subst none
      exact ⟨_, by simpa [readBytes] using Run.single whole⟩
    · exact ⟨_, .cons (.flush none rfl List.prefix_rfl) (.single whole)⟩
  | act own before reply =>
    have now : Step c ⟨.request op next, fore, [], [], all, read, more, out⟩ .server
        ⟨next reply, fore ++ [⟨op, reply⟩], [], [], all, read, more, out⟩ :=
      .act rfl own before reply
    have quiet : readBytes ⟨op, reply⟩ = [] ∧ said [⟨op, reply⟩] = [] := by
      cases op with
      | readExact n => exact (own trivial).elim
      | writeAll message => exact (own trivial).elim
      | _ => exact ⟨rfl, rfl⟩
    rw [quiet.1, quiet.2, List.append_nil]
    exact ⟨_, .single now⟩

theorem said_append (h k : Trace) : said (h ++ k) = said h ++ said k := by
  simp [said, writes]

/-- Whatever the handler can do without a failure it does in some dialogue, if the bytes
it reads are there. -/
theorem dialogue_of_path (path : Path p h q) (smooth : ∀ event ∈ h, Smooth event) :
    ∃ moves, Run (Step c) ⟨p, fore, [], [], all, read, received h ++ more, out⟩ moves
      ⟨q, fore ++ h, [], [], all, read, more, out ++ said h⟩ := by
  induction path generalizing fore out with
  | nil => exact ⟨[], by simpa [received, said, writes] using Run.nil⟩
  | @cons _ event _ h _ first _ ih =>
    obtain ⟨now, front⟩ := @dialogue_of_exchange c _ _ fore all read (received h ++ more) out event first
      (smooth _ (.head _))
    obtain ⟨later, back⟩ := @ih (fore ++ [event]) (out ++ said [event])
      fun other member => smooth other (.tail _ member)
    refine ⟨now ++ later, ?_⟩
    have whole := front.append back
    rwa [List.append_assoc, List.append_assoc out, ← said_append, ← List.append_assoc] at whole

end Exchanges

def eager : Client where
  methods := [methodNoauth]
  methods_len := by decide
  credentials := ⟨"", [], by decide, by decide⟩
  cmd := cmdConnect
  rsv := 0
  address := .ipv4 ⟨⟨[1, 1, 1, 1], rfl⟩⟩
  port := 80
  authAhead := false
  requestAhead := true

def admitted (peer : SocketAddr) : Trace := knock ++ [⟨.register peer "1.1.1.1:80" none, ⟨0⟩⟩,
  ⟨.connect "1.1.1.1" 80 none, .ok ()⟩, ⟨.writeAll (replyBytes repSuccess), .ok ()⟩]

theorem path_admitted (peer : SocketAddr) : ∃ q, Path (handle peer).run (admitted peer) q :=
  ⟨_, (path_knock peer).append (.cons .reply (.cons .reply (.cons .reply .nil)))⟩

theorem smooth_admitted (peer : SocketAddr) : ∀ event ∈ admitted peer, Smooth event := by
  simp only [admitted, knock, List.cons_append, List.nil_append, List.forall_mem_cons]
  exact ⟨.read _, .read _, .write _, .read _, .read _, .read _, .act id rfl _, .act id rfl _,
    .act id rfl _, .write _, List.forall_mem_nil _⟩

/-- It reads that its stream is open. -/
theorem handshake_agrees_ahead : ∃ moves d,
    Run (Step eager) (start (.v4 ⟨⟨[10, 0, 0, 2], rfl⟩⟩ 4000)) moves d ∧
    Client.replyCode d.inbox = some repSuccess ∧ d.selection = some methodNoauth ∧
    ⟨.connect "1.1.1.1" 80 none, .ok ()⟩ ∈ d.trace := by
  have first : Step eager (start (.v4 ⟨⟨[10, 0, 0, 2], rfl⟩⟩ 4000)) .client _ :=
    .send (List.cons_ne_nil _ _) (List.prefix_rfl : eager.may [] <+: eager.may [])
  obtain ⟨q, path⟩ := path_admitted (.v4 ⟨⟨[10, 0, 0, 2], rfl⟩⟩ 4000)
  obtain ⟨moves, exchanges⟩ := @dialogue_of_path eager _ _ [] (eager.may []) [] [] [] _ path
    (smooth_admitted _)
  have read := exchanges.snoc (.receive (List.cons_ne_nil _ _)
    (List.append_nil [5, 0, 5, 0, 0, 1, 0, 0, 0, 0, 0, 0]).symm)
  have run : Run (Step eager) (start (.v4 ⟨⟨[10, 0, 0, 2], rfl⟩⟩ 4000)) _ _ := .cons first read
  obtain ⟨-, -, agreement, verdict⟩ := handshake_agrees run
  exact ⟨_, _, run, rfl, (agreement _ _ _ rfl).2.2, ((verdict repSuccess rfl).mp rfl).2⟩

end Dialogue

end Tord.Socks
