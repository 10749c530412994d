import Tord.Socks.Causes

/-! Which code a request is answered with. The contract goes along with what the client
has sent and whether its stream was opened, and demands of a reply the one code that
fits; what the codes should say is stated apart from it. -/
namespace Tord.Socks

open Interaction Text

variable {cmd atyp : UInt8} {rest : List UInt8}

/-- The reads are answered from what the client sends, which is `s` and nothing after it. -/
def Fed : List UInt8 → Trace → Prop
  | _, [] => True
  | s, ⟨.readExact n, reply⟩ :: h =>
    answerBytes ⟨0⟩ (.readExact n) s = some (reply, s.drop n) ∧ Fed (s.drop n) h
  | s, _ :: h => Fed s h

/-- The bytes begin with an address of this type and a port. -/
def Targeted (atyp : UInt8) (rest : List UInt8) : Prop :=
  ∃ (address : Address) (port : UInt16), address.atyp = atyp ∧ address.bytes ++ beBytes port <+: rest

/-- The code says what became of the request. -/
structure Truthful (cmd atyp : UInt8) (h : Trace) (rep : UInt8) : Prop where
  command : rep = repCmdNotSupported ↔ cmd ≠ cmdConnect
  addressType : rep = repAtypNotSupported ↔ cmd = cmdConnect ∧ ¬ Supported atyp
  success : rep = repSuccess ↔ Opened h
  otherwise : rep = repGeneralFailure ↔ cmd = cmdConnect ∧ Supported atyp ∧ ¬ Opened h

inductive Coded (cmd atyp : UInt8) (rest : List UInt8) : Bool → UInt8 → Prop where
  | command (other : cmd ≠ cmdConnect) : Coded cmd atyp rest false repCmdNotSupported
  | target (connect : cmd = cmdConnect) (unreadable : ¬ Targeted atyp rest) :
      Coded cmd atyp rest false repAtypNotSupported
  | opened (connect : cmd = cmdConnect) (target : Targeted atyp rest) :
      Coded cmd atyp rest true repSuccess
  | refused (connect : cmd = cmdConnect) (target : Targeted atyp rest) :
      Coded cmd atyp rest false repGeneralFailure

structure Progress where
  left : List UInt8
  opened : Bool

def Progress.after (s : Progress) : (op : Op) → op.Res → Progress
  | .readExact n, _ => { s with left := s.left.drop n }
  | .connect _ _ _, .ok () => { s with opened := true }
  | _, _ => s

def coding (cmd atyp : UInt8) (rest : List UInt8) : Contract Op.Res Progress where
  relies s
    | .readExact n, reply => answerBytes ⟨0⟩ (.readExact n) s.left = some (reply, s.left.drop n)
    | .writeAll _, reply => reply = .ok ()
    | _, _ => True
  demands s
    | .writeAll bytes => ∀ rep, bytes = replyBytes rep → Coded cmd atyp rest s.opened rep
    | _ => True
  after := Progress.after

def Op.Small : Op → Prop
  | .readExact _ => True
  | .writeAll bytes => bytes.length = 2
  | _ => False

/-- A program that reads and sends no reply does what it does on the bytes that are left. -/
theorem meets_run {p : Prog Op.Res β} (small : p.Uses Op.Small)
    (run : p.run (answerBytes ⟨0⟩) s.left = (.inl result, left)) :
    (coding cmd atyp rest).Meets (fun value t => value = result ∧ t = { s with left }) p s := by
  induction p generalizing s with
  | pure value =>
    obtain ⟨same, rfl⟩ := Prod.mk.inj run
    exact ⟨Sum.inl.inj same, rfl⟩
  | request op next ih =>
    obtain ⟨isSmall, later⟩ := small
    cases op with
    | readExact n =>
      refine ⟨trivial, fun reply answered => ?_⟩
      have answered : answerBytes ⟨0⟩ (.readExact n) s.left = some (reply, s.left.drop n) := answered
      rw [Prog.run, answered] at run
      exact @ih _ { s with left := s.left.drop n } (later _) run
    | writeAll bytes =>
      refine ⟨?_, ?_⟩
      · rintro rep rfl
        cases isSmall
      · rintro _ rfl
        exact ih _ (later _) run
    | _ => exact isSmall.elim

theorem coding_negotiate (n : Negotiation) (left : List UInt8) :
    (coding cmd atyp rest).Meets (fun value t => value = .ok n.user ∧ t = ⟨left, false⟩)
      negotiate.run ⟨n.bytes ++ left, false⟩ :=
  meets_run (asks_negotiate (fun _ => trivial) fun _ two => two)
    (Gives.of_parses parses_negotiate ⟨n, rfl, rfl⟩)

theorem coding_readTarget : (coding cmd atyp rest).Meets
    (fun value t => t.opened = false ∧ ((∃ target, value = .ok target) ↔ Targeted atyp rest))
    (readTarget atyp).run ⟨rest, false⟩ := by
  have parses : Parses ⟨0⟩ (readTarget atyp) _ := parses_readTarget atyp
  obtain ⟨result, returned⟩ := parses.returns rest
  have run : (readTarget atyp).run.run (answerBytes ⟨0⟩) rest = (.inl result, _) :=
    Prod.ext returned rfl
  apply (meets_run (asks_readTarget (fun _ => trivial) atyp) run).mono
  rintro _ _ ⟨rfl, rfl⟩
  refine ⟨rfl, ?_, ?_⟩
  · rintro ⟨target, rfl⟩
    obtain ⟨_, ⟨address, port, kind, rfl, -⟩, whole⟩ := (parses.accepts _ _ _).mp run
    exact ⟨address, port, kind, _, whole.symm⟩
  · rintro ⟨address, port, kind, later, rfl⟩
    have accepted := (parses.accepts _ _ later).mpr ⟨_, ⟨address, port, kind, rfl, rfl⟩, rfl⟩
    rw [run] at accepted
    exact ⟨_, Sum.inl.inj (Prod.mk.inj accepted).1⟩

theorem coding_sendReply (coded : Coded cmd atyp rest opened rep) (here : s.opened = opened) :
    (coding cmd atyp rest).Meets (fun _ _ => True) (sendReply rep).run s := by
  refine ⟨fun other same => ?_, fun _ _ => trivial⟩
  obtain rfl : rep = other := by simpa [replyBytes] using same
  rwa [here]

def Accepted (cmd atyp : UInt8) (rest : List UInt8) : Except Error (String × UInt16) → Progress → Prop
  | .ok _, s => cmd = cmdConnect ∧ Targeted atyp rest ∧ s.opened = false
  | .error _, _ => True

theorem coding_readRequest (rsv : UInt8) : (coding cmd atyp rest).Meets (Accepted cmd atyp rest)
    readRequest.run ⟨[socks5, cmd, rsv, atyp] ++ rest, false⟩ := by
  have head : (coding cmd atyp rest).Meets
      (fun value t => value = .ok ⟨[socks5, cmd, rsv, atyp], rfl⟩ ∧ t = ⟨rest, false⟩)
      (context "reading SOCKS request" (readExact 4)).run
      ⟨[socks5, cmd, rsv, atyp] ++ rest, false⟩ := by
    apply meets_run (Asks.context _ (.readExact 4 trivial))
    exact Gives.readContext _ ⟨[socks5, cmd, rsv, atyp], rfl⟩ rest
  apply head.andThen (fun _ _ _ => trivial)
  rintro _ _ ⟨same, rfl⟩
  cases same
  change (coding cmd atyp rest).Meets _ (if cmd = cmdConnect then _ else _ : Handler _).run _
  split
  · next connect =>
    rw [run_tryCatch, Contract.meets_bind]
    apply coding_readTarget.mono
    rintro result t ⟨unopened, reading⟩
    cases result with
    | ok target => exact ⟨connect, reading.mp ⟨target, rfl⟩, unopened⟩
    | error e =>
      have unreadable : ¬ Targeted atyp rest := fun target => by
        obtain ⟨_, ⟨⟩⟩ := reading.mpr target
      have sent := coding_sendReply (.target connect unreadable) unopened
      exact sent.andThen (fun _ _ _ => trivial) fun _ _ _ => trivial
  · next other =>
    have sent := @coding_sendReply cmd atyp rest _ _ ⟨rest, false⟩ (.command other) rfl
    exact sent.andThen (fun _ _ _ => trivial) fun _ _ _ => trivial

theorem coding_proxy (connect : cmd = cmdConnect) (target : Targeted atyp rest)
    (unopened : s.opened = false) : (coding cmd atyp rest).Meets (fun _ _ => True)
      (proxy host port isoUser stream).run s := by
  refine ⟨trivial, fun opened _ => ?_⟩
  cases opened with
  | ok opened =>
    have sent := coding_sendReply (s := { s with opened := true }) (.opened connect target) rfl
    refine sent.andThen (fun _ _ _ => trivial) fun _ _ _ => ⟨trivial, fun _ _ => ⟨trivial, ?_⟩⟩
    rintro (_ | _) _ <;> trivial
  | error e =>
    refine ⟨trivial, fun _ _ => ?_⟩
    have sent := coding_sendReply (.refused connect target) unopened
    exact sent.andThen (fun _ _ _ => trivial) fun _ _ _ => trivial

theorem coding_handle (peer : SocketAddr) (n : Negotiation) (rsv : UInt8) :
    (coding cmd atyp rest).Meets (fun _ _ => True) (handle peer).run
      ⟨n.bytes ++ ([socks5, cmd, rsv, atyp] ++ rest), false⟩ := by
  apply (coding_negotiate n _).andThen (fun _ _ _ => trivial)
  rintro _ _ ⟨-, rfl⟩
  apply (coding_readRequest rsv).andThen (fun _ _ _ => trivial)
  rintro ⟨host, port⟩ s ⟨connect, target, unopened⟩
  refine ⟨trivial, fun _ _ => meets_withStream trivial fun stream => ?_⟩
  exact (coding_proxy connect target unopened).mono fun _ _ _ => ⟨trivial, fun _ _ => trivial⟩

theorem relied_of_fed {s : Progress} (fed : Fed s.left h)
    (written : ∀ failure, .lost failure ∉ mishaps h) : (coding cmd atyp rest).Relied s h := by
  induction h generalizing s with
  | nil => trivial
  | cons event h ih =>
    have later : ∀ failure, .lost failure ∉ mishaps h := fun failure member => by
      obtain ⟨bytes, here⟩ := lost_mem.mp member
      exact written failure (lost_mem.mpr ⟨bytes, .tail _ here⟩)
    obtain ⟨op, reply⟩ := event
    cases op with
    | readExact n => exact ⟨fed.1, ih fed.2 later⟩
    | writeAll bytes =>
      cases reply with
      | ok _ => exact ⟨rfl, ih fed later⟩
      | error failure => exact (written failure (lost_mem.mpr ⟨bytes, .head _⟩)).elim
    | connect _ _ _ => cases reply <;> exact ⟨trivial, ih fed later⟩
    | _ => exact ⟨trivial, ih fed later⟩

theorem Progress.after_opened (s : Progress) (op : Op) (reply : op.Res) :
    (s.after op reply).opened = true ↔ s.opened = true ∨ Opened [⟨op, reply⟩] := by
  rw [opened_singleton]
  cases op with
  | connect host port isoUser =>
    cases reply with
    | ok opened => exact iff_of_true rfl (.inr ⟨host, port, isoUser, rfl⟩)
    | error e => simp [Progress.after]
  | _ =>
    refine (or_iff_left ?_).symm
    rintro ⟨_, _, _, same⟩
    cases same

theorem opened_observe (s : Progress) (h : Trace) :
    ((coding cmd atyp rest).observe s h).opened = true ↔ s.opened = true ∨ Opened h := by
  induction h generalizing s with
  | nil => simp [Opened]
  | cons event h ih =>
    have next : ((coding cmd atyp rest).after s event.1 event.2).opened = true ↔ _ :=
      s.after_opened event.1 event.2
    have first : Opened (event :: h) ↔ Opened [event] ∨ Opened h := @opened_append [event] h
    rw [Contract.observe_cons, ih, next, first, or_assoc]

/-- A reply is the one that the contract demands. -/
theorem coded (n : Negotiation) (rsv : UInt8)
    (path : Path (handle peer).run h (.request (.writeAll (replyBytes rep)) next))
    (fed : Fed (n.bytes ++ ([socks5, cmd, rsv, atyp] ++ rest)) h) :
    ∃ opened, Coded cmd atyp rest opened rep ∧ (opened = true ↔ Opened h) := by
  have written : ∀ failure, .lost failure ∉ mishaps h := by
    have unconditional := reporting.relied_of_unconditional (fun _ _ _ => trivial) [] h
    have demanded := ((decides_handle peer).path path unconditional).1
    rwa [reporting_observe, List.nil_append] at demanded
  have relied := @relied_of_fed cmd atyp rest h ⟨_, false⟩ fed written
  refine ⟨_, ((coding_handle peer n rsv).path path relied).1 rep rfl, ?_⟩
  simp [opened_observe]

theorem Targeted.supported (target : Targeted atyp rest) : Supported atyp := by
  obtain ⟨address, _, rfl, -⟩ := target
  cases address <;> simp [Supported, Address.atyp]

/-- Every reply says what became of the request exactly if the bytes behind a CONNECT
with a supported address type hold a target that can be read. -/
theorem reply_truthful_iff (n : Negotiation) (rsv : UInt8)
    (path : Path (handle peer).run h (.request (.writeAll (replyBytes rep)) next))
    (fed : Fed (n.bytes ++ ([socks5, cmd, rsv, atyp] ++ rest)) h) :
    Truthful cmd atyp h rep ↔ (cmd = cmdConnect → Supported atyp → Targeted atyp rest) := by
  obtain ⟨opened, coded, same⟩ := coded n rsv path fed
  have unopened (none : opened = false) : ¬ Opened h := by
    rw [← same, none]
    decide
  cases coded with
  | command other =>
    refine iff_of_true ?_ fun connect => (other connect).elim
    constructor <;> simp [other, unopened rfl] <;> decide
  | target connect unreadable =>
    constructor
    · rintro truthful - known
      exact ((truthful.addressType.mp rfl).2 known).elim
    · intro readable
      have unsupported : ¬ Supported atyp := fun known => unreadable (readable connect known)
      constructor <;> simp [connect, unsupported, unopened rfl] <;> decide
  | opened connect target =>
    have isOpen : Opened h := same.mp rfl
    refine iff_of_true ?_ fun _ _ => target
    constructor <;> simp [connect, target.supported, isOpen] <;> decide
  | refused connect target =>
    refine iff_of_true ?_ fun _ _ => target
    constructor <;> simp [connect, target.supported, unopened rfl] <;> decide

def refusedConnect : Trace :=
  [⟨.readExact 2, .ok (.of [5, 1])⟩, ⟨.readExact 1, .ok (.of [0])⟩, ⟨.writeAll [5, 0], .ok ()⟩,
    ⟨.readExact 4, .ok (.of [5, 1, 0, 1])⟩, ⟨.readExact 4, .ok (.of [1, 1, 1, 1])⟩,
    ⟨.readExact 2, .ok (.of [0, 80])⟩, ⟨.fetchAdd .connectsTotal 1, ()⟩,
    ⟨.register (.v4 ⟨.of [10, 0, 0, 2]⟩ 4000) "1.1.1.1:80" none, ⟨0⟩⟩,
    ⟨.connect "1.1.1.1" 80 none, .error (.msg "exit refused")⟩, ⟨.fetchAdd .connectsFailed 1, ()⟩]

theorem reply_truthful_iff_refused :
    Truthful cmdConnect atypIpv4 refusedConnect repGeneralFailure := by
  have path : Path (handle (.v4 ⟨⟨[10, 0, 0, 2], rfl⟩⟩ 4000)).run refusedConnect
      (.request (.writeAll (replyBytes repGeneralFailure)) _) :=
    .cons .reply (.cons .reply (.cons .reply (.cons .reply (.cons .reply (.cons .reply
      (.cons .reply (.cons .reply (.cons .reply (.cons .reply .nil)))))))))
  have target : Targeted atypIpv4 [1, 1, 1, 1, 0, 80] :=
    ⟨.ipv4 ⟨⟨[1, 1, 1, 1], rfl⟩⟩, 80, rfl, by decide⟩
  refine (reply_truthful_iff ⟨[0], none, by decide, by decide⟩ 0 path ?_).mpr fun _ _ => target
  simp [Fed, refusedConnect, answerBytes, Negotiation.bytes, counted, Buffer.of]

def garbledName : Trace :=
  [⟨.readExact 2, .ok (.of [5, 1])⟩, ⟨.readExact 1, .ok (.of [0])⟩, ⟨.writeAll [5, 0], .ok ()⟩,
    ⟨.readExact 4, .ok (.of [5, 1, 0, 3])⟩, ⟨.readExact 1, .ok (.of [1])⟩,
    ⟨.readExact 1, .ok (.of [0xff])⟩]

/-- Its address type is supported, and the reply says that it is not. -/
theorem reply_untruthful : ∃ next,
    Path (handle (.v4 ⟨⟨[10, 0, 0, 2], rfl⟩⟩ 4000)).run garbledName
      (.request (.writeAll (replyBytes repAtypNotSupported)) next) ∧
    Fed [5, 1, 0, 5, 1, 0, 3, 1, 0xff, 0, 80] garbledName ∧ Supported atypDomain ∧
    ¬ Truthful cmdConnect atypDomain garbledName repAtypNotSupported := by
  refine ⟨_, .cons .reply (.cons .reply (.cons .reply (.cons .reply (.cons .reply
    (.cons .reply .nil))))), ?_, by decide, fun truthful => ?_⟩
  · simp [Fed, garbledName, answerBytes, Buffer.of]
  · exact (truthful.addressType.mp rfl).2 (by decide)

end Tord.Socks
