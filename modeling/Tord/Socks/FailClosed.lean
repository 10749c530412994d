import Tord.Socks.Handshake

/-! The fail-closed discipline of `handle`: what it may ask for next, given every
exchange so far. Reads, writes and `connect` fail wherever the environment likes. -/
namespace Tord.Socks

open Interaction

abbrev Trace := History Op.Res

def readBytes : Event Op.Res → List UInt8
  | ⟨.readExact _, .ok filled⟩ => filled.1
  | _ => []

def attempted : Event Op.Res → Option (List UInt8)
  | ⟨.writeAll bytes, _⟩ => some bytes
  | _ => none

def Op.isConnect : Op → Bool
  | .connect _ _ _ => true
  | _ => false

def Op.isSplice : Op → Bool
  | .copyBidirectional _ => true
  | _ => false

def received (h : Trace) : List UInt8 := h.flatMap readBytes

def writes (h : Trace) : List (List UInt8) := h.filterMap attempted

/-- Of the messages to the client only the request reply has ten bytes. -/
def replies (h : Trace) : List (List UInt8) := (writes h).filter (·.length = 10)

def calls (h : Trace) : List Op := (h.map (·.1)).filter (·.isConnect)

inductive Failed : Event Op.Res → Prop where
  | read (e : IoError) : Failed ⟨.readExact n, .error e⟩
  | write (e : IoError) : Failed ⟨.writeAll bytes, .error e⟩

def Opened (h : Trace) : Prop := ∃ host port isoUser, ⟨.connect host port isoUser, .ok ()⟩ ∈ h

theorem opened_append {front back : Trace} :
    Opened (front ++ back) ↔ Opened front ∨ Opened back := by
  simp only [Opened, List.mem_append, exists_or]

theorem opened_singleton {event : Event Op.Res} :
    Opened [event] ↔ ∃ host port isoUser, event = ⟨.connect host port isoUser, .ok ()⟩ := by
  simp only [Opened, List.mem_singleton, eq_comm]

/-- A read or write failed, or the client was turned away. -/
def Stopped (h : Trace) : Prop :=
  (∃ event ∈ h, Failed event) ∨ [socks5, methodNone] ∈ writes h ∨
    ∃ rep, rep ≠ repSuccess ∧ replyBytes rep ∈ writes h

theorem writes_append (h k : Trace) : writes (h ++ k) = writes h ++ writes k :=
  List.filterMap_append

theorem replies_append (h k : Trace) : replies (h ++ k) = replies h ++ replies k := by
  simp [replies, writes]

theorem calls_append (h k : Trace) : calls (h ++ k) = calls h ++ calls k := by
  simp [calls]

theorem replies_snoc_silent (silent : attempted event = none) :
    replies (h ++ [event]) = replies h := by
  rw [replies_append]
  simp [replies, writes, silent]

theorem replies_snoc_write (bytes : List UInt8) (reply : Except IoError Unit) :
    replies (h ++ [⟨.writeAll bytes, reply⟩]) =
      replies h ++ if bytes.length = 10 then [bytes] else [] := by
  rw [replies_append]
  by_cases ten : bytes.length = 10 <;> simp [replies, writes, attempted, ten]

theorem calls_snoc (event : Event Op.Res) :
    calls (h ++ [event]) = calls h ++ if event.1.isConnect then [event.1] else [] := by
  rw [calls_append]
  by_cases called : event.1.isConnect <;> simp [calls, called]

/-- A method selection: the whole greeting was read, and nothing else. -/
def Selection (h : Trace) (bytes : List UInt8) : Prop :=
  ∃ methods : List UInt8, ∃ method : UInt8, methods.length ≤ 255 ∧
    received h = socks5 :: counted methods ∧ bytes = [socks5, method] ∧
    (method ∈ methods ∨ method = methodNone) ∧
    (method = methodNone ↔ methodNoauth ∉ methods ∧ methodUserpass ∉ methods)

/-- A request reply: the first, and one of success only on an opened stream. -/
def Reply (h : Trace) (bytes : List UInt8) : Prop :=
  ∃ rep, bytes = replyBytes rep ∧ replies h = [] ∧ (rep = repSuccess → Opened h)

structure Permitted (h : Trace) (op : Op) : Prop where
  read : ∀ n, op = .readExact n → calls h = []
  connect : op.isConnect → calls h = [] ∧ (∀ event ∈ h, ¬ Failed event) ∧
    ∃ hs : Handshake, received h = hs.bytes ∧ op = hs.call
  write : ∀ bytes, op = .writeAll bytes →
    (writes h = [] ∧ Selection h bytes) ∨ bytes = [authUserpassVer, repSuccess] ∨ Reply h bytes
  splice : op.isSplice → Opened h ∧ ⟨.writeAll (replyBytes repSuccess), .ok ()⟩ ∈ h
  stopped : Stopped h → ¬ op.isConnect ∧ ¬ op.isSplice

/-- At the exchanges of `h` the handler has `p` left to do. -/
structure FailClosed (h : Trace) (p : Prog Op.Res (Except Error Unit)) : Prop where
  calls_le : (calls h).length ≤ 1
  replies_le : (replies h).length ≤ 1
  next : ∀ op rest, p = .request op rest → Permitted h op
  result : ∀ result, p = .pure result → Stopped h → ∃ e, result = .error e

def discipline : Contract Op.Res Trace where
  relies _ _ _ := True
  demands := Permitted
  after h op reply := h ++ [⟨op, reply⟩]

theorem discipline_observe (h k : Trace) : discipline.observe h k = h ++ k := by
  induction k generalizing h with
  | nil => simp
  | cons event k ih =>
    rw [Contract.observe_cons, ih]
    simp [discipline]

theorem permitted_of_idle {op : Op} (unread : ∀ n, op ≠ .readExact n)
    (silent : ∀ bytes, op ≠ .writeAll bytes) (unconnected : op.isConnect = false)
    (unspliced : op.isSplice = false) : Permitted h op where
  read n same := (unread n same).elim
  connect called := by simp [unconnected] at called
  write bytes same := (silent bytes same).elim
  splice spliced := by simp [unspliced] at spliced
  stopped _ := by simp [unconnected, unspliced]

theorem permitted_read (uncalled : calls h = []) : Permitted h (.readExact n) where
  read _ _ := uncalled
  connect := by rintro ⟨⟩
  write := by rintro _ ⟨⟩
  splice := by rintro ⟨⟩
  stopped _ := ⟨nofun, nofun⟩

theorem permitted_write {bytes : List UInt8}
    (allowed : (writes h = [] ∧ Selection h bytes) ∨ bytes = [authUserpassVer, repSuccess] ∨
      Reply h bytes) : Permitted h (.writeAll bytes) where
  read := by rintro _ ⟨⟩
  connect := by rintro ⟨⟩
  write := by rintro _ ⟨⟩; exact allowed
  splice := by rintro ⟨⟩
  stopped _ := ⟨nofun, nofun⟩

/-- What a handshake that goes well leaves in the trace before `connect`. -/
inductive Quiet : Event Op.Res → Prop where
  | read (filled : Buffer n) : Quiet ⟨.readExact n, .ok filled⟩
  | write (short : bytes.length = 2) (accepted : bytes ≠ [socks5, methodNone]) :
      Quiet ⟨.writeAll bytes, .ok ()⟩

def Undisturbed : Except Error α → Trace → Prop
  | .ok _, h => ∀ event ∈ h, Quiet event
  | .error _, h => replies h = []

theorem replies_of_quiet (quiet : ∀ event ∈ h, Quiet event) : replies h = [] := by
  simp only [replies, writes, List.filter_eq_nil_iff, List.mem_filterMap]
  rintro bytes ⟨event, member, written⟩
  cases quiet event member with
  | read filled => simp [attempted] at written
  | write short accepted =>
    obtain rfl : _ = bytes := by simpa [attempted] using written
    simp [short]

theorem not_failed_of_quiet (quiet : Quiet event) : ¬ Failed event := by
  cases quiet <;> rintro ⟨⟩

theorem calls_of_quiet (quiet : ∀ event ∈ h, Quiet event) : calls h = [] := by
  simp only [calls, List.filter_eq_nil_iff, List.mem_map]
  rintro op ⟨event, member, rfl⟩
  cases quiet event member <;> simp [Op.isConnect]

theorem not_stopped_of_quiet (quiet : ∀ event ∈ h, Quiet event) : ¬ Stopped h := by
  intro stopped
  rcases stopped with ⟨event, member, failed⟩ | refused | ⟨rep, -, replied⟩
  · exact not_failed_of_quiet (quiet event member) failed
  · obtain ⟨event, member, written⟩ := List.mem_filterMap.mp refused
    cases quiet event member with
    | read filled => simp [attempted] at written
    | write short accepted => exact accepted (by simpa [attempted] using written)
  · have none := replies_of_quiet quiet
    have : replyBytes rep ∈ replies h := List.mem_filter.mpr ⟨replied, by simp [replyBytes]⟩
    simp [none] at this

theorem quiet_append (quiet : ∀ event ∈ h, Quiet event) (last : Quiet event) :
    ∀ other ∈ h ++ [event], Quiet other := by
  simpa [or_imp, forall_and] using And.intro quiet last

/-- Only reads and decides, as long as nothing goes wrong. -/
def Calm (x : Handler α) : Prop :=
  ∀ h, (∀ event ∈ h, Quiet event) → discipline.Meets Undisturbed x.run h

namespace Calm

theorem pure (value : α) : Calm (Pure.pure value) := fun _ quiet => quiet

theorem throw (e : Error) : Calm (throw e : Handler α) := fun _ quiet => replies_of_quiet quiet

theorem bind {x : Handler α} {f : α → Handler β} (first : Calm x) (rest : ∀ value, Calm (f value)) :
    Calm (x >>= f) := fun h quiet =>
  (first h quiet).andThen (fun _ _ silent => silent) fun value t quiet => rest value t quiet

theorem readExact (n : Nat) : Calm (readExact n) := by
  refine fun h quiet => ⟨permitted_read (calls_of_quiet quiet), fun filled _ => ?_⟩
  cases filled with
  | ok filled => exact quiet_append quiet (.read filled)
  | error e =>
    exact (replies_snoc_silent rfl).trans (replies_of_quiet quiet)

theorem context (text : String) {x : Handler α} (calm : Calm x) : Calm (context text x) := by
  intro h quiet
  rw [run_context, Contract.meets_bind]
  refine (calm h quiet).mono fun result t undisturbed => ?_
  cases result <;> exact undisturbed

theorem ensure (condition : Prop) [Decidable condition] (text : String) :
    Calm (ensure condition text) := by
  unfold Socks.ensure
  split
  · exact pure ()
  · exact throw _

theorem fromUtf8 (bytes : List UInt8) (text : String) : Calm (fromUtf8 bytes text) := by
  unfold Socks.fromUtf8
  split
  · exact pure _
  · exact throw _

end Calm

theorem calm_readUserpass : Calm readUserpass :=
  .bind (.context _ (.readExact 1)) fun _ => .bind (.ensure _ _) fun _ =>
    .bind (.readExact 1) fun _ => .bind (.readExact _) fun _ => .bind (.readExact 1) fun _ =>
      .bind (.readExact _) fun _ => .fromUtf8 _ _

theorem calm_readHost (atyp : UInt8) : Calm (readHost atyp) := by
  unfold readHost
  split
  · exact .bind (.readExact 4) fun _ => .pure _
  split
  · exact .bind (.readExact 16) fun _ => .pure _
  split
  · exact .bind (.readExact 1) fun _ => .bind (.readExact _) fun _ => .fromUtf8 _ _
  · exact .throw _

theorem calm_readTarget (atyp : UInt8) : Calm (readTarget atyp) :=
  .bind (calm_readHost atyp) fun _ => .bind (.readExact 2) fun _ => .pure _

theorem meets_read (text : String) (n : Nat) (uncalled : calls h = []) :
    discipline.Meets (fun result t =>
        match result with
        | .ok filled => t = h ++ [⟨.readExact n, .ok filled⟩]
        | .error _ => replies t = replies h)
      (context text (readExact n)).run h := by
  refine ⟨permitted_read uncalled, fun filled _ => ?_⟩
  cases filled with
  | ok filled => rfl
  | error e => exact replies_snoc_silent rfl

theorem meets_write {post : Except Error Unit → Trace → Prop}
    (allowed : Permitted h (.writeAll bytes))
    (written : ∀ reply, post (Except.mapError Error.ofIo reply) (h ++ [⟨.writeAll bytes, reply⟩])) :
    discipline.Meets post (writeAll bytes).run h :=
  ⟨allowed, fun reply _ => written reply⟩

theorem meets_ensure {condition : Prop} [Decidable condition] {f : Unit → Handler β}
    {post : Except Error β → Trace → Prop} (fails : post (.error (.msg text)) h)
    (rest : condition → discipline.Meets post (f ()).run h) :
    discipline.Meets post (ensure condition text >>= f).run h := by
  by_cases holds : condition
  · rw [ensure, if_pos holds]
    exact rest holds
  · rw [ensure, if_neg holds]
    exact fails

/-- A two-byte message that does not turn the client away. -/
theorem meets_message {f : Unit → Handler β} (quiet : ∀ event ∈ h, Quiet event)
    (allowed : Permitted h (.writeAll bytes)) (short : bytes.length = 2)
    (accepted : bytes ≠ [socks5, methodNone])
    (rest : ∀ t, (∀ event ∈ t, Quiet event) → discipline.Meets Undisturbed (f ()).run t) :
    discipline.Meets Undisturbed (writeAll bytes >>= f).run h := by
  have sent : discipline.Meets Undisturbed (writeAll bytes).run h := by
    refine meets_write allowed fun reply => ?_
    cases reply with
    | ok _ => exact quiet_append quiet (.write short accepted)
    | error e =>
      change replies (h ++ [_]) = []
      simp [replies_snoc_write, replies_of_quiet quiet, short]
  exact sent.andThen (fun _ _ silent => silent) fun _ t quiet => rest t quiet

theorem selection_of_greeting {greeting : Buffer 2}
    {methods : Buffer (getElem greeting 1 (by decide)).toNat}
    (version : getElem greeting 0 (by decide) = socks5)
    (offered : method ∈ methods.1 ∨ method = methodNone)
    (refused : method = methodNone ↔ methodNoauth ∉ methods.1 ∧ methodUserpass ∉ methods.1) :
    Selection [⟨.readExact 2, .ok greeting⟩, ⟨.readExact _, .ok methods⟩]
      [socks5, method] := by
  have small := greeting[1].toNat_lt
  refine ⟨methods.1, method, ?_, ?_, rfl, offered, refused⟩
  · rw [methods.2]; omega
  · simp [received, readBytes, counted, greeting.two, version, methods.2]

theorem meets_negotiate : discipline.Meets Undisturbed negotiate.run [] := by
  apply (meets_read _ 2 rfl).andThen (fun _ _ silent => silent)
  rintro greeting _ rfl
  refine meets_ensure rfl fun version => ?_
  refine (meets_read _ greeting[1].toNat rfl).andThen (fun _ _ silent => silent) ?_
  rintro methods _ rfl
  have quiet : ∀ event ∈ ([⟨.readExact 2, .ok greeting⟩,
      ⟨.readExact greeting[1].toNat, .ok methods⟩] : Trace), Quiet event := by
    simp [Quiet.read]
  split
  · next offered =>
    have offered : methodUserpass ∈ methods.1 := List.contains_iff_mem.mp offered
    refine meets_message quiet (permitted_write (.inl ⟨rfl, selection_of_greeting version
      (.inl offered) (by simp +decide [offered])⟩)) rfl (by decide) fun t quiet => ?_
    refine (calm_readUserpass t quiet).andThen (fun _ _ silent => silent) fun _ t quiet => ?_
    exact meets_message quiet (permitted_write (.inr (.inl rfl))) rfl (by decide)
      fun t quiet => quiet
  split
  · next declined offered =>
    have offered : methodNoauth ∈ methods.1 := List.contains_iff_mem.mp offered
    exact meets_message quiet (permitted_write (.inl ⟨rfl, selection_of_greeting version
      (.inl offered) (by simp +decide [offered])⟩)) rfl (by decide) fun t quiet => quiet
  · next noUserpass noNoauth =>
    -- the one selection that is followed by an error
    have refused : discipline.Meets (fun _ t => replies t = [])
        (writeAll [socks5, methodNone]).run
        [⟨.readExact 2, .ok greeting⟩, ⟨.readExact greeting[1].toNat, .ok methods⟩] := by
      refine meets_write (permitted_write (.inl ⟨rfl, selection_of_greeting version
        (.inr rfl) ?_⟩)) fun reply => rfl
      simpa using And.intro noNoauth noUserpass
    exact refused.andThen (fun _ _ silent => silent) fun _ _ silent => silent

def Settled : Except Error α → Trace → Prop
  | .ok _, h => ∀ event ∈ h, Quiet event
  | .error _, _ => True

/-- A refusal by a request reply. -/
theorem meets_refusal {rest : Handler α} (silent : replies h = []) (code : rep ≠ repSuccess)
    (fails : ∀ t, discipline.Meets Settled rest.run t) :
    discipline.Meets Settled (sendReply rep >>= fun _ => rest).run h := by
  have sent : discipline.Meets (fun _ _ => True) (sendReply rep).run h :=
    meets_write (permitted_write (.inr (.inr ⟨rep, rfl, silent, fun same => (code same).elim⟩)))
      fun _ => trivial
  exact sent.andThen (fun _ _ _ => trivial) fun _ t _ => fails t

theorem meets_readRequest (quiet : ∀ event ∈ h, Quiet event) :
    discipline.Meets Settled readRequest.run h := by
  apply (Calm.context _ (.readExact 4) h quiet).andThen (fun _ _ _ => trivial)
  intro req t quiet
  refine meets_ensure trivial fun version => ?_
  split
  · rw [run_tryCatch, Contract.meets_bind]
    refine (calm_readTarget req[3] t quiet).mono fun result t undisturbed => ?_
    cases result with
    | ok target => exact undisturbed
    | error e => exact meets_refusal undisturbed (by decide) fun _ => trivial
  · exact meets_refusal (replies_of_quiet quiet) (by decide) fun _ => trivial

theorem meets_decode : discipline.Meets Settled decode.run [] := by
  refine meets_negotiate.andThen (fun _ _ _ => trivial) fun isoUser t quiet => ?_
  refine (meets_readRequest quiet).andThen (fun _ _ _ => trivial) fun target t quiet => ?_
  exact quiet

/-- A trace without failures is a run on the bytes it received. -/
theorem answered_of_heard (stream : StreamHandle) (talks : ∀ event ∈ h, event.1.Talks)
    (heard : ∀ event ∈ h, ¬ Failed event) (rest : List UInt8) :
    Answered (answerBytes stream) (received h ++ rest) h rest := by
  induction h with
  | nil => rfl
  | cons event h ih =>
    rw [List.forall_mem_cons] at talks heard
    have ih := ih talks.2 heard.2
    obtain ⟨op, reply⟩ := event
    cases op with
    | readExact n =>
      cases reply with
      | error e => exact (heard.1 (.read e)).elim
      | ok filled =>
        refine ⟨received h ++ rest, ?_, ih⟩
        have size := filled.2
        simp [answerBytes, received, readBytes, ← size]
    | writeAll bytes =>
      cases reply with
      | error e => exact (heard.1 (.write e)).elim
      | ok _ => exact ⟨received h ++ rest, rfl, ih⟩
    | _ => exact talks.1.elim

theorem answered_of_quiet (stream : StreamHandle) (quiet : ∀ event ∈ h, Quiet event)
    (rest : List UInt8) : Answered (answerBytes stream) (received h ++ rest) h rest := by
  refine answered_of_heard stream (fun event member => ?_) (fun event member => ?_) rest
  · cases quiet event member <;> trivial
  · exact not_failed_of_quiet (quiet event member)

/-- What the client asked for, once everything it sent was read and valid. -/
def Understood : Except Error (Option String × String × UInt16) → Trace → Prop
  | .ok (isoUser, host, port), h => (∀ event ∈ h, Quiet event) →
      ∃ hs : Handshake, received h = hs.bytes ∧ .connect host port isoUser = hs.call
  | .error _, _ => True

theorem understood_of_decode (path : Path decode.run h (.pure result)) : Understood result h := by
  cases result with
  | error e => trivial
  | ok value =>
    intro quiet
    have run := run_of_path path (answered_of_quiet ⟨0⟩ quiet [])
    obtain ⟨_, ⟨hs, rfl, same⟩, split⟩ := (parses_decode.accepts _ _ _).mp run
    exact ⟨hs, by simpa using split, by rw [same]; rfl⟩

/-- Nothing but `op` is asked of the outside yet, and it is what the client asked for. -/
structure Ready (h : Trace) (op : Op) : Prop where
  calls : calls h = []
  replies : replies h = []
  going : ¬ Stopped h
  handshake : ∃ hs : Handshake, received h = hs.bytes ∧ op = hs.call

theorem going_snoc (going : ¬ Stopped h) (event : Event Op.Res) (ok : ¬ Failed event)
    (welcome : attempted event = none ∨ attempted event = some (replyBytes repSuccess)) :
    ¬ Stopped (h ++ [event]) := by
  have last (bytes : List UInt8) (member : bytes ∈ writes (h ++ [event])) :
      bytes ∈ writes h ∨ bytes = replyBytes repSuccess := by
    rcases List.mem_append.mp (writes_append h [event] ▸ member) with earlier | here
    · exact .inl earlier
    · rcases welcome with nothing | reply
      · simp [writes, nothing] at here
      · right; simpa [writes, reply] using here
  intro stopped
  rcases stopped with ⟨other, member, failed⟩ | refused | ⟨rep, code, replied⟩
  · rcases List.mem_append.mp member with earlier | here
    · exact going (.inl ⟨other, earlier, failed⟩)
    · rw [List.mem_singleton.mp here] at failed
      exact ok failed
  · rcases last _ refused with earlier | same
    · exact going (.inr (.inl earlier))
    · simp [replyBytes] at same
  · rcases last _ replied with earlier | same
    · exact going (.inr (.inr ⟨rep, code, earlier⟩))
    · exact code (by simpa [replyBytes] using same)

/-- The counter and the registry are the daemon's own. -/
theorem Ready.snoc (ready : Ready h op) (event : Event Op.Res) (ok : ¬ Failed event)
    (nothing : attempted event = none) (unread : readBytes event = []) (unconnected : event.1.isConnect = false) :
    Ready (h ++ [event]) op where
  calls := by simp [calls_snoc, ready.calls, unconnected]
  replies := (replies_snoc_silent nothing).trans ready.replies
  going := going_snoc ready.going event ok (.inl nothing)
  handshake := by simpa [received, unread] using ready.handshake

theorem Ready.permitted (ready : Ready h op) : Permitted h op := by
  obtain ⟨hs, bytes, rfl⟩ := ready.handshake
  exact {
    read := nofun
    connect := fun _ => ⟨ready.calls, fun event member failed =>
      ready.going (.inl ⟨event, member, failed⟩), hs, bytes, rfl⟩
    write := nofun
    splice := nofun
    stopped := fun stopped => (ready.going stopped).elim }

/-- Only a handler that nothing stopped returns without an error. -/
def Finished (result : Except Error Unit) (h : Trace) : Prop :=
  Stopped h → ∃ e, result = .error e

theorem meets_drop (settled : ∀ value, result = .ok value → ¬ Stopped h) :
    discipline.Meets Finished
      (.request (.dropStream stream) fun _ => .pure result : Prog Op.Res (Except Error Unit)) h := by
  refine ⟨permitted_of_idle nofun nofun rfl rfl, fun _ _ stopped => ?_⟩
  cases result with
  | error e => exact ⟨e, rfl⟩
  | ok value => exact (going_snoc (settled value rfl) _ (by rintro ⟨⟩) (.inl rfl) stopped).elim

theorem meets_proxy (ready : Ready h (.connect host port isoUser)) :
    discipline.Meets (fun result t => ∀ value, result = .ok value → ¬ Stopped t)
      (proxy host port isoUser stream).run h := by
  refine ⟨ready.permitted, fun opened _ => ?_⟩
  cases opened with
  | error e =>
    refine ⟨permitted_of_idle nofun nofun rfl rfl, fun _ _ => ?_⟩
    have silent : replies (h ++ [⟨.connect host port isoUser, .error e⟩] ++
        [⟨.fetchAdd .connectsFailed 1, ()⟩]) = [] := by
      rw [replies_snoc_silent rfl, replies_snoc_silent rfl, ready.replies]
    have refused : discipline.Meets (fun _ _ => True) (sendReply repGeneralFailure).run
        (h ++ [⟨.connect host port isoUser, .error e⟩] ++ [⟨.fetchAdd .connectsFailed 1, ()⟩]) :=
      meets_write (permitted_write (.inr (.inr ⟨_, rfl, silent, fun same => by cases same⟩)))
        fun _ => trivial
    exact refused.andThen (fun _ _ _ _ same => by cases same) fun _ _ _ _ same => by cases same
  | ok opened =>
    have going := going_snoc ready.going ⟨.connect host port isoUser, .ok opened⟩
      (by rintro ⟨⟩) (.inl rfl)
    have silent : replies (h ++ [⟨.connect host port isoUser, .ok opened⟩]) = [] :=
      (replies_snoc_silent rfl).trans ready.replies
    have isOpen : Opened (h ++ [⟨.connect host port isoUser, .ok opened⟩]) :=
      ⟨host, port, isoUser, by simp⟩
    have replied : discipline.Meets
        (fun result t => ∀ value, result = .ok value → ¬ Stopped t ∧ Opened t ∧
          ⟨.writeAll (replyBytes repSuccess), .ok ()⟩ ∈ t)
        (sendReply repSuccess).run (h ++ [⟨.connect host port isoUser, .ok opened⟩]) := by
      refine meets_write (permitted_write (.inr (.inr ⟨_, rfl, silent, fun _ => isOpen⟩)))
        fun reply => ?_
      cases reply with
      | error e => rintro _ ⟨⟩
      | ok _ =>
        obtain ⟨host, port, isoUser, member⟩ := isOpen
        exact fun _ _ => ⟨going_snoc going _ (by rintro ⟨⟩) (.inr rfl),
          ⟨host, port, isoUser, List.mem_append_left _ member⟩, by simp⟩
    apply replied.andThen (fun _ _ _ _ same => by cases same)
    intro _ t sent
    obtain ⟨going, ⟨host, port, isoUser, member⟩, written⟩ := sent _ rfl
    refine ⟨permitted_of_idle nofun nofun rfl rfl, fun _ _ => ?_⟩
    have going := going_snoc going ⟨.fetchAdd .connectsOk 1, ()⟩ (by rintro ⟨⟩) (.inl rfl)
    refine ⟨?_, fun copied _ => ?_⟩
    · exact {
        read := nofun
        connect := nofun
        write := nofun
        splice := fun _ => ⟨⟨host, port, isoUser, List.mem_append_left _ member⟩,
          List.mem_append_left _ written⟩
        stopped := fun stopped => (going stopped).elim }
    · cases copied with
      | error e => rintro _ ⟨⟩
      | ok copied => exact fun _ _ => going_snoc going _ (by rintro ⟨⟩) (.inl rfl)

theorem meets_handle (peer : SocketAddr) : discipline.Meets Finished (handle peer).run [] := by
  rw [handle_eq]
  have decoded : discipline.Meets (fun result t => Settled result t ∧ Understood result t)
      decode.run [] := by
    refine meets_decode.strengthen fun h _ path => ?_
    rw [discipline_observe]
    exact understood_of_decode path
  refine decoded.andThen (fun e _ _ _ => ⟨e, rfl⟩) ?_
  rintro ⟨isoUser, host, port⟩ t ⟨quiet, understood⟩
  have ready : Ready t (.connect host port isoUser) :=
    ⟨calls_of_quiet quiet, replies_of_quiet quiet, not_stopped_of_quiet quiet, understood quiet⟩
  refine ⟨permitted_of_idle nofun nofun rfl rfl, fun _ _ => ?_⟩
  refine meets_withStream (permitted_of_idle nofun nofun rfl rfl) fun stream => ?_
  have ready := (ready.snoc ⟨.fetchAdd .connectsTotal 1, ()⟩ (by rintro ⟨⟩) rfl rfl rfl).snoc
    ⟨.register peer s!"{host}:{port}" isoUser, stream⟩ (by rintro ⟨⟩) rfl rfl rfl
  exact (meets_proxy ready).mono fun result t settled => meets_drop settled

theorem calls_snoc_le (permitted : Permitted h op) (reply : op.Res)
    (calls_le : (calls h).length ≤ 1) : (calls (h ++ [⟨op, reply⟩])).length ≤ 1 := by
  rw [calls_snoc]
  by_cases called : op.isConnect
  · simp [(permitted.connect called).1, called]
  · simpa [called] using calls_le

theorem replies_snoc_le (permitted : Permitted h op) (reply : op.Res)
    (replies_le : (replies h).length ≤ 1) : (replies (h ++ [⟨op, reply⟩])).length ≤ 1 := by
  cases op with
  | writeAll bytes =>
    rw [replies_snoc_write]
    rcases permitted.write bytes rfl with ⟨-, selection⟩ | rfl | ⟨rep, rfl, first, -⟩
    · obtain ⟨methods, method, -, -, rfl, -⟩ := selection
      simpa using replies_le
    · simpa using replies_le
    · simp [first, replyBytes]
  | _ => rwa [replies_snoc_silent rfl]

theorem meets_of_path (path : Path (handle peer).run h p) : discipline.Meets Finished p h := by
  have relied := discipline.relied_of_unconditional (fun _ _ _ => trivial) [] h
  simpa [discipline_observe] using (meets_handle peer).path path relied

/-- Fail closed, at every point of every run of the handler. -/
theorem handle_fail_closed (path : Path (handle peer).run h p) : FailClosed h p := by
  have counts : (calls h).length ≤ 1 ∧ (replies h).length ≤ 1 := by
    refine Transition.Run.invariant (fun k _ => (calls k).length ≤ 1 ∧ (replies k).length ≤ 1)
      (by simp [calls, replies, writes]) ?_ path
    rintro k _ _ _ front ⟨calls_le, replies_le⟩ ⟨⟩
    have permitted := (meets_of_path front).1
    exact ⟨calls_snoc_le permitted _ calls_le, replies_snoc_le permitted _ replies_le⟩
  exact {
    calls_le := counts.1
    replies_le := counts.2
    next := by rintro op rest rfl; exact (meets_of_path path).1
    result := by rintro result rfl; exact meets_of_path path }

/-- A client that offers GSSAPI only is turned away. -/
theorem handle_fail_closed_refusal :
    FailClosed [⟨.readExact 2, .ok ⟨[5, 1], rfl⟩⟩, ⟨.readExact 1, .ok ⟨[1], rfl⟩⟩,
        ⟨.writeAll [5, 255], .ok ()⟩]
      (.pure (.error (.msg "client offered no acceptable SOCKS auth method"))) :=
  @handle_fail_closed (.v4 ⟨⟨[0, 0, 0, 0], rfl⟩⟩ 0) _ _
    (.cons .reply (.cons .reply (.cons .reply .nil)))

end Tord.Socks
