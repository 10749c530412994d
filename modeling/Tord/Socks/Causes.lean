import Tord.Socks.Refusals

/-! What `handle` returns when it gives up on a client or on Tor, and what is logged of
it. A write that fails decides the result alone, also the write that reports a failure. -/
namespace Tord.Socks

open Interaction

variable {α β : Type}

inductive Level where
  | debug | warn
  deriving DecidableEq

/-- The log entry of `spawn_connection` for a handler that has returned. -/
def logged : Except Error Unit → Option Level
  | .ok () => none
  | .error e => if isBenignDisconnect e then some .debug else some .warn

inductive Mishap where
  | lost (failure : IoError)
  | refused (e : Error)

def mishap : Event Op.Res → Option Mishap
  | ⟨.writeAll _, .error failure⟩ => some (.lost failure)
  | ⟨.connect _ _ _, .error e⟩ => some (.refused e)
  | _ => none

def mishaps (h : Trace) : List Mishap := h.filterMap mishap

theorem lost_mem {h : Trace} {failure : IoError} :
    .lost failure ∈ mishaps h ↔ ∃ bytes, ⟨.writeAll bytes, .error failure⟩ ∈ h := by
  rw [mishaps, List.mem_filterMap]
  constructor
  · rintro ⟨⟨op, reply⟩, member, found⟩
    cases op with
    | writeAll bytes =>
      cases reply with
      | ok _ => cases found
      | error e => cases found; exact ⟨bytes, member⟩
    | connect _ _ _ => cases reply <;> cases found
    | _ => cases found
  · rintro ⟨bytes, member⟩
    exact ⟨_, member, rfl⟩

theorem refused_mem {h : Trace} (member : ⟨.connect host port isoUser, .error e⟩ ∈ h) :
    .refused e ∈ mishaps h :=
  List.mem_filterMap.mpr ⟨_, member, rfl⟩

/-- After a failed write nothing more is read or written. -/
def reporting : Contract Op.Res (List Mishap) where
  relies _ _ _ := True
  demands s
    | .readExact _ | .writeAll _ => ∀ failure, .lost failure ∉ s
    | _ => True
  after s op reply := s ++ (mishap ⟨op, reply⟩).toList

theorem reporting_observe (s : List Mishap) (h : Trace) : reporting.observe s h = s ++ mishaps h := by
  induction h generalizing s with
  | nil => simp [mishaps]
  | cons event h ih =>
    rw [Contract.observe_cons, ih]
    cases found : mishap event <;> simp [reporting, mishaps, found]

/-- What the mishaps of a handler make of its result. -/
inductive Decides : List Mishap → Except Error Unit → Prop where
  | spared : Decides [] result
  | refused (e : Error) :
      Decides [.refused e] (.error (e.context "Tor CONNECT failed — failing closed"))
  | lost (failure : IoError) : Decides [.lost failure] (.error (.ofIo failure))
  | unheard (e : Error) (failure : IoError) :
      Decides [.refused e, .lost failure] (.error (.ofIo failure))

/-- No more than one write has failed. -/
theorem Decides.of_lost {s : List Mishap} {failure : IoError} (decides : Decides s result)
    (lost : .lost failure ∈ s) :
    result = .error (.ofIo failure) ∧ ∀ other, .lost other ∈ s → other = failure := by
  cases decides with
  | spared => cases lost
  | refused e => simp at lost
  | lost other =>
    obtain rfl : failure = other := by simpa using lost
    exact ⟨rfl, by simp⟩
  | unheard e other =>
    obtain rfl : failure = other := by simpa using lost
    exact ⟨rfl, by simp⟩

theorem Decides.of_refused {s : List Mishap} (decides : Decides s result)
    (refused : .refused e ∈ s) (written : ∀ failure, .lost failure ∉ s) :
    result = .error (e.context "Tor CONNECT failed — failing closed") := by
  cases decides with
  | spared => cases refused
  | refused other =>
    obtain rfl : e = other := by simpa using refused
    rfl
  | lost failure => exact (written failure (by simp)).elim
  | unheard other failure => exact (written failure (by simp)).elim

def Spared (result : Except Error α) (s : List Mishap) : Prop :=
  s = [] ∨ ∃ failure, s = [.lost failure] ∧ result = .error (.ofIo failure)

abbrev Candid (x : Handler α) : Prop := reporting.Meets Spared x.run []

namespace Candid

theorem reads {x : Handler α} (asks : Asks Op.Reads x) :
    reporting.Meets (fun _ s => s = []) x.run [] := by
  refine Contract.Meets.unobserved asks (fun op reading => ?_) (fun op reading reply => ?_)
    fun _ => rfl
  · cases op with
    | readExact n => simp [reporting]
    | _ => exact reading.elim
  · cases op with
    | readExact n => rfl
    | _ => exact reading.elim

theorem bind {x : Handler α} {f : α → Handler β} (first : Candid x)
    (rest : ∀ value, Candid (f value)) : Candid (x >>= f) := by
  refine Contract.Meets.andThen first ?_ ?_
  · rintro e s (rfl | ⟨failure, rfl, same⟩)
    · exact .inl rfl
    · cases same
      exact .inr ⟨failure, rfl, rfl⟩
  · rintro value s (rfl | ⟨failure, -, same⟩)
    · exact rest value
    · cases same

theorem readThen {x : Handler α} {f : α → Handler β} (asks : Asks Op.Reads x)
    (rest : ∀ value, Candid (f value)) : Candid (x >>= f) :=
  bind ((reads asks).mono fun _ _ none => .inl none) rest

theorem writeAll (bytes : List UInt8) : Candid (writeAll bytes) := by
  refine ⟨fun _ => List.not_mem_nil, fun reply _ => ?_⟩
  cases reply with
  | ok _ => exact .inl rfl
  | error failure => exact .inr ⟨failure, rfl, rfl⟩

theorem pure (value : α) : Candid (Pure.pure value) := .inl rfl

theorem throw (e : Error) : Candid (throw e : Handler α) := .inl rfl

end Candid

theorem candid_negotiate : Candid negotiate := by
  refine .readThen (.context _ (.readExact 2 trivial)) fun greeting => ?_
  refine .readThen (.ensure _ _) fun _ => ?_
  refine .readThen (.context _ (.readExact _ trivial)) fun methods => ?_
  split
  · refine .bind (.writeAll _) fun _ => ?_
    refine .readThen (asks_readUserpass fun _ => trivial) fun isoUser => ?_
    exact .bind (.writeAll _) fun _ => .pure _
  split
  · exact .bind (.writeAll _) fun _ => .pure _
  · exact .bind (.writeAll _) fun _ => .throw _

theorem candid_readRequest : Candid readRequest := by
  refine .readThen (.context _ (.readExact 4 trivial)) fun req => ?_
  refine .readThen (.ensure _ _) fun _ => ?_
  split
  · rw [Candid, run_tryCatch, Contract.meets_bind]
    apply (Candid.reads (asks_readTarget (fun _ => trivial) req[3])).mono
    rintro result _ rfl
    cases result with
    | ok target => exact .inl rfl
    | error e => exact Candid.bind (.writeAll _) fun _ => .throw e
  · exact .bind (.writeAll _) fun _ => .throw _

theorem candid_decode : Candid decode :=
  .bind candid_negotiate fun _ => .bind candid_readRequest fun _ => .pure _

theorem decides_proxy : reporting.Meets (fun result s => Decides s result)
    (proxy host port isoUser stream).run [] := by
  refine ⟨trivial, fun opened _ => ?_⟩
  cases opened with
  | ok opened =>
    refine ⟨by simp [reporting, mishap], fun written _ => ?_⟩
    cases written with
    | error failure => exact .lost failure
    | ok _ =>
      refine ⟨trivial, fun _ _ => ⟨trivial, fun copied _ => ?_⟩⟩
      cases copied <;> exact .spared
  | error e =>
    refine ⟨trivial, fun _ _ => ⟨by simp [reporting, mishap], fun written _ => ?_⟩⟩
    cases written with
    | error failure => exact .unheard e failure
    | ok _ => exact .refused e

theorem decides_handle (peer : SocketAddr) :
    reporting.Meets (fun result s => Decides s result) (handle peer).run [] := by
  rw [handle_eq]
  refine Contract.Meets.andThen candid_decode ?_ ?_
  · rintro e s (rfl | ⟨failure, rfl, same⟩)
    · exact .spared
    · cases same
      exact .lost failure
  · rintro ⟨isoUser, host, port⟩ s (rfl | ⟨failure, -, same⟩)
    · refine ⟨trivial, fun _ _ => meets_withStream trivial fun stream => ?_⟩
      refine decides_proxy.mono fun result s decided => ⟨trivial, fun _ _ => ?_⟩
      change Decides (s ++ []) result
      rwa [List.append_nil]
    · cases same

theorem decided (path : Path (handle peer).run h (.pure result)) : Decides (mishaps h) result := by
  have relied := reporting.relied_of_unconditional (fun _ _ _ => trivial) [] h
  have decides : Decides (reporting.observe [] h) result := (decides_handle peer).path path relied
  rwa [reporting_observe, List.nil_append] at decides

/-- Why the handler gave up: its client violated the protocol, or there was no stream for it. -/
inductive Blamed (h : Trace) : Error → Prop where
  | violation (readable : ∀ n e, ⟨.readExact n, .error e⟩ ∉ h)
      (refused : Refused (received h) cause) : Blamed h cause
  | connect (member : ⟨.connect host port isoUser, .error cause⟩ ∈ h) : Blamed h cause

/-- The result carries the cause in its chain, and passes for a genuine failure. -/
def Reported (cause : Error) (result : Except Error Unit) : Prop :=
  ∃ e, result = .error e ∧ cause.chain <:+ e.chain ∧ isBenignDisconnect e = false ∧
    logged result = some .warn

theorem isBenignDisconnect_context (text : String) (e : Error) :
    isBenignDisconnect (e.context text) = isBenignDisconnect e := by
  simp [isBenignDisconnect]

theorem isBenignDisconnect_suffix {cause e : Error} (carried : cause.chain <:+ e.chain)
    (genuine : isBenignDisconnect e = false) : isBenignDisconnect cause = false := by
  rw [isBenignDisconnect, List.any_eq_false] at genuine ⊢
  exact fun link member => genuine link (carried.subset member)

theorem reported_iff {cause e : Error} :
    Reported cause (.error e) ↔ cause.chain <:+ e.chain ∧ isBenignDisconnect e = false := by
  constructor
  · rintro ⟨_, ⟨⟩, carried, genuine, -⟩
    exact ⟨carried, genuine⟩
  · rintro ⟨carried, genuine⟩
    exact ⟨e, rfl, carried, genuine, by simp [logged, genuine]⟩

/-- Of a violation, when every message before it was heard. -/
theorem result_of_refused (path : Path (handle peer).run h (.pure result))
    (unfailed : ∀ event ∈ h, ¬ Failed event) (refused : Refused (received h) cause) :
    result = .error cause := by
  rw [handle_eq, ExceptT.run_bind] at path
  obtain ⟨front, back, middle, rfl, before, after⟩ := path.of_bind
  have talks := Prog.Uses.path talks_decode before
  have heard : ∀ event ∈ front, ¬ Failed event :=
    fun event member => unfailed event (List.mem_append_left _ member)
  have run := run_of_path before (answered_of_heard ⟨0⟩ talks heard [])
  rw [List.append_nil] at run
  have ended : Gives ⟨0⟩ decode (received front ++ received back) (.error cause) [] := by
    rw [received, received, ← List.flatMap_append]
    exact refused.decode
  cases middle with
  | error e =>
    obtain ⟨rfl, same⟩ := after.pure_inv
    cases same
    rw [show received [] = [] from rfl, List.append_nil] at ended
    cases run.symm.trans ended
    rfl
  | ok value =>
    -- what was accepted is accepted whatever follows
    obtain ⟨word, spoken, whole⟩ := (parses_decode.accepts _ _ _).mp run
    rw [List.append_nil] at whole
    have accepted : Gives ⟨0⟩ decode (received front ++ received back) (.ok value) (received back) :=
      whole ▸ .of_parses parses_decode spoken
    cases accepted.symm.trans ended

theorem result_of_blamed (path : Path (handle peer).run h (.pure result)) (blamed : Blamed h cause)
    (written : ∀ failure, .lost failure ∉ mishaps h) :
    ∃ e, result = .error e ∧ cause.chain <:+ e.chain ∧
      isBenignDisconnect e = isBenignDisconnect cause := by
  cases blamed with
  | violation readable refused =>
    refine ⟨cause, result_of_refused path ?_ refused, List.suffix_refl _, rfl⟩
    rintro event member (⟨e⟩ | ⟨e⟩)
    · exact readable _ e member
    · exact written e (lost_mem.mpr ⟨_, member⟩)
  | connect member =>
    have ended := (decided path).of_refused (refused_mem member) written
    exact ⟨_, ended, List.suffix_cons _ _, isBenignDisconnect_context _ _⟩

/-- The io error has the cause at the end of its own chain, and no link of it is benign. -/
def Carried (cause : Error) (failure : IoError) : Prop :=
  cause.chain <:+ .io failure.kind failure.text :: failure.sources ∧
    isBenignDisconnect (.ofIo failure) = false

/-- A failure of the client's or of Tor's is reported as what it is exactly if nothing in
its own chain looks like a disconnect and the message that tells the client is written (or
fails with an error that carries the same cause). -/
theorem cause_reported_iff (path : Path (handle peer).run h (.pure result))
    (blamed : Blamed h cause) :
    Reported cause result ↔ isBenignDisconnect cause = false ∧
      ∀ bytes failure, ⟨.writeAll bytes, .error failure⟩ ∈ h → Carried cause failure := by
  by_cases written : ∀ failure, .lost failure ∉ mishaps h
  · obtain ⟨e, rfl, carried, same⟩ := result_of_blamed path blamed written
    rw [reported_iff, same]
    constructor
    · rintro ⟨-, genuine⟩
      refine ⟨genuine, fun bytes failure member => ?_⟩
      exact (written failure (lost_mem.mpr ⟨bytes, member⟩)).elim
    · rintro ⟨genuine, -⟩
      exact ⟨carried, genuine⟩
  · obtain ⟨failure, lost⟩ := not_forall_not.mp written
    obtain ⟨rfl, only⟩ := (decided path).of_lost lost
    constructor
    · intro reported
      obtain ⟨carried, genuine⟩ := reported_iff.mp reported
      refine ⟨isBenignDisconnect_suffix carried genuine, fun bytes other member => ?_⟩
      rw [only other (lost_mem.mpr ⟨bytes, member⟩)]
      exact ⟨carried, genuine⟩
    · rintro ⟨-, carried⟩
      obtain ⟨bytes, member⟩ := lost_mem.mp lost
      exact reported_iff.mpr (carried bytes failure member)

def bindRequest (written : Except IoError Unit) : Trace :=
  [⟨.readExact 2, .ok (.of [5, 1])⟩, ⟨.readExact 1, .ok (.of [0])⟩, ⟨.writeAll [5, 0], .ok ()⟩,
    ⟨.readExact 4, .ok (.of [5, 2, 0, 1])⟩, ⟨.writeAll (replyBytes repCmdNotSupported), written⟩]

theorem blamed_bindRequest (written : Except IoError Unit) :
    Blamed (bindRequest written) (.msg "unsupported SOCKS command 2 (only CONNECT)") := by
  have refused : Refused (([5, 1, 0] : List UInt8) ++ [5, 2, 0, 1]) _ :=
    .command ⟨[0], none, by decide, by decide⟩ 0 1 (by decide)
  refine .violation (fun n e member => ?_) refused
  simp only [bindRequest, List.mem_cons, List.not_mem_nil, or_false] at member
  rcases member with h | h | h | h | h <;> cases h

/-- The client hears the refusal, and the command is what is logged. -/
theorem cause_reported_iff_heard :
    Reported (.msg "unsupported SOCKS command 2 (only CONNECT)")
      (.error (.msg "unsupported SOCKS command 2 (only CONNECT)")) :=
  (@cause_reported_iff (.v4 ⟨⟨[10, 0, 0, 2], rfl⟩⟩ 4000) (bindRequest (.ok ())) _ _
    (.cons .reply (.cons .reply (.cons .reply (.cons .reply (.cons .reply .nil)))))
    (blamed_bindRequest _)).mpr ⟨by decide, by simp [bindRequest]⟩

/-- The client has hung up: its request is forgotten, and logged as a disconnect. -/
theorem cause_unreported : ∃ h result,
    Path (handle (.v4 ⟨⟨[10, 0, 0, 2], rfl⟩⟩ 4000)).run h (.pure result) ∧
    Blamed h (.msg "unsupported SOCKS command 2 (only CONNECT)") ∧
    result = .error ⟨.io .brokenPipe "Broken pipe (os error 32)", []⟩ ∧
    logged result = some .debug ∧
    ¬ Reported (.msg "unsupported SOCKS command 2 (only CONNECT)") result := by
  refine ⟨bindRequest (.error ⟨.brokenPipe, "Broken pipe (os error 32)", []⟩), _,
    .cons .reply (.cons .reply (.cons .reply (.cons .reply (.cons .reply .nil)))),
    blamed_bindRequest _, rfl, by decide, ?_⟩
  rintro ⟨e, same, -, genuine, -⟩
  cases same
  revert genuine
  decide

end Tord.Socks
