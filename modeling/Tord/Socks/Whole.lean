import Tord.Socks.FailClosed

/-! When the handshake is over. The handler reads only while nothing has failed, and the
port is the last thing it reads, so it has decoded a request exactly when what it has
read of the client is a whole handshake. -/
namespace Tord.Socks

open Interaction

variable {α β : Type}

/-- Reads only while nothing has failed. -/
abbrev attentive : Contract Op.Res Trace :=
  .onHistory fun h op => op.Reads → ∀ event ∈ h, ¬ Failed event

def Unfailed (result : Except Error α) (h : Trace) : Prop :=
  ∀ value, result = .ok value → ∀ event ∈ h, ¬ Failed event

def Attentive (x : Handler α) : Prop :=
  ∀ h : Trace, (∀ event ∈ h, ¬ Failed event) → attentive.Meets Unfailed x.run h

namespace Attentive

theorem pure (value : α) : Attentive (Pure.pure value) := fun _ clear _ _ => clear

theorem throw (e : Error) : Attentive (throw e : Handler α) := fun _ _ _ same => by cases same

theorem bind {x : Handler α} {f : α → Handler β} (first : Attentive x)
    (rest : ∀ value, Attentive (f value)) : Attentive (x >>= f) := fun h clear =>
  (first h clear).andThen (fun _ _ _ _ same => by cases same)
    fun value t clear => rest value t (clear value rfl)

theorem clear_snoc {h : Trace} (clear : ∀ event ∈ h, ¬ Failed event) (ok : ¬ Failed last) :
    ∀ event ∈ h ++ [last], ¬ Failed event := by
  simpa [or_imp, forall_and] using And.intro clear ok

theorem readExact (n : Nat) : Attentive (readExact n) := by
  refine fun h clear => ⟨fun _ => clear, fun filled _ => ?_⟩
  cases filled with
  | ok filled => exact fun _ _ => clear_snoc clear (by rintro ⟨⟩)
  | error e => exact fun _ same => by cases same

theorem writeAll (bytes : List UInt8) : Attentive (writeAll bytes) := by
  refine fun h clear => ⟨fun reads => reads.elim, fun written _ => ?_⟩
  cases written with
  | ok _ => exact fun _ _ => clear_snoc clear (by rintro ⟨⟩)
  | error e => exact fun _ same => by cases same

theorem context (text : String) {x : Handler α} (attends : Attentive x) :
    Attentive (context text x) := by
  intro h clear
  rw [run_context, Contract.meets_bind]
  refine (attends h clear).mono fun result t unfailed => ?_
  cases result with
  | ok value => exact fun _ _ => unfailed value rfl
  | error e => exact fun _ same => by cases same

theorem ite {c : Prop} [Decidable c] {x y : Handler α} (left : Attentive x) (right : Attentive y) :
    Attentive (if c then x else y) := by
  by_cases h : c <;> simpa [h]

theorem ensure (condition : Prop) [Decidable condition] (text : String) :
    Attentive (ensure condition text) :=
  ite (pure ()) (throw _)

theorem fromUtf8 (bytes : List UInt8) (text : String) : Attentive (fromUtf8 bytes text) := by
  unfold Socks.fromUtf8
  split
  · exact pure _
  · exact throw _

end Attentive

/-- A refusal reads nothing more. -/
theorem attentive_refuse {x : Handler α} (attends : Attentive x) (rep : UInt8) :
    Attentive (tryCatch x fun e => do sendReply rep; throw e) := by
  intro h clear
  rw [run_tryCatch, Contract.meets_bind]
  refine (attends h clear).mono fun result t unfailed => ?_
  cases result with
  | ok value => exact unfailed
  | error e =>
    refine ⟨fun reads => reads.elim, fun written _ => ?_⟩
    cases written with
    | ok _ => exact fun _ same => by cases same
    | error e => exact fun _ same => by cases same

theorem attentive_readUserpass : Attentive readUserpass :=
  .bind (.context _ (.readExact 1)) fun _ => .bind (.ensure _ _) fun _ =>
    .bind (.readExact 1) fun _ => .bind (.readExact _) fun _ => .bind (.readExact 1) fun _ =>
      .bind (.readExact _) fun _ => .fromUtf8 _ _

theorem attentive_readTarget (atyp : UInt8) : Attentive (readTarget atyp) :=
  .bind (.ite (.bind (.readExact 4) fun _ => .pure _)
    (.ite (.bind (.readExact 16) fun _ => .pure _)
      (.ite (.bind (.readExact 1) fun _ => .bind (.readExact _) fun _ => .fromUtf8 _ _)
        (.throw _))))
    fun _ => .bind (.readExact 2) fun _ => .pure _

theorem attentive_decode : Attentive decode :=
  .bind (.bind (.context _ (.readExact 2)) fun _ => .bind (.ensure _ _) fun _ =>
      .bind (.context _ (.readExact _)) fun _ =>
        .ite (.bind (.writeAll _) fun _ => .bind attentive_readUserpass fun _ =>
            .bind (.writeAll _) fun _ => .pure _)
          (.ite (.bind (.writeAll _) fun _ => .pure _) (.bind (.writeAll _) fun _ => .throw _)))
    fun _ => .bind (.bind (.context _ (.readExact 4)) fun _ => .bind (.ensure _ _) fun _ =>
      .ite (attentive_refuse (attentive_readTarget _) _) (.bind (.writeAll _) fun _ => .throw _))
      fun _ => .pure _

/-- The last thing `x` does before it returns a value is to read two bytes. -/
def Closes (x : Handler α) : Prop := ∀ h value, Path x.run h (.pure (.ok value)) →
  ∃ front filled, h = front ++ [⟨.readExact 2, .ok filled⟩]

namespace Closes

theorem throw (e : Error) : Closes (throw e : Handler α) := by
  intro h value path
  cases (Path.pure_inv path).2

theorem bind {x : Handler α} {f : α → Handler β} (rest : ∀ value, Closes (f value)) :
    Closes (x >>= f) := by
  intro h value path
  rw [ExceptT.run_bind] at path
  obtain ⟨front, back, middle, rfl, -, after⟩ := Path.of_bind path
  cases middle with
  | error e => cases (Path.pure_inv after).2
  | ok middle =>
    obtain ⟨earlier, filled, rfl⟩ := rest middle back value after
    exact ⟨front ++ earlier, filled, by simp⟩

/-- What is returned does not matter. -/
theorem map {x : Handler α} (closes : Closes x) (f : α → β) :
    Closes (x >>= fun value => pure (f value)) := by
  intro h value path
  rw [ExceptT.run_bind] at path
  obtain ⟨front, back, middle, rfl, before, after⟩ := Path.of_bind path
  cases middle with
  | error e => cases (Path.pure_inv after).2
  | ok middle =>
    obtain ⟨rfl, -⟩ := Path.pure_inv after
    simpa using closes front middle before

theorem readExact : Closes (readExact 2) := by
  intro h value path
  rw [run_readExact] at path
  cases path with
  | cons first rest =>
    cases first with
    | @reply _ _ filled =>
      obtain ⟨rfl, same⟩ := Path.pure_inv rest
      cases filled with
      | ok filled => exact ⟨[], filled, rfl⟩
      | error e => cases same

theorem ite {c : Prop} [Decidable c] {x y : Handler α} (left : Closes x) (right : Closes y) :
    Closes (if c then x else y) := by
  by_cases h : c <;> simpa [h]

theorem tryCatch {x : Handler α} {recover : Error → Handler α} (closes : Closes x)
    (recovers : ∀ e, Closes (recover e)) : Closes (tryCatch x recover) := by
  intro h value path
  rw [run_tryCatch] at path
  obtain ⟨front, back, middle, rfl, before, after⟩ := Path.of_bind path
  cases middle with
  | error e =>
    obtain ⟨earlier, filled, rfl⟩ := recovers e back value after
    exact ⟨front ++ earlier, filled, by simp⟩
  | ok middle =>
    obtain ⟨rfl, -⟩ := Path.pure_inv after
    simpa using closes front middle before

end Closes

theorem closes_decode : Closes decode :=
  .bind fun _ => .map (.bind fun _ => .bind fun _ => .ite
    (.tryCatch (.bind fun _ => .map .readExact _) fun _ => .bind fun _ => .throw _)
    (.bind fun _ => .throw _)) _

/-- The bytes of a whole handshake were read of the client. -/
def Understands (h : Trace) : Prop := ∃ hs : Handshake, received h = hs.bytes

theorem received_append (h k : Trace) : received (h ++ k) = received h ++ received k := by
  simp [received]

/-- A client that has nothing more to send is heard no further. -/
theorem received_of_answered {h : Trace} (answered : Answered (answerBytes stream) s h t) :
    (received h).length + t.length ≤ s.length := by
  induction h generalizing s with
  | nil =>
    obtain rfl : s = t := answered
    simp [received]
  | cons event h ih =>
    obtain ⟨op, reply⟩ := event
    obtain ⟨m, here, rest⟩ := answered
    have later := ih rest
    have first : received (⟨op, reply⟩ :: h) = readBytes ⟨op, reply⟩ ++ received h := by
      simp [received]
    rw [first, List.length_append]
    cases op with
    | readExact n =>
      by_cases enough : n ≤ s.length
      · simp only [answerBytes, enough, ↓reduceDIte, Option.some.injEq, Prod.mk.injEq] at here
        obtain ⟨rfl, rfl⟩ := here
        simp only [readBytes, List.length_take, List.length_drop] at later ⊢
        omega
      · simp only [answerBytes, enough, ↓reduceDIte, Option.some.injEq, Prod.mk.injEq] at here
        obtain ⟨rfl, rfl⟩ := here
        simp only [readBytes, List.length_nil] at later ⊢
        omega
    | connect _ _ _ => cases here
    | copyBidirectional _ => cases here
    | _ =>
      cases here
      simpa [readBytes] using later

theorem clear_or_failed (h : Trace) : (∀ event ∈ h, ¬ Failed event) ∨
    ∃ front event back, h = front ++ event :: back ∧ (∀ event ∈ front, ¬ Failed event) ∧
      Failed event := by
  induction h with
  | nil => exact .inl (by simp)
  | cons event h ih =>
    by_cases failed : Failed event
    · exact .inr ⟨[], event, h, rfl, by simp, failed⟩
    rcases ih with clear | ⟨front, other, back, rfl, clear, failing⟩
    · exact .inl (List.forall_mem_cons.mpr ⟨failed, clear⟩)
    · exact .inr ⟨event :: front, other, back, rfl, List.forall_mem_cons.mpr ⟨failed, clear⟩, failing⟩

/-- Nothing that was read came after a failure. -/
theorem received_of_failed {front back : Trace}
    (path : Path decode.run (front ++ event :: back) q) (failed : Failed event) :
    received (front ++ event :: back) = received front := by
  have silent : readBytes event = [] := by cases failed <;> rfl
  suffices unread : ∀ other ∈ back, readBytes other = [] by
    simp [received, silent, List.flatMap_eq_nil_iff.mpr unread]
  intro other member
  obtain ⟨early, late, rfl⟩ := List.append_of_mem member
  rw [← List.cons_append, ← List.append_assoc] at path
  obtain ⟨m, before, rest⟩ := path.split
  obtain ⟨op, reply⟩ := other
  obtain ⟨next, rfl, -⟩ := Path.cons_inv rest
  have demands := ((attentive_decode [] (by simp)).at_path before).1
  cases op with
  | readExact n => exact absurd failed (demands trivial event (by simp))
  | _ => rfl

/-- From where everything was heard, a whole handshake leaves nothing to do. -/
theorem returned_of_clear {h : Trace} (path : Path decode.run h q)
    (clear : ∀ event ∈ h, ¬ Failed event) (whole : Understands h) :
    ∃ value, q = .pure (.ok value) := by
  obtain ⟨hs, bytes⟩ := whole
  have talks := Prog.Uses.path talks_decode path
  have run := run_of_path path (answered_of_heard ⟨0⟩ talks clear [])
  obtain ⟨value, decoded⟩ : ∃ value, decode.run.run (answerBytes ⟨0⟩) hs.bytes =
      (.inl (.ok value), []) :=
    ⟨_, (parses_decode.accepts _ _ _).mpr ⟨_, ⟨hs, rfl, rfl⟩, (List.append_nil _).symm⟩⟩
  rw [List.append_nil, bytes, decoded] at run
  obtain ⟨k, rest, answered⟩ := path_of_run run.symm
  obtain ⟨front, filled, same⟩ := closes_decode _ _ (path.append rest)
  rcases List.eq_nil_or_concat k with rfl | ⟨earlier, last, rfl⟩
  · cases rest
    exact ⟨value, rfl⟩
  · -- the port is still to come, and there is nothing left to read it from
    rw [List.concat_eq_append, ← List.append_assoc] at same
    obtain ⟨-, rfl⟩ := List.append_inj' same rfl |>.imp id List.singleton_inj.mp
    have short := received_of_answered answered
    rw [List.concat_eq_append, received_append] at short
    simp [received, readBytes, filled.2] at short

/-- What is decoded is what the client sent. -/
theorem handshake_of_decode (path : Path decode.run h (.pure (.ok (isoUser, host, port)))) :
    ∃ hs : Handshake, received h = hs.bytes ∧ .connect host port isoUser = hs.call := by
  have quiet := meets_decode.path path (discipline.relied_of_unconditional (fun _ _ _ => trivial) _ _)
  rw [discipline_observe] at quiet
  exact understood_of_decode path quiet

/-- The handshake was decoded exactly if a whole one was read. -/
theorem decoded_iff (path : Path decode.run h q) :
    (∃ value, q = .pure (.ok value)) ↔ Understands h := by
  constructor
  · rintro ⟨⟨isoUser, host, port⟩, rfl⟩
    obtain ⟨hs, bytes, -⟩ := handshake_of_decode path
    exact ⟨hs, bytes⟩
  · intro whole
    rcases clear_or_failed h with clear | ⟨front, event, back, rfl, clear, failed⟩
    · exact returned_of_clear path clear whole
    · have same := received_of_failed path failed
      obtain ⟨m, before, rest⟩ := path.split
      obtain ⟨op, reply⟩ := event
      obtain ⟨next, rfl, -⟩ := Path.cons_inv rest
      obtain ⟨value, impossible⟩ := returned_of_clear before clear (by rwa [Understands, ← same])
      cases impossible

/-- What is heard of a client is what it sent. -/
theorem heard_of_answered {h : Trace} (answered : Answered (answerBytes stream) s h t)
    (heard : ∀ event ∈ h, ¬ Failed event) : received h ++ t = s := by
  induction h generalizing s with
  | nil => exact (show s = t from answered).symm
  | cons event h ih =>
    obtain ⟨op, reply⟩ := event
    obtain ⟨m, here, rest⟩ := answered
    rw [List.forall_mem_cons] at heard
    have later := ih rest heard.2
    have first : received (⟨op, reply⟩ :: h) = readBytes ⟨op, reply⟩ ++ received h := by
      simp [received]
    rw [first, List.append_assoc, later]
    cases op with
    | readExact n =>
      by_cases enough : n ≤ s.length
      · simp only [answerBytes, enough, ↓reduceDIte, Option.some.injEq, Prod.mk.injEq] at here
        obtain ⟨rfl, rfl⟩ := here
        exact List.take_append_drop n s
      · simp only [answerBytes, enough, ↓reduceDIte, Option.some.injEq, Prod.mk.injEq] at here
        obtain ⟨rfl, -⟩ := here
        exact absurd (.read _) heard.1
    | connect _ _ _ => cases here
    | copyBidirectional _ => cases here
    | _ =>
      cases here
      rfl

/-- A client that sends a whole handshake is heard to its end. -/
theorem path_decode (hs : Handshake) : ∃ h, Path decode.run h
    (.pure (.ok (hs.negotiation.user, hs.request.address.host, hs.request.port))) ∧
      received h = hs.bytes := by
  have decoded : decode.run.run (answerBytes ⟨0⟩) (hs.bytes ++ []) = (.inl (.ok _), []) :=
    (parses_decode.accepts _ _ _).mpr ⟨_, ⟨hs, rfl, rfl⟩, rfl⟩
  obtain ⟨h, path, answered⟩ := path_of_run decoded
  have clear : ∀ event ∈ h, ¬ Failed event :=
    ((attentive_decode [] (by simp)).at_path path) _ rfl
  exact ⟨h, path, by simpa using heard_of_answered answered clear⟩

end Tord.Socks
