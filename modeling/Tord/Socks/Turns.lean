import Tord.Socks.Client

/-! Whose turn it is. When its reads deliver what the client sends and no write fails,
`handle` only waits for what the client may have sent by then, it says what the client
waits for, and it calls `connect` for nothing but the client's request. -/
namespace Tord.Socks

open Interaction Text

variable {c : Client} {α β : Type}

def said (h : Trace) : List UInt8 := (writes h).flatten

theorem said_snoc_silent (silent : attempted event = none) : said (h ++ [event]) = said h := by
  simp [said, writes, silent]

theorem said_snoc_write (message : List UInt8) (reply : Except IoError Unit) :
    said (h ++ [⟨.writeAll message, reply⟩]) = said h ++ message := by
  simp [said, writes, attempted]

/-- The three messages, each in its turn. -/
def Says (c : Client) (h : Trace) (message : List UInt8) : Prop :=
  (said h = [] ∧ message = [socks5, c.selected]) ∨
  (c.selected = methodUserpass ∧ said h = [socks5, c.selected] ∧
    message = [authUserpassVer, repSuccess]) ∨
  ∃ code, said h = c.prelude ∧ message = replyBytes code ∧ (code = repSuccess ↔ Opened h)

def turns (c : Client) : Contract Op.Res Trace where
  relies h
    | .readExact _, reply => ∃ filled, reply = .ok filled ∧ received h ++ filled.1 <+: c.script
    | .writeAll _, reply => reply = .ok ()
    | _, _ => True
  demands h
    | .readExact n => (received h).length + n ≤ (c.may (said h)).length
    | .writeAll message => Says c h message
    | .connect host port isoUser =>
      said h = c.prelude ∧ c.cmd = cmdConnect ∧ .connect host port isoUser = c.call
    | _ => True
  after h op reply := h ++ [⟨op, reply⟩]

/-- The handler has said `out`, and `avail` is what it has left unread of all that the
client may have sent. -/
structure At (c : Client) (out avail : List UInt8) (h : Trace) : Prop where
  said : said h = out
  may : c.may out = received h ++ avail
  hears : c.Hears out
  unopened : ¬ Opened h

theorem unopened_snoc (unopened : ¬ Opened h) (event : Event Op.Res)
    (still : ∀ host port isoUser, event ≠ ⟨.connect host port isoUser, .ok ()⟩) :
    ¬ Opened (h ++ [event]) := by
  rw [opened_append, opened_singleton]
  intro opened
  rcases opened with earlier | ⟨host, port, isoUser, here⟩
  · exact unopened earlier
  · exact still host port isoUser here

theorem At.snoc (here : At c out avail h) (event : Event Op.Res) (silent : attempted event = none)
    (unread : readBytes event = [])
    (still : ∀ host port isoUser, event ≠ ⟨.connect host port isoUser, .ok ()⟩) :
    At c out avail (h ++ [event]) where
  said := (said_snoc_silent silent).trans here.said
  may := by simpa [received, unread] using here.may
  hears := here.hears
  unopened := unopened_snoc here.unopened event still

abbrev Yields (c : Client) (out avail : List UInt8) (x : Handler α) (value : α) (h : Trace) : Prop :=
  (turns c).Meets (fun result t => result = .ok value ∧ At c out avail t) x.run h

theorem Yields.andThen {x : Handler α} {f : α → Handler β} {post : Except Error β → Trace → Prop}
    (first : Yields c out avail x value h)
    (rest : ∀ t, At c out avail t → (turns c).Meets post (f value).run t) :
    (turns c).Meets post (x >>= f).run h := by
  refine Contract.Meets.andThen first ?_ ?_
  · rintro e t ⟨⟨⟩, -⟩
  · rintro _ t ⟨⟨⟩, here⟩
    exact rest t here

theorem left_le {p : Prog Op.Res β} (run : p.run (answerBytes stream) s = (ending, left)) :
    left.length ≤ s.length := by
  induction p generalizing s with
  | pure value => exact (Prod.mk.inj run).2 ▸ le_rfl
  | request op next ih =>
    simp only [Prog.run] at run
    cases op with
    | readExact n =>
      by_cases enough : n ≤ s.length
      · simp only [answerBytes, enough, ↓reduceDIte] at run
        exact (ih _ run).trans (by simp)
      · simp only [answerBytes, enough, ↓reduceDIte] at run
        exact (ih _ run).trans (by simp)
    | connect _ _ _ => exact (Prod.mk.inj run).2 ▸ le_rfl
    | copyBidirectional _ => exact (Prod.mk.inj run).2 ▸ le_rfl
    | _ => exact ih _ run

/-- A program that only reads, and takes exactly `word` from any stream that starts so. -/
theorem meets_reads {p : Prog Op.Res β} (reads : p.Uses Op.Reads)
    (run : ∀ rest, p.run (answerBytes ⟨0⟩) (word ++ rest) = (.inl value, rest))
    (here : At c out (word ++ avail) h) :
    (turns c).Meets (fun result t => result = value ∧ At c out avail t) p h := by
  induction p generalizing word h with
  | pure result =>
    obtain ⟨same, empty⟩ := Prod.mk.inj (run [])
    obtain rfl : word = [] := by simpa using empty
    exact ⟨Sum.inl.inj same, here⟩
  | request op next ih =>
    obtain ⟨isRead, later⟩ := reads
    cases op with
    | readExact n =>
      -- otherwise it would take more than the word from a stream that is long enough
      have enough : n ≤ word.length := by
        have whole := run (List.replicate n 0)
        simp only [Prog.run, answerBytes, List.length_append, List.length_replicate,
          Nat.le_add_left, ↓reduceDIte] at whole
        have most := left_le whole
        simp only [List.length_replicate, List.length_drop, List.length_append] at most
        omega
      obtain ⟨front, back, rfl, size⟩ : ∃ front back, word = front ++ back ∧ front.length = n :=
        ⟨word.take n, word.drop n, (List.take_append_drop n word).symm, List.length_take_of_le enough⟩
      refine ⟨?_, ?_⟩
      · change (received h).length + n ≤ (c.may (said h)).length
        simp only [here.said, here.may, List.length_append]
        omega
      · rintro _ ⟨filled, rfl, within⟩
        obtain rfl : filled = ⟨front, size⟩ := by
          have sent : received h ++ front <+: c.script := by
            refine List.IsPrefix.trans ?_ (Client.may_le_script here.hears)
            simp [here.may]
          have equal := List.prefix_of_prefix_length_le within sent (by simp [filled.2, size])
          rw [List.prefix_append_right_inj] at equal
          exact Subtype.ext (equal.eq_of_length (filled.2.trans size.symm))
        refine @ih _ back _ (later _) (fun rest => ?_) ?_
        · rw [← run rest]
          subst size
          simp [Prog.run, answerBytes]
        · exact {
            said := (said_snoc_silent rfl).trans here.said
            may := by simpa [turns, received, readBytes] using here.may
            hears := here.hears
            unopened := unopened_snoc here.unopened _ (by rintro _ _ _ ⟨⟩) }
    | _ => exact isRead.elim

theorem At.reads {x : Handler α} (here : At c out (word ++ avail) h) (reads : Asks Op.Reads x)
    (parses : Parses ⟨0⟩ x language) (spoken : language word value) : Yields c out avail x value h :=
  meets_reads reads (fun _ => (parses.accepts _ _ _).mpr ⟨word, spoken, rfl⟩) here

theorem At.readExact (text : String) (word : Buffer n) (here : At c out (word.1 ++ avail) h) :
    Yields c out avail (context text (readExact n)) word h :=
  here.reads (.context text (.readExact n trivial)) (.context text (.readExact n)) rfl

/-- A message is said in its turn, and what the client may send once it has heard it is
what is left. -/
theorem At.writeAll (here : At c out avail h) (due : Says c h message)
    (hears : c.Hears (out ++ message)) (next : c.may (out ++ message) = received h ++ more) :
    Yields c (out ++ message) more (writeAll message) () h := by
  refine ⟨due, ?_⟩
  rintro _ rfl
  exact ⟨rfl, {
    said := by rw [← here.said]; exact said_snoc_write _ _
    may := by simpa [turns, received, readBytes] using next
    hears
    unopened := unopened_snoc here.unopened _ (by rintro _ _ _ ⟨⟩) }⟩

/-- Without a common method there is nothing more to say. -/
def Negotiated (c : Client) : Except Error (Option String) → Trace → Prop
  | .ok isoUser, h => isoUser = c.user ∧ At c c.prelude c.request h
  | .error _, _ => True

theorem at_start : At c [] (c.may []) [] where
  said := rfl
  may := rfl
  hears := ⟨0, List.nil_prefix⟩
  unopened := by rintro ⟨_, _, _, ⟨⟩⟩

theorem received_of_greeting (here : At c [] (c.afterGreeting []) h) : received h = c.greeting :=
  (List.append_cancel_right here.may).symm

theorem At.select (here : At c [] (c.afterGreeting []) h) (selected : c.selected = method) :
    Yields c [socks5, method] (if method = methodUserpass then c.credentials.bytes ++ c.afterAuth []
      else if method = methodNoauth then c.request else []) (Socks.writeAll [socks5, method]) () h := by
  subst selected
  have hears : c.Hears [socks5, c.selected] := ⟨0, by simp [Client.prelude]⟩
  refine here.writeAll (.inl ⟨here.said, rfl⟩) hears ?_
  rw [received_of_greeting here]
  exact Client.may_of_selection hears

theorem At.readUserpass (here : At c out (c.credentials.bytes ++ avail) h) :
    Yields c out avail readUserpass c.credentials.uname h :=
  here.reads (asks_readUserpass fun _ => trivial) parses_readUserpass ⟨_, rfl, rfl⟩

theorem At.accept (here : At c [socks5, methodUserpass] (c.afterAuth []) h)
    (userpass : c.selected = methodUserpass) :
    Yields c c.prelude c.request (Socks.writeAll [authUserpassVer, repSuccess]) () h := by
  have whole : c.prelude = [socks5, methodUserpass, authUserpassVer, repSuccess] := by
    simp [Client.prelude, userpass]
  have hears : c.Hears c.prelude := ⟨0, List.prefix_append _ _⟩
  rw [whole] at hears ⊢
  have front := here.may
  rw [Client.may_of_selection here.hears, if_pos userpass, ← List.append_assoc] at front
  refine here.writeAll (.inr (.inl ⟨userpass, by rw [here.said, userpass], rfl⟩)) hears ?_
  apply (Client.may_of_selection hears).trans
  rw [if_pos userpass, ← List.append_assoc, ← List.append_cancel_right front]
  rfl

theorem turns_negotiate : (turns c).Meets (Negotiated c) negotiate.run [] := by
  have greeting : At c [] ([socks5, .ofNat c.methods.length] ++ (c.methods ++ c.afterGreeting [])) [] :=
    at_start
  refine (At.readExact _ ⟨[_, _], rfl⟩ greeting).andThen fun t here => ?_
  have count : c.methods.length = (UInt8.ofNat c.methods.length).toNat :=
    (toNat_ofNat_length _ c.methods_len).symm
  refine (At.readExact _ ⟨c.methods, count⟩ here).andThen fun t here => ?_
  split
  · next offered =>
    have userpass : c.selected = methodUserpass := if_pos (List.contains_iff_mem.mp offered)
    refine (here.select userpass).andThen fun t here => ?_
    refine (At.readUserpass here).andThen fun t here => ?_
    refine (here.accept userpass).andThen fun t here => ?_
    exact ⟨by simp [Client.user, userpass], here⟩
  split
  · next declined offered =>
    have noauth : c.selected = methodNoauth := by
      rw [Client.selected, if_neg (by simpa using declined), if_pos (List.contains_iff_mem.mp offered)]
    have whole : c.prelude = [socks5, methodNoauth] := by simp +decide [Client.prelude, noauth]
    refine (here.select noauth).andThen fun t here => ?_
    exact ⟨by simp +decide [Client.user, noauth], whole ▸ here⟩
  · next noUserpass noNoauth =>
    have none : c.selected = methodNone := by
      rw [Client.selected, if_neg (by simpa using noUserpass), if_neg (by simpa using noNoauth)]
    exact (here.select none).andThen fun t here => trivial

/-- The recovery is for requests that no client of ours sends. -/
def Requested (c : Client) : Except Error (String × UInt16) → Trace → Prop
  | .ok target, h => c.cmd = cmdConnect ∧ target = (c.address.host, c.port) ∧ At c c.prelude [] h
  | .error _, _ => True

theorem At.refuse (here : At c c.prelude avail h) (refused : code ≠ repSuccess) :
    (turns c).Meets (fun _ _ => True) (sendReply code).run h :=
  ⟨.inr (.inr ⟨code, here.said, rfl, by simp [refused, here.unopened]⟩), fun _ _ => trivial⟩

theorem turns_readRequest (here : At c c.prelude c.request h) :
    (turns c).Meets (Requested c) readRequest.run h := by
  refine (At.readExact _ ⟨[socks5, c.cmd, c.rsv, c.address.atyp], rfl⟩ here).andThen fun t here => ?_
  change (turns c).Meets (Requested c) (if c.cmd = cmdConnect then _ else _ : Handler _).run t
  split
  · next command =>
    have target : Yields c c.prelude [] (readTarget c.address.atyp) (c.address.host, c.port) t :=
      At.reads (by rwa [List.append_nil]) (asks_readTarget (fun _ => trivial) _)
        (parses_readTarget _) ⟨c.address, c.port, rfl, rfl, rfl⟩
    rw [run_tryCatch, Contract.meets_bind]
    apply target.mono
    rintro _ t ⟨rfl, here⟩
    exact ⟨command, rfl, here⟩
  · have refused : (turns c).Meets (fun _ _ => True) (sendReply repCmdNotSupported).run t :=
      here.refuse (by decide)
    exact refused.andThen (fun _ _ _ => trivial) fun _ _ _ => trivial

theorem turns_proxy (here : At c c.prelude [] h) (command : c.cmd = cmdConnect) :
    (turns c).Meets (fun _ _ => True) (proxy c.address.host c.port c.user stream).run h := by
  refine ⟨⟨here.said, command, rfl⟩, fun opened _ => ?_⟩
  cases opened with
  | error e =>
    refine ⟨trivial, fun _ _ => ?_⟩
    have failed := here.snoc ⟨.connect c.address.host c.port c.user, .error e⟩ rfl rfl
      (by rintro _ _ _ ⟨⟩)
    have refused : (turns c).Meets (fun _ _ => True) (sendReply repGeneralFailure).run _ :=
      (failed.snoc ⟨.fetchAdd .connectsFailed 1, ()⟩ rfl rfl (by rintro _ _ _ ⟨⟩)).refuse (by decide)
    exact refused.andThen (fun _ _ _ => trivial) fun _ _ _ => trivial
  | ok opened =>
    refine ⟨.inr (.inr ⟨repSuccess, ?_, rfl, ?_⟩), fun reply delivered => ?_⟩
    · exact (said_snoc_silent rfl).trans here.said
    · exact ⟨fun _ => ⟨_, _, _, List.mem_append_right _ (.head _)⟩, fun _ => rfl⟩
    · obtain rfl : reply = .ok () := delivered
      refine ⟨trivial, fun _ _ => ⟨trivial, fun copied _ => ?_⟩⟩
      cases copied <;> trivial

theorem turns_handle (peer : SocketAddr) :
    (turns c).Meets (fun _ _ => True) (handle peer).run [] := by
  apply turns_negotiate.andThen (fun _ _ _ => trivial)
  rintro _ t ⟨rfl, here⟩
  apply (turns_readRequest here).andThen (fun _ _ _ => trivial)
  rintro _ t ⟨command, rfl, here⟩
  refine ⟨trivial, fun _ _ => meets_withStream trivial fun stream => ?_⟩
  have ready := (here.snoc ⟨.fetchAdd .connectsTotal 1, ()⟩ rfl rfl (by rintro _ _ _ ⟨⟩)).snoc
    ⟨.register peer s!"{c.address.host}:{c.port}" c.user, stream⟩ rfl rfl (by rintro _ _ _ ⟨⟩)
  exact (turns_proxy ready command).mono fun _ _ _ => ⟨trivial, fun _ _ => trivial⟩

end Tord.Socks
