import Tord.Socks.FailClosed

/-! What `handle` gives up on, told by the bytes it has read: each kind of refusal, with
the error that is its cause, is what the handshake ends in on exactly these bytes. -/
namespace Tord.Socks

open Interaction Text

variable {stream : StreamHandle} {α β : Type}

/-- For a client that sends `s` and hears every message, `x` ends so, with `rest` unread. -/
def Gives (stream : StreamHandle) (x : Handler α) (s : List UInt8) (result : Except Error α)
    (rest : List UInt8) : Prop :=
  x.run.run (answerBytes stream) s = (.inl result, rest)

namespace Gives

theorem of_parses {x : Handler α} (parses : Parses stream x language)
    (spoken : language word value) : Gives stream x (word ++ rest) (.ok value) rest :=
  (parses.accepts _ _ _).mpr ⟨word, spoken, rfl⟩

theorem throw (e : Error) : Gives stream (throw e : Handler α) s (.error e) s := rfl

theorem bind {x : Handler α} {f : α → Handler β} (first : Gives stream x s (.ok value) middle)
    (next : Gives stream (f value) middle result rest) : Gives stream (x >>= f) s result rest := by
  unfold Gives at *
  rw [ExceptT.run_bind, run_bind, first]
  exact next

/-- A failure skips the rest. -/
theorem fails {x : Handler α} {f : α → Handler β} (first : Gives stream x s (.error e) rest) :
    Gives stream (x >>= f) s (.error e) rest := by
  unfold Gives at *
  rw [ExceptT.run_bind, run_bind, first]
  rfl

theorem tryCatch {x : Handler α} {recover : Error → Handler α}
    (first : Gives stream x s (.error e) middle)
    (next : Gives stream (recover e) middle result rest) :
    Gives stream (tryCatch x recover) s result rest := by
  unfold Gives at *
  rw [run_tryCatch, run_bind, first]
  exact next

theorem readExact (word : Buffer n) (rest : List UInt8) :
    Gives stream (readExact n) (word.1 ++ rest) (.ok word) rest :=
  of_parses (.readExact n) rfl

theorem readContext (text : String) (word : Buffer n) (rest : List UInt8) :
    Gives stream (context text (Socks.readExact n)) (word.1 ++ rest) (.ok word) rest :=
  of_parses (.context text (.readExact n)) rfl

theorem writeAll (bytes : List UInt8) : Gives stream (writeAll bytes) s (.ok ()) s := rfl

theorem ensure {condition : Prop} [Decidable condition] (holds : condition) :
    Gives stream (ensure condition text) s (.ok ()) s := by
  rw [Socks.ensure, if_pos holds]
  rfl

theorem ensure_fails {condition : Prop} [Decidable condition] (fails : ¬ condition) :
    Gives stream (Socks.ensure condition text) s (.error (.msg text)) s := by
  rw [Socks.ensure, if_neg fails]
  rfl

theorem fromUtf8 (bytes : List UInt8) (text : String) : Gives stream (fromUtf8 bytes text) s
    ((decodeUtf8 bytes).elim (.error (.context text ⟨.utf8 bytes, []⟩)) .ok) s := by
  rw [Socks.fromUtf8]
  cases decodeUtf8 bytes <;> rfl

/-- A length byte and then that many bytes. -/
theorem counted {f : List UInt8 → Handler β} (bound : body.length ≤ 255)
    (next : Gives stream (f body) s result rest) :
    Gives stream (do let len ← Socks.readExact 1; let bytes ← Socks.readExact len[0].toNat; f bytes.1)
      (Socks.counted body ++ s) result rest := by
  refine bind (readExact ⟨[_], rfl⟩ (body ++ s)) ?_
  exact bind (readExact ⟨body, (toNat_ofNat_length body bound).symm⟩ s) next

end Gives

def authMessage (uname passwd : List UInt8) : List UInt8 :=
  authUserpassVer :: counted uname ++ counted passwd

/-- The message is read to its end, and the username is returned if it is text. -/
theorem gives_readUserpass (ulen : uname.length ≤ 255) (plen : passwd.length ≤ 255)
    (rest : List UInt8) : Gives stream readUserpass (authMessage uname passwd ++ rest)
      ((decodeUtf8 uname).elim
        (.error (.context "SOCKS username is not UTF-8" ⟨.utf8 uname, []⟩)) .ok) rest := by
  rw [authMessage, List.append_assoc]
  refine .bind (.readContext _ ⟨[_], rfl⟩ (counted uname ++ (counted passwd ++ rest))) ?_
  refine .bind (.ensure rfl) ?_
  refine .counted (f := fun uname => do
    let plen ← readExact 1
    let _passwd ← readExact plen[0].toNat
    fromUtf8 uname "SOCKS username is not UTF-8") ulen ?_
  exact .counted (f := fun _ => fromUtf8 uname "SOCKS username is not UTF-8") plen (.fromUtf8 _ _)

def Supported (atyp : UInt8) : Prop := atyp ∈ [atypIpv4, atypDomain, atypIpv6]

instance : Decidable (Supported atyp) := inferInstanceAs (Decidable (_ ∈ _))

/-- A client that sent these bytes has violated the protocol with the last of them. -/
inductive Refused : List UInt8 → Error → Prop where
  | greetingVersion (count : UInt8) (other : version ≠ socks5) :
      Refused [version, count] (.msg s!"not a SOCKS5 client (version {version})")
  | methods (size : methods.length ≤ 255) (noUserpass : methodUserpass ∉ methods)
      (noNoauth : methodNoauth ∉ methods) :
      Refused (socks5 :: counted methods) (.msg "client offered no acceptable SOCKS auth method")
  | authVersion (size : methods.length ≤ 255) (offered : methodUserpass ∈ methods)
      (other : version ≠ authUserpassVer) :
      Refused (socks5 :: counted methods ++ [version]) (.msg s!"bad RFC1929 auth version {version}")
  | username (size : methods.length ≤ 255) (offered : methodUserpass ∈ methods)
      (ulen : uname.length ≤ 255) (plen : passwd.length ≤ 255) (invalid : decodeUtf8 uname = none) :
      Refused (socks5 :: counted methods ++ authMessage uname passwd)
        (.context "SOCKS username is not UTF-8" ⟨.utf8 uname, []⟩)
  | requestVersion (n : Negotiation) (cmd rsv atyp : UInt8) (other : version ≠ socks5) :
      Refused (n.bytes ++ [version, cmd, rsv, atyp]) (.msg s!"bad SOCKS request version {version}")
  | command (n : Negotiation) (rsv atyp : UInt8) (other : cmd ≠ cmdConnect) :
      Refused (n.bytes ++ [socks5, cmd, rsv, atyp])
        (.msg s!"unsupported SOCKS command {cmd} (only CONNECT)")
  | addressType (n : Negotiation) (rsv : UInt8) (unsupported : ¬ Supported atyp) :
      Refused (n.bytes ++ [socks5, cmdConnect, rsv, atyp])
        (.msg s!"unsupported SOCKS address type {atyp}")
  | domain (n : Negotiation) (rsv : UInt8) (len : name.length ≤ 255)
      (invalid : decodeUtf8 name = none) :
      Refused (n.bytes ++ [socks5, cmdConnect, rsv, atypDomain] ++ counted name)
        (.context "SOCKS domain name is not UTF-8" ⟨.utf8 name, []⟩)

/-- What `negotiate` does with the methods it has read. -/
def select (methods : List UInt8) : Handler (Option String) :=
  if methods.contains methodUserpass then do
    writeAll [socks5, methodUserpass]
    let isoUser ← readUserpass
    writeAll [authUserpassVer, repSuccess]
    return some isoUser
  else if methods.contains methodNoauth then do
    writeAll [socks5, methodNoauth]
    return none
  else do
    writeAll [socks5, methodNone]
    bail "client offered no acceptable SOCKS auth method"

theorem gives_negotiate (size : methods.length ≤ 255)
    (next : Gives stream (select methods) s result rest) :
    Gives stream negotiate (socks5 :: counted methods ++ s) result rest := by
  refine .bind (.readContext _ ⟨[_, _], rfl⟩ (methods ++ s)) ?_
  refine .bind (.ensure rfl) ?_
  exact .bind (.readContext _ ⟨methods, (toNat_ofNat_length methods size).symm⟩ s) next

theorem gives_select (offered : methodUserpass ∈ methods)
    (fails : Gives stream readUserpass s (.error e) rest) :
    Gives stream (select methods) s (.error e) rest := by
  rw [select, if_pos (List.contains_iff_mem.mpr offered)]
  exact .bind (.writeAll _) (.fails fails)

theorem gives_readRequest (version cmd rsv atyp : UInt8) (valid : version = socks5)
    (next : Gives stream (if cmd = cmdConnect then
        tryCatch (readTarget atyp) fun e => do
          sendReply repAtypNotSupported
          throw e
      else do
        sendReply repCmdNotSupported
        bail s!"unsupported SOCKS command {cmd} (only CONNECT)") s result rest) :
    Gives stream readRequest ([version, cmd, rsv, atyp] ++ s) result rest := by
  refine .bind (.readContext _ ⟨[_, _, _, _], rfl⟩ s) ?_
  exact .bind (.ensure valid) next

theorem gives_readTarget (fails : Gives stream (readTarget atyp) s (.error e) rest) :
    Gives stream readRequest ([socks5, cmdConnect, rsv, atyp] ++ s) (.error e) rest := by
  apply gives_readRequest socks5 cmdConnect rsv atyp rfl
  rw [if_pos rfl]
  exact .tryCatch fails (.bind (.writeAll _) (.throw e))

theorem gives_decode (n : Negotiation) (fails : Gives stream readRequest s (.error e) rest) :
    Gives stream decode (n.bytes ++ s) (.error e) rest :=
  .bind (.of_parses parses_negotiate ⟨n, rfl, rfl⟩) (.fails fails)

/-- On such bytes the handshake ends with the cause, and has read all of them. -/
theorem Refused.decode (refused : Refused bytes cause) :
    Gives stream decode bytes (.error cause) [] := by
  cases refused with
  | @greetingVersion version count other =>
    apply Gives.fails
    exact .bind (.readContext _ ⟨[version, count], rfl⟩ []) (.fails (.ensure_fails other))
  | @methods methods size noUserpass noNoauth =>
    have turned : Gives stream (select methods) []
        (.error (.msg "client offered no acceptable SOCKS auth method")) [] := by
      rw [select, if_neg (by simpa using noUserpass), if_neg (by simpa using noNoauth)]
      exact .bind (.writeAll _) (.throw _)
    have negotiated := gives_negotiate size turned
    rw [List.append_nil] at negotiated
    exact .fails negotiated
  | @authVersion methods version size offered other =>
    apply Gives.fails
    apply gives_negotiate size
    apply gives_select offered
    exact .bind (.readContext _ ⟨[version], rfl⟩ []) (.fails (.ensure_fails other))
  | @username methods uname passwd size offered ulen plen invalid =>
    have read : Gives stream readUserpass (authMessage uname passwd ++ []) _ [] :=
      gives_readUserpass ulen plen []
    rw [invalid, List.append_nil] at read
    exact .fails (gives_negotiate size (gives_select offered read))
  | @requestVersion version n cmd rsv atyp other =>
    apply gives_decode
    exact .bind (.readContext _ ⟨[version, cmd, rsv, atyp], rfl⟩ []) (.fails (.ensure_fails other))
  | @command cmd n rsv atyp other =>
    apply gives_decode
    rw [← List.append_nil [socks5, cmd, rsv, atyp]]
    apply gives_readRequest socks5 cmd rsv atyp rfl
    rw [if_neg other]
    exact .bind (.writeAll _) (.throw _)
  | @addressType atyp n rsv unsupported =>
    apply gives_decode
    rw [← List.append_nil [socks5, cmdConnect, rsv, atyp]]
    apply gives_readTarget
    apply Gives.fails
    simp only [Supported, List.mem_cons, List.not_mem_nil, or_false, not_or] at unsupported
    obtain ⟨v4, name, v6⟩ := unsupported
    rw [readHost, if_neg v4, if_neg v6, if_neg name]
    exact .throw _
  | @domain name n rsv len invalid =>
    have read : Gives stream (fromUtf8 name "SOCKS domain name is not UTF-8") [] _ [] := .fromUtf8 _ _
    rw [invalid] at read
    rw [List.append_assoc]
    apply gives_decode
    apply gives_readTarget
    apply Gives.fails
    rw [readHost, if_neg (by decide), if_neg (by decide), if_pos rfl, ← List.append_nil (counted name)]
    exact .counted (f := fun name => fromUtf8 name "SOCKS domain name is not UTF-8") len read

end Tord.Socks
