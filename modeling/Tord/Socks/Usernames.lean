import Tord.Socks.Refusals

/-! Which credentials are accepted. The password does not matter, and the username is
kept as it is, but it has to be text. -/
namespace Tord.Socks

open Interaction Text

variable {α β : Type}

def serveRequest (peer : SocketAddr) (isoUser : Option String) : Handler Unit := do
  let (host, port) ← readRequest
  fetchAdd .connectsTotal
  withStream peer s!"{host}:{port}" isoUser (proxy host port isoUser)

theorem handle_eq_serveRequest (peer : SocketAddr) :
    handle peer = negotiate >>= serveRequest peer := rfl

def reading (bytes : List UInt8) : Event Op.Res := ⟨.readExact bytes.length, .ok (.of bytes)⟩

def writing (bytes : List UInt8) : Event Op.Res := ⟨.writeAll bytes, .ok ()⟩

def authReads (uname passwd : List UInt8) : Trace :=
  [reading [authUserpassVer], reading [.ofNat uname.length], reading uname,
    reading [.ofNat passwd.length], reading passwd]

/-- All that is exchanged with a client that offers these methods and sends its
credentials, until they are accepted. -/
def welcome (methods uname passwd : List UInt8) : Trace :=
  [reading [socks5, .ofNat methods.length], reading methods, writing [socks5, methodUserpass]] ++
    (authReads uname passwd ++ [writing [authUserpassVer, repSuccess]])

theorem path_readExact {f : Buffer n → Handler β} (size : bytes.length = n)
    (rest : Path (f ⟨bytes, size⟩).run h q) :
    Path (readExact n >>= f).run (reading bytes :: h) q := by
  subst size
  exact .cons .reply rest

theorem path_readContext {f : Buffer n → Handler β} (text : String) (size : bytes.length = n)
    (rest : Path (f ⟨bytes, size⟩).run h q) :
    Path (context text (readExact n) >>= f).run (reading bytes :: h) q := by
  subst size
  exact .cons .reply rest

theorem path_writeAll {f : Unit → Handler β} (rest : Path (f ()).run h q) :
    Path (writeAll bytes >>= f).run (writing bytes :: h) q :=
  .cons .reply rest

theorem path_ensure {condition : Prop} [Decidable condition] {f : Unit → Handler β}
    (holds : condition) (rest : Path (f ()).run h q) :
    Path (ensure condition text >>= f).run h q := by
  rw [ensure, if_pos holds]
  exact rest

theorem path_readUserpass (ulen : uname.length ≤ 255) (plen : passwd.length ≤ 255)
    (text : utf8 name = uname) :
    Path readUserpass.run (authReads uname passwd) (.pure (.ok name)) := by
  apply path_readContext _ (rfl : [authUserpassVer].length = 1)
  apply path_ensure rfl
  apply path_readExact (rfl : [UInt8.ofNat uname.length].length = 1)
  apply path_readExact (toNat_ofNat_length uname ulen).symm
  apply path_readExact (rfl : [UInt8.ofNat passwd.length].length = 1)
  apply path_readExact (toNat_ofNat_length passwd plen).symm
  rw [fromUtf8, decodeUtf8_eq_some_iff.mpr text]
  exact .nil

/-- The handler accepts the credentials and is back at the connect request. -/
theorem path_welcome (peer : SocketAddr) (size : methods.length ≤ 255)
    (offered : methodUserpass ∈ methods) (ulen : uname.length ≤ 255) (plen : passwd.length ≤ 255)
    (text : utf8 name = uname) :
    Path (handle peer).run (welcome methods uname passwd) (serveRequest peer (some name)).run := by
  have selected : Path (select methods).run (writing [socks5, methodUserpass] ::
      (authReads uname passwd ++ [writing [authUserpassVer, repSuccess]]))
      (.pure (.ok (some name))) := by
    rw [select, if_pos (List.contains_iff_mem.mpr offered)]
    apply path_writeAll
    rw [ExceptT.run_bind]
    exact ((path_readUserpass ulen plen text).bind _).append (path_writeAll .nil)
  have negotiated :
      Path negotiate.run (welcome methods uname passwd) (.pure (.ok (some name))) := by
    apply path_readContext _ (rfl : [socks5, UInt8.ofNat methods.length].length = 2)
    apply path_ensure rfl
    exact path_readContext _ (toNat_ofNat_length methods size).symm selected
  rw [handle_eq_serveRequest, ExceptT.run_bind]
  exact negotiated.bind _

structure Welcomed (uname passwd : List UInt8) (name : String) : Prop where
  /-- The message is read to its end, whatever follows it. -/
  returns : ∀ stream rest,
    readUserpass.run.run (answerBytes stream) (authMessage uname passwd ++ rest) =
      (.inl (.ok name), rest)
  /-- The client hears `01 00`, and its request is what is read next. -/
  answers : ∀ peer methods, methods.length ≤ 255 → methodUserpass ∈ methods →
    ∃ next, (serveRequest peer (some name)).run = .request (.readExact 4) next ∧
      Path (handle peer).run (welcome methods uname passwd) (.request (.readExact 4) next)
  /-- The username is that of the same bytes only, with any password. -/
  isolates : ∀ other passwd, other.length ≤ 255 → passwd.length ≤ 255 → ∀ stream rest,
    (∃ left, readUserpass.run.run (answerBytes stream) (authMessage other passwd ++ rest) =
      (.inl (.ok name), left)) ↔ other = uname

theorem readUserpass_eq_ok (ulen : uname.length ≤ 255) (plen : passwd.length ≤ 255) :
    readUserpass.run.run (answerBytes stream) (authMessage uname passwd ++ rest) =
      (.inl (.ok name), left) ↔ utf8 name = uname ∧ left = rest := by
  have read : Gives stream readUserpass (authMessage uname passwd ++ rest) _ rest :=
    gives_readUserpass ulen plen rest
  rw [show readUserpass.run.run (answerBytes stream) _ = _ from read, ← decodeUtf8_eq_some_iff]
  cases decodeUtf8 uname <;> simp [eq_comm]

/-- Credentials are accepted exactly if the username is text. -/
theorem credentials_accepted_iff (ulen : uname.length ≤ 255) (plen : passwd.length ≤ 255) :
    (∃ name, Welcomed uname passwd name) ↔ ∃ text, utf8 text = uname := by
  constructor
  · rintro ⟨name, welcomed⟩
    exact ⟨name, ((readUserpass_eq_ok ulen plen).mp (welcomed.returns ⟨0⟩ [])).1⟩
  · rintro ⟨name, text⟩
    refine ⟨name, ?_, ?_, ?_⟩
    · exact fun stream rest => (readUserpass_eq_ok ulen plen).mpr ⟨text, rfl⟩
    · exact fun peer methods size offered => ⟨_, rfl, path_welcome peer size offered ulen plen text⟩
    · intro other passwd olen plen stream rest
      simp only [readUserpass_eq_ok olen plen, exists_and_left, exists_eq, and_true]
      rw [← text, eq_comm]

theorem credentials_accepted_iff_named :
    ∃ name, Welcomed [0x61, 0x6c, 0x69, 0x63, 0x65] [0xff, 0x00] name :=
  (credentials_accepted_iff (by decide) (by decide)).mpr ⟨"alice", by decide⟩

/-- The username of the one byte ff: the client is turned away without an answer. -/
theorem credentials_rejected : (¬ ∃ name, Welcomed [0xff] [] name) ∧
    Path (handle (.v4 ⟨⟨[10, 0, 0, 2], rfl⟩⟩ 4000)).run
      ([reading [5, 1], reading [2], writing [5, 2]] ++ authReads [0xff] [])
      (.pure (.error (.context "SOCKS username is not UTF-8" ⟨.utf8 [0xff], []⟩))) := by
  constructor
  · rintro ⟨name, welcomed⟩
    have read : Gives ⟨0⟩ readUserpass (authMessage [0xff] [] ++ []) _ [] :=
      gives_readUserpass (by decide) (by decide) []
    cases (welcomed.returns ⟨0⟩ []).symm.trans read
  · exact .cons .reply (.cons .reply (.cons .reply (.cons .reply (.cons .reply (.cons .reply
      (.cons .reply (.cons .reply .nil)))))))

end Tord.Socks
