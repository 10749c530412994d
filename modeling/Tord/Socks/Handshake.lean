import Tord.Socks.Wire

/-! The language of the handshake: what a client sends up to the end of its CONNECT
request. A value of these types is well formed by construction, and `handle` reaches
`connect` on exactly their encodings. -/
namespace Tord.Socks

open Interaction Text

variable {stream : StreamHandle}

def counted (bytes : List UInt8) : List UInt8 := .ofNat bytes.length :: bytes

structure Credentials where
  uname : String
  passwd : List UInt8
  uname_len : uname.utf8ByteSize ≤ 255
  passwd_len : passwd.length ≤ 255

def Credentials.bytes (c : Credentials) : List UInt8 :=
  authUserpassVer :: counted (utf8 c.uname) ++ counted c.passwd

/-- The offered methods, and the credentials exactly if username/password is offered. -/
structure Negotiation where
  methods : List UInt8
  auth : Option Credentials
  methods_len : methods.length ≤ 255
  selected : if methodUserpass ∈ methods then auth.isSome else methodNoauth ∈ methods ∧ auth = none

namespace Negotiation

def bytes (n : Negotiation) : List UInt8 :=
  socks5 :: counted n.methods ++ n.auth.elim [] Credentials.bytes

def user (n : Negotiation) : Option String := n.auth.map (·.uname)

end Negotiation

inductive Address where
  | ipv4 (ip : Ipv4Addr)
  | ipv6 (ip : Ipv6Addr)
  | domain (name : String) (len : name.utf8ByteSize ≤ 255)

namespace Address

def atyp : Address → UInt8
  | .ipv4 _ => atypIpv4
  | .ipv6 _ => atypIpv6
  | .domain _ _ => atypDomain

def bytes : Address → List UInt8
  | .ipv4 ip => ip.octets.1
  | .ipv6 ip => ip.octets.1
  | .domain name _ => counted (utf8 name)

theorem atyp_eq_ipv4 {address : Address} : address.atyp = atypIpv4 ↔ ∃ ip, address = .ipv4 ip := by
  cases address <;> simp +decide [atyp]

theorem atyp_eq_ipv6 {address : Address} : address.atyp = atypIpv6 ↔ ∃ ip, address = .ipv6 ip := by
  cases address <;> simp +decide [atyp]

theorem atyp_eq_domain {address : Address} :
    address.atyp = atypDomain ↔ ∃ name len, address = .domain name len := by
  cases address with
  | domain name len => exact ⟨fun _ => ⟨name, len, rfl⟩, fun _ => rfl⟩
  | _ => simp +decide [atyp]

/-- The standard text of an address, a domain name verbatim. -/
def host : Address → String
  | .ipv4 ip => ip.toString
  | .ipv6 ip => ip.toString
  | .domain name _ => name

end Address

structure Request where
  rsv : UInt8
  address : Address
  port : UInt16

def Request.bytes (r : Request) : List UInt8 :=
  [socks5, cmdConnect, r.rsv, r.address.atyp] ++ (r.address.bytes ++ beBytes r.port)

structure Handshake where
  negotiation : Negotiation
  request : Request

namespace Handshake

def bytes (hs : Handshake) : List UInt8 := hs.negotiation.bytes ++ hs.request.bytes

def call (hs : Handshake) : Op :=
  .connect hs.request.address.host hs.request.port hs.negotiation.user

end Handshake

theorem toNat_ofNat_length (bytes : List UInt8) (bound : bytes.length ≤ 255) :
    (UInt8.ofNat bytes.length).toNat = bytes.length :=
  UInt8.toNat_ofNat_of_lt' (show _ < 256 by omega)

/-- A length byte and then that many bytes. -/
theorem parses_counted {f : List UInt8 → Handler β} {following : List UInt8 → List UInt8 → β → Prop}
    (rest : ∀ body, Parses stream (f body) (following body)) :
    Parses stream
      (do let len ← readExact 1; let body ← readExact (getElem len 0 (by decide)).toNat; f body.1)
      fun word b => ∃ body back, body.length ≤ 255 ∧ following body back b ∧
        word = counted body ++ back := by
  refine (Parses.bind (.readExact 1) fun len =>
    .bind (.readExact len[0].toNat) fun body => rest body.1).congr fun word b => ?_
  constructor
  · rintro ⟨_, _, len, rfl, ⟨_, back, body, rfl, follows, rfl⟩, rfl⟩
    have small := len[0].toNat_lt
    refine ⟨body.1, back, ?_, follows, ?_⟩
    · rw [body.2]; omega
    · simp [counted, len.one, body.2]
  · rintro ⟨body, back, bound, follows, rfl⟩
    exact ⟨[UInt8.ofNat body.length], body ++ back, ⟨[_], rfl⟩, rfl,
      ⟨body, back, ⟨body, (toNat_ofNat_length body bound).symm⟩, rfl, follows, rfl⟩, rfl⟩

theorem parses_readUserpass : Parses stream readUserpass fun word name =>
    ∃ c : Credentials, word = c.bytes ∧ name = c.uname := by
  refine (Parses.bind (.context _ (.readExact 1)) fun ver => .bind (.ensure _ _) fun _ =>
    parses_counted (f := fun uname => do
        let plen ← readExact 1
        let _passwd ← readExact plen[0].toNat
        fromUtf8 uname "SOCKS username is not UTF-8")
      fun uname => parses_counted (f := fun _ => fromUtf8 uname "SOCKS username is not UTF-8")
        fun _ => .fromUtf8 uname _).congr fun word name => ?_
  constructor
  · rintro ⟨_, _, ver, rfl, ⟨_, _, _, ⟨rfl, version⟩, ⟨uname, _, ulen,
      ⟨passwd, _, plen, ⟨rfl, rfl⟩, rfl⟩, rfl⟩, rfl⟩, rfl⟩
    exact ⟨⟨name, passwd, ulen, plen⟩, by simp [Credentials.bytes, ver.one, version], rfl⟩
  · rintro ⟨c, rfl, rfl⟩
    exact ⟨[1], _, ⟨[1], rfl⟩, rfl, ⟨[], _, (), ⟨rfl, rfl⟩, ⟨utf8 c.uname, _, c.uname_len,
      ⟨c.passwd, [], c.passwd_len, ⟨rfl, rfl⟩, rfl⟩, rfl⟩, rfl⟩, by simp [Credentials.bytes]⟩

theorem parses_ite {c : Prop} [Decidable c] {x y : Handler β} {yes no : List UInt8 → β → Prop}
    (left : Parses stream x yes) (right : Parses stream y no) :
    Parses stream (if c then x else y) fun word b => if c then yes word b else no word b := by
  by_cases h : c <;> simpa [h]

theorem parses_readHost (atyp : UInt8) : Parses stream (readHost atyp) fun word host =>
    ∃ address : Address, address.atyp = atyp ∧ word = address.bytes ∧ host = address.host := by
  refine (parses_ite (.bind (.readExact 4) fun _ => .pure _)
    (parses_ite (.bind (.readExact 16) fun _ => .pure _)
      (parses_ite (parses_counted (f := fun name => fromUtf8 name "SOCKS domain name is not UTF-8")
        fun name => .fromUtf8 name _) (.bail _)))).congr fun word host => ?_
  split
  · next v4 =>
    subst v4
    constructor
    · rintro ⟨_, _, a, rfl, ⟨rfl, rfl⟩, rfl⟩
      exact ⟨.ipv4 ⟨a⟩, rfl, by simp [Address.bytes], rfl⟩
    · rintro ⟨address, kind, rfl, rfl⟩
      obtain ⟨ip, rfl⟩ := Address.atyp_eq_ipv4.mp kind
      exact ⟨_, [], ip.octets, rfl, ⟨rfl, rfl⟩, by simp [Address.bytes]⟩
  split
  · next v6 =>
    subst v6
    constructor
    · rintro ⟨_, _, a, rfl, ⟨rfl, rfl⟩, rfl⟩
      exact ⟨.ipv6 ⟨a⟩, rfl, by simp [Address.bytes], rfl⟩
    · rintro ⟨address, kind, rfl, rfl⟩
      obtain ⟨ip, rfl⟩ := Address.atyp_eq_ipv6.mp kind
      exact ⟨_, [], ip.octets, rfl, ⟨rfl, rfl⟩, by simp [Address.bytes]⟩
  split
  · next name =>
    subst name
    constructor
    · rintro ⟨_, _, len, ⟨rfl, rfl⟩, rfl⟩
      exact ⟨.domain host len, rfl, by simp [Address.bytes], rfl⟩
    · rintro ⟨address, kind, rfl, rfl⟩
      obtain ⟨name, len, rfl⟩ := Address.atyp_eq_domain.mp kind
      exact ⟨utf8 name, [], len, ⟨rfl, rfl⟩, by simp [Address.bytes]⟩
  · next notV4 notV6 notName =>
    refine ⟨False.elim, ?_⟩
    rintro ⟨address, rfl, -, -⟩
    cases address with
    | ipv4 ip => exact notV4 rfl
    | ipv6 ip => exact notV6 rfl
    | domain name len => exact notName rfl

theorem parses_readTarget (atyp : UInt8) : Parses stream (readTarget atyp) fun word target =>
    ∃ (address : Address) (port : UInt16), address.atyp = atyp ∧
      word = address.bytes ++ beBytes port ∧ target = (address.host, port) := by
  refine (Parses.bind (parses_readHost atyp) fun host => .bind (.readExact 2) fun port =>
    .pure _).congr fun word target => ?_
  constructor
  · rintro ⟨_, _, host, ⟨address, kind, rfl, rfl⟩, ⟨_, _, port, rfl, ⟨rfl, rfl⟩, rfl⟩, rfl⟩
    exact ⟨address, _, kind, by rw [beBytes_u16FromBeBytes, List.append_nil, port.two], rfl⟩
  · rintro ⟨address, port, kind, rfl, rfl⟩
    exact ⟨_, _, _, ⟨address, kind, rfl, rfl⟩, ⟨beBytes port, [], ⟨beBytes port, rfl⟩, rfl,
      ⟨rfl, congrArg _ (u16FromBeBytes_div_mod port).symm⟩, by simp⟩, rfl⟩

theorem parses_negotiate : Parses stream negotiate fun word user =>
    ∃ n : Negotiation, word = n.bytes ∧ user = n.user := by
  refine (Parses.bind (.context _ (.readExact 2)) fun greeting => .bind (.ensure _ _) fun _ =>
    .bind (.context _ (.readExact greeting[1].toNat)) fun methods =>
      parses_ite (.bind (.writeAll _) fun _ => .bind parses_readUserpass fun _ =>
          .bind (.writeAll _) fun _ => .pure _)
        (parses_ite (.bind (.writeAll _) fun _ => .pure _)
          (.bind (.writeAll _) fun _ => .bail _))).congr fun word user => ?_
  constructor
  · rintro ⟨_, _, greeting, rfl, ⟨_, _, _, ⟨rfl, version⟩, ⟨_, _, methods, rfl, tail, rfl⟩, rfl⟩, rfl⟩
    have small := greeting[1].toNat_lt
    have bound : methods.1.length ≤ 255 := by rw [methods.2]; omega
    have count : UInt8.ofNat methods.1.length = greeting[1] := by rw [methods.2, UInt8.ofNat_toNat]
    split at tail
    · next offered =>
      obtain ⟨_, _, _, rfl, ⟨_, _, _, ⟨c, rfl, rfl⟩, ⟨_, _, _, rfl, ⟨rfl, rfl⟩, rfl⟩, rfl⟩, rfl⟩ := tail
      refine ⟨⟨methods.1, some c, bound, ?_⟩, ?_, rfl⟩
      · rw [if_pos (List.contains_iff_mem.mp offered)]; rfl
      · simp [Negotiation.bytes, counted, count, greeting.two, version]
    · next declined =>
      split at tail
      · next open_ =>
        obtain ⟨_, _, _, rfl, ⟨rfl, rfl⟩, rfl⟩ := tail
        refine ⟨⟨methods.1, none, bound, ?_⟩, ?_, rfl⟩
        · rw [if_neg (by simpa using declined)]
          exact ⟨List.contains_iff_mem.mp open_, rfl⟩
        · simp [Negotiation.bytes, counted, count, greeting.two, version]
      · obtain ⟨_, _, _, _, impossible, _⟩ := tail
        exact impossible.elim
  · rintro ⟨⟨methods, auth, bound, selected⟩, rfl, rfl⟩
    refine ⟨[socks5, .ofNat methods.length], methods ++ auth.elim [] Credentials.bytes,
      ⟨[_, _], rfl⟩, rfl, ⟨[], _, (), ⟨rfl, rfl⟩, ⟨methods, auth.elim [] Credentials.bytes,
        ⟨methods, (toNat_ofNat_length methods bound).symm⟩, rfl, ?_, rfl⟩, rfl⟩, rfl⟩
    by_cases offered : methodUserpass ∈ methods
    · rw [if_pos offered] at selected
      obtain ⟨c, rfl⟩ := Option.isSome_iff_exists.mp selected
      rw [if_pos (List.contains_iff_mem.mpr offered)]
      exact ⟨[], _, (), rfl, ⟨c.bytes, [], c.uname, ⟨c, rfl, rfl⟩,
        ⟨[], [], (), rfl, ⟨rfl, rfl⟩, rfl⟩, by simp [Credentials.bytes]⟩, rfl⟩
    · rw [if_neg offered] at selected
      obtain ⟨openly, rfl⟩ := selected
      rw [if_neg (by simpa using offered), if_pos (List.contains_iff_mem.mpr openly)]
      exact ⟨[], [], (), rfl, ⟨rfl, rfl⟩, rfl⟩

theorem parses_readRequest : Parses stream readRequest fun word target =>
    ∃ r : Request, word = r.bytes ∧ target = (r.address.host, r.port) := by
  refine (Parses.bind (.context _ (.readExact 4)) fun req => .bind (.ensure _ _) fun _ =>
    parses_ite (.tryCatch (parses_readTarget req[3]) fun e =>
        (Parses.bind (.writeAll _) fun _ => .throw e).congr (by simp))
      (.bind (.writeAll _) fun _ => .bail _)).congr fun word target => ?_
  constructor
  · rintro ⟨_, _, req, rfl, ⟨_, _, _, ⟨rfl, version⟩, tail, rfl⟩, rfl⟩
    split at tail
    · next command =>
      obtain ⟨address, port, kind, rfl, rfl⟩ := tail
      exact ⟨⟨req[2], address, port⟩, by simp [Request.bytes, req.four, version, command, kind], rfl⟩
    · obtain ⟨_, _, _, _, impossible, _⟩ := tail
      exact impossible.elim
  · rintro ⟨r, rfl, rfl⟩
    exact ⟨[socks5, cmdConnect, r.rsv, r.address.atyp], _, ⟨[_, _, _, _], rfl⟩, rfl,
      ⟨[], _, (), ⟨rfl, rfl⟩, ⟨r.address, r.port, rfl, rfl, rfl⟩, rfl⟩, rfl⟩

/-- `handle` up to `connect`: negotiation and request with what they yield. -/
def decode : Handler (Option String × String × UInt16) := do
  let isoUser ← negotiate
  let target ← readRequest
  return (isoUser, target)

theorem handle_eq (peer : SocketAddr) : handle peer = (decode >>= fun (isoUser, host, port) => do
    fetchAdd .connectsTotal
    withStream peer s!"{host}:{port}" isoUser (proxy host port isoUser)) := by
  simp [handle, decode]

theorem parses_decode : Parses stream decode fun word result =>
    ∃ hs : Handshake, word = hs.bytes ∧
      result = (hs.negotiation.user, hs.request.address.host, hs.request.port) := by
  refine (Parses.bind parses_negotiate fun _ => .bind parses_readRequest fun _ =>
    .pure _).congr fun word result => ?_
  constructor
  · rintro ⟨_, _, _, ⟨n, rfl, rfl⟩, ⟨_, _, _, ⟨r, rfl, rfl⟩, ⟨rfl, rfl⟩, rfl⟩, rfl⟩
    exact ⟨⟨n, r⟩, by simp [Handshake.bytes], rfl⟩
  · rintro ⟨hs, rfl, rfl⟩
    exact ⟨_, _, _, ⟨hs.negotiation, rfl, rfl⟩, ⟨_, [], _, ⟨hs.request, rfl, rfl⟩,
      ⟨rfl, rfl⟩, by simp⟩, rfl⟩

def Op.Reads : Op → Prop
  | .readExact _ => True
  | _ => False

def Op.Talks : Op → Prop
  | .readExact _ | .writeAll _ => True
  | _ => False

def Asks (allowed : Op → Prop) (x : Handler α) : Prop := x.run.Uses allowed

namespace Asks

variable {allowed : Op → Prop}

theorem pure (value : α) : Asks allowed (Pure.pure value) := trivial

theorem throw (e : Error) : Asks allowed (throw e : Handler α) := trivial

theorem readExact (n : Nat) (reads : allowed (.readExact n)) : Asks allowed (readExact n) :=
  ⟨reads, fun _ => trivial⟩

theorem writeAll (bytes : List UInt8) (writes : allowed (.writeAll bytes)) :
    Asks allowed (writeAll bytes) :=
  ⟨writes, fun _ => trivial⟩

theorem bind {x : Handler α} {f : α → Handler β} (first : Asks allowed x)
    (rest : ∀ value, Asks allowed (f value)) : Asks allowed (x >>= f) := by
  refine Prog.Uses.bind first fun result => ?_
  cases result with
  | ok value => exact rest value
  | error e => trivial

theorem context (text : String) {x : Handler α} (asks : Asks allowed x) :
    Asks allowed (context text x) :=
  Prog.Uses.bind asks fun _ => trivial

theorem ite {c : Prop} [Decidable c] {x y : Handler α} (left : Asks allowed x)
    (right : Asks allowed y) : Asks allowed (if c then x else y) := by
  by_cases h : c <;> simpa [h]

theorem ensure (condition : Prop) [Decidable condition] (text : String) :
    Asks allowed (ensure condition text) :=
  ite (pure ()) (throw _)

theorem fromUtf8 (bytes : List UInt8) (text : String) : Asks allowed (fromUtf8 bytes text) := by
  unfold Socks.fromUtf8
  split
  · exact pure _
  · exact throw _

theorem tryCatch {x : Handler α} {recover : Error → Handler α} (asks : Asks allowed x)
    (recovers : ∀ e, Asks allowed (recover e)) : Asks allowed (tryCatch x recover) := by
  rw [Asks, run_tryCatch]
  refine Prog.Uses.bind asks fun result => ?_
  cases result with
  | ok value => trivial
  | error e => exact recovers e

end Asks

theorem asks_readUserpass {allowed : Op → Prop} (reads : ∀ n, allowed (.readExact n)) :
    Asks allowed readUserpass :=
  .bind (.context _ (.readExact 1 (reads _))) fun _ => .bind (.ensure _ _) fun _ =>
    .bind (.readExact 1 (reads _)) fun _ => .bind (.readExact _ (reads _)) fun _ =>
      .bind (.readExact 1 (reads _)) fun _ => .bind (.readExact _ (reads _)) fun _ => .fromUtf8 _ _

theorem asks_readTarget {allowed : Op → Prop} (reads : ∀ n, allowed (.readExact n)) (atyp : UInt8) :
    Asks allowed (readTarget atyp) :=
  .bind (.ite (.bind (.readExact 4 (reads _)) fun _ => .pure _)
    (.ite (.bind (.readExact 16 (reads _)) fun _ => .pure _)
      (.ite (.bind (.readExact 1 (reads _)) fun _ => .bind (.readExact _ (reads _)) fun _ =>
        .fromUtf8 _ _) (.throw _))))
    fun _ => .bind (.readExact 2 (reads _)) fun _ => .pure _

theorem asks_negotiate {allowed : Op → Prop} (reads : ∀ n, allowed (.readExact n))
    (writes : ∀ bytes, bytes.length = 2 → allowed (.writeAll bytes)) : Asks allowed negotiate :=
  .bind (.context _ (.readExact 2 (reads _))) fun _ => .bind (.ensure _ _) fun _ =>
    .bind (.context _ (.readExact _ (reads _))) fun _ =>
      .ite (.bind (.writeAll _ (writes _ rfl)) fun _ =>
          .bind (asks_readUserpass reads) fun _ => .bind (.writeAll _ (writes _ rfl)) fun _ => .pure _)
        (.ite (.bind (.writeAll _ (writes _ rfl)) fun _ => .pure _)
          (.bind (.writeAll _ (writes _ rfl)) fun _ => .throw _))

theorem asks_readRequest {allowed : Op → Prop} (reads : ∀ n, allowed (.readExact n))
    (writes : ∀ rep, allowed (.writeAll (replyBytes rep))) : Asks allowed readRequest :=
  .bind (.context _ (.readExact 4 (reads _))) fun _ => .bind (.ensure _ _) fun _ =>
    .ite (.tryCatch (asks_readTarget reads _) fun _ => .bind (.writeAll _ (writes _)) fun _ => .throw _)
      (.bind (.writeAll _ (writes _)) fun _ => .throw _)

theorem talks_decode : Asks Op.Talks decode :=
  .bind (asks_negotiate (fun _ => trivial) fun _ _ => trivial) fun _ =>
    .bind (asks_readRequest (fun _ => trivial) fun _ => trivial) fun _ => .pure _

/-- On an unfragmented stream. -/
theorem run_handle_iff (peer : SocketAddr) (s rest : List UInt8) (host : String) (port : UInt16)
    (isoUser : Option String) :
    (handle peer).run.run (answerBytes stream) s = (.inr (.connect host port isoUser), rest) ↔
      ∃ hs : Handshake, hs.call = .connect host port isoUser ∧ s = hs.bytes ++ rest := by
  have reading : Parses stream decode _ := parses_decode
  obtain ⟨result, returned⟩ := reading.returns s
  have accepted := reading.accepts s
  rw [handle_eq, ExceptT.run_bind, run_bind]
  generalize decode.run.run (answerBytes stream) s = outcome at *
  obtain ⟨ending, left⟩ := outcome
  cases returned
  cases result with
  | error e =>
    constructor
    · intro h
      change ((.inl (.error e), left) : (Except Error Unit ⊕ Op) × _) = _ at h
      simp at h
    · rintro ⟨hs, -, rfl⟩
      have := (accepted _ rest).mpr ⟨_, ⟨hs, rfl, rfl⟩, rfl⟩
      simp at this
  | ok value =>
    obtain ⟨user, name, number⟩ := value
    -- the counter and the registry are answered, `connect` is where the run stops
    change ((.inr (.connect name number user), left) : (Except Error Unit ⊕ Op) × _) = _ ↔ _
    obtain ⟨_, ⟨hs, rfl, same⟩, rfl⟩ := (accepted (user, name, number) left).mp rfl
    constructor
    · intro h
      simp only [Prod.mk.injEq, Sum.inr.injEq] at h same
      obtain ⟨call, rfl⟩ := h
      obtain ⟨rfl, rfl, rfl⟩ := same
      exact ⟨hs, call, rfl⟩
    · rintro ⟨other, call, split⟩
      have found := (accepted _ rest).mpr ⟨_, ⟨other, rfl, rfl⟩, split⟩
      simp only [Prod.mk.injEq, Sum.inl.injEq, Except.ok.injEq] at found
      obtain ⟨⟨rfl, rfl, rfl⟩, rfl⟩ := found
      rw [← call]
      rfl

/-- Handshakes are prefix-free, and their bytes say what they call. -/
theorem handshake_prefix_free {first second : Handshake} {x y : List UInt8}
    (same : first.bytes ++ x = second.bytes ++ y) :
    first.bytes = second.bytes ∧ first.call = second.call ∧ x = y := by
  have peer : SocketAddr := .v4 ⟨⟨[0, 0, 0, 0], rfl⟩⟩ 0
  have run (hs : Handshake) (rest : List UInt8) :
      (handle peer).run.run (answerBytes ⟨0⟩) (hs.bytes ++ rest) = (.inr hs.call, rest) :=
    (run_handle_iff peer _ _ _ _ _).mpr ⟨hs, rfl, rfl⟩
  have twice := run second y
  rw [← same, run first x] at twice
  simp only [Prod.mk.injEq, Sum.inr.injEq] at twice
  obtain ⟨call, rfl⟩ := twice
  exact ⟨List.append_cancel_right same, call, rfl⟩

/-- The decoder accepts exactly its grammar and consumes exactly the handshake. -/
theorem handle_accepts_grammar (peer : SocketAddr) (stream : StreamHandle)
    (fragments : List (List UInt8)) :
    (∀ word host port isoUser,
      (∃ left, (handle peer).run.run (answerFragments stream) fragments =
          (.inr (.connect host port isoUser), left) ∧ fragments.flatten = word ++ left.flatten) ↔
        ∃ hs : Handshake, hs.call = .connect host port isoUser ∧ hs.bytes = word ∧
          word <+: fragments.flatten) ∧
    (∀ first second : Handshake, first.bytes <+: fragments.flatten →
      second.bytes <+: fragments.flatten →
      first.bytes = second.bytes ∧ first.call = second.call) ∧
    (∀ (hs : Handshake) (payload : List UInt8), fragments.flatten = hs.bytes ++ payload →
      ∃ left, (handle peer).run.run (answerFragments stream) fragments = (.inr hs.call, left) ∧
        left.flatten = payload) := by
  have whole : (handle peer).run.run (answerBytes stream) fragments.flatten = _ :=
    run_fragments (handle peer).run fragments
  generalize run : (handle peer).run.run (answerFragments stream) fragments = outcome at *
  obtain ⟨ending, left⟩ := outcome
  simp only at whole
  have complete : ∀ (hs : Handshake) (payload : List UInt8),
      fragments.flatten = hs.bytes ++ payload → ending = .inr hs.call ∧ left.flatten = payload := by
    intro hs payload split
    have reached := (@run_handle_iff stream peer fragments.flatten payload
      _ _ _).mpr ⟨hs, rfl, split⟩
    rw [whole] at reached
    exact ⟨congrArg Prod.fst reached, congrArg Prod.snd reached⟩
  refine ⟨fun word host port isoUser => ⟨?_, ?_⟩, ?_, ?_⟩
  · rintro ⟨_, reached, split⟩
    obtain ⟨rfl, rfl⟩ := Prod.mk.inj reached
    obtain ⟨hs, call, same⟩ := (run_handle_iff peer _ _ _ _ _).mp whole
    obtain rfl : word = hs.bytes := List.append_cancel_right (split.symm.trans same)
    exact ⟨hs, call, rfl, left.flatten, split.symm⟩
  · rintro ⟨hs, call, rfl, payload, split⟩
    obtain ⟨rfl, rfl⟩ := complete hs payload split.symm
    exact ⟨left, by rw [call], split.symm⟩
  · rintro first second ⟨x, hx⟩ ⟨y, hy⟩
    obtain ⟨bytes, call, -⟩ := handshake_prefix_free (hx.trans hy.symm)
    exact ⟨bytes, call⟩
  · intro hs payload split
    obtain ⟨rfl, rfl⟩ := complete hs payload split
    exact ⟨left, rfl, rfl⟩

end Tord.Socks
