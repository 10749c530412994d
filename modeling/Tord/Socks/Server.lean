import Tord.Error
import Tord.Lib.Interaction
import Tord.Metrics
import Tord.Streams

/-! The SOCKS5 server's `handle`, as a program over the calls that leave it: exact reads
and whole writes on the client stream, the shared counters and registry,
`TorManager::connect` and the splice. Every `?` and early return is one of `ExceptT`. -/
namespace Tord.Socks

open Interaction Text

abbrev socks5 : UInt8 := 0x05
abbrev methodNoauth : UInt8 := 0x00
abbrev methodUserpass : UInt8 := 0x02
abbrev methodNone : UInt8 := 0xff
abbrev authUserpassVer : UInt8 := 0x01
abbrev cmdConnect : UInt8 := 0x01
abbrev repSuccess : UInt8 := 0x00
abbrev repGeneralFailure : UInt8 := 0x01
abbrev repCmdNotSupported : UInt8 := 0x07
abbrev repAtypNotSupported : UInt8 := 0x08
abbrev atypIpv4 : UInt8 := 0x01
abbrev atypDomain : UInt8 := 0x03
abbrev atypIpv6 : UInt8 := 0x04

inductive Op where
  | readExact (n : Nat)
  | writeAll (bytes : List UInt8)
  | fetchAdd (counter : Counter) (n : UInt64)
  | register (peer : SocketAddr) (target : String) (isolation : Option String)
  | connect (host : String) (port : UInt16) (isoUser : Option String)
  | copyBidirectional (entry : Arc)
  | dropStream (stream : StreamHandle)
  deriving DecidableEq

/-- The opened `DataStream` is only passed on to the splice, so `connect` reports
whether there is one. -/
abbrev Op.Res : Op → Type
  | .readExact n => Except IoError (Buffer n)
  | .writeAll _ => Except IoError Unit
  | .fetchAdd _ _ => Unit
  | .register _ _ _ => StreamHandle
  | .connect _ _ _ => Except Error Unit
  | .copyBidirectional _ => Except IoError (UInt64 × UInt64)
  | .dropStream _ => Unit

abbrev Handler := ExceptT Error (Prog Op.Res)

def perform (op : Op) : Prog Op.Res op.Res := Prog.perform op

def readExact (n : Nat) : Handler (Buffer n) := ExceptT.mk do
  let filled : Except IoError (Buffer n) ← perform (.readExact n)
  return filled.mapError Error.ofIo

def writeAll (bytes : List UInt8) : Handler Unit := ExceptT.mk do
  let written : Except IoError Unit ← perform (.writeAll bytes)
  return written.mapError Error.ofIo

def context (text : String) (x : Handler α) : Handler α := ExceptT.mk do
  let result ← x.run
  return result.mapError (Error.context text)

def bail (text : String) : Handler α := throw (.msg text)

/-- `if !condition { bail!(text) }`. -/
def ensure (condition : Prop) [Decidable condition] (text : String) : Handler Unit :=
  if condition then pure () else bail text

/-- `String::from_utf8(bytes).context(text)`. -/
def fromUtf8 (bytes : List UInt8) (text : String) : Handler String :=
  match decodeUtf8 bytes with
  | some decoded => pure decoded
  | none => throw (.context text ⟨.utf8 bytes, []⟩)

/-- The bound address is reported as `0.0.0.0:0`. -/
def replyBytes (rep : UInt8) : List UInt8 := [socks5, rep, 0x00, atypIpv4, 0, 0, 0, 0, 0, 0]

def sendReply (rep : UInt8) : Handler Unit := writeAll (replyBytes rep)

def readUserpass : Handler String := do
  let ver ← context "reading RFC1929 auth version" (readExact 1)
  ensure (ver[0] = authUserpassVer) s!"bad RFC1929 auth version {ver[0]}"
  let ulen ← readExact 1
  let uname ← readExact ulen[0].toNat
  let plen ← readExact 1
  let _passwd ← readExact plen[0].toNat
  fromUtf8 uname.1 "SOCKS username is not UTF-8"

def readHost (atyp : UInt8) : Handler String :=
  if atyp = atypIpv4 then do
    let a ← readExact 4
    return Ipv4Addr.toString ⟨a⟩
  else if atyp = atypIpv6 then do
    let a ← readExact 16
    return Ipv6Addr.toString ⟨a⟩
  else if atyp = atypDomain then do
    let len ← readExact 1
    let name ← readExact len[0].toNat
    fromUtf8 name.1 "SOCKS domain name is not UTF-8"
  else bail s!"unsupported SOCKS address type {atyp}"

def readTarget (atyp : UInt8) : Handler (String × UInt16) := do
  let host ← readHost atyp
  let port ← readExact 2
  return (host, u16FromBeBytes port[0] port[1])

/-- Method negotiation (RFC 1928 §3), to the isolation username. -/
def negotiate : Handler (Option String) := do
  let greeting ← context "reading SOCKS greeting" (readExact 2)
  ensure (greeting[0] = socks5) s!"not a SOCKS5 client (version {greeting[0]})"
  let methods ← context "reading SOCKS auth methods" (readExact greeting[1].toNat)
  if methods.1.contains methodUserpass then do
    writeAll [socks5, methodUserpass]
    let isoUser ← readUserpass
    writeAll [authUserpassVer, repSuccess]
    return some isoUser
  else if methods.1.contains methodNoauth then do
    writeAll [socks5, methodNoauth]
    return none
  else do
    writeAll [socks5, methodNone]
    bail "client offered no acceptable SOCKS auth method"

/-- The connect request (RFC 1928 §4). -/
def readRequest : Handler (String × UInt16) := do
  let req ← context "reading SOCKS request" (readExact 4)
  ensure (req[0] = socks5) s!"bad SOCKS request version {req[0]}"
  if req[1] = cmdConnect then
    tryCatch (readTarget req[3]) fun e => do
      sendReply repAtypNotSupported
      throw e
  else do
    sendReply repCmdNotSupported
    bail s!"unsupported SOCKS command {req[1]} (only CONNECT)"

/-- The rest of the function after `register`: the local `stream` is dropped when it
ends, however it ends. -/
def withStream (peer : SocketAddr) (target : String) (isoUser : Option String)
    (body : StreamHandle → Handler α) : Handler α := ExceptT.mk do
  let stream : StreamHandle ← perform (.register peer target isoUser)
  let result ← (body stream).run
  let _dropped : Unit ← perform (.dropStream stream)
  return result

def fetchAdd (counter : Counter) : Handler Unit := ExceptT.mk do
  let _previous : Unit ← perform (.fetchAdd counter 1)
  return .ok ()

def connect (host : String) (port : UInt16) (isoUser : Option String) :
    Handler (Except Error Unit) := ExceptT.mk do
  let opened : Except Error Unit ← perform (.connect host port isoUser)
  return .ok opened

/-- The splice runs on a `Metered` client that counts into the entry. -/
def copyBidirectional (entry : Arc) : Handler (UInt64 × UInt64) := ExceptT.mk do
  let copied : Except IoError (UInt64 × UInt64) ← perform (.copyBidirectional entry)
  return copied.mapError Error.ofIo

/-- Open the anonymised stream (fail closed), then splice client and circuit. -/
def proxy (host : String) (port : UInt16) (isoUser : Option String) (stream : StreamHandle) :
    Handler Unit := do
  match ← connect host port isoUser with
  | .ok () => do
    sendReply repSuccess
    fetchAdd .connectsOk
    let _copied ← context "proxying SOCKS stream" (copyBidirectional stream.entry)
    return ()
  | .error e => do
    fetchAdd .connectsFailed
    sendReply repGeneralFailure
    throw (e.context "Tor CONNECT failed — failing closed")

def handle (peer : SocketAddr) : Handler Unit := do
  let isoUser ← negotiate
  let (host, port) ← readRequest
  let target := s!"{host}:{port}"
  fetchAdd .connectsTotal
  withStream peer target isoUser (proxy host port isoUser)

/-- The connection just closed: an io error of an end-of-connection kind in the chain. -/
def isBenignDisconnect (e : Error) : Bool :=
  e.chain.any fun
    | .io kind _ => kind = .unexpectedEof || kind = .brokenPipe ||
        kind = .connectionReset || kind = .connectionAborted
    | _ => false

theorem run_readExact (n : Nat) : (readExact n).run =
    .request (.readExact n) fun filled => .pure (Except.mapError Error.ofIo filled) := rfl

theorem run_context (text : String) (x : Handler α) :
    (context text x).run = x.run >>= fun result => .pure (result.mapError (Error.context text)) := rfl

theorem run_tryCatch (x : Handler α) (recover : Error → Handler α) :
    (tryCatch x recover).run = x.run >>= fun
      | .ok value => .pure (.ok value)
      | .error e => (recover e).run := by
  refine congrArg (x.run >>= ·) (funext fun result => ?_)
  cases result <;> rfl

theorem run_withStream (body : StreamHandle → Handler α) :
    (withStream peer target isoUser body).run =
      .request (.register peer target isoUser) fun stream => (body stream).run >>= fun result =>
        .request (.dropStream stream) fun _ => .pure result := rfl

/-- The rule for a block that holds a row: the row is dropped whatever the block returns. -/
theorem meets_withStream {c : Contract Op.Res σ} {body : StreamHandle → Handler α}
    (registers : c.demands s (.register peer target isoUser))
    (rest : ∀ stream, c.Meets
      (fun result t => c.Meets post (.request (.dropStream stream) fun _ => .pure result) t)
      (body stream).run (c.after s (.register peer target isoUser) stream)) :
    c.Meets post (withStream peer target isoUser body).run s := by
  rw [run_withStream]
  exact ⟨registers, fun stream _ => Contract.meets_bind.mpr (rest stream)⟩

end Tord.Socks
