import Mathlib.Logic.Basic

/-! `std::io::Error` and `anyhow::Error` as the daemon reads them: a kind, a text and
the chain of causes. -/
namespace Tord

/-- The stable kinds of `std::io::ErrorKind`. -/
inductive ErrorKind where
  | notFound | permissionDenied | connectionRefused | connectionReset | hostUnreachable
  | networkUnreachable | connectionAborted | notConnected | addrInUse | addrNotAvailable
  | networkDown | brokenPipe | alreadyExists | wouldBlock | notADirectory | isADirectory
  | directoryNotEmpty | readOnlyFilesystem | staleNetworkFileHandle | invalidInput
  | invalidData | timedOut | writeZero | storageFull | notSeekable | quotaExceeded
  | fileTooLarge | resourceBusy | executableFileBusy | deadlock | tooManyLinks
  | argumentListTooLong | interrupted | unsupported | unexpectedEof | outOfMemory | other
  deriving DecidableEq, Repr

/-- One link of an error chain. `utf8` is a `FromUtf8Error`, which keeps the bytes. -/
inductive Cause where
  | io (kind : ErrorKind) (text : String)
  | utf8 (bytes : List UInt8)
  | message (text : String)
  deriving DecidableEq, Repr

structure IoError where
  kind : ErrorKind
  text : String
  sources : List Cause
  deriving DecidableEq, Repr

/-- An `anyhow::Error`: the outermost error and what it was caused by. -/
structure Error where
  head : Cause
  sources : List Cause
  deriving DecidableEq, Repr

namespace Error

def chain (e : Error) : List Cause := e.head :: e.sources

def ofIo (e : IoError) : Error := ⟨.io e.kind e.text, e.sources⟩

def msg (text : String) : Error := ⟨.message text, []⟩

def context (text : String) (e : Error) : Error := ⟨.message text, e.chain⟩

@[simp] theorem chain_context (text : String) (e : Error) :
    (e.context text).chain = .message text :: e.chain := rfl

end Error

/-- What `read_exact` reports when the stream ends early. -/
def IoError.earlyEof : IoError := ⟨.unexpectedEof, "early eof", []⟩

end Tord
