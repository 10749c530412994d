import Tord.Error
import Tord.Format
import Tord.Metrics
import Tord.Streams
import Tord.Tor

/-! Control socket: one request line in, one line of JSON out. Building a value from a
snapshot cannot fail, so the two replies for such a failure are left out. -/
namespace Tord

open Text

structure ControlState where
  started : Nat
  socksListen : SocketAddr
  metrics : Metrics
  bootstrap : BootstrapState
  streams : StreamRegistry

/-- What else a reply depends on: the clock in nanoseconds, what raising SIGHUP returns,
and the tables that the text of an unknown command is escaped by. -/
structure Host where
  now : Nat
  raise : Except String Unit
  tables : CharTables

inductive Reply where
  | ok (payload : Value)
  | error (message : String)

/-- The document of an internally tagged reply: the tag, then the members of the payload. -/
def Reply.document : Reply → Option Value
  | .ok (.object members) => some (.object (("status", .string "ok") :: members))
  | .ok .null => some (.object [("status", .string "ok")])
  | .ok _ => none
  | .error message => some (.object [("status", .string "error"), ("message", .string message)])

def Reply.tag : Reply → String
  | .ok _ => "ok"
  | .error _ => "error"

/-- The members of the payload, which for an error is its message. -/
def Reply.members : Reply → List (String × Value)
  | .ok (.object members) => members
  | .ok _ => []
  | .error message => [("message", .string message)]

def Metrics.toValue (m : Metrics) : Value := .ofMembers [
  ("connects_total", .ofU64 m.connectsTotal), ("connects_ok", .ofU64 m.connectsOk),
  ("connects_failed", .ofU64 m.connectsFailed), ("bytes_to_upstream", .ofU64 m.bytesToUpstream),
  ("bytes_to_client", .ofU64 m.bytesToClient)]

def StreamSnapshot.toValue (row : StreamSnapshot) : Value := .ofMembers [
  ("id", .ofU64 row.id), ("peer", .string row.peer), ("target", .string row.target),
  ("isolation", .ofOption row.isolation), ("age_secs", .ofU64 row.ageSecs),
  ("bytes_to_upstream", .ofU64 row.bytesToUpstream), ("bytes_to_client", .ofU64 row.bytesToClient)]

namespace Control

def dispatch (host : Host) (state : ControlState) (cmd : String) : Reply :=
  match cmd with
  | "ping" => .ok (.ofMembers [("pong", .bool true)])
  | "status" =>
    let bs := state.bootstrap.snapshot
    .ok (.ofMembers [
      ("uptime_secs", .ofU64 (.ofNat ((host.now - state.started) / 10 ^ 9))),
      ("socks_listen", .string state.socksListen.toString),
      ("tor", .ofMembers [("ready", .bool bs.ready), ("fraction", .ofF32 bs.fraction),
        ("blocked", .ofOption bs.blocked)])])
  | "stats" =>
    match state.metrics.toValue with
    | .object obj =>
      .ok (.object (SortedMap.insert "streams_active" (.ofU64 (.ofNat state.streams.len)) obj))
    | v => .ok v
  | "streams" =>
    .ok (.ofMembers [("streams",
      .array ((state.streams.snapshot host.now).map StreamSnapshot.toValue))])
  | "reload" =>
    match host.raise with
    | .ok () => .ok (.ofMembers [("reload", .string "signalled")])
    | .error e => .error s!"raise SIGHUP: {e}"
  | other => .error s!"unknown command {debug host.tables other}"

def readLine (source : List UInt8) : Option String :=
  decodeUtf8 (source.takeWhile (· ≠ 0x0a) ++ (source.dropWhile (· ≠ 0x0a)).take 1)

/-- What is written in answer to the bytes of a request. -/
def handle (serde : Serde) (host : Host) (state : ControlState) (source : List UInt8) :
    Option String := do
  let line ← readLine source
  let document ← (dispatch host state (trim line)).document
  return serde.toString document ++ "\n"

structure Socket where
  connect : Except IoError Unit
  write : Except IoError Unit
  read : Except IoError Unit

def Socket.outcome (socket : Socket) : Except IoError Unit :=
  socket.connect.bind fun _ => socket.write.bind fun _ => socket.read

/-- The client half: one command line, and all that comes back from a daemon that is not
stopped before it has answered. -/
def query (serde : Serde) (host : Host) (state : ControlState) (socket : Socket) (command : String) :
    Except IoError String := do
  socket.connect
  socket.write
  socket.read
  return (handle serde host state (utf8 (command ++ "\n"))).getD ""

/-- Members of a payload: read back as they are, and none in the place of the tag. -/
structure Framed (members : List (String × Value)) : Prop where
  sorted : SortedMap.Sorted members
  canonical : ∀ member ∈ members, member.2.Canonical
  untagged : ∀ member ∈ members, member.1 ≠ "status"

theorem framed_collect {members : List (String × Value)}
    (canonical : ∀ member ∈ members, member.2.Canonical)
    (untagged : ∀ member ∈ members, member.1 ≠ "status") : Framed (SortedMap.collect members) where
  sorted := SortedMap.sorted_collect members
  canonical member here := canonical member (SortedMap.mem_collect here)
  untagged member here := untagged member (SortedMap.mem_collect here)

theorem Framed.insert (framed : Framed members) (canonical : v.Canonical) (untagged : key ≠ "status") :
    Framed (SortedMap.insert key v members) where
  sorted := SortedMap.sorted_insert framed.sorted key v
  canonical member here := by
    rcases SortedMap.mem_insert here with rfl | earlier
    · exact canonical
    · exact framed.canonical member earlier
  untagged member here := by
    rcases SortedMap.mem_insert here with rfl | earlier
    · exact untagged
    · exact framed.untagged member earlier

theorem canonical_toValue (row : StreamSnapshot) : row.toValue.Canonical := by
  refine Value.canonical_ofMembers ?_
  simp [Value.canonical_ofU64, Value.canonical_string, Value.canonical_ofOption]

def streamsOf (members : List (String × Value)) : Option (List Value) :=
  (SortedMap.lookup "streams" members).bind Value.asArray

/-- A payload is an object that the tag does not clash with, and it has an array of
streams exactly for `streams`. -/
theorem dispatch_ok (replied : dispatch host state cmd = .ok payload) :
    ∃ members, payload = .object members ∧ Framed members ∧
      ((streamsOf members).isSome ↔ cmd = "streams") := by
  unfold dispatch at replied
  split at replied
  · cases replied
    refine ⟨_, rfl, framed_collect ?_ ?_, ?_⟩
    · simp [Value.canonical_bool]
    · simp
    · simp [streamsOf, SortedMap.collect, SortedMap.lookup]
  · cases replied
    have tor : (Value.ofMembers [("ready", .bool state.bootstrap.snapshot.ready),
        ("fraction", .ofF32 state.bootstrap.snapshot.fraction),
        ("blocked", .ofOption state.bootstrap.snapshot.blocked)]).Canonical := by
      refine Value.canonical_ofMembers ?_
      simp [Value.canonical_bool, Value.canonical_ofF32, Value.canonical_ofOption]
    refine ⟨_, rfl, framed_collect ?_ ?_, ?_⟩
    · simp [Value.canonical_ofU64, Value.canonical_string, tor]
    · simp
    · simp [streamsOf, SortedMap.collect, SortedMap.lookup]
  · obtain rfl : payload = .object (SortedMap.insert "streams_active"
        (.ofU64 (.ofNat state.streams.len)) (SortedMap.collect _)) := (Reply.ok.inj replied).symm
    refine ⟨_, rfl, (framed_collect ?_ ?_).insert (Value.canonical_ofU64 _) (by decide), ?_⟩
    · simp [Value.canonical_ofU64]
    · simp
    · simp [streamsOf, SortedMap.collect, SortedMap.lookup]
  · cases replied
    refine ⟨_, rfl, framed_collect ?_ ?_, ?_⟩
    · simp only [List.mem_singleton, forall_eq]
      refine Value.canonical_array fun v member => ?_
      obtain ⟨row, -, rfl⟩ := List.mem_map.mp member
      exact canonical_toValue row
    · simp
    · simp [streamsOf, SortedMap.collect, Value.asArray]
  · split at replied
    · cases replied
      refine ⟨_, rfl, framed_collect ?_ ?_, ?_⟩
      · simp [Value.canonical_string]
      · simp
      · simp [streamsOf, SortedMap.collect, SortedMap.lookup]
    · cases replied
  · cases replied

theorem document_dispatch (host : Host) (state : ControlState) (cmd : String) :
    (dispatch host state cmd).document = some (.object
        (("status", .string (dispatch host state cmd).tag) :: (dispatch host state cmd).members)) ∧
      Framed (dispatch host state cmd).members := by
  cases replied : dispatch host state cmd with
  | ok payload =>
    obtain ⟨members, rfl, framed, -⟩ := dispatch_ok replied
    exact ⟨rfl, framed⟩
  | error message =>
    refine ⟨rfl, List.pairwise_singleton _ _, ?_, ?_⟩
    · simp [Reply.members, Value.canonical_string]
    · simp [Reply.members]

/-- The one difference between a payload and what is read back of its document. -/
theorem normal_document (framed : Framed members) (tag : String) :
    Value.normal (.object (("status", .string tag) :: members)) =
      .object (SortedMap.insert "status" (.string tag) members) :=
  Value.normal_cons (Value.canonical_string tag) framed.sorted framed.canonical framed.untagged

theorem dispatch_error (replied : dispatch host state cmd = .error message) : cmd ≠ "streams" := by
  rintro rfl
  cases replied

/-- The line that answers a command holds the reply, and `tord query` reads it so. -/
structure Agrees (serde : Serde) (cmd : String) (reply : Reply) (written : String) : Prop where
  line : ∃ text, written = text ++ "\n" ∧ OneLine text
  payload : ∀ payload, reply = .ok payload → payload = .object reply.members
  /-- As written, too, no key comes twice. -/
  once : ∃ document, reply.document = some (.object document) ∧ (document.map (·.1)).Nodup ∧
    written = serde.toString (.object document) ++ "\n"
  parsed : ∃ tag object, serde.fromStr written = some (.object object) ∧
    object.filter (·.1 = "status") = [("status", .string tag)] ∧
    (tag = "error" ↔ ∃ message, reply = .error message) ∧
    object.filter (·.1 ≠ "status") = reply.members
  view : ∃ value, serde.fromStr written = some value ∧
    (∀ message, view value = .error message ↔ reply = .error message) ∧
    ((∃ rows, view value = .streams rows) ↔ cmd = "streams") ∧
    (view value = .keyValue ↔ (∀ message, reply ≠ .error message) ∧ cmd ≠ "streams") ∧
    ∀ command, render serde command written .table = renderTable serde command value
  message : ∀ message command, reply = .error message →
    render serde command written .table = some s!"error: {message}"

theorem view_ok (members : List (String × Value)) :
    view (.object (SortedMap.insert "status" (.string "ok") members)) =
      (streamsOf members).elim .keyValue .streams := by
  have tag : (Value.object (SortedMap.insert "status" (.string "ok") members)).get "status" =
      some (.string "ok") := by simp [Value.get]
  have payload : (Value.object (SortedMap.insert "status" (.string "ok") members)).get "streams" =
      SortedMap.lookup "streams" members := by simp [Value.get]
  rw [view, tag, payload, if_neg (by simp [Value.asStr]), streamsOf]
  cases (SortedMap.lookup "streams" members).bind Value.asArray <;> rfl

theorem view_error (message : String) : view (.object (SortedMap.insert "status" (.string "error")
    [("message", .string message)])) = .error message := by
  simp [view, Value.get, Value.asStr, SortedMap.lookup]

theorem render_table (command : String) (parsed : serde.fromStr written = some value) :
    render serde command written .table = renderTable serde command value := by
  simp [render, parsed]

theorem renderTable_streams (shown : view value = .streams rows) :
    renderTable serde command value = renderStreams serde rows := by
  rw [renderTable, shown]

theorem handle_eq_some (request : readLine source = some line)
    (document : (dispatch host state (trim line)).document = some written) :
    handle serde host state source = some (serde.toString written ++ "\n") := by
  simp only [handle, request, document, Option.bind_eq_bind, Option.bind_some]
  rfl

theorem query_of_handle (host : Host) (state : ControlState) (command : String)
    (answered : handle serde host state (utf8 (command ++ "\n")) = some reply) (socket : Socket) :
    query serde host state socket command = socket.outcome.map fun _ => reply := by
  obtain ⟨_ | _, _ | _, _ | _⟩ := socket <;>
    simp only [query, answered] <;> rfl

/-- For every state, request line and result of raising the signal. -/
theorem handle_agrees (host : Host) (state : ControlState) (source : List UInt8) (line : String)
    (request : readLine source = some line)
    (carries : ∀ document, (dispatch host state (trim line)).document = some document →
      serde.Carries document) :
    ∃ written, handle serde host state source = some written ∧
      Agrees serde (trim line) (dispatch host state (trim line)) written := by
  obtain ⟨document, framed⟩ := document_dispatch host state (trim line)
  obtain ⟨oneLine, read⟩ := carries _ document
  rw [normal_document framed] at read
  obtain ⟨status, others⟩ := SortedMap.filter_insert framed.untagged
    (.string (dispatch host state (trim line)).tag)
  refine ⟨_, handle_eq_some request document, ?_⟩
  exact {
    line := ⟨_, rfl, oneLine⟩
    payload := by
      intro payload replied
      obtain ⟨members, rfl, -⟩ := dispatch_ok replied
      rw [replied, Reply.members]
    once := by
      refine ⟨_, document, List.nodup_cons.mpr ⟨?_, ?_⟩, rfl⟩
      · rintro member
        obtain ⟨other, here, same⟩ := List.mem_map.mp member
        exact framed.untagged other here same
      · exact (List.pairwise_map.mpr framed.sorted).imp fun less => ne_of_lt less
    parsed := by
      refine ⟨_, _, read, status, ?_, others⟩
      cases dispatch host state (trim line) <;> simp [Reply.tag]
    view := by
      refine ⟨_, read, ?_⟩
      cases replied : dispatch host state (trim line) with
      | error message =>
        have other := dispatch_error replied
        rw [replied, Reply.tag, Reply.members] at read
        rw [Reply.tag, Reply.members, view_error]
        exact ⟨by simp, by simp [other], by simp, fun command => render_table command read⟩
      | ok payload =>
        obtain ⟨members, rfl, -, streams⟩ := dispatch_ok replied
        rw [replied, Reply.tag, Reply.members] at read
        rw [Reply.tag, Reply.members, view_ok]
        cases found : streamsOf members with
        | none =>
          have other : trim line ≠ "streams" := fun same => by simpa [found] using streams.mpr same
          exact ⟨by simp, by simp [other], by simp [other], fun command => render_table command read⟩
        | some rows =>
          have asked : trim line = "streams" := streams.mp (by simp [found])
          exact ⟨by simp, by simp [asked], by simp [asked], fun command => render_table command read⟩
    message := by
      intro message command replied
      rw [render_table command read, renderTable, replied, Reply.tag, Reply.members, view_error] }

def clock : Host := ⟨5 * 10 ^ 9, .ok (), ⟨fun _ => false, fun _ => true⟩⟩

def visitedBy (user : String) : ControlState where
  started := 0
  socksListen := .v4 ⟨⟨[127, 0, 0, 1], rfl⟩⟩ 9050
  metrics := { connectsTotal := 1 }
  bootstrap := {}
  streams := (StreamRegistry.register {} (.v4 ⟨⟨[10, 0, 0, 2], rfl⟩⟩ 4000) "example.com:80" (some user) 0).2

def visitedText (user : String) : String :=
  "\x7b\"status\":\"ok\",\"streams\":[\x7b\"age_secs\":5,\"bytes_to_client\":0,\"bytes_to_upstream\":0," ++
  "\"id\":0,\"isolation\":" ++ user ++ ",\"peer\":\"10.0.0.2:4000\",\"target\":\"example.com:80\"\x7d]\x7d"

theorem oneLine_visitedText (plain : OneLine user) : OneLine (visitedText user) := by
  unfold visitedText
  simp only [oneLine_append]
  exact ⟨⟨⟨by decide, by decide⟩, plain⟩, by decide⟩

def visitedSerde (user json : String) : Serde :=
  .of (((dispatch clock (visitedBy user) "streams").document).getD .null) (visitedText json)

theorem visited_carries (plain : OneLine (visitedText json)) (document : Value)
    (known : (dispatch clock (visitedBy user) "streams").document = some document) :
    (visitedSerde user json).Carries document := by
  rw [visitedSerde, known]
  exact Serde.carries_of plain

/-- The request is padded and the username has a line break in it. -/
theorem handle_agrees_padded : ∃ written,
    handle (visitedSerde "a\nb" "\"a\\nb\"") clock (visitedBy "a\nb") (utf8 " streams\r\n") = some written ∧
      Agrees (visitedSerde "a\nb" "\"a\\nb\"") "streams" (dispatch clock (visitedBy "a\nb") "streams")
        written := by
  have request : readLine (utf8 " streams\r\n") = some " streams\r\n" :=
    decodeUtf8_eq_some_iff.mpr (by decide)
  have asked : trim " streams\r\n" = "streams" := by decide
  have agrees := @handle_agrees (visitedSerde "a\nb" "\"a\\nb\"") clock (visitedBy "a\nb") _ _ request
    (by rw [asked]; exact visited_carries (oneLine_visitedText (by decide)))
  rwa [asked] at agrees

end Control

end Tord
