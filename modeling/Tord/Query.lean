import Tord.Control
import Tord.KeyValue

/-! `tord query`, from the command that is typed to what is shown: which line of it is
asked, the document that answers it, and the text it is rendered as. -/
namespace Tord

open Text

def statsMembers (m : Metrics) (active : Nat) : List (String × Value) := [
  ("bytes_to_client", .ofU64 m.bytesToClient), ("bytes_to_upstream", .ofU64 m.bytesToUpstream),
  ("connects_failed", .ofU64 m.connectsFailed), ("connects_ok", .ofU64 m.connectsOk),
  ("connects_total", .ofU64 m.connectsTotal), ("streams_active", .ofU64 (.ofNat active))]

def statusMembers (uptime : Nat) (listen : SocketAddr) (bs : BootstrapSnapshot) :
    List (String × Value) := [
  ("socks_listen", .string listen.toString),
  ("tor", .object [("blocked", .ofOption bs.blocked), ("fraction", .ofF32 bs.fraction),
    ("ready", .bool bs.ready)]),
  ("uptime_secs", .ofU64 (.ofNat uptime))]

def streamsMembers (rows : List StreamSnapshot) : List (String × Value) :=
  [("streams", .array (rows.map StreamSnapshot.toValue))]

def okDocument (members : List (String × Value)) : Value :=
  .object (("status", .string "ok") :: members)

def errorDocument (message : String) : Value :=
  .object [("status", .string "error"), ("message", .string message)]

def uptime (host : Host) (state : ControlState) : Nat := (host.now - state.started) / 10 ^ 9

def reloadDocument : Except String Unit → Value
  | .ok () => okDocument [("reload", .string "signalled")]
  | .error e => errorDocument s!"raise SIGHUP: {e}"

inductive Command where
  | ping | status | stats | streams | reload
  | unknown (text : String)

def Command.ofText (cmd : String) : Command :=
  match cmd with
  | "ping" => .ping
  | "status" => .status
  | "stats" => .stats
  | "streams" => .streams
  | "reload" => .reload
  | other => .unknown other

def document (host : Host) (state : ControlState) : Command → Value
  | .ping => okDocument [("pong", .bool true)]
  | .status =>
    okDocument (statusMembers (uptime host state) state.socksListen state.bootstrap.snapshot)
  | .stats => okDocument (statsMembers state.metrics state.streams.len)
  | .streams => okDocument (streamsMembers (state.streams.snapshot host.now))
  | .reload => reloadDocument host.raise
  | .unknown text => errorDocument s!"unknown command {debug host.tables text}"

theorem document_eq (host : Host) (state : ControlState) (cmd : String) :
    (Control.dispatch host state cmd).document = some (document host state (.ofText cmd)) := by
  unfold Control.dispatch Command.ofText
  split
  · rfl
  · simp +decide [Reply.document, document, okDocument, statusMembers, uptime, Value.ofMembers,
      SortedMap.collect, SortedMap.insert, -String.lt_iff_ltb]
  · simp +decide [Reply.document, document, okDocument, statsMembers, Metrics.toValue,
      Value.ofMembers, SortedMap.collect, SortedMap.insert, -String.lt_iff_ltb]
  · rfl
  · simp only [document]
    cases host.raise <;> rfl
  · simp_all [Reply.document, document, errorDocument]

namespace Control

/-- What a server reads of a line that is written to it. -/
theorem readLine_utf8 (text : String) : readLine (utf8 (text ++ "\n")) = some (firstLine text ++ "\n") := by
  obtain ⟨rest, whole⟩ := firstLine_append text
  have plain : ∀ b ∈ utf8 (firstLine text), decide (b ≠ 0x0a) = true := by
    intro b member
    simp only [decide_eq_true_eq]
    rintro rfl
    exact newline_notMem_utf8 (oneLine_firstLine text) member
  have newline : utf8 "\n" = [0x0a] := by decide
  rw [whole, utf8_append, utf8_append, newline, List.append_assoc, readLine,
    List.takeWhile_append_of_pos plain, List.dropWhile_append_of_pos plain]
  apply decodeUtf8_eq_some_iff.mpr
  simp [newline]

theorem handle_utf8 (serde : Serde) (host : Host) (state : ControlState) (command : String) :
    handle serde host state (utf8 (command ++ "\n")) =
      some (serde.toString (document host state (.ofText (trim (firstLine command)))) ++ "\n") := by
  have answer := document_eq host state (trim (firstLine command))
  rw [← trim_newline] at answer ⊢
  exact handle_eq_some (readLine_utf8 command) answer

end Control

def statsLines (m : Metrics) (active : Nat) : List String := [
  s!"bytes_to_client     {m.bytesToClient}", s!"bytes_to_upstream   {m.bytesToUpstream}",
  s!"connects_failed     {m.connectsFailed}", s!"connects_ok         {m.connectsOk}",
  s!"connects_total      {m.connectsTotal}", s!"streams_active      {UInt64.ofNat active}"]

def statusLines (serde : Serde) (uptime : Nat) (listen : SocketAddr) (bs : BootstrapSnapshot) :
    List String := [
  "socks_listen   " ++ listen.toString, "tor:", "  blocked      " ++ bs.blocked.getD "-",
  "  fraction     " ++ scalar serde (.ofF32 bs.fraction), s!"  ready        {bs.ready}",
  s!"uptime_secs    {UInt64.ofNat uptime}"]

def errorText (message : String) : String := s!"error: {message}"

def reloadText : Except String Unit → String
  | .ok () => "reload   signalled"
  | .error e => errorText s!"raise SIGHUP: {e}"

/-- What the operator sees; of the table there may be nothing, if a column is too wide. -/
def shown (serde : Serde) (host : Host) (state : ControlState) : Command → Option String
  | .ping => some "pong   true"
  | .status => some ("\n".intercalate
    (statusLines serde (uptime host state) state.socksListen state.bootstrap.snapshot))
  | .stats => some ("\n".intercalate (statsLines state.metrics state.streams.len))
  | .streams => renderStreams serde ((state.streams.snapshot host.now).map StreamSnapshot.toValue)
  | .reload => some (reloadText host.raise)
  | .unknown text => some (errorText s!"unknown command {debug host.tables text}")

/-- What is read back of the document of a reply that went well. -/
def readBack (members : List (String × Value)) : Value :=
  .object (SortedMap.insert "status" (.string "ok") members)

theorem renderKv_lines {members : List (String × Value)} {front : List String} (command : String)
    (lines : (collectMembers serde members 0).map (kvLine (keyWidth (collectMembers serde members 0))) =
      front ++ [last]) (ends : EndsInked last)
    (narrow : keyWidth (collectMembers serde members 0) < 2 ^ 16) :
    renderKv serde command (.object members) = some ("\n".intercalate (front ++ [last])) := by
  have shown : collectMembers serde members 0 ≠ [] := by
    intro empty
    simp [empty] at lines
  rw [renderKv_eq command shown, if_pos narrow, lines, trimEnd_join front ends.inked,
    ends.trimEnd_eq]

def statsPairs (m : Metrics) (active : Nat) : List (String × Option String) := [
  ("bytes_to_client", some (toString m.bytesToClient)),
  ("bytes_to_upstream", some (toString m.bytesToUpstream)),
  ("connects_failed", some (toString m.connectsFailed)),
  ("connects_ok", some (toString m.connectsOk)),
  ("connects_total", some (toString m.connectsTotal)),
  ("streams_active", some (toString (UInt64.ofNat active)))]

def statusPairs (serde : Serde) (seconds : Nat) (listen : SocketAddr) (bs : BootstrapSnapshot) :
    List (String × Option String) := [
  ("socks_listen", some listen.toString), ("tor", none),
  ("  blocked", some (bs.blocked.getD "-")),
  ("  fraction", some (scalar serde (.ofF32 bs.fraction))),
  ("  ready", some (toString bs.ready)),
  ("uptime_secs", some (toString (UInt64.ofNat seconds)))]

theorem renderKv_stats (m : Metrics) (active : Nat) : renderKv serde command
    (readBack (statsMembers m active)) = some ("\n".intercalate (statsLines m active)) := by
  have pairs : collectMembers serde
      (SortedMap.insert "status" (.string "ok") (statsMembers m active)) 0 = statsPairs m active := by
    simp +decide [statsPairs, statsMembers, SortedMap.insert, collectMembers, Value.ofU64,
      Value.isObject, Value.asObject, scalar, Number.toString, -String.lt_iff_ltb]
  have width : keyWidth (statsPairs m active) = 17 := rfl
  refine @renderKv_lines serde _ _ (statsLines m active).dropLast command ?_ ?_ ?_
  · rw [pairs, width]
    rfl
  · exact (endsInked_repr _).prepend _
  · rw [pairs, width]
    decide

theorem renderKv_status (seconds : Nat) (listen : SocketAddr) (bs : BootstrapSnapshot) :
    renderKv serde command (readBack (statusMembers seconds listen bs)) =
      some ("\n".intercalate (statusLines serde seconds listen bs)) := by
  have pairs : collectMembers serde
      (SortedMap.insert "status" (.string "ok") (statusMembers seconds listen bs)) 0 =
      statusPairs serde seconds listen bs := by
    obtain ⟨ready, fraction, blocked⟩ := bs
    cases fraction <;> cases blocked <;> cases ready <;>
      simp +decide [statusPairs, statusMembers, SortedMap.insert, collectMembers, collectKv,
        Value.ofU64, Value.ofF32, Value.ofOption, Value.isObject, Value.asObject, scalar,
        Number.toString, -String.lt_iff_ltb]
  have width : keyWidth (statusPairs serde seconds listen bs) = 12 := rfl
  refine @renderKv_lines serde _ _ (statusLines serde seconds listen bs).dropLast command ?_ ?_ ?_
  · rw [pairs, width]
    rfl
  · exact (endsInked_repr _).prepend _
  · rw [pairs, width]
    decide

theorem renderKv_ping (command : String) :
    renderKv serde command (readBack [("pong", .bool true)]) = some "pong   true" := by
  have lines : collectMembers serde (SortedMap.insert "status" (.string "ok") [("pong", .bool true)]) 0 =
      [("pong", some "true")] := by
    simp +decide [SortedMap.insert, collectMembers, scalar, -String.lt_iff_ltb]
  refine (@renderKv_lines serde "pong   true" _ [] command ?_ ⟨"pong   tru".toList, 'e', rfl, rfl⟩
    (by rw [lines]; decide)).trans (by simp)
  rw [lines]
  rfl

theorem renderKv_reload (command : String) :
    renderKv serde command (readBack [("reload", .string "signalled")]) =
      some "reload   signalled" := by
  have lines : collectMembers serde
      (SortedMap.insert "status" (.string "ok") [("reload", .string "signalled")]) 0 =
      [("reload", some "signalled")] := by
    simp +decide [SortedMap.insert, collectMembers, scalar, -String.lt_iff_ltb]
  refine (@renderKv_lines serde "reload   signalled" _ [] command ?_
    ⟨"reload   signalle".toList, 'd', rfl, rfl⟩ (by rw [lines]; decide)).trans (by simp)
  rw [lines]
  rfl

theorem framed_of_document (whole : document host state (.ofText cmd) = okDocument members) :
    Control.Framed members := by
  obtain ⟨answer, framed⟩ := Control.document_dispatch host state cmd
  rw [document_eq, whole, okDocument, Option.some.injEq, Value.object.injEq, List.cons.injEq] at answer
  rwa [answer.2]

theorem render_ok (framed : Control.Framed members) (other : Control.streamsOf members = none)
    (carries : serde.Carries (okDocument members)) :
    render serde command (serde.toString (okDocument members) ++ "\n") .table =
      renderKv serde command (readBack members) := by
  have read := carries.fromStr
  rw [okDocument, Control.normal_document framed] at read
  rw [okDocument, Control.render_table command read, renderTable, Control.view_ok, other]
  rfl

theorem render_listed (framed : Control.Framed members) (rows : Control.streamsOf members = some listed)
    (carries : serde.Carries (okDocument members)) :
    render serde command (serde.toString (okDocument members) ++ "\n") .table =
      renderStreams serde listed := by
  have read := carries.fromStr
  rw [okDocument, Control.normal_document framed] at read
  rw [okDocument, Control.render_table command read, renderTable, Control.view_ok, rows]
  rfl

theorem render_error (message : String) (carries : serde.Carries (errorDocument message)) :
    render serde command (serde.toString (errorDocument message) ++ "\n") .table =
      some (errorText message) := by
  have framed : Control.Framed [("message", .string message)] :=
    ⟨List.pairwise_singleton _ _, by simp [Value.canonical_string], by simp⟩
  have read := carries.fromStr
  rw [errorDocument, Control.normal_document framed] at read
  rw [errorDocument, Control.render_table command read, renderTable, Control.view_error, errorText]

theorem render_reload {result : Except String Unit} (command : String)
    (framed : ∀ {members}, reloadDocument result = okDocument members → Control.Framed members)
    (carries : serde.Carries (reloadDocument result)) :
    render serde command (serde.toString (reloadDocument result) ++ "\n") .table =
      some (reloadText result) := by
  rcases result with e | ⟨⟨⟩⟩
  · exact render_error _ carries
  · exact (render_ok (framed rfl) rfl carries).trans (renderKv_reload command)

theorem render_document (command cmd : String)
    (carries : serde.Carries (document host state (.ofText cmd))) :
    render serde command (serde.toString (document host state (.ofText cmd)) ++ "\n") .table =
      shown serde host state (.ofText cmd) := by
  have framed {members : List (String × Value)} := @framed_of_document host state cmd members
  cases asked : Command.ofText cmd with
  | ping =>
    rw [asked] at carries framed
    exact (render_ok (framed rfl) rfl carries).trans (renderKv_ping command)
  | status =>
    rw [asked] at carries framed
    exact (render_ok (framed rfl) rfl carries).trans (renderKv_status _ _ _)
  | stats =>
    rw [asked] at carries framed
    exact (render_ok (framed rfl) rfl carries).trans (renderKv_stats _ _)
  | streams =>
    rw [asked] at carries framed
    exact render_listed (framed rfl) rfl carries
  | reload =>
    rw [asked] at carries framed
    exact render_reload command framed carries
  | unknown text =>
    rw [asked] at carries
    exact render_error _ carries

end Tord
