import Tord.Control
import Tord.Socks.Handshake
import Tord.StreamsHistory

/-! What `tord query streams` prints of the live connections: a line for each of them,
unless a client has put a line break into its target or its username. -/
namespace Tord

open Text Transition

def StreamSnapshot.cells (row : StreamSnapshot) : List String :=
  [toString row.id, row.peer, row.target, row.isolation.getD "-", humanAge row.ageSecs,
    humanBytes row.bytesToUpstream, humanBytes row.bytesToClient]

theorem cells_toValue (serde : Serde) (row : StreamSnapshot) :
    cells serde row.toValue = row.cells := by
  obtain ⟨id, peer, target, isolation, age, up, down⟩ := row
  cases isolation <;>
    simp [cells, StreamSnapshot.cells, StreamSnapshot.toValue, Value.ofMembers, Value.get,
      SortedMap.collect, field, scalar, Number.toString, Value.ofU64, Value.ofOption, Value.asU64]

/-- A row can be told from its document. -/
theorem toValue_injective : Function.Injective StreamSnapshot.toValue := by
  intro a b same
  have member (key : String) := congrArg (Value.get · key) same
  obtain ⟨id, peer, target, isolation, age, up, down⟩ := a
  obtain ⟨otherId, otherPeer, otherTarget, otherIsolation, otherAge, otherUp, otherDown⟩ := b
  have user := member "isolation"
  have rest := And.intro (member "id") (And.intro (member "peer") (And.intro (member "target")
    (And.intro (member "age_secs") (And.intro (member "bytes_to_upstream") (member "bytes_to_client")))))
  simp [StreamSnapshot.toValue, Value.ofMembers, Value.get, SortedMap.collect, Value.ofU64] at user rest
  obtain ⟨rfl, rfl, rfl, rfl, rfl, rfl⟩ := rest
  cases isolation <;> cases otherIsolation <;> simp_all [Value.ofOption]

theorem oneLine_view (e : StreamEntry) (now : Nat) : OneLine (e.view now).peer := by
  simp only [StreamEntry.view]
  split
  · decide
  · exact e.peer.oneLine

theorem narrow_view (e : StreamEntry) (now : Nat) : Narrow (e.view now).peer := by
  simp only [StreamEntry.view]
  split
  · decide
  · exact narrow_of_length (e.peer.length_toString_le.trans_lt (by decide))

def Fits (text : String) : Prop := OneLine text ∧ Narrow text

/-- Of all the cells only two are the client's to choose. -/
theorem fits_cells (e : StreamEntry) (now : Nat) :
    (∀ cell ∈ (e.view now).cells, Fits cell) ↔
      Fits e.target ∧ ∀ user, e.isolation = some user → Fits user := by
  have peer : Fits (e.view now).peer := ⟨oneLine_view e now, narrow_view e now⟩
  have id : Fits e.id.toNat.repr :=
    ⟨oneLine_repr _, narrow_of_length ((length_repr_uint64 e.id).trans_lt (by decide))⟩
  have age (secs : UInt64) : Fits (humanAge secs) := ⟨oneLine_humanAge secs, narrow_humanAge secs⟩
  have count (n : UInt64) : Fits (humanBytes n) := ⟨oneLine_humanBytes n, narrow_humanBytes n⟩
  have name : Fits (e.isolation.getD "-") ↔ ∀ user, e.isolation = some user → Fits user := by
    cases e.isolation with
    | none => simp [Fits]; decide
    | some user => simp
  simp only [StreamSnapshot.cells, List.forall_mem_cons, age, count, peer]
  simp [StreamEntry.view, name, id]

theorem fits_rows {entries : List StreamEntry} {live : List StreamHandle}
    (views : List.Forall₂ (fun handle row => ∃ entry, entries[handle.entry]? = some entry ∧
      row = entry.view now) live rows) :
    (∀ row ∈ rows, ∀ cell ∈ row.cells, Fits cell) ↔
      ∀ handle ∈ live, ∀ entry, entries[handle.entry]? = some entry →
        Fits entry.target ∧ ∀ user, entry.isolation = some user → Fits user := by
  induction views with
  | nil => simp
  | cons first _ ih =>
    obtain ⟨entry, found, rfl⟩ := first
    rw [List.forall_mem_cons, List.forall_mem_cons, ih, fits_cells]
    simp [found]

/-- The value that `tord query` decodes, and the text it prints. -/
theorem render_streams (host : Host) (state : ControlState)
    (carries : ∀ document, (Control.dispatch host state "streams").document = some document →
      serde.Carries document) :
    ∃ reply, (∀ socket, Control.query serde host state socket "streams" =
        socket.outcome.map fun _ => reply) ∧
      render serde "streams" reply .table =
        renderStreams serde ((state.streams.snapshot host.now).map StreamSnapshot.toValue) := by
  have request : Control.readLine (utf8 ("streams" ++ "\n")) = some "streams\n" :=
    decodeUtf8_eq_some_iff.mpr (by decide)
  have asked : trim "streams\n" = "streams" := by decide
  obtain ⟨document, framed⟩ := Control.document_dispatch host state "streams"
  obtain ⟨-, read⟩ := carries _ document
  rw [Control.normal_document framed] at read
  rw [← asked] at document
  refine ⟨_, Control.query_of_handle host state "streams" (Control.handle_eq_some request document), ?_⟩
  rw [asked, Control.render_table _ read]
  exact Control.renderTable_streams ((Control.view_ok _).trans rfl)

/-- After any run of the registry, with at least one live connection: the printed text is
a header and one line for each connection, in order, exactly if no live connection has a
line break in its target or username, or more bytes than the formatter takes. -/
theorem streams_table_iff (run : Run World.Step {} calls w)
    (room : (registrations calls).length < 2 ^ 64) (busy : w.live ≠ [])
    (host : Host) (state : ControlState) (reported : state.streams = w.registry)
    (carries : ∀ document, (Control.dispatch host state "streams").document = some document →
      serde.Carries document) :
    ∃ reply rows, (∀ socket, Control.query serde host state socket "streams" =
        socket.outcome.map fun _ => reply) ∧
      rows.Pairwise (·.id < ·.id) ∧
      List.Forall₂ (fun handle row => ∃ entry, w.registry.entries[handle.entry]? = some entry ∧
        row = entry.view host.now) w.live rows ∧
      ((∃ text, render serde "streams" reply .table = some text ∧
          List.Forall₂ Shows (header :: rows.map StreamSnapshot.cells) (lines text)) ↔
        ∀ handle ∈ w.live, ∀ entry, w.registry.entries[handle.entry]? = some entry →
          Fits entry.target ∧ ∀ user, entry.isolation = some user → Fits user) := by
  obtain ⟨reply, queried, printed⟩ := render_streams host state carries
  have full : w.registry.entries.length ≤ 2 ^ 64 := by
    rw [← World.run_given run, List.length_map] at room
    omega
  have inv := World.run_inv run full
  obtain ⟨listed, increasing⟩ := inv.tracks.snapshotOf_eq full inv.ordered (.refl _) host.now
  have views : List.Forall₂ (fun handle row => ∃ entry,
      w.registry.entries[handle.entry]? = some entry ∧ row = entry.view host.now) w.live
      (w.registry.snapshot host.now) := by
    rw [StreamRegistry.snapshot, listed]
    refine forall₂_filterMap fun handle member => ?_
    obtain ⟨entry, found, -⟩ := inv.tracks.entry_id member
    exact ⟨entry.view host.now, by simp [found], entry, found, rfl⟩
  refine ⟨reply, w.registry.snapshot host.now, queried, increasing, views, ?_⟩
  have shown : (w.registry.snapshot host.now).map StreamSnapshot.toValue ≠ [] := by
    intro empty
    have size := views.length_eq
    rw [List.map_eq_nil_iff.mp empty] at size
    exact busy (List.length_eq_zero_iff.mp size)
  have rows : ((w.registry.snapshot host.now).map StreamSnapshot.toValue).map (cells serde) =
      (w.registry.snapshot host.now).map StreamSnapshot.cells := by
    rw [List.map_map]
    exact List.map_congr_left fun row _ => cells_toValue serde row
  rw [printed, reported, ← rows, renderStreams_lines serde shown, List.forall_mem_map,
    ← fits_rows views]
  simp only [cells_toValue]
  rfl

/-- A plain username keeps to its line. -/
theorem streams_table_iff_plain : ∃ (reply text : String) (rows : List StreamSnapshot),
    (∀ socket, Control.query (Control.visitedSerde "alice" "\"alice\"") Control.clock
      (Control.visitedBy "alice") socket "streams" = socket.outcome.map fun _ => reply) ∧
    rows.length = 1 ∧
    render (Control.visitedSerde "alice" "\"alice\"") "streams" reply .table = some text ∧
    List.Forall₂ Shows (header :: rows.map StreamSnapshot.cells) (lines text) := by
  have run : Run World.Step {} [.register (.v4 ⟨⟨[10, 0, 0, 2], rfl⟩⟩ 4000) "example.com:80"
    (some "alice") 0] _ := .single (.taken nofun)
  have plain : OneLine (Control.visitedText "\"alice\"") := Control.oneLine_visitedText (by decide)
  obtain ⟨reply, rows, queried, -, views, faithful⟩ := streams_table_iff run (by decide)
    (by simp [World.after]) Control.clock (Control.visitedBy "alice") rfl
    (Control.visited_carries plain)
  have fits : ∀ handle ∈ [StreamHandle.mk 0], ∀ entry, [StreamEntry.mk 0
      (.v4 ⟨⟨[10, 0, 0, 2], rfl⟩⟩ 4000) "example.com:80" (some "alice") 0 0 0][handle.entry]? =
      some entry → Fits entry.target ∧ ∀ user, entry.isolation = some user → Fits user := by
    rintro _ (_ | ⟨_, ⟨⟩⟩) _ ⟨⟩
    exact ⟨⟨by decide, by decide⟩, by rintro _ ⟨⟩; exact ⟨by decide, by decide⟩⟩
  obtain ⟨text, printed, shown⟩ := faithful.mpr fits
  exact ⟨reply, text, rows, queried, views.length_eq.symm, printed, shown⟩

/-- The username is accepted, and the table has two lines for the one connection. -/
theorem streams_table_forged :
    ∃ hs : Socks.Handshake, hs.call = .connect "example.com" 80 (some "a\nb") ∧
      (∀ peer, (Socks.handle peer).run.run (Socks.answerBytes ⟨0⟩) hs.bytes = (.inr hs.call, [])) ∧
    ∃ w, Run World.Step {} [.register (.v4 ⟨⟨[10, 0, 0, 2], rfl⟩⟩ 4000) "example.com:80"
        (some "a\nb") 0] w ∧ w.registry = (Control.visitedBy "a\nb").streams ∧ w.live.length = 1 ∧
    ∃ reply text, (∀ socket, Control.query (Control.visitedSerde "a\nb" "\"a\\nb\"") Control.clock
        (Control.visitedBy "a\nb") socket "streams" = socket.outcome.map fun _ => reply) ∧
      render (Control.visitedSerde "a\nb" "\"a\\nb\"") "streams" reply .table = some text ∧
      lines text = ["ID  PEER           TARGET          ISO  AGE  UP  DOWN",
        "0   10.0.0.2:4000  example.com:80  a", "b  5s   0B  0B"] ∧
      ¬ List.Forall₂ Shows
        (header :: ((Control.visitedBy "a\nb").streams.snapshot Control.clock.now).map StreamSnapshot.cells)
        (lines text) := by
  refine ⟨⟨⟨[2], some ⟨"a\nb", [], by decide, by decide⟩, by decide, rfl⟩,
    ⟨0, .domain "example.com" (by decide), 80⟩⟩, rfl, fun peer => ?_, _, .single (.taken nofun),
    rfl, rfl, ?_⟩
  · exact (Socks.run_handle_iff peer _ _ _ _ _).mpr ⟨_, rfl, (List.append_nil _).symm⟩
  · obtain ⟨reply, queried, printed⟩ := @render_streams (Control.visitedSerde "a\nb" "\"a\\nb\"")
      Control.clock (Control.visitedBy "a\nb") (Control.visited_carries (Control.oneLine_visitedText (by decide)))
    have split : (renderStreams (Control.visitedSerde "a\nb" "\"a\\nb\"")
        (((Control.visitedBy "a\nb").streams.snapshot Control.clock.now).map StreamSnapshot.toValue)).map
          lines = some ["ID  PEER           TARGET          ISO  AGE  UP  DOWN",
          "0   10.0.0.2:4000  example.com:80  a", "b  5s   0B  0B"] := by decide +kernel
    rw [← printed] at split
    obtain ⟨text, whole, split⟩ := Option.map_eq_some_iff.mp split
    refine ⟨reply, text, queried, whole, split, fun shown => ?_⟩
    have size := shown.length_eq
    rw [split] at size
    revert size
    decide +kernel

end Tord
