import Tord.Lib.Grid
import Tord.Columns
import Tord.Process
import Tord.Table

/-! The live connections as the operator sees them: what `tord query streams` prints can be
read back line by line and column by column, unless a client has sent a username with a
line feed or with a blank at its end, or a target with a line feed. -/
namespace Tord

open Interaction Transition Text Socks

theorem word_header : ∀ name ∈ header, Word name := by
  have each : ∀ name ∈ header, isWord name := by decide
  exact fun name member => word_of_isWord (each name member)

theorem endsInked_humanAge (secs : UInt64) : EndsInked (humanAge secs) := by
  have unit {c : Char} (ink : isWhitespace c = false) (front : String) :
      EndsInked (front ++ String.ofList [c]) :=
    EndsInked.prepend _ ⟨[], c, String.toList_ofList, ink⟩
  unfold humanAge
  split
  · exact unit (c := 's') rfl _
  split
  · exact unit (c := 's') rfl _
  · exact unit (c := 'm') rfl _

theorem SocketAddr.endsInked (addr : SocketAddr) : EndsInked addr.toString := by
  cases addr with
  | v4 ip port => exact (endsInked_repr _).prepend _
  | v6 ip port flowinfo scopeId =>
    simp only [SocketAddr.toString]
    split <;> exact (endsInked_repr _).prepend _

/-- The cells of a connection that can be told from the lines and the blanks around them. -/
def Legible (target : String) (isolation : Option String) : Prop :=
  OneLine target ∧ ∀ user, isolation = some user → OneLine user ∧ trimEnd user = user

theorem legible_cells (row : StreamSnapshot) (peer : OneLine row.peer ∧ EndsInked row.peer)
    (target : EndsInked row.target) : ((∀ cell ∈ row.cells, OneLine cell) ∧
      ∀ cell ∈ row.cells.dropLast, trimEnd cell = cell) ↔ Legible row.target row.isolation := by
  have user : OneLine (row.isolation.getD "-") ∧ trimEnd (row.isolation.getD "-") =
      row.isolation.getD "-" ↔
        ∀ user, row.isolation = some user → OneLine user ∧ trimEnd user = user := by
    cases row.isolation with
    | none => simp; decide
    | some user => simp
  rw [Legible, ← user]
  simp [StreamSnapshot.cells, List.dropLast, oneLine_humanAge, oneLine_humanBytes, peer.1,
    peer.2.trimEnd_eq, target.trimEnd_eq, (endsInked_repr _).trimEnd_eq,
    (endsInked_humanAge _).trimEnd_eq, (endsInked_humanBytes _).trimEnd_eq, and_assoc]

/-- The table of some rows is read back exactly if all their cells are legible. -/
theorem readGrid_renderStreams_iff (serde : Serde) {rows : List StreamSnapshot} (some : rows ≠ [])
    (narrow : ∀ row ∈ rows, ∀ cell ∈ row.cells, Narrow cell) :
    ∃ text, renderStreams serde (rows.map StreamSnapshot.toValue) = .some text ∧
      (readGrid text = header :: rows.map StreamSnapshot.cells ↔
        ∀ row ∈ rows, (∀ cell ∈ row.cells, OneLine cell) ∧
          ∀ cell ∈ row.cells.dropLast, trimEnd cell = cell) := by
  obtain ⟨texts, whole, laid⟩ := @renderStreams_laid serde (rows.map StreamSnapshot.toValue)
    (by simpa using some)
  have written : (rows.map StreamSnapshot.toValue).map (cells serde) =
      rows.map StreamSnapshot.cells := by
    rw [List.map_map]
    exact List.map_congr_left fun row _ => cells_toValue serde row
  have fits {row : List String} := @fits_widths serde (rows.map StreamSnapshot.toValue) row
  have widths := (widths_lt_iff serde (rows.map StreamSnapshot.toValue)).mpr
    (List.forall_mem_map.mpr fun row member => by rw [cells_toValue]; exact narrow row member)
  refine ⟨_, whole.trans (if_pos widths), ?_⟩
  rw [written] at laid fits
  rw [readGrid_laid_iff laid word_header (fun row member => fits member), List.forall_mem_map]

namespace Socks

theorem Handshake.endsInked_target (hs : Handshake) : EndsInked hs.target :=
  (endsInked_repr _).prepend _

/-- No client can send a text that is too long for a column. -/
theorem Handshake.narrow_target (hs : Handshake) : Narrow hs.target := by
  have host : hs.request.address.host.utf8ByteSize ≤ 328 := by
    cases hs.request.address with
    | ipv4 ip =>
      have bytes := utf8ByteSize_le ip.toString
      have short := ip.length_toString_le
      exact bytes.trans (by omega)
    | ipv6 ip => exact (utf8ByteSize_le _).trans (Nat.mul_le_mul_left 4 ip.length_toString_le)
    | domain name len => exact len.trans (by decide)
  have port : hs.request.port.toNat.repr.utf8ByteSize ≤ 20 :=
    (utf8ByteSize_le _).trans (Nat.mul_le_mul_left 4
      (length_repr_le 5 (by decide) (hs.request.port.toNat_lt.trans (by decide))))
  have whole : hs.target = hs.request.address.host ++ ":" ++ hs.request.port.toNat.repr := rfl
  have colon : ":".utf8ByteSize = 1 := rfl
  rw [Narrow, whole, String.utf8ByteSize_append, String.utf8ByteSize_append, colon]
  omega

theorem Handshake.narrow_user (hs : Handshake) : Narrow (hs.negotiation.user.getD "-") := by
  rw [Negotiation.user]
  cases hs.negotiation.auth with
  | none => decide
  | some c => exact c.uname_len.trans_lt (by decide)

def Server.Legible (s : Server τ) (c : Nat) : Prop :=
  ∀ hs : Handshake, Socks.received (s.traceOf c) = hs.bytes →
    Tord.Legible hs.target hs.negotiation.user

theorem Server.Pictures.narrow {s : Server τ} (pictures : Server.Pictures ls s c row) :
    ∀ cell ∈ row.cells, Narrow cell := by
  obtain ⟨⟨task, -, peer⟩, ⟨hs, -, target, isolation⟩, -, -⟩ := pictures
  have named : Narrow row.peer := by
    rw [peer]
    split
    · decide
    · exact narrow_of_length (task.peer.length_toString_le.trans_lt (by decide))
  have id : Narrow row.id.toNat.repr :=
    narrow_of_length ((length_repr_uint64 row.id).trans_lt (by decide))
  simp [StreamSnapshot.cells, narrow_humanAge, narrow_humanBytes, named, target, isolation,
    hs.narrow_target, hs.narrow_user, id]

theorem Server.Pictures.legible_iff {s : Server τ} (pictures : Server.Pictures ls s c row) :
    ((∀ cell ∈ row.cells, OneLine cell) ∧ ∀ cell ∈ row.cells.dropLast, trimEnd cell = cell) ↔
      s.Legible c := by
  obtain ⟨⟨task, -, peer⟩, ⟨hs, bytes, target, isolation⟩, -, -⟩ := pictures
  have named : OneLine row.peer ∧ EndsInked row.peer := by
    rw [peer]
    split
    · exact ⟨by decide, ['l', 'o', 'c', 'a'], 'l', rfl, rfl⟩
    · exact ⟨task.peer.oneLine, task.peer.endsInked⟩
  rw [legible_cells row named (target ▸ hs.endsInked_target), target, isolation]
  constructor
  · intro legible other same
    obtain ⟨-, call, -⟩ := handshake_prefix_free (congrArg (· ++ []) (bytes.symm.trans same))
    obtain ⟨target, user⟩ := target_of_call call
    rwa [← target, ← user]
  · exact fun each => each hs bytes

theorem Server.narrow_rows {s : Server τ}
    (pictured : List.Forall₂ (Server.Pictures ls s) order rows) :
    ∀ row ∈ rows, ∀ cell ∈ row.cells, Narrow cell := by
  induction pictured with
  | nil => simp
  | cons first _ ih => exact List.forall_mem_cons.mpr ⟨first.narrow, ih⟩

theorem Server.forall_legible_iff {s : Server τ}
    (pictured : List.Forall₂ (Server.Pictures ls s) order rows) :
    (∀ row ∈ rows, (∀ cell ∈ row.cells, OneLine cell) ∧
        ∀ cell ∈ row.cells.dropLast, trimEnd cell = cell) ↔ ∀ c ∈ order, s.Legible c := by
  induction pictured with
  | nil => simp
  | cons first _ ih => rw [List.forall_mem_cons, List.forall_mem_cons, ih, first.legible_iff]

end Socks

namespace Process

variable {setup : Setup τ} {ls : List (Moment τ)} {p : Process τ}

/-- Without a connection whose handshake is over and whose handler runs the answer says so.
Otherwise it is a table with a row for each of them, and that can be read off the printed
lines exactly if all of them sent a legible username and target. -/
theorem connections_shown (run : Run (Step setup) (start setup) ls p)
    (answering : Answering setup ls p k host "streams" text)
    (room : p.daemon.server.counters.streams.entries.length ≤ 2 ^ 64) (command : String)
    (carries : setup.serde.Carries (document host (p.state setup) .streams)) :
    ∃ rows order shown, rows.Pairwise (·.id < ·.id) ∧ order.Nodup ∧
      (∀ c, c ∈ order ↔ c ∈ p.daemon.server.proxied) ∧
      List.Forall₂ (Server.Pictures (happened ls) p.daemon.server) order rows ∧
      render setup.serde command text .table = some shown ∧
      (p.daemon.server.proxied = ∅ → shown = "no active connections") ∧
      (p.daemon.server.proxied.Nonempty →
        (readGrid shown = header :: rows.map StreamSnapshot.cells ↔
          ∀ c ∈ p.daemon.server.proxied, p.daemon.server.Legible c)) := by
  obtain ⟨serving, parked, rfl⟩ := text_eq run answering
  obtain ⟨increasing, order, distinct, proxied, rows⟩ :=
    Server.pictured (run_server run serving) parked room host.now (.refl _)
  have rendered : render setup.serde command _ .table = _ := render_document command "streams" carries
  rw [← StreamRegistry.snapshot] at increasing rows
  by_cases some : p.daemon.server.counters.streams.snapshot host.now = []
  · have nobody : p.daemon.server.proxied = ∅ := by
      rw [some] at rows
      cases rows
      exact Set.eq_empty_iff_forall_notMem.mpr fun c member =>
        absurd ((proxied c).mpr member) List.not_mem_nil
    refine ⟨_, order, "no active connections", increasing, distinct, proxied, rows, ?_, fun _ => rfl,
      fun busy => absurd nobody busy.ne_empty⟩
    rw [rendered]
    exact congrArg (fun rows => renderStreams setup.serde (rows.map StreamSnapshot.toValue)) some
  · obtain ⟨shown, printed, read⟩ := readGrid_renderStreams_iff setup.serde some
      (Server.narrow_rows rows)
    rw [Server.forall_legible_iff rows] at read
    simp only [proxied] at read
    refine ⟨_, order, shown, increasing, distinct, proxied, rows, rendered.trans printed, ?_,
      fun _ => read⟩
    intro nobody
    have empty : order = [] := List.eq_nil_iff_forall_not_mem.mpr fun c member =>
      (nobody ▸ (proxied c).mp member : c ∈ (∅ : Set Nat)).elim
    rw [empty] at rows
    exact (some (List.forall₂_nil_left_iff.mp rows)).elim

/-- A client without a username, and a port of an address. -/
theorem connections_shown_spliced : ∃ (setup : Setup Nat) (ls : _) (p : Process Nat)
    (text shown : String) (rows : List StreamSnapshot), Run (Step setup) (start setup) ls p ∧
    Answering setup ls p 0 Control.clock "streams" text ∧ p.daemon.server.proxied.Nonempty ∧
    render setup.serde "streams" text .table = some shown ∧
    readGrid shown = header :: rows.map StreamSnapshot.cells := by
  obtain ⟨ls, p, task, spliced⟩ := exists_spliced
  let answer : Value := document Control.clock (p.state home) .streams
  have run := spliced.run (.printing (fun _ => "1.0") answer)
  have answering := spliced.answering (.printing (fun _ => "1.0") answer) "streams" (by decide)
  have proxied : p.daemon.server.proxied = {0} := by
    rw [Server.proxied_eq (run_server run spliced.serving) spliced.parked, spliced.tasks]
    ext c
    cases c <;> simp [spliced.live]
  obtain ⟨rows, order, shown, -, -, -, -, printed, -, read⟩ := connections_shown run answering
    spliced.room "streams" (Serde.carries_printing (fun _ => by decide))
  refine ⟨_, ls, p, _, shown, rows, run, answering, by simp [proxied], printed,
    (read (by simp [proxied])).mpr ?_⟩
  rw [proxied]
  rintro _ rfl hs same
  obtain ⟨asked, written, target, user⟩ : ∃ asked : Handshake,
      asked.bytes = [5, 1, 0, 5, 1, 0, 1, 1, 1, 1, 1, 0, 80] ∧ asked.target = "1.1.1.1:80" ∧
        asked.negotiation.user = none :=
    ⟨knocking, by decide, by decide, rfl⟩
  have whole : asked.bytes = hs.bytes := by
    rw [← same, Server.traceOf, spliced.tasks, written, ← spliced.received]
    rfl
  obtain ⟨-, call, -⟩ := handshake_prefix_free (congrArg (· ++ []) whole)
  obtain ⟨sameTarget, sameUser⟩ := target_of_call call
  rw [← sameTarget, ← sameUser, target, user]
  exact ⟨by decide, by simp⟩

end Process

end Tord
