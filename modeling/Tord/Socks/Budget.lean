import Mathlib.Algebra.Order.Group.Nat
import Mathlib.Algebra.Order.Monoid.Prod
import Tord.Lib.Cost
import Tord.Socks.Connections
import Tord.Socks.Handshake

/-! What one connection can have the daemon do: how many bytes it asks of its client and
offers to it apart from the splice, and how many exchanges its handler takes at all. -/
namespace Tord.Socks

open Interaction Transition

variable {α : Type}

/-- Bytes asked of the client, bytes offered to it, and the exchange itself. -/
def Op.price : Op → Nat × Nat × Nat
  | .readExact n => (n, 0, 1)
  | .writeAll bytes => (0, bytes.length, 1)
  | _ => (0, 0, 1)

abbrev Spends (x : Handler α) (done total : Nat × Nat × Nat) : Prop :=
  Interaction.Spends Op.price x done total

theorem spends_readExact (bound : n ≤ m) : Spends (readExact n) (m, 0, 1) (m, 0, 1) :=
  (Spends.request (run_readExact n)).mono (by simp [Op.price, bound]) (by simp [Op.price, bound])

theorem spends_field (len : UInt8) : Spends (readExact len.toNat) (255, 0, 1) (255, 0, 1) :=
  spends_readExact (Nat.le_of_lt_succ len.toNat_lt)

theorem spends_writeAll (bytes : List UInt8) :
    Spends (writeAll bytes) (0, bytes.length, 1) (0, bytes.length, 1) :=
  Spends.request rfl

theorem spends_context (text : String) {x : Handler α} (spends : Spends x a b) :
    Spends (context text x) a b :=
  spends.mapError (run_context text x)

theorem spends_ensure (condition : Prop) [Decidable condition] (text : String) :
    Spends (ensure condition text) 0 0 :=
  .ite (.pure _) (.throw _)

theorem spends_fromUtf8 (bytes : List UInt8) (text : String) : Spends (fromUtf8 bytes text) 0 0 := by
  unfold fromUtf8
  split
  · exact .pure _
  · exact .throw _

theorem spends_readUserpass : Spends readUserpass (513, 0, 5) (513, 0, 5) :=
  ((spends_context _ (spends_readExact le_rfl)).andThen fun _ => (spends_ensure _ _).andThen fun _ =>
    (spends_readExact le_rfl).andThen fun _ => (spends_field _).andThen fun _ =>
      (spends_readExact le_rfl).andThen fun _ => (spends_field _).andThen fun _ =>
        spends_fromUtf8 _ _).mono (by decide) (by decide)

theorem spends_negotiate : Spends negotiate (770, 4, 9) (770, 4, 9) := by
  refine ((spends_context _ (spends_readExact le_rfl)).andThen fun _ =>
    (spends_ensure _ _).andThen fun _ =>
      (spends_context _ (spends_field _)).andThen fun _ =>
        Spends.ite (a := (513, 4, 7)) (b := (513, 4, 7)) ?_ (.ite ?_ ?_)).mono (by decide) (by decide)
  · exact ((spends_writeAll _).andThen fun _ => spends_readUserpass.andThen fun _ =>
      (spends_writeAll _).andThen fun _ => .pure _).mono (by decide) (by decide)
  · exact ((spends_writeAll _).andThen fun _ => .pure _).mono (by decide) (by decide)
  · exact ((spends_writeAll _).andThen fun _ => .throw _).mono (by decide) (by decide)

theorem spends_readTarget (atyp : UInt8) : Spends (readTarget atyp) (258, 0, 3) (258, 0, 3) := by
  have host : Spends (readHost atyp) (256, 0, 2) (256, 0, 2) := by
    refine .ite ?_ (.ite ?_ (.ite ?_ ?_))
    · exact ((spends_readExact le_rfl).andThen fun _ => .pure _).mono (by decide) (by decide)
    · exact ((spends_readExact le_rfl).andThen fun _ => .pure _).mono (by decide) (by decide)
    · exact ((spends_readExact le_rfl).andThen fun _ => (spends_field _).andThen fun _ =>
        spends_fromUtf8 _ _).mono (by decide) (by decide)
    · exact (Spends.throw _).mono (by decide) (by decide)
  exact (host.andThen fun _ => (spends_readExact le_rfl).andThen fun _ => .pure _).mono
    (by decide) (by decide)

/-- A refusal of the request is only paid for where the request is refused. -/
theorem spends_readRequest : Spends readRequest (262, 0, 4) (262, 10, 5) := by
  refine ((spends_context _ (spends_readExact le_rfl)).andThen fun _ =>
    (spends_ensure _ _).andThen fun _ =>
      Spends.ite (a := (258, 0, 3)) (b := (258, 10, 4)) ?_ ?_).mono (by decide) (by decide)
  · exact (spends_readTarget _).rethrow (spends_writeAll _)
  · exact ((spends_writeAll _).thenThrow _ (258, 0, 3)).mono le_rfl (by decide)

theorem spends_decode : Spends decode (1032, 4, 13) (1032, 14, 14) :=
  (spends_negotiate.andThen fun _ => spends_readRequest.bind
    (fun _ => (Spends.pure _).mono le_rfl (by decide : 0 ≤ (0, 10, 1))) (by decide)).mono
      (by decide) (by decide)

theorem spends_proxy (stream : StreamHandle) :
    Spends (proxy host port isoUser stream) (0, 10, 4) (0, 10, 4) := by
  have connecting : Spends (connect host port isoUser) (0, 0, 1) (0, 0, 1) := .request rfl
  refine connecting.andThen (c := (0, 10, 3)) (d := (0, 10, 3)) fun opened => ?_
  cases opened with
  | ok _ =>
    have copying : Spends (copyBidirectional stream.entry) (0, 0, 1) (0, 0, 1) := .request rfl
    exact ((spends_writeAll _).andThen fun _ => (Spends.request rfl).andThen fun _ =>
      (spends_context _ copying).andThen fun _ => .pure _).mono le_rfl le_rfl
  | error e =>
    exact ((Spends.request rfl).andThen fun _ => (spends_writeAll _).andThen fun _ =>
      .throw _).mono (by decide) (by decide)

theorem spends_handle (peer : SocketAddr) : Spends (handle peer) (1032, 14, 20) (1032, 14, 20) := by
  rw [handle_eq]
  refine spends_decode.bind (c := (0, 10, 7)) (d := (0, 10, 7)) (fun (isoUser, host, port) => ?_)
    (by decide)
  have counting : Spends (fetchAdd .connectsTotal) (0, 0, 1) (0, 0, 1) := .request rfl
  exact counting.andThen fun _ =>
    .bracket (c := (0, 0, 1)) spends_proxy (fun _ => le_rfl) (run_withStream _)

theorem spent_exchanges (h : Trace) : (spent Op.price h).2.2 = h.length := by
  induction h with
  | nil => rfl
  | cons event h ih =>
    have one : event.1.price.2.2 = 1 := by
      cases event.1 <;> rfl
    rw [spent_cons, Prod.snd_add, Prod.snd_add, ih, one, Nat.add_comm]
    rfl

/-- A step of connection `c` that is not a poll of its splice. -/
def Label.moves {τ : Type} (c : Nat) : Label τ → Bool
  | .exchange d _ _ => d = c
  | .isolate d _ _ => d = c
  | .cancel d => d = c
  | _ => false

namespace Server

variable {τ : Type} {issue : Nat → τ} {mode : Isolation} {ls : List (Label τ)} {s : Server τ} {c : Nat}
  {task : Task τ}

theorem spent_trace (run : Run (Step issue) (start issue mode) ls s) (here : s.tasks[c]? = some task) :
    spent Op.price task.trace ≤ (1032, 14, 20) := by
  obtain ⟨p, path, -⟩ := reached run here
  exact (spends_handle task.peer).total _ _ path

def moved (task : Task τ) : Nat :=
  task.trace.length + task.token.isSome.toNat + task.rest.isNone.toNat

theorem elim_set {tasks : List (Task τ)} {d : Nat} (here : tasks[d]? = some before) (after : Task τ)
    (more : moved after = moved before + 1) (c : Nat) :
    ((tasks.set d after)[c]?).elim 0 moved = (tasks[c]?).elim 0 moved + (decide (d = c)).toNat := by
  obtain ⟨bound, -⟩ := List.getElem?_eq_some_iff.mp here
  by_cases same : d = c
  · subst same
    simp [List.getElem?_set_self bound, here, more]
  · simp [List.getElem?_set_ne same, same]

theorem countP_moves (run : Run (Step issue) (start issue mode) ls s) (c : Nat) :
    ls.countP (Label.moves c) = (s.tasks[c]?).elim 0 moved := by
  refine run.invariant (fun ls s => ∀ c, ls.countP (Label.moves c) = (s.tasks[c]?).elim 0 moved)
    (fun _ => by simp [start]) ?_ c
  intro ls s l t _ inv step c
  rw [List.countP_append, inv c]
  cases step with
  | accept =>
    rw [List.getElem?_append]
    split
    · rfl
    · next beyond =>
      rw [List.getElem?_eq_none (Nat.not_lt.mp beyond)]
      cases c - s.tasks.length <;> rfl
  | exchange started here pending answers =>
    rw [elim_set here _ (by simp [moved, Task.exchanged, pending]; omega)]
    simp [Label.moves, Bool.toNat]
  | isolate here pending unset =>
    rw [elim_set here _ (by simp [moved, Task.isolated, pending, unset])]
    simp [Label.moves, Bool.toNat]
  | pollRead => rfl
  | pollWrite => rfl
  | cancel here running =>
    rename_i d task
    have left : task.rest.isNone = false := by
      unfold Task.running at running
      split at running
      · next left => simp [left]
      · cases running
    rw [elim_set here _ (by simp [moved, Task.cancelled, left])]
    simp [Label.moves, Bool.toNat]

/-- However a client behaves, its handler asks it for no more bytes than the longest
handshake has, offers it no more than its three replies have and takes at most twenty
exchanges. Besides the polls no run has more than two other steps of the connection. -/
theorem handler_bounded (run : Run (Step issue) (start issue mode) ls s)
    (here : s.tasks[c]? = some task) :
    spent Op.price task.trace ≤ (1032, 14, 20) ∧ ls.countP (Label.moves c) ≤ 22 := by
  have bounded := spent_trace run here
  have exchanges : task.trace.length ≤ 20 := by
    rw [← spent_exchanges]
    exact bounded.2.2
  refine ⟨bounded, ?_⟩
  rw [countP_moves run c, here]
  exact Nat.add_le_add (Nat.add_le_add exchanges (Bool.toNat_le _)) (Bool.toNat_le _)

theorem handler_bounded_failed : ∃ (ls : List (Label Nat)) (s : Server Nat) (task : Task Nat),
    Run (Step id) (start id .shared) ls s ∧ s.tasks[0]? = some task ∧
      spent Op.price task.trace = (13, 12, 12) ∧ spent Op.price task.trace ≤ (1032, 14, 20) ∧
      ls.countP (Label.moves 0) ≤ 22 := by
  have run : Run (Step id) (start id .shared) _ _ := run_connection
    (path_knock_failed (.v4 ⟨.of [127, 0, 0, 1]⟩ 40000) ⟨0⟩ (.msg "offline")) free_knock
    (by simp [Free]) rfl
  exact ⟨_, _, _, run, rfl, by decide, @handler_bounded Nat id .shared _ _ 0 _ run rfl⟩

end Server

end Tord.Socks
