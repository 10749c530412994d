import Tord.Socks.Ledger

/-! Circuit isolation over whole runs of the server: what the tokens of two streams say
about the usernames their clients sent. -/
namespace Tord.Socks

open Interaction Transition Text

variable {τ : Type} {issue : Nat → τ}

/-- The username bytes on the wire; the empty username is one. -/
def Negotiation.username (n : Negotiation) : Option (List UInt8) :=
  n.auth.map fun credentials => utf8 credentials.uname

theorem Negotiation.username_eq_iff {first second : Negotiation} :
    first.username = second.username ↔ first.user = second.user := by
  have same : ∀ n : Negotiation, n.username = n.user.map utf8 := by
    intro n
    simp [username, user, Function.comp_def]
  rw [same, same]
  exact (Option.map_injective fun _ _ => utf8_injective).eq_iff

namespace Server

def received (s : Server τ) (c : Nat) : List UInt8 :=
  (s.tasks[c]?).elim [] fun task => Socks.received task.trace

def isolations (ls : List (Label τ)) : List (Nat × Option String × τ) :=
  ls.filterMap fun
    | .isolate c isoUser token => some (c, isoUser, token)
    | _ => none

theorem mem_isolations {ls : List (Label τ)} :
    (c, isoUser, token) ∈ isolations ls ↔ .isolate c isoUser token ∈ ls := by
  simp only [isolations, List.mem_filterMap]
  constructor
  · rintro ⟨label, member, found⟩
    cases label <;> simp at found
    obtain ⟨rfl, rfl, rfl⟩ := found
    exact member
  · exact fun member => ⟨_, member, rfl⟩

/-- A run of the server is a run of its `TorManager`. -/
theorem run_tor (run : Run (Step issue) (start issue mode) ls s) :
    Run (TorManager.Step issue) (.new issue mode) ((isolations ls).map (·.2)) s.tor := by
  refine run.invariant (fun ls (s : Server τ) =>
    Run (TorManager.Step issue) (.new issue mode) ((isolations ls).map (·.2)) s.tor) .nil ?_
  intro ls s l t _ inv step
  cases step with
  | isolate here pending unset =>
    rw [isolations, List.filterMap_append, List.map_append]
    exact inv.snoc (.resolved _)
  | _ => simpa [isolations] using inv

/-- The client's handshake is over: `connect` is called with its username or was. -/
def Asked (task : Task τ) (isoUser : Option String) : Prop :=
  (∃ hs : Handshake, Socks.received task.trace = hs.bytes ∧ isoUser = hs.negotiation.user) ∧
    (calls task.trace = [] → ∀ op next, task.rest = some (.request op next) → op.isConnect)

theorem asked_of_connect {task : Task τ} (reached : Reached task)
    (pending : task.rest = some (.request (.connect host port isoUser) next)) :
    Asked task isoUser := by
  obtain ⟨p, path, left⟩ := reached
  obtain rfl := left _ pending
  obtain ⟨-, -, hs, bytes, call⟩ := (meets_of_path path).1.connect rfl
  refine ⟨⟨hs, bytes, (Op.connect.inj call).2.2⟩, fun _ op next other => ?_⟩
  obtain ⟨rfl, -⟩ : Op.connect host port isoUser = op ∧ _ := by simpa [pending] using other
  rfl

/-- Nothing is read of the client any more. -/
theorem Asked.exchanged {task : Task τ} (asked : Asked task isoUser) (reached : Reached task)
    (pending : task.rest = some (.request op next)) (reply : op.Res) :
    Asked (task.exchanged op reply (next reply)) isoUser := by
  obtain ⟨p, path, left⟩ := reached
  obtain rfl := left _ pending
  obtain ⟨⟨hs, bytes, user⟩, connecting⟩ := asked
  have unread : readBytes ⟨op, reply⟩ = [] := by
    cases op with
    | readExact n =>
      have uncalled := (meets_of_path path).1.read n rfl
      exact absurd (connecting uncalled _ _ pending) nofun
    | _ => rfl
  refine ⟨⟨hs, by simp [Task.exchanged, Socks.received, unread, ← bytes], user⟩, ?_⟩
  intro uncalled
  rw [Task.exchanged, calls_snoc, List.append_eq_nil_iff] at uncalled
  obtain ⟨earlier, here⟩ := uncalled
  simp [connecting earlier _ _ pending] at here

/-- A label that resolved an isolation leaves its token on the connection for good. -/
theorem isolated_once (run : Run (Step issue) (start issue mode) ls s)
    (member : .isolate c isoUser token ∈ ls) :
    ∃ task, s.tasks[c]? = some task ∧ task.token = some token ∧ Asked task isoUser := by
  refine run.invariant (fun ls (s : Server τ) => .isolate c isoUser token ∈ ls →
    ∃ task, s.tasks[c]? = some task ∧ task.token = some token ∧ Asked task isoUser) (by simp) ?_
    member
  intro ls s l t front inv step member
  rcases List.mem_append.mp member with old | new
  · obtain ⟨before, here, set, asked⟩ := inv old
    obtain ⟨after, found, evolves⟩ := step.persists here
    refine ⟨after, found, ?_⟩
    cases evolves with
    | same => exact ⟨set, asked⟩
    | exchange pending => exact ⟨set, asked.exchanged (reached front here) pending _⟩
    | isolate pending unset => rw [set] at unset; contradiction
    | cancel => exact ⟨set, asked.1, nofun⟩
  · obtain rfl := List.mem_singleton.mp new
    cases step with
    | @isolate _ _ task _ _ _ _ here pending unset =>
      obtain ⟨bound, -⟩ := List.getElem?_eq_some_iff.mp here
      obtain ⟨sent, connecting⟩ := asked_of_connect (reached front here) pending
      exact ⟨_, List.getElem?_set_self bound, rfl, sent, connecting⟩

/-- Circuit isolation, for any two streams of any run. -/
theorem connections_isolated (distinct : Function.Injective issue)
    (run : Run (Step issue) (start issue mode) ls s)
    (first : .isolate c₁ user₁ token₁ ∈ ls) (second : .isolate c₂ user₂ token₂ ∈ ls) :
    ∃ hs₁ hs₂ : Handshake, s.received c₁ = hs₁.bytes ∧ s.received c₂ = hs₂.bytes ∧
      match mode with
      | .shared => token₁ = token₂
      | .perQuery => token₁ = token₂ ↔ c₁ = c₂
      | .perUpstream =>
        token₁ = token₂ ↔ hs₁.negotiation.username = hs₂.negotiation.username := by
  obtain ⟨task₁, here₁, set₁, ⟨hs₁, bytes₁, rfl⟩, -⟩ := isolated_once run first
  obtain ⟨task₂, here₂, set₂, ⟨hs₂, bytes₂, rfl⟩, -⟩ := isolated_once run second
  refine ⟨hs₁, hs₂, by simpa [received, here₁], by simpa [received, here₂], ?_⟩
  by_cases same : c₁ = c₂
  · subst same
    obtain rfl := Option.some.inj (here₁.symm.trans here₂)
    obtain rfl := Option.some.inj (set₁.symm.trans set₂)
    have user := (handshake_prefix_free (congrArg (· ++ []) (bytes₁.symm.trans bytes₂))).2.1
    have user := (Op.connect.inj user).2.2
    cases mode <;> simp [Negotiation.username_eq_iff, user]
  · have law : TorManager.Law mode (hs₁.negotiation.user, token₁) (hs₂.negotiation.user, token₂) := by
      have all := List.pairwise_map.mp (TorManager.run_invariant distinct (run_tor run)).law
      have : Std.Symm fun a b : Nat × Option String × τ => TorManager.Law mode a.2 b.2 :=
        ⟨fun _ _ => TorManager.Law.symm⟩
      exact all.forall (mem_isolations.mpr first) (mem_isolations.mpr second) (by simp [same])
    cases mode with
    | shared => exact law
    | perQuery => exact iff_of_false law same
    | perUpstream => rw [Negotiation.username_eq_iff]; exact law

/-- Two clients without a username, one after the other, share the default token. -/
theorem connections_isolated_anonymous :
    ∃ (ls : List (Label Nat)) (s : Server Nat), Run (Step id) (start id .perUpstream) ls s ∧
      .isolate 0 none 0 ∈ ls ∧ .isolate 1 none 0 ∈ ls ∧
      ∃ hs₁ hs₂ : Handshake, s.received 0 = hs₁.bytes ∧ s.received 1 = hs₂.bytes ∧
        ((0 : Nat) = 0 ↔ hs₁.negotiation.username = hs₂.negotiation.username) := by
  let peer : SocketAddr := .v4 ⟨⟨[127, 0, 0, 1], rfl⟩⟩ 40000
  let e : Error := .msg "no circuit"
  have first : Run (Step id) (start id .perUpstream) _ _ :=
    run_connection (path_knock_failed peer ⟨0⟩ e) free_knock (by simp [Free]) rfl
  have run := first.append
    (run_connection (path_knock_failed peer ⟨1⟩ e) free_knock (by simp [Free]) rfl)
  refine ⟨_, _, run, ?one, ?two, connections_isolated Function.injective_id run ?one ?two⟩
  · exact List.mem_append_left _ (.tail _ (List.mem_append_right _ (.tail _ (.head _))))
  · exact List.mem_append_right _ (.tail _ (List.mem_append_right _ (.tail _ (.head _))))

/-- The token map has a name exactly if a client sent it and its request came to `connect`,
and nothing is ever taken out of it. -/
theorem tokens_remembered (run : Run (Step issue) (start issue mode) ls s) :
    (∀ user, user ∈ s.tor.perUpstream ↔ mode = .perUpstream ∧
      ∃ (c : Nat) (token : τ) (hs : Handshake), .isolate c (some user) token ∈ ls ∧
        s.received c = hs.bytes ∧ hs.negotiation.user = some user) ∧
    s.tor.issued = 1 + mode.issues (isolations ls).length s.tor.perUpstream.keys.length := by
  have remembers := TorManager.run_remembers (run_tor run)
  have issued := remembers.issued
  rw [List.length_map] at issued
  refine ⟨fun user => ?_, issued⟩
  rw [remembers.keys user]
  refine and_congr_right fun _ => ?_
  simp only [List.mem_map, Prod.exists]
  constructor
  · rintro ⟨token, c, _, _, member, ⟨⟩⟩
    have asked := mem_isolations.mp member
    obtain ⟨task, here, -, ⟨hs, bytes, same⟩, -⟩ := isolated_once run asked
    exact ⟨c, token, hs, asked, by simpa [received, here], same.symm⟩
  · rintro ⟨c, token, hs, member, -, -⟩
    exact ⟨token, c, some user, token, mem_isolations.mpr member, rfl⟩

def named (user : String) (len : user.utf8ByteSize ≤ 255) : Handshake :=
  ⟨⟨[methodUserpass], some ⟨user, [], len, Nat.zero_le _⟩, by decide, by simp⟩,
    ⟨0, .ipv4 ⟨.of [1, 1, 1, 1]⟩, 80⟩⟩

/-- Three clients with two usernames between them. -/
theorem tokens_remembered_named : ∃ (ls : List (Label Nat)) (s : Server Nat),
    Run (Step id) (start id .perUpstream) ls s ∧
      .isolate 0 (some "a") 1 ∈ ls ∧ .isolate 1 (some "b") 2 ∈ ls ∧ .isolate 2 (some "a") 1 ∈ ls ∧
      (∀ user, user ∈ s.tor.perUpstream ↔ user = "a" ∨ user = "b") ∧
      (∀ user, user = "a" ∨ user = "b" → ∃ (c : Nat) (token : Nat) (hs : Handshake),
        .isolate c (some user) token ∈ ls ∧ s.received c = hs.bytes ∧ hs.negotiation.user = some user) ∧
      s.tor.issued = 3 := by
  have peer : SocketAddr := .v4 ⟨.of [127, 0, 0, 1]⟩ 40000
  obtain ⟨_, _, _, _, first, -, -⟩ := run_served (start id .perUpstream) id peer (named "a" (by decide))
  obtain ⟨_, _, _, _, second, -, -⟩ := run_served _ id peer (named "b" (by decide))
  obtain ⟨_, _, _, _, third, -, -⟩ := run_served _ id peer (named "a" (by decide))
  have whole := (first.append second).append third
  obtain ⟨keys, issued⟩ := tokens_remembered whole
  have names (user : String) :
      user ∈ (((∅ : AList fun _ : String => Nat).insert "a" 1).insert "b" 2) ↔ user = "a" ∨ user = "b" := by
    rw [AList.mem_insert, AList.mem_insert]
    simp [or_comm]
  refine ⟨_, _, whole, ?_, ?_, ?_, names, fun user known => ((keys user).mp ((names user).mpr known)).2, issued⟩
  · exact List.mem_append_left _ (List.mem_append_left _ (.tail _ (List.mem_append_right _ (.head _))))
  · exact List.mem_append_left _ (List.mem_append_right _ (.tail _ (List.mem_append_right _ (.head _))))
  · exact List.mem_append_right _ (.tail _ (List.mem_append_right _ (.head _)))

end Server

end Tord.Socks
