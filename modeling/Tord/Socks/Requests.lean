import Tord.Addresses
import Tord.Socks.Ledger
import Tord.Table

/-! What a client asked for can be told from what Tor is asked for, from what is registered
and from the row of the answer, as far as a domain name is not written like an address. On
the screen a missing username is also written like the username `-`. -/
namespace Tord.Socks

open Text

/-- Equal, or one is a domain name that is written like the other. -/
def Address.Alike (a b : Address) : Prop :=
  a = b ∨ (∃ name len, a = .domain name len ∧ name = b.host) ∨
    ∃ name len, b = .domain name len ∧ name = a.host

theorem host_eq_iff (a b : Address) : a.host = b.host ↔ a.Alike b := by
  constructor
  · intro same
    cases a with
    | domain name len => exact .inr (.inl ⟨name, len, rfl, same⟩)
    | ipv4 ip =>
      cases b with
      | domain name len => exact .inr (.inr ⟨name, len, rfl, same.symm⟩)
      | ipv4 other => exact .inl (congrArg _ (Ipv4Addr.toString_injective same))
      | ipv6 other => exact absurd same (Ipv4Addr.toString_ne ip other)
    | ipv6 ip =>
      cases b with
      | domain name len => exact .inr (.inr ⟨name, len, rfl, same.symm⟩)
      | ipv4 other => exact absurd same.symm (Ipv4Addr.toString_ne other ip)
      | ipv6 other => exact .inl (congrArg _ (Ipv6Addr.toString_injective same))
  · intro alike
    rcases alike with rfl | ⟨name, len, rfl, same⟩ | ⟨name, len, rfl, same⟩
    · rfl
    · exact same
    · exact same.symm

/-- Two requests for the same port, of alike addresses, under the same username. -/
structure Handshake.Alike (a b : Handshake) : Prop where
  address : a.request.address.Alike b.request.address
  port : a.request.port = b.request.port
  user : a.negotiation.user = b.negotiation.user

theorem target_eq_iff (a b : Handshake) : a.target = b.target ↔
    a.request.address.host = b.request.address.host ∧ a.request.port = b.request.port := by
  have plain (port : UInt16) : ':' ∉ Nat.toDigits 10 port.toNat :=
    notMem_toDigits (by decide) (by decide) colon_ne_digit
  have written (hs : Handshake) : hs.target.toList =
      hs.request.address.host.toList ++ ':' :: Nat.toDigits 10 hs.request.port.toNat := by
    simp [Handshake.target]
  rw [← String.toList_inj, written, written, append_cons_inj (plain _) (plain _), String.toList_inj]
  exact and_congr_right fun _ => ⟨fun same =>
    UInt16.toNat_inj.mp (toDigits_injective (by decide) (by decide) same), fun same => by rw [same]⟩

theorem alike_iff (a b : Handshake) :
    a.Alike b ↔ a.target = b.target ∧ a.negotiation.user = b.negotiation.user := by
  rw [target_eq_iff, host_eq_iff, and_assoc]
  exact ⟨fun alike => ⟨alike.address, alike.port, alike.user⟩,
    fun ⟨address, port, user⟩ => ⟨address, port, user⟩⟩

def Handshake.registration (hs : Handshake) (peer : SocketAddr) : Op :=
  .register peer hs.target hs.negotiation.user

/-- The row of an entry, if the entry is registered for this handshake. -/
def Handshake.row (hs : Handshake) (entry : StreamEntry) (now : Nat) : StreamSnapshot :=
  StreamEntry.view now { entry with target := hs.target, isolation := hs.negotiation.user }

/-- A missing username, and the name that the screen has in its place. -/
def Dashed (a b : Option String) : Prop := a = none ∧ b = some "-" ∨ a = some "-" ∧ b = none

theorem getD_eq_iff (a b : Option String) : a.getD "-" = b.getD "-" ↔ a = b ∨ Dashed a b := by
  cases a <;> cases b <;> simp [Dashed, eq_comm]

/-- Tor is asked for the same, the same is registered and the rows have one document exactly
for alike requests; the cells of the rows are the same also for a missing username and `-`. -/
theorem request_identified (a b : Handshake) : (a.call = b.call ↔ a.Alike b) ∧
    (∀ peer, a.registration peer = b.registration peer ↔ a.Alike b) ∧
    (∀ entry now, (a.row entry now).toValue = (b.row entry now).toValue ↔ a.Alike b) ∧
    ∀ entry now, (a.row entry now).cells = (b.row entry now).cells ↔
      a.request.address.Alike b.request.address ∧ a.request.port = b.request.port ∧
        (a.negotiation.user = b.negotiation.user ∨ Dashed a.negotiation.user b.negotiation.user) := by
  refine ⟨?_, fun peer => ?_, fun entry now => ?_, fun entry now => ?_⟩
  · rw [alike_iff, target_eq_iff, and_assoc]
    simp [Handshake.call]
  · rw [alike_iff]
    simp [Handshake.registration]
  · rw [alike_iff, toValue_injective.eq_iff]
    simp [Handshake.row, StreamEntry.view]
  · rw [← host_eq_iff, ← and_assoc, ← target_eq_iff, ← getD_eq_iff]
    simp [Handshake.row, StreamEntry.view, StreamSnapshot.cells]

end Tord.Socks
