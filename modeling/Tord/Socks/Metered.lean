import Tord.Error
import Tord.Metrics
import Tord.Streams

/-! `Metered`: the client stream of a splice, counting what its polls report. The inner
stream's poll is an input here: what it returned and how it left the buffer. -/
namespace Tord.Socks

inductive Poll (α : Type) where
  | pending
  | ready (value : α)
  deriving DecidableEq

/-- The caller's buffer: what is filled of it and how much it can hold. -/
structure ReadBuf where
  filled : List UInt8
  capacity : Nat
  deriving DecidableEq

/-- What `AsyncRead` promises of `poll_read`: the filled part only grows, and a poll that is
pending or fails leaves the buffer as it was. -/
structure ReadBuf.Polled (before : ReadBuf) (inner : ReadBuf × Poll (Except IoError Unit)) : Prop where
  grows : before.filled <+: inner.1.filled
  room : inner.1.capacity = before.capacity ∧ inner.1.filled.length ≤ inner.1.capacity
  untouched : inner.2 ≠ .ready (.ok ()) → inner.1 = before

structure Counters where
  metrics : Metrics := {}
  streams : StreamRegistry := {}

namespace Counters

def pollRead (s : Counters) (entry : Arc) (buf : ReadBuf)
    (inner : ReadBuf × Poll (Except IoError Unit)) : Counters :=
  let before := buf.filled.length
  let (buf, r) := inner
  match r with
  | .ready (.ok ()) =>
    let n := UInt64.ofNat (buf.filled.length - before)
    if n > 0 then
      { s with metrics := s.metrics.fetchAdd .bytesToUpstream n, streams := s.streams.count entry n 0 }
    else s
  | _ => s

def pollWrite (s : Counters) (entry : Arc) (r : Poll (Except IoError Nat)) : Counters :=
  match r with
  | .ready (.ok n) =>
    let n := UInt64.ofNat n
    { s with metrics := s.metrics.fetchAdd .bytesToClient n, streams := s.streams.count entry 0 n }
  | _ => s

end Counters

/-- Bytes that a poll handed over, whatever it returned. -/
def deliveredBytes (before : ReadBuf) (inner : ReadBuf × Poll (Except IoError Unit)) : Nat :=
  inner.1.filled.length - before.filled.length

def acceptedBytes : Poll (Except IoError Nat) → Nat
  | .ready (.ok n) => n
  | _ => 0

theorem count_zero (r : StreamRegistry) (arc : Arc) : r.count arc 0 0 = r := by
  simp only [StreamRegistry.count, UInt64.add_zero]
  exact congrArg (StreamRegistry.mk r.inner r.nextId) (List.modify_id arc r.entries)

theorem fetchAdd_zero (m : Metrics) (counter : Counter) : m.fetchAdd counter 0 = m := by
  cases counter <;> simp [Metrics.fetchAdd]

/-- Counted once in the totals and once in the row, whatever the poll reported. -/
theorem Counters.pollRead_eq {buf : ReadBuf} {inner : ReadBuf × Poll (Except IoError Unit)}
    (promised : buf.Polled inner) (s : Counters) (entry : Arc) :
    s.pollRead entry buf inner =
      { metrics := s.metrics.fetchAdd .bytesToUpstream (.ofNat (deliveredBytes buf inner))
        streams := s.streams.count entry (.ofNat (deliveredBytes buf inner)) 0 } := by
  have nothing : s = { metrics := s.metrics.fetchAdd .bytesToUpstream 0
                       streams := s.streams.count entry 0 0 } := by
    rw [fetchAdd_zero, count_zero]
  have still (quiet : inner.2 ≠ .ready (.ok ())) : deliveredBytes buf inner = 0 := by
    rw [deliveredBytes, promised.untouched quiet, Nat.sub_self]
  obtain ⟨after, r⟩ := inner
  rcases r with _ | _ | _
  · rw [still (by simp)]
    exact nothing
  · rw [still (by simp)]
    exact nothing
  · simp only [Counters.pollRead, deliveredBytes]
    split
    · rfl
    · next zero =>
      rw [show UInt64.ofNat (after.filled.length - buf.filled.length) = 0 by
        simpa [UInt64.pos_iff_ne_zero] using zero]
      exact nothing

theorem Counters.pollWrite_eq (s : Counters) (entry : Arc) (r : Poll (Except IoError Nat)) :
    s.pollWrite entry r =
      { metrics := s.metrics.fetchAdd .bytesToClient (.ofNat (acceptedBytes r))
        streams := s.streams.count entry 0 (.ofNat (acceptedBytes r)) } := by
  have nothing : s = { metrics := s.metrics.fetchAdd .bytesToClient 0
                       streams := s.streams.count entry 0 0 } := by
    rw [fetchAdd_zero, count_zero]
  rcases r with _ | _ | n
  · exact nothing
  · exact nothing
  · rfl

end Tord.Socks
