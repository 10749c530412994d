import Mathlib.Data.UInt

/-! Process-wide cumulative counters. `fetch_add` on an `AtomicU64` wraps. -/
namespace Tord

structure Metrics where
  connectsTotal : UInt64 := 0
  connectsOk : UInt64 := 0
  connectsFailed : UInt64 := 0
  bytesToUpstream : UInt64 := 0
  bytesToClient : UInt64 := 0
  deriving DecidableEq, Repr

inductive Counter where
  | connectsTotal | connectsOk | connectsFailed | bytesToUpstream | bytesToClient
  deriving DecidableEq, Repr

namespace Metrics

def load (m : Metrics) : Counter → UInt64
  | .connectsTotal => m.connectsTotal
  | .connectsOk => m.connectsOk
  | .connectsFailed => m.connectsFailed
  | .bytesToUpstream => m.bytesToUpstream
  | .bytesToClient => m.bytesToClient

def fetchAdd (m : Metrics) (counter : Counter) (n : UInt64) : Metrics :=
  match counter with
  | .connectsTotal => { m with connectsTotal := m.connectsTotal + n }
  | .connectsOk => { m with connectsOk := m.connectsOk + n }
  | .connectsFailed => { m with connectsFailed := m.connectsFailed + n }
  | .bytesToUpstream => { m with bytesToUpstream := m.bytesToUpstream + n }
  | .bytesToClient => { m with bytesToClient := m.bytesToClient + n }

/-- One counter moves, the others stay. -/
theorem load_fetchAdd (m : Metrics) (counter other : Counter) (n : UInt64) :
    (m.fetchAdd counter n).load other = if other = counter then m.load other + n else m.load other := by
  cases counter <;> cases other <;> rfl

end Metrics

end Tord
