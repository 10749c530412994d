import Mathlib.Data.List.AList
import Mathlib.Data.List.Sort
import Mathlib.Data.UInt
import Tord.Lib.Transition
import Tord.Net

/-! Live registry of in-flight proxied connections. Entries are shared through `Arc`,
so they live in an arena and an `Arc` is a position in it; positions are never reused.
No call of the registry awaits and the daemon runs on one thread, so calls are atomic. -/
namespace Tord

open Transition

/-- Per-connection state. `started` is in nanoseconds of the monotonic clock. -/
structure StreamEntry where
  id : UInt64
  peer : SocketAddr
  target : String
  isolation : Option String
  started : Nat
  toUpstream : UInt64
  toClient : UInt64
  deriving DecidableEq

structure StreamSnapshot where
  id : UInt64
  peer : String
  target : String
  isolation : Option String
  ageSecs : UInt64
  bytesToUpstream : UInt64
  bytesToClient : UInt64
  deriving DecidableEq

abbrev Arc := Nat

structure StreamHandle where
  entry : Arc
  deriving DecidableEq

structure StreamRegistry where
  inner : AList fun _ : UInt64 => Arc := ∅
  nextId : UInt64 := 0
  entries : List StreamEntry := []

namespace StreamRegistry

def register (r : StreamRegistry) (peer : SocketAddr) (target : String)
    (isolation : Option String) (started : Nat) : StreamHandle × StreamRegistry :=
  let id := r.nextId
  let entry := ⟨id, peer, target, isolation, started, 0, 0⟩
  let arc := r.entries.length
  (⟨arc⟩, ⟨r.inner.insert id arc, id + 1, r.entries ++ [entry]⟩)

/-- `Drop for StreamHandle`: the row is removed by the id read back from the entry. -/
def dropHandle (r : StreamRegistry) (handle : StreamHandle) : StreamRegistry :=
  match r.entries[handle.entry]? with
  | some entry => { r with inner := r.inner.erase entry.id }
  | none => r

def len (r : StreamRegistry) : Nat := r.inner.entries.length

def isEmpty (r : StreamRegistry) : Bool := r.len = 0

/-- The values of the map, in one of the orders a hash map may list them. -/
def values (r : StreamRegistry) : List Arc := r.inner.entries.map (·.2)

end StreamRegistry

def StreamEntry.view (now : Nat) (e : StreamEntry) : StreamSnapshot where
  id := e.id
  peer := if e.peer.ipIsUnspecified then "local" else e.peer.toString
  target := e.target
  isolation := e.isolation
  ageSecs := .ofNat ((now - e.started) / 10 ^ 9)
  bytesToUpstream := e.toUpstream
  bytesToClient := e.toClient

namespace StreamRegistry

/-- The rows of the listed values, sorted by id. -/
def snapshotOf (r : StreamRegistry) (now : Nat) (values : List Arc) : List StreamSnapshot :=
  (values.filterMap fun arc => (r.entries[arc]?).map (·.view now)).insertionSort
    fun a b => a.id ≤ b.id

def snapshot (r : StreamRegistry) (now : Nat) : List StreamSnapshot :=
  r.snapshotOf now r.values

def count (r : StreamRegistry) (arc : Arc) (up down : UInt64) : StreamRegistry :=
  { r with entries := r.entries.modify arc fun e =>
      { e with toUpstream := e.toUpstream + up, toClient := e.toClient + down } }

theorem snd_register (r : StreamRegistry) : (r.register peer target isolation started).2 =
    ⟨r.inner.insert r.nextId r.entries.length, r.nextId + 1,
      r.entries ++ [⟨r.nextId, peer, target, isolation, started, 0, 0⟩]⟩ := rfl

@[simp] theorem length_count (r : StreamRegistry) :
    (r.count arc up down).entries.length = r.entries.length := by simp [count]

@[simp] theorem dropHandle_entries (r : StreamRegistry) (handle : StreamHandle) :
    (r.dropHandle handle).entries = r.entries := by
  unfold dropHandle; split <;> rfl

@[simp] theorem dropHandle_nextId (r : StreamRegistry) (handle : StreamHandle) :
    (r.dropHandle handle).nextId = r.nextId := by
  unfold dropHandle; split <;> rfl

end StreamRegistry

theorem ofNat_injective {a b : Nat} (ha : a < 2 ^ 64) (hb : b < 2 ^ 64)
    (same : UInt64.ofNat a = UInt64.ofNat b) : a = b := by
  have h := congrArg UInt64.toNat same
  rwa [UInt64.toNat_ofNat', UInt64.toNat_ofNat', Nat.mod_eq_of_lt ha, Nat.mod_eq_of_lt hb] at h

/-- The registry when exactly the handles in `live` have not been dropped. Ids count
registrations, so an id leads back to one entry while fewer than `2 ^ 64` exist. -/
structure Tracks (r : StreamRegistry) (live : List StreamHandle) : Prop where
  numbered : ∀ (arc : Arc) (entry : StreamEntry), r.entries[arc]? = some entry →
    entry.id = UInt64.ofNat arc
  next : r.nextId = .ofNat r.entries.length
  allocated : ∀ handle ∈ live, handle.entry < r.entries.length
  unique : live.Nodup
  rows : ∀ id arc, r.inner.lookup id = some arc ↔ ⟨arc⟩ ∈ live ∧ id = .ofNat arc

namespace Tracks

open StreamRegistry

variable {r : StreamRegistry} {live : List StreamHandle}

theorem empty : Tracks {} [] where
  numbered := by simp
  next := rfl
  allocated := by simp
  unique := List.nodup_nil
  rows := by simp

/-- A fresh id is no live row's id: here the bound on registrations is needed. -/
theorem register (tracks : Tracks r live) (room : r.entries.length < 2 ^ 64) :
    Tracks (r.register peer target isolation started).2
      (live ++ [(r.register peer target isolation started).1]) where
  numbered arc entry found := by
    rw [snd_register] at found
    rcases Nat.lt_trichotomy arc r.entries.length with old | rfl | beyond
    · rw [List.getElem?_append_left old] at found
      exact tracks.numbered arc entry found
    · simp at found
      subst found
      exact tracks.next
    · rw [List.getElem?_eq_none (by simp; omega)] at found
      contradiction
  next := by
    rw [snd_register, tracks.next]
    simp
  allocated handle member := by
    rw [snd_register]
    rw [List.length_append]
    rcases List.mem_append.mp member with old | new
    · exact Nat.lt_add_right _ (tracks.allocated handle old)
    · rw [List.mem_singleton.mp new]
      exact Nat.lt_succ_self _
  unique := by
    refine List.nodup_append.mpr ⟨tracks.unique, by simp, ?_⟩
    rintro handle member other new rfl
    have bound := tracks.allocated handle member
    rw [List.mem_singleton.mp new] at bound
    exact Nat.lt_irrefl _ bound
  rows id arc := by
    rw [snd_register]
    by_cases here : id = r.nextId
    · subst here
      rw [AList.lookup_insert, tracks.next]
      constructor
      · intro found
        obtain rfl := Option.some.inj found
        exact ⟨by simp [StreamRegistry.register], rfl⟩
      · rintro ⟨member, same⟩
        rcases List.mem_append.mp member with old | new
        · have bound := tracks.allocated _ old
          have := ofNat_injective room (Nat.lt_trans bound room) same
          rw [this]
        · cases List.mem_singleton.mp new
          rfl
    · rw [AList.lookup_insert_ne here, tracks.rows]
      constructor
      · rintro ⟨old, same⟩
        exact ⟨List.mem_append_left _ old, same⟩
      · rintro ⟨member, rfl⟩
        rcases List.mem_append.mp member with old | new
        · exact ⟨old, rfl⟩
        · cases List.mem_singleton.mp new
          exact absurd tracks.next.symm here

/-- A dropped handle finds its own entry and so its own id. -/
theorem entry_id (tracks : Tracks r live) (member : handle ∈ live) :
    ∃ entry, r.entries[handle.entry]? = some entry ∧ entry.id = .ofNat handle.entry := by
  have bound := tracks.allocated handle member
  exact ⟨_, List.getElem?_eq_getElem bound,
    tracks.numbered _ _ (List.getElem?_eq_getElem bound)⟩

theorem dropHandle_inner (tracks : Tracks r live) (member : handle ∈ live) :
    (r.dropHandle handle).inner = r.inner.erase (.ofNat handle.entry) := by
  obtain ⟨entry, found, id⟩ := tracks.entry_id member
  simp [StreamRegistry.dropHandle, found, id]

theorem drop (tracks : Tracks r live) (member : handle ∈ live)
    (room : r.entries.length ≤ 2 ^ 64) : Tracks (r.dropHandle handle) (live.erase handle) where
  numbered := by rw [dropHandle_entries]; exact tracks.numbered
  next := by rw [dropHandle_entries, dropHandle_nextId]; exact tracks.next
  allocated other kept := by
    rw [dropHandle_entries]
    exact tracks.allocated other (List.mem_of_mem_erase kept)
  unique := tracks.unique.erase handle
  rows id arc := by
    rw [tracks.dropHandle_inner member, tracks.unique.mem_erase_iff]
    by_cases here : id = .ofNat handle.entry
    · subst here
      simp only [AList.lookup_erase, reduceCtorEq, false_iff, not_and]
      rintro ⟨other, kept⟩ same
      have bound := tracks.allocated handle member
      have otherBound := tracks.allocated _ kept
      have := ofNat_injective (Nat.lt_of_lt_of_le bound room)
        (Nat.lt_of_lt_of_le otherBound room) same
      exact other (congrArg StreamHandle.mk this.symm)
    · rw [AList.lookup_erase_ne here, tracks.rows]
      constructor
      · rintro ⟨old, rfl⟩
        refine ⟨⟨?_, old⟩, rfl⟩
        rintro rfl
        exact here rfl
      · rintro ⟨⟨_, old⟩, same⟩
        exact ⟨old, same⟩

theorem count (tracks : Tracks r live) : Tracks (r.count arc up down) live where
  numbered index entry found := by
    simp only [StreamRegistry.count, List.getElem?_modify] at found
    obtain ⟨before, earlier, rfl⟩ := Option.map_eq_some_iff.mp found
    split <;> exact tracks.numbered index before earlier
  next := by rw [length_count]; exact tracks.next
  allocated handle member := by rw [length_count]; exact tracks.allocated handle member
  unique := tracks.unique
  rows := tracks.rows

theorem entries_perm (tracks : Tracks r live) :
    r.inner.entries.Perm (live.map fun handle => ⟨.ofNat handle.entry, handle.entry⟩) := by
  have distinct : Function.Injective fun handle : StreamHandle =>
      (⟨.ofNat handle.entry, handle.entry⟩ : (_ : UInt64) × Arc) := by
    rintro ⟨a⟩ ⟨b⟩ same
    exact congrArg StreamHandle.mk (congrArg Sigma.snd same)
  refine (List.perm_ext_iff_of_nodup r.inner.nodupKeys.nodup
    (tracks.unique.map distinct)).mpr ?_
  rintro ⟨id, arc⟩
  rw [← AList.mem_lookup_iff, Option.mem_def, tracks.rows]
  simp only [List.mem_map]
  constructor
  · rintro ⟨member, rfl⟩
    exact ⟨⟨arc⟩, member, rfl⟩
  · rintro ⟨handle, member, same⟩
    cases same
    exact ⟨member, rfl⟩

theorem values_perm (tracks : Tracks r live) : r.values.Perm (live.map (·.entry)) := by
  have same := tracks.entries_perm.map (·.2)
  rw [List.map_map] at same
  exact same

theorem len_eq (tracks : Tracks r live) : r.len = live.length := by
  simpa [len] using tracks.entries_perm.length_eq

/-- A snapshot is the list of live handles in order of registration, whatever order
the map lists its values in. -/
theorem snapshotOf_eq (tracks : Tracks r live) (room : r.entries.length ≤ 2 ^ 64)
    (ordered : live.Pairwise fun a b => a.entry < b.entry)
    {values : List Arc} (listing : values.Perm r.values) (now : Nat) :
    r.snapshotOf now values =
        live.filterMap (fun handle => (r.entries[handle.entry]?).map (·.view now)) ∧
      (r.snapshotOf now values).Pairwise (·.id < ·.id) := by
  set rows := live.filterMap fun handle => (r.entries[handle.entry]?).map (·.view now) with hrows
  have ids : ∀ (arc : Arc) (row : StreamSnapshot),
      (r.entries[arc]?).map (·.view now) = some row → arc < 2 ^ 64 ∧ row.id = .ofNat arc := by
    intro arc row found
    obtain ⟨entry, here, rfl⟩ := Option.map_eq_some_iff.mp found
    obtain ⟨bound, -⟩ := List.getElem?_eq_some_iff.mp here
    exact ⟨Nat.lt_of_lt_of_le bound room, tracks.numbered arc entry here⟩
  have increasing : rows.Pairwise (·.id < ·.id) := by
    refine List.pairwise_filterMap.mpr (ordered.imp ?_)
    intro a b before rowA foundA rowB foundB
    obtain ⟨boundA, idA⟩ := ids _ _ foundA
    obtain ⟨boundB, idB⟩ := ids _ _ foundB
    rw [idA, idB, UInt64.lt_iff_toNat_lt, UInt64.toNat_ofNat', UInt64.toNat_ofNat',
      Nat.mod_eq_of_lt boundA, Nat.mod_eq_of_lt boundB]
    exact before
  have listed : (values.filterMap fun arc => (r.entries[arc]?).map (·.view now)).Perm rows := by
    have same := (listing.trans tracks.values_perm).filterMap
      fun arc => (r.entries[arc]?).map (·.view now)
    rwa [List.filterMap_map] at same
  have sorted : r.snapshotOf now values = rows := by
    have byId : (rows.map (·.id)).Nodup :=
      (List.pairwise_map.mpr increasing).imp fun less => UInt64.ne_of_lt less
    have total : Std.Total fun a b : StreamSnapshot => a.id ≤ b.id :=
      ⟨fun a b => UInt64.le_total a.id b.id⟩
    have transitive : IsTrans StreamSnapshot fun a b => a.id ≤ b.id :=
      ⟨fun a b c => UInt64.le_trans⟩
    refine List.Perm.eq_of_pairwise ?_ (List.pairwise_insertionSort _ _)
      (increasing.imp UInt64.le_of_lt) ((List.perm_insertionSort _ _).trans listed)
    intro a b ha hb below above
    have ha := (List.perm_insertionSort _ _).mem_iff.mp ha
    exact List.inj_on_of_nodup_map byId (listed.mem_iff.mp ha) hb (UInt64.le_antisymm below above)
  exact ⟨sorted, sorted ▸ increasing⟩

end Tracks

end Tord
