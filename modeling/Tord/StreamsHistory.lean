import Tord.Streams

/-! Whole runs of the registry: any interleaving of its calls. A handle is not `Clone`
and is consumed by its drop, so each handle in `live` is dropped once, by its owner. -/
namespace Tord

open Transition

structure World where
  registry : StreamRegistry := {}
  live : List StreamHandle := []

inductive Call where
  | register (peer : SocketAddr) (target : String) (isolation : Option String) (started : Nat)
  | drop (handle : StreamHandle)
  | count (arc : Arc) (up down : UInt64)
  | len
  | snapshot (now : Nat)

namespace World

def after (w : World) : Call → World
  | .register peer target isolation started =>
    let (handle, registry) := w.registry.register peer target isolation started
    ⟨registry, w.live ++ [handle]⟩
  | .drop handle => ⟨w.registry.dropHandle handle, w.live.erase handle⟩
  | .count arc up down => ⟨w.registry.count arc up down, w.live⟩
  | .len => w
  | .snapshot _ => w

inductive Step : World → Call → World → Prop where
  | taken (owned : ∀ handle, call = .drop handle → handle ∈ w.live) : Step w call (w.after call)

end World

def registrations (calls : List Call) : List (SocketAddr × String × Option String) :=
  calls.filterMap fun
    | .register peer target isolation _ => some (peer, target, isolation)
    | _ => none

def StreamEntry.given (e : StreamEntry) : SocketAddr × String × Option String :=
  (e.peer, e.target, e.isolation)

theorem given_count (r : StreamRegistry) :
    (r.count arc up down).entries.map StreamEntry.given = r.entries.map StreamEntry.given := by
  apply List.ext_getElem?
  intro index
  simp only [StreamRegistry.count, List.getElem?_map, List.getElem?_modify]
  cases r.entries[index]? with
  | none => rfl
  | some entry => simp only [Option.map_some]; split <;> rfl

/-- The arena is the list of registrations, whatever the ids do. -/
theorem World.run_given (run : Run World.Step {} calls w) :
    w.registry.entries.map StreamEntry.given = registrations calls := by
  refine run.invariant (fun calls (w : World) =>
    w.registry.entries.map StreamEntry.given = registrations calls) rfl ?_
  intro calls w call next _ given step
  obtain ⟨owned⟩ := step
  cases call with
  | register peer target isolation started =>
    simp [World.after, StreamRegistry.snd_register, given, registrations, StreamEntry.given]
  | drop handle => simp [World.after, given, registrations]
  | count arc up down => simp [World.after, given_count, given, registrations]
  | len => simp [World.after, given, registrations]
  | snapshot now => simp [World.after, given, registrations]

/-- Under the bound on registrations that keeps ids apart. -/
structure World.Inv (w : World) : Prop where
  ordered : w.live.Pairwise fun a b => a.entry < b.entry
  tracks : Tracks w.registry w.live

theorem World.step_inv (inv : World.Inv w) (step : World.Step w call next)
    (room : next.registry.entries.length ≤ 2 ^ 64) : World.Inv next := by
  obtain ⟨owned⟩ := step
  cases call with
  | register peer target isolation started =>
    have room : w.registry.entries.length < 2 ^ 64 := by
      simpa [World.after, StreamRegistry.snd_register, Nat.succ_le_iff] using room
    refine ⟨?_, inv.tracks.register room⟩
    refine List.pairwise_append.mpr ⟨inv.ordered, List.pairwise_singleton _ _, ?_⟩
    intro old member new isNew
    rw [List.mem_singleton.mp isNew]
    exact inv.tracks.allocated old member
  | drop handle =>
    exact ⟨inv.ordered.sublist List.erase_sublist,
      inv.tracks.drop (owned handle rfl) (by simpa [World.after] using room)⟩
  | count arc up down => exact ⟨inv.ordered, inv.tracks.count⟩
  | len => exact inv
  | snapshot now => exact inv

theorem World.length_le_after (w : World) (call : Call) :
    w.registry.entries.length ≤ (w.after call).registry.entries.length := by
  cases call <;> simp [World.after, StreamRegistry.snd_register]

theorem World.run_inv (run : Run World.Step {} calls w)
    (room : w.registry.entries.length ≤ 2 ^ 64) : World.Inv w := by
  refine run.invariant (fun _ (w : World) => w.registry.entries.length ≤ 2 ^ 64 → World.Inv w)
    (fun _ => ⟨.nil, .empty⟩) ?_ room
  intro calls w call next _ inv step bound
  have earlier := w.length_le_after call
  obtain ⟨owned⟩ := step
  exact World.step_inv (inv (Nat.le_trans earlier bound)) ⟨owned⟩ bound

/-- What is left after a drop was there, under another id. -/
theorem StreamRegistry.lookup_dropHandle {r : StreamRegistry} {id : UInt64}
    (row : (r.dropHandle handle).inner.lookup id = some arc) : r.inner.lookup id = some arc ∧
      ∀ entry, r.entries[handle.entry]? = some entry → id ≠ entry.id := by
  unfold dropHandle at row
  split at row
  · next gone found =>
    rw [found]
    by_cases here : id = gone.id
    · subst here
      rw [AList.lookup_erase] at row
      cases row
    · rw [AList.lookup_erase_ne here] at row
      refine ⟨row, ?_⟩
      rintro _ ⟨⟩
      exact here
  · next missing => simp [row, missing]

/-- A row never outlives its handle, also once the ids have wrapped. -/
theorem World.rows_live (run : Run World.Step {} calls w) (id : UInt64) (arc : Arc)
    (row : w.registry.inner.lookup id = some arc) :
    ⟨arc⟩ ∈ w.live ∧ ∃ entry, w.registry.entries[arc]? = some entry ∧ entry.id = id := by
  refine run.invariant (fun _ (w : World) => ∀ id arc, w.registry.inner.lookup id = some arc →
    ⟨arc⟩ ∈ w.live ∧ ∃ entry, w.registry.entries[arc]? = some entry ∧ entry.id = id) (by simp) ?_
    id arc row
  intro _ w call next _ inv step id arc row
  obtain ⟨owned⟩ := step
  cases call with
  | register peer target isolation started =>
    simp only [World.after, StreamRegistry.snd_register] at row ⊢
    by_cases here : id = w.registry.nextId
    · subst here
      rw [AList.lookup_insert] at row
      obtain rfl := Option.some.inj row
      exact ⟨List.mem_append_right _ (.head _), _, List.getElem?_concat_length, rfl⟩
    · rw [AList.lookup_insert_ne here] at row
      obtain ⟨member, entry, found, same⟩ := inv id arc row
      obtain ⟨bound, -⟩ := List.getElem?_eq_some_iff.mp found
      exact ⟨List.mem_append_left _ member, entry, (List.getElem?_append_left bound).trans found, same⟩
  | drop handle =>
    simp only [World.after, StreamRegistry.dropHandle_entries] at row ⊢
    obtain ⟨row, other⟩ := StreamRegistry.lookup_dropHandle row
    obtain ⟨member, entry, found, same⟩ := inv id arc row
    refine ⟨(List.mem_erase_of_ne ?_).mpr member, entry, found, same⟩
    rintro rfl
    exact other entry found same.symm
  | count touched up down =>
    obtain ⟨member, entry, found, same⟩ := inv id arc row
    by_cases here : touched = arc
    · refine ⟨member, { entry with
        toUpstream := entry.toUpstream + up
        toClient := entry.toClient + down }, ?_, same⟩
      simp [World.after, StreamRegistry.count, found, here]
    · refine ⟨member, entry, ?_, same⟩
      simp [World.after, StreamRegistry.count, found, here]
  | len => exact inv id arc row
  | snapshot now => exact inv id arc row

/-- What the registry promises after any run. -/
structure World.Faithful (calls : List Call) (w : World) : Prop where
  /-- One row for each live handle, under its entry's id and sharing its entry, and no other. -/
  rows : ∀ id arc, w.registry.inner.lookup id = some arc ↔
    ∃ handle ∈ w.live, handle.entry = arc ∧
      ∃ entry, w.registry.entries[arc]? = some entry ∧ entry.id = id
  len : w.live.Nodup ∧ w.registry.len = w.live.length
  /-- Every registration of the run has its own id, increasing in order of registration. -/
  ids : w.registry.entries.length = (registrations calls).length ∧
    (w.registry.entries.map (·.id)).Pairwise (· < ·)
  drop : ∀ handle ∈ w.live, ∃ entry, w.registry.entries[handle.entry]? = some entry ∧
    w.registry.inner.lookup entry.id = some handle.entry ∧
    (w.registry.dropHandle handle).inner.lookup entry.id = none ∧
    ∀ id ≠ entry.id, (w.registry.dropHandle handle).inner.lookup id = w.registry.inner.lookup id
  /-- In whatever order the map lists its values. -/
  snapshot : ∀ (now : Nat) (values : List Arc), values.Perm w.registry.values →
    (w.registry.snapshotOf now values).Pairwise (·.id < ·.id) ∧
    List.Forall₂ (fun handle row => ∃ entry peer target isolation,
      w.registry.entries[handle.entry]? = some entry ∧
      (registrations calls)[handle.entry]? = some (peer, target, isolation) ∧
      row = entry.view now ∧ row.id = entry.id ∧ row.target = target ∧
      row.isolation = isolation ∧ (row.peer = "local" ↔ peer.ipIsUnspecified = true))
      w.live (w.registry.snapshotOf now values)

theorem view_peer_local (e : StreamEntry) (now : Nat) :
    (e.view now).peer = "local" ↔ e.peer.ipIsUnspecified = true := by
  simp only [StreamEntry.view]
  split
  · next unspecified => simp [unspecified]
  · next specified =>
    refine ⟨fun same => ?_, fun h => absurd h specified⟩
    have colon := e.peer.colon_mem
    rw [same] at colon
    exact absurd colon (by decide)

theorem forall₂_filterMap {f : α → Option β} {relation : α → β → Prop} {l : List α}
    (each : ∀ a ∈ l, ∃ b, f a = some b ∧ relation a b) :
    List.Forall₂ relation l (l.filterMap f) := by
  induction l with
  | nil => exact .nil
  | cons a l ih =>
    obtain ⟨b, found, related⟩ := each a List.mem_cons_self
    rw [List.filterMap_cons_some found]
    exact .cons related (ih fun other member => each other (List.mem_cons_of_mem _ member))

theorem registry_faithful (run : Run World.Step {} calls w)
    (room : (registrations calls).length < 2 ^ 64) : World.Faithful calls w := by
  have given := World.run_given run
  have length : w.registry.entries.length = (registrations calls).length := by
    rw [← given, List.length_map]
  have full : w.registry.entries.length ≤ 2 ^ 64 := by omega
  have inv := World.run_inv run full
  have tracks := inv.tracks
  have given : ∀ (arc : Arc) (entry : StreamEntry), w.registry.entries[arc]? = some entry →
      (registrations calls)[arc]? = some entry.given := by
    intro arc entry found
    rw [← given, List.getElem?_map, found, Option.map_some]
  refine ⟨?_, ⟨tracks.unique, tracks.len_eq⟩, ⟨length, ?_⟩, ?_, ?_⟩
  · intro id arc
    rw [tracks.rows]
    constructor
    · rintro ⟨member, rfl⟩
      exact ⟨⟨arc⟩, member, rfl, tracks.entry_id member⟩
    · rintro ⟨handle, member, rfl, entry, found, rfl⟩
      exact ⟨member, tracks.numbered _ _ found⟩
  · rw [List.pairwise_iff_getElem]
    intro i j hi hj less
    simp only [List.length_map] at hi hj
    simp only [List.getElem_map]
    rw [tracks.numbered i _ (List.getElem?_eq_getElem hi),
      tracks.numbered j _ (List.getElem?_eq_getElem hj), UInt64.lt_iff_toNat_lt,
      UInt64.toNat_ofNat', UInt64.toNat_ofNat', Nat.mod_eq_of_lt (by omega),
      Nat.mod_eq_of_lt (by omega)]
    exact less
  · intro handle member
    obtain ⟨entry, found, id⟩ := tracks.entry_id member
    refine ⟨entry, found, (tracks.rows _ _).mpr ⟨member, id⟩, ?_, ?_⟩
    · rw [tracks.dropHandle_inner member, id, AList.lookup_erase]
    · intro other different
      rw [tracks.dropHandle_inner member, ← id, AList.lookup_erase_ne different]
  · intro now values listing
    obtain ⟨rows, increasing⟩ := tracks.snapshotOf_eq full inv.ordered listing now
    refine ⟨increasing, ?_⟩
    rw [rows]
    apply forall₂_filterMap
    intro handle member
    obtain ⟨entry, found, id⟩ := tracks.entry_id member
    refine ⟨entry.view now, by simp [found], entry, entry.peer, entry.target, entry.isolation,
      found, given _ _ found, rfl, rfl, rfl, rfl, view_peer_local entry now⟩

theorem registry_faithful_after_drop :
    let localhost : SocketAddr := .v4 ⟨⟨[127, 0, 0, 1], rfl⟩⟩ 40000
    let first : Call := .register localhost "a.onion:80" (some "alice") 0
    let second : Call := .register localhost "b.onion:443" none 5
    let gone : Call := .drop ⟨0⟩
    World.Faithful [first, second, gone] (((World.after {} first).after second).after gone) :=
  registry_faithful (.cons (.taken (by simp)) (.cons (.taken (by simp))
    (.single (.taken (by rintro handle ⟨⟩; decide))))) (by decide)

end Tord
