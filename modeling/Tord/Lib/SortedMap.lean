import Mathlib.Data.List.Pairwise
import Mathlib.Order.Lattice

/-! Maps as association lists in increasing order of their keys. -/
namespace SortedMap

variable {κ α : Type} [LinearOrder κ] {key other wanted : κ} {value old : α}
variable {map members : List (κ × α)}

def lookup (wanted : κ) : List (κ × α) → Option α
  | [] => none
  | (key, value) :: rest => if key = wanted then some value else lookup wanted rest

def insert (key : κ) (value : α) : List (κ × α) → List (κ × α)
  | [] => [(key, value)]
  | (other, old) :: rest =>
    if key < other then (key, value) :: (other, old) :: rest
    else if key = other then (key, value) :: rest
    else (other, old) :: insert key value rest

/-- Members inserted in turn, so the last of a key stays. -/
def collect (members : List (κ × α)) : List (κ × α) :=
  members.foldl (fun map member => insert member.1 member.2 map) []

def Sorted (map : List (κ × α)) : Prop := map.Pairwise (·.1 < ·.1)

theorem mem_insert {member : κ × α} (here : member ∈ insert key value map) :
    member = (key, value) ∨ member ∈ map := by
  induction map with
  | nil => simpa [insert] using here
  | cons first rest ih => grind [insert]

@[simp] theorem lookup_insert (key : κ) (value : α) (map : List (κ × α)) (wanted : κ) :
    lookup wanted (insert key value map) = if key = wanted then some value else lookup wanted map := by
  induction map with
  | nil => rfl
  | cons first rest ih => grind [insert, lookup]

theorem insert_comm (different : key ≠ other) (value old : α) (map : List (κ × α)) :
    insert key value (insert other old map) = insert other old (insert key value map) := by
  induction map with
  | nil => grind [insert]
  | cons first rest ih => grind [insert]

/-- A new member is the only difference. -/
theorem filter_insert (new : ∀ member ∈ map, member.1 ≠ key) (value : α) :
    (insert key value map).filter (·.1 = key) = [(key, value)] ∧
      (insert key value map).filter (·.1 ≠ key) = map := by
  induction map with
  | nil => simp [insert]
  | cons first rest ih =>
    obtain ⟨here, kept⟩ := ih fun member later => new member (.tail _ later)
    have different := new first (.head _)
    have others : rest.filter (·.1 = key) = [] ∧ rest.filter (·.1 ≠ key) = rest := by
      simp only [List.filter_eq_nil_iff, List.filter_eq_self, decide_eq_true_eq]
      exact ⟨fun m later => new m (.tail _ later), fun m later => new m (.tail _ later)⟩
    grind [insert]

theorem sorted_insert (sorted : Sorted map) (key : κ) (value : α) : Sorted (insert key value map) := by
  induction map with
  | nil => exact List.pairwise_singleton _ _
  | cons first rest ih =>
    obtain ⟨before, later⟩ := List.pairwise_cons.mp sorted
    simp only [insert]
    split
    · next less =>
      refine List.pairwise_cons.mpr ⟨?_, sorted⟩
      rintro member (_ | ⟨_, member⟩)
      · exact less
      · exact lt_trans less (before _ member)
    split
    · next same => exact List.pairwise_cons.mpr ⟨same ▸ before, later⟩
    · next less different =>
      refine List.pairwise_cons.mpr ⟨?_, ih later⟩
      intro member here
      rcases mem_insert here with rfl | there
      · exact lt_of_le_of_ne (not_lt.mp less) (Ne.symm different)
      · exact before _ there

theorem sorted_foldl (sorted : Sorted map) (members : List (κ × α)) :
    Sorted (members.foldl (fun map member => insert member.1 member.2 map) map) := by
  induction members generalizing map with
  | nil => exact sorted
  | cons member members ih => exact ih (sorted_insert sorted _ _)

theorem sorted_collect (members : List (κ × α)) : Sorted (collect members) :=
  sorted_foldl List.Pairwise.nil members

theorem mem_foldl {member : κ × α}
    (here : member ∈ members.foldl (fun map member => insert member.1 member.2 map) map) :
    member ∈ map ∨ member ∈ members := by
  induction members generalizing map with
  | nil => exact .inl here
  | cons first members ih =>
    rcases ih here with inserted | later
    · rcases mem_insert inserted with rfl | earlier
      · exact .inr (.head _)
      · exact .inl earlier
    · exact .inr (.tail _ later)

theorem mem_collect {member : κ × α} (here : member ∈ collect members) : member ∈ members :=
  (mem_foldl here).resolve_left (List.not_mem_nil)

theorem insert_last (before : ∀ member ∈ map, member.1 < key) (value : α) :
    insert key value map = map ++ [(key, value)] := by
  induction map with
  | nil => rfl
  | cons first rest ih => grind [insert]

theorem foldl_of_sorted (sorted : Sorted (map ++ members)) :
    members.foldl (fun map member => insert member.1 member.2 map) map = map ++ members := by
  induction members generalizing map with
  | nil => simp
  | cons member members ih =>
    have before : ∀ earlier ∈ map, earlier.1 < member.1 := fun earlier here =>
      (List.pairwise_append.mp sorted).2.2 earlier here member (.head _)
    rw [List.foldl_cons, insert_last before, ih]
    · simp
    · simpa using sorted

theorem collect_of_sorted (sorted : Sorted members) : collect members = members :=
  foldl_of_sorted (show Sorted ([] ++ members) from sorted)

theorem foldl_insert (new : ∀ member ∈ members, member.1 ≠ key) (value : α) (map : List (κ × α)) :
    members.foldl (fun map member => insert member.1 member.2 map) (insert key value map) =
      insert key value (members.foldl (fun map member => insert member.1 member.2 map) map) := by
  induction members generalizing map with
  | nil => rfl
  | cons member members ih =>
    rw [List.foldl_cons, insert_comm (new _ (.head _)), ih fun m here => new m (.tail _ here)]
    rfl

/-- A member ahead of a sorted map goes to its place. -/
theorem collect_cons (sorted : Sorted members) (new : ∀ member ∈ members, member.1 ≠ key) (value : α) :
    collect ((key, value) :: members) = insert key value members := by
  have inserted := foldl_insert new value []
  rw [show members.foldl _ [] = members from collect_of_sorted sorted] at inserted
  exact inserted

end SortedMap
