import Mathlib.Data.List.Induction

/-! Labelled transition systems. A run keeps its labels, so a statement about a
whole run is a relation between the label list and the state it ends in. -/
namespace Transition

variable {S L : Type} {step : S → L → S → Prop}

/-- A finite run, with its labels in the order they were taken. -/
inductive Run (step : S → L → S → Prop) : S → List L → S → Prop where
  | nil : Run step s [] s
  | cons : step s l m → Run step m ls t → Run step s (l :: ls) t

theorem Run.single (first : step s l t) : Run step s [l] t := .cons first .nil

theorem Run.append (front : Run step s xs m) (back : Run step m ys t) :
    Run step s (xs ++ ys) t := by
  induction front with
  | nil => exact back
  | cons first _ ih => exact .cons first (ih back)

theorem Run.snoc (front : Run step s ls m) (last : step m l t) : Run step s (ls ++ [l]) t :=
  front.append (.single last)

theorem Run.split {xs ys : List L} (run : Run step s (xs ++ ys) t) :
    ∃ m, Run step s xs m ∧ Run step m ys t := by
  induction xs generalizing s with
  | nil => exact ⟨s, .nil, run⟩
  | cons l xs ih =>
    cases run with
    | cons first rest =>
      obtain ⟨m, front, back⟩ := ih rest
      exact ⟨m, .cons first front, back⟩

theorem Run.split_at (run : Run step s ls t) (member : l ∈ ls) :
    ∃ front back m n, ls = front ++ l :: back ∧
      Run step s front m ∧ step m l n ∧ Run step n back t := by
  obtain ⟨front, back, rfl⟩ := List.append_of_mem member
  obtain ⟨m, before, rest⟩ := run.split
  cases rest with
  | cons here after => exact ⟨front, back, m, _, rfl, before, here, after⟩

theorem Run.mono {other : S → L → S → Prop} (run : Run step s ls t)
    (each : ∀ m l n, l ∈ ls → step m l n → other m l n) : Run other s ls t := by
  induction run with
  | nil => exact .nil
  | cons first _ ih =>
    exact .cons (each _ _ _ (.head _) first) (ih fun m l n member => each m l n (.tail _ member))

/-- A run seen through a part of the state, where some labels say nothing of that part. -/
theorem Run.project {T K : Type} {other : T → K → T → Prop} (view : S → T) (label : L → Option K)
    (moves : ∀ s l t k, step s l t → label l = some k → other (view s) k (view t))
    (stays : ∀ s l t, step s l t → label l = none → view t = view s) (run : Run step s ls t) :
    Run other (view s) (ls.filterMap label) (view t) := by
  induction run with
  | nil => exact .nil
  | @cons s l m ls t first _ ih =>
    cases seen : label l with
    | none =>
      rw [List.filterMap_cons_none seen, ← stays s l m first seen]
      exact ih
    | some k =>
      rw [List.filterMap_cons_some seen]
      exact .cons (moves s l m k first seen) ih

/-- What holds at the start and is kept by a step taken after any run holds after
every run. The property may speak of the labels so far. -/
theorem Run.invariant (property : List L → S → Prop) (start : property [] s)
    (preserved : ∀ ls m l n, Run step s ls m → property ls m → step m l n →
      property (ls ++ [l]) n)
    (run : Run step s ls t) : property ls t := by
  induction ls using List.reverseRecOn generalizing t with
  | nil => cases run; exact start
  | append_singleton ls l ih =>
    obtain ⟨m, front, back⟩ := run.split
    cases back with
    | cons last rest =>
      cases rest
      exact preserved ls m l _ front (ih front) last

end Transition
