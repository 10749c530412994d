import Mathlib.Tactic.IntervalCases

/-! Numerals and separated fields, read back from the text they are written in. -/
namespace Text

def digitValue (c : Char) : Nat :=
  if c.isDigit then c.toNat - '0'.toNat else c.toNat - 'a'.toNat + 10

theorem digitValue_digitChar (low : d < 16) : digitValue d.digitChar = d := by
  interval_cases d <;> rfl

def readDigits (base : Nat) (digits : List Char) : Nat :=
  digits.foldl (fun n c => base * n + digitValue c) 0

section Digits

variable {base : Nat} (large : 1 < base) (small : base ≤ 16)

include large small

theorem readDigits_toDigits (n : Nat) : readDigits base (Nat.toDigits base n) = n := by
  induction n using Nat.strongRecOn with
  | _ n ih =>
    rw [Nat.toDigits_eq_if large]
    split
    · next low => simp [readDigits, digitValue_digitChar (Nat.lt_of_lt_of_le low small)]
    · next high =>
      have less : n / base < n := Nat.div_lt_self (by omega) large
      have low : n % base < 16 := Nat.lt_of_lt_of_le (Nat.mod_lt n (by omega)) small
      rw [readDigits, List.foldl_append, ← readDigits, ih _ less]
      simp [digitValue_digitChar low, Nat.div_add_mod]

theorem toDigits_injective : Function.Injective (Nat.toDigits base) :=
  Function.LeftInverse.injective (readDigits_toDigits large small)

theorem digitChar_of_mem (member : c ∈ Nat.toDigits base n) : ∃ d < 16, c = d.digitChar := by
  induction n using Nat.strongRecOn with
  | _ n ih =>
    rw [Nat.toDigits_eq_if large] at member
    split at member
    · next low =>
      exact ⟨n, Nat.lt_of_lt_of_le low small, List.mem_singleton.mp member⟩
    · next high =>
      rcases List.mem_append.mp member with front | last
      · exact ih _ (Nat.div_lt_self (by omega) large) front
      · exact ⟨n % base, Nat.lt_of_lt_of_le (Nat.mod_lt n (by omega)) small,
          List.mem_singleton.mp last⟩

/-- A punctuation mark is no digit. -/
theorem notMem_toDigits {mark : Char} (plain : ∀ d < 16, mark ≠ d.digitChar) :
    mark ∉ Nat.toDigits base n := by
  intro member
  obtain ⟨d, low, same⟩ := digitChar_of_mem large small member
  exact plain d low same

end Digits

theorem dot_ne_digit : ∀ d < 16, '.' ≠ Nat.digitChar d := by decide

theorem colon_ne_digit : ∀ d < 16, ':' ≠ Nat.digitChar d := by decide

variable {α : Type} [DecidableEq α] {sep : α}

theorem intercalate_injective {xs ys : List (List α)} (some : xs ≠ []) (others : ys ≠ [])
    (plain : ∀ x ∈ xs, sep ∉ x) (plain' : ∀ y ∈ ys, sep ∉ y)
    (same : [sep].intercalate xs = [sep].intercalate ys) : xs = ys := by
  rw [← List.splitOn_intercalate sep plain some, same, List.splitOn_intercalate sep plain' others]

omit [DecidableEq α] in
theorem intercalate_append {xs ys : List (List α)} (some : xs ≠ []) (others : ys ≠ []) :
    [sep].intercalate (xs ++ ys) = [sep].intercalate xs ++ sep :: [sep].intercalate ys := by
  induction xs with
  | nil => exact absurd rfl some
  | cons x xs ih =>
    by_cases last : xs = []
    · subst last
      simp [List.intercalate_cons_of_ne_nil others]
    · rw [List.cons_append, List.intercalate_cons_of_ne_nil (by simp [last]),
        List.intercalate_cons_of_ne_nil last, ih last]
      simp

omit [DecidableEq α] in
theorem mem_intercalate {xs : List (List α)} (member : a ∈ [sep].intercalate xs) :
    a = sep ∨ ∃ x ∈ xs, a ∈ x := by
  induction xs with
  | nil => cases member
  | cons x xs ih =>
    by_cases last : xs = []
    · subst last
      rw [List.intercalate_singleton] at member
      exact .inr ⟨x, .head _, member⟩
    · rw [List.intercalate_cons_of_ne_nil last, List.append_assoc] at member
      rcases List.mem_append.mp member with here | later
      · exact .inr ⟨x, .head _, here⟩
      rcases List.mem_append.mp later with between | later
      · exact .inl (List.mem_singleton.mp between)
      · exact (ih later).imp_right fun ⟨y, among, inside⟩ => ⟨y, .tail _ among, inside⟩

omit [DecidableEq α] in
/-- The last separator is found again. -/
theorem append_cons_inj {a b c d : List α} (plain : sep ∉ b) (plain' : sep ∉ d) :
    a ++ sep :: b = c ++ sep :: d ↔ a = c ∧ b = d := by
  constructor
  · intro same
    rcases List.append_eq_append_iff.mp same with ⟨e, rfl, later⟩ | ⟨e, rfl, later⟩
    · cases e with
      | nil => simpa using later
      | cons x e =>
        obtain ⟨rfl, rfl⟩ := List.cons.inj later
        exact absurd (by simp) plain
    · cases e with
      | nil => simpa [eq_comm] using later
      | cons x e =>
        obtain ⟨rfl, rfl⟩ := List.cons.inj later
        exact absurd (by simp) plain'
  · rintro ⟨rfl, rfl⟩
    rfl

end Text
