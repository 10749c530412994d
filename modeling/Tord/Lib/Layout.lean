import Mathlib.Algebra.GroupWithZero.Nat
import Tord.Lib.Text

/-! Text laid out in lines and columns: trimming, padding, and what they keep. -/
namespace Text

/-- The property `White_Space` of Unicode. -/
def isWhitespace (c : Char) : Bool :=
  let n := c.toNat
  (0x09 ≤ n && n ≤ 0x0d) || n = 0x20 || n = 0x85 || n = 0xa0 || n = 0x1680 ||
    (0x2000 ≤ n && n ≤ 0x200a) || n = 0x2028 || n = 0x2029 || n = 0x202f || n = 0x205f || n = 0x3000

def trimEnd (text : String) : String := String.ofList (text.toList.rdropWhile isWhitespace)

def trim (text : String) : String := trimEnd (String.ofList (text.toList.dropWhile isWhitespace))

def blanks (n : Nat) : String := String.ofList (List.replicate n ' ')

/-- Left-aligned to a width that counts characters. -/
def fill (width : Nat) (text : String) : String := text ++ blanks (width - text.length)

/-- `format!("{text:<width$}")`. A width has 16 bits; where it does not fit the formatter
panics, and there is no text. -/
def padEnd (width : Nat) (text : String) : Option String :=
  if width < 2 ^ 16 then some (fill width text) else none

/-- The text is no longer than a width can be, in bytes. -/
def Narrow (text : String) : Prop := text.utf8ByteSize < 2 ^ 16

instance : Decidable (Narrow text) := inferInstanceAs (Decidable (_ < _))

def lines (text : String) : List String := (text.toList.splitOn '\n').map String.ofList

def Inked (text : String) : Prop := ∃ c ∈ text.toList, isWhitespace c = false

def EndsInked (text : String) : Prop := ∃ front c, text.toList = front ++ [c] ∧ isWhitespace c = false

theorem EndsInked.inked (ends : EndsInked text) : Inked text := by
  obtain ⟨front, c, whole, ink⟩ := ends
  exact ⟨c, by simp [whole], ink⟩

theorem EndsInked.prepend (front : String) (ends : EndsInked text) : EndsInked (front ++ text) := by
  obtain ⟨before, c, whole, ink⟩ := ends
  exact ⟨front.toList ++ before, c, by simp [whole], ink⟩

theorem Inked.append (inked : Inked text) (back : String) : Inked (text ++ back) := by
  obtain ⟨c, member, ink⟩ := inked
  exact ⟨c, by simp [member], ink⟩

theorem Inked.prepend (front : String) (inked : Inked text) : Inked (front ++ text) := by
  obtain ⟨c, member, ink⟩ := inked
  exact ⟨c, by simp [member], ink⟩

@[simp] theorem toList_blanks (n : Nat) : (blanks n).toList = List.replicate n ' ' := String.toList_ofList

@[simp] theorem length_blanks (n : Nat) : (blanks n).length = n := by simp [← String.length_toList]

theorem oneLine_blanks (n : Nat) : OneLine (blanks n) := by simp [OneLine]

theorem blanks_append (m n : Nat) : blanks m ++ blanks n = blanks (m + n) := by
  simp [← String.toList_inj]

/-- Trimming leaves alone what stands before a visible character. -/
theorem trimEnd_append (front : String) (inked : Inked text) :
    trimEnd (front ++ text) = front ++ trimEnd text := by
  have keep (xs ys : List Char) (ink : ∃ c ∈ ys, isWhitespace c = false) :
      (xs ++ ys).rdropWhile isWhitespace = xs ++ ys.rdropWhile isWhitespace := by
    induction ys using List.reverseRecOn with
    | nil => simp at ink
    | append_singleton ys c ih =>
      rw [← List.append_assoc, List.rdropWhile_concat, List.rdropWhile_concat]
      by_cases blank : isWhitespace c
      · rw [if_pos blank, if_pos blank, ih]
        obtain ⟨d, member, ink⟩ := ink
        rcases List.mem_append.mp member with earlier | last
        · exact ⟨d, earlier, ink⟩
        · rw [List.mem_singleton.mp last, blank] at ink
          contradiction
      · rw [if_neg blank, if_neg blank, List.append_assoc]
  rw [← String.toList_inj]
  simpa [trimEnd] using keep front.toList text.toList inked

/-- Blanks at the end are trimmed with the rest. -/
theorem trimEnd_append_blank (text : String) (blank : ∀ c ∈ back.toList, isWhitespace c) :
    trimEnd (text ++ back) = trimEnd text := by
  have gone (xs ys : List Char) (blank : ∀ c ∈ ys, isWhitespace c) :
      (xs ++ ys).rdropWhile isWhitespace = xs.rdropWhile isWhitespace := by
    induction ys using List.reverseRecOn with
    | nil => rw [List.append_nil]
    | append_singleton ys d ih =>
      rw [← List.append_assoc, List.rdropWhile_concat, if_pos (blank d (by simp)),
        ih fun other member => blank other (by simp [member])]
  rw [← String.toList_inj]
  simpa [trimEnd] using gone text.toList back.toList blank

theorem EndsInked.trimEnd_eq (ends : EndsInked text) : trimEnd text = text := by
  obtain ⟨front, c, whole, ink⟩ := ends
  rw [← String.toList_inj, trimEnd, String.toList_ofList, whole, List.rdropWhile_concat,
    if_neg (by simp [ink])]

theorem trimEnd_blank (ends : EndsInked text) (blank : ∀ c ∈ back.toList, isWhitespace c) :
    trimEnd (text ++ back) = text :=
  (trimEnd_append_blank text blank).trans ends.trimEnd_eq

theorem oneLine_trimEnd (plain : OneLine text) : OneLine (trimEnd text) := by
  intro broken
  rw [trimEnd, String.toList_ofList] at broken
  exact plain ((List.rdropWhile_prefix _ _).subset broken)

theorem inked_of_trimEnd (inked : Inked (trimEnd text)) : Inked text := by
  obtain ⟨c, member, ink⟩ := inked
  rw [trimEnd, String.toList_ofList] at member
  exact ⟨c, (List.rdropWhile_prefix _ _).subset member, ink⟩

theorem trimEnd_fill (ends : EndsInked text) (width : Nat) : trimEnd (fill width text) = text := by
  refine trimEnd_blank ends fun c member => ?_
  rw [toList_blanks] at member
  rw [(List.mem_replicate.mp member).2]
  decide

theorem trim_newline (text : String) : trim (text ++ "\n") = trim text := by
  have blank : ∀ c ∈ "\n".toList, isWhitespace c := List.forall_mem_singleton.mpr rfl
  unfold trim
  rw [String.toList_append, List.dropWhile_append]
  split
  · next gone =>
    rw [List.isEmpty_iff.mp gone]
    rfl
  · rw [String.ofList_append, String.ofList_toList, trimEnd_append_blank _ blank]

theorem endsInked_repr (n : Nat) : EndsInked n.repr := by
  have ink : ∀ d < 10, isWhitespace (Nat.digitChar d) = false := by decide
  obtain ⟨front, whole⟩ : ∃ front, n.repr.toList = front ++ [Nat.digitChar (n % 10)] := by
    rw [Nat.toList_repr, Nat.toDigits_eq_if (by decide)]
    split
    · next small => exact ⟨[], by rw [Nat.mod_eq_of_lt small, List.nil_append]⟩
    · exact ⟨_, rfl⟩
  exact ⟨front, _, whole, ink _ (Nat.mod_lt _ (by decide))⟩

theorem lines_intercalate (some : texts ≠ []) (each : ∀ text ∈ texts, OneLine text) :
    lines ("\n".intercalate texts) = texts := by
  rw [lines, String.toList_intercalate]
  have split := @List.splitOn_intercalate _ (texts.map String.toList) _ _ '\n'
    (by simpa [OneLine] using each) (by simpa using some)
  rw [show "\n".toList = ['\n'] from rfl, split]
  simp

theorem length_lines (text : String) : (lines text).length = text.toList.count '\n' + 1 := by
  have pieces (xs : List Char) : (xs.splitOn '\n').length = xs.count '\n' + 1 := by
    induction xs with
    | nil => simp
    | cons c xs ih =>
      rw [List.splitOn_cons_eq_if_modifyHead, List.count_cons]
      split <;> simp [ih]
  rw [lines, List.length_map, pieces]

/-- There are as many lines as texts, unless one of these has a line break of its own. -/
theorem length_lines_intercalate (some : texts ≠ []) :
    texts.length ≤ (lines ("\n".intercalate texts)).length ∧
      ((lines ("\n".intercalate texts)).length = texts.length ↔ ∀ text ∈ texts, OneLine text) := by
  induction texts with
  | nil => exact (some rfl).elim
  | cons text rest ih =>
    have own : text.toList.count '\n' = 0 ↔ OneLine text := List.count_eq_zero
    cases rest with
    | nil => simp [length_lines, own]
    | cons next rest =>
      obtain ⟨most, same⟩ := ih (by simp)
      rw [length_lines] at most same
      rw [List.forall_mem_cons, ← own, ← same, length_lines, String.intercalate_cons_cons]
      simp only [String.toList_append, List.count_append, List.length_cons,
        show List.count '\n' "\n".toList = 1 from rfl] at most ⊢
      omega

/-- Lines that are written one after the other, each with its line break, and then trimmed:
only the last one is. -/
theorem trimEnd_join (front : List String) (inked : Inked last) :
    trimEnd (String.join ((front ++ [last]).map (· ++ "\n"))) =
      "\n".intercalate (front ++ [trimEnd last]) := by
  induction front with
  | nil =>
    have blank : ∀ c ∈ "\n".toList, isWhitespace c := List.forall_mem_singleton.mpr rfl
    simpa [String.join] using trimEnd_append_blank last blank
  | cons text front ih =>
    have whole : String.join ((text :: front ++ [last]).map (· ++ "\n")) =
        text ++ "\n" ++ String.join ((front ++ [last]).map (· ++ "\n")) := by simp
    have later : Inked (String.join ((front ++ [last]).map (· ++ "\n"))) := by
      obtain ⟨c, member, ink⟩ := inked
      exact ⟨c, by simp [member], ink⟩
    rw [whole, trimEnd_append _ later, ih, List.cons_append,
      String.intercalate_cons_of_ne_nil (by simp)]

theorem trimEnd_join_inked (some : texts ≠ []) (ends : ∀ text ∈ texts, EndsInked text) :
    trimEnd (String.join (texts.map (· ++ "\n"))) = "\n".intercalate texts := by
  rcases List.eq_nil_or_concat texts with rfl | ⟨front, last, rfl⟩
  · exact (some rfl).elim
  · rw [List.concat_eq_append] at ends ⊢
    have ends := ends last (by simp)
    rw [trimEnd_join front ends.inked, ends.trimEnd_eq]

/-- The line shows the cells in order, at least two blanks apart and nothing else. -/
inductive Shows : List String → String → Prop where
  | last : Shows [cell] cell
  | next (gap : Nat) (wide : 2 ≤ gap) (rest : Shows (next :: cells) line) :
      Shows (cell :: next :: cells) (cell ++ blanks gap ++ line)

theorem Shows.oneLine (shown : Shows cells line) : OneLine line ↔ ∀ cell ∈ cells, OneLine cell := by
  induction shown with
  | last => simp
  | @next cell next cells line gap wide rest ih =>
    rw [oneLine_append, oneLine_append, ih, List.forall_mem_cons]
    simp [oneLine_blanks]

theorem forall_oneLine (shown : List.Forall₂ Shows table texts) :
    (∀ text ∈ texts, OneLine text) ↔ ∀ cells ∈ table, ∀ cell ∈ cells, OneLine cell := by
  induction shown with
  | nil => simp
  | cons first _ ih => rw [List.forall_mem_cons, List.forall_mem_cons, ih, first.oneLine]

def columns (widths : List Nat) (cells : List String) : String :=
  "  ".intercalate (List.zipWith (fun cell width => fill width cell) cells widths)

/-- Of a list of texts that can fail there is one only if none of them does. -/
theorem mapM_guard {p : α → Prop} [DecidablePred p] {f : α → β} {g : α → Option β} {xs : List α}
    (each : ∀ x ∈ xs, g x = if p x then some (f x) else none) :
    xs.mapM g = if ∀ x ∈ xs, p x then some (xs.map f) else none := by
  induction xs with
  | nil => simp
  | cons x xs ih =>
    obtain ⟨first, each⟩ := List.forall_mem_cons.mp each
    rw [List.mapM_cons, ih each, first]
    by_cases here : p x
    · by_cases later : ∀ y ∈ xs, p y
      · rw [if_pos here, if_pos later, if_pos (List.forall_mem_cons.mpr ⟨here, later⟩)]
        rfl
      · rw [if_pos here, if_neg later, if_neg fun each => later (List.forall_mem_cons.mp each).2]
        rfl
    · rw [if_neg here, if_neg fun each => here (List.forall_mem_cons.mp each).1]
      rfl

theorem mapM_padEnd (size : widths.length ≤ cells.length) :
    ((cells.zip widths).mapM fun (cell, width) => padEnd width cell) =
      if ∀ width ∈ widths, width < 2 ^ 16 then
        some (List.zipWith (fun cell width => fill width cell) cells widths) else none := by
  have fits : (∀ pair ∈ cells.zip widths, pair.2 < 2 ^ 16) ↔ ∀ width ∈ widths, width < 2 ^ 16 := by
    conv_rhs => rw [← List.map_snd_zip size, List.forall_mem_map]
  have guarded := @mapM_guard _ _ (fun pair : String × Nat => pair.2 < 2 ^ 16) _
    (fun pair => fill pair.2 pair.1) _ (cells.zip widths) fun _ _ => rfl
  simp only [fits] at guarded
  rw [List.zip, List.map_zipWith] at guarded
  exact guarded

/-- Each cell but the last is padded to its width, and two more blanks follow. -/
inductive Laid : List Nat → List String → String → Prop where
  | last : Laid [width] [cell] cell
  | next (rest : Laid (after :: widths) (next :: cells) line) :
      Laid (width :: after :: widths) (cell :: next :: cells)
        (cell ++ blanks (width - cell.length + 2) ++ line)

theorem Laid.shows (laid : Laid widths cells line) : Shows cells line := by
  induction laid with
  | last => exact .last
  | next rest ih => exact .next _ (by omega) ih

/-- Trimming a line of columns takes the padding of its last cell and nothing else. -/
theorem laid_columns {front : List String} (size : widths.length = front.length + 1)
    (ends : EndsInked last) :
    Laid widths (front ++ [last]) (trimEnd (columns widths (front ++ [last]))) ∧
      EndsInked (trimEnd (columns widths (front ++ [last]))) := by
  induction front generalizing widths with
  | nil =>
    obtain ⟨width, rfl⟩ := List.length_eq_one_iff.mp size
    have line : trimEnd (columns [width] [last]) = last := by
      simpa [columns] using trimEnd_fill ends width
    rw [List.nil_append, line]
    exact ⟨.last, ends⟩
  | cons cell front ih =>
    match widths, size with
    | width :: after :: widths, size =>
      obtain ⟨laid, inked⟩ := @ih (after :: widths) (by simpa using size)
      have line : columns (width :: after :: widths) (cell :: front ++ [last]) =
          cell ++ blanks (width - cell.length + 2) ++ columns (after :: widths) (front ++ [last]) := by
        have more : List.zipWith (fun cell width => fill width cell) (front ++ [last])
            (after :: widths) ≠ [] := by
          simp [List.zipWith_eq_nil_iff]
        rw [columns, List.cons_append, List.zipWith_cons_cons, String.intercalate_cons_of_ne_nil more,
          fill, ← blanks_append]
        simp only [String.append_assoc]
        rfl
      rw [line, trimEnd_append _ (inked_of_trimEnd inked.inked)]
      refine ⟨?_, inked.prepend _⟩
      obtain ⟨next, cells, rest⟩ : ∃ next cells, front ++ [last] = next :: cells :=
        List.exists_cons_of_ne_nil (by simp)
      rw [List.cons_append, rest]
      rw [rest] at laid
      exact .next laid

theorem length_le_utf8ByteSize (text : String) : text.length ≤ text.utf8ByteSize := by
  induction text using String.push_induction with
  | empty => simp
  | push text c ih =>
    have positive := c.utf8Size_pos
    rw [String.length_push, String.utf8ByteSize_push]
    omega

theorem utf8ByteSize_le (text : String) : text.utf8ByteSize ≤ 4 * text.length := by
  induction text using String.push_induction with
  | empty => simp
  | push text c ih =>
    have most := c.utf8Size_le_four
    rw [String.length_push, String.utf8ByteSize_push]
    omega

theorem narrow_of_length (short : text.length < 2 ^ 14) : Narrow text := by
  have most := utf8ByteSize_le text
  unfold Narrow
  omega

def columnStart (widths : List Nat) (j : Nat) : Nat := ((widths.take j).map (· + 2)).sum

/-- The cell stands at `start`, and only spaces follow it: two of them at least, up to
`stop` where the next column starts, or none at the end of the line. -/
def Stands (line : String) (start : Nat) (cell : String) (stop : Option Nat) : Prop :=
  ∃ before gap after, line = before ++ cell ++ blanks gap ++ after ∧ before.length = start ∧
    match stop with
    | some stop => 2 ≤ gap ∧ start + cell.length + gap = stop
    | none => gap = 0 ∧ after = ""

theorem columnStart_cons (width : Nat) (widths : List Nat) (j : Nat) :
    columnStart (width :: widths) (j + 1) = width + 2 + columnStart widths j := by
  simp [columnStart]

theorem Stands.prepend (front : String) (stands : Stands line start cell stop) :
    Stands (front ++ line) (front.length + start) cell (stop.map (front.length + ·)) := by
  obtain ⟨before, gap, after, rfl, size, rest⟩ := stands
  refine ⟨front ++ before, gap, after, ?_, ?_, ?_⟩
  · simp only [String.append_assoc]
  · rw [String.length_append, size]
  · cases stop with
    | none => exact rest
    | some stop =>
      obtain ⟨wide, filled⟩ := rest
      change 2 ≤ gap ∧ front.length + start + cell.length + gap = front.length + stop
      omega

/-- Cells that fit their widths stand where their columns start. -/
theorem Laid.stands (laid : Laid widths cells line)
    (fits : List.Forall₂ (fun cell width => cell.length ≤ width) cells widths)
    (found : cells[j]? = some cell) : Stands line (columnStart widths j) cell
      (if j + 1 < cells.length then some (columnStart widths (j + 1)) else none) := by
  induction laid generalizing j with
  | last =>
    obtain ⟨rfl, rfl⟩ : j = 0 ∧ _ = cell := by simpa [List.getElem?_singleton] using found
    exact ⟨"", 0, "", by simp [blanks], rfl, rfl, rfl⟩
  | @next after widths next cells line width first rest ih =>
    rcases fits with _ | ⟨fit, fits⟩
    have front : (first ++ blanks (width - first.length + 2)).length = width + 2 := by
      rw [String.length_append, length_blanks]
      omega
    cases j with
    | zero =>
      obtain rfl : first = cell := by simpa using found
      refine ⟨"", width - first.length + 2, line, by simp, rfl, by omega, ?_⟩
      rw [String.length_append, length_blanks] at front
      simpa [columnStart] using front
    | succ j =>
      have stands := (ih fits (by simpa using found)).prepend (first ++ blanks (width - first.length + 2))
      rw [front, ← columnStart_cons] at stands
      convert stands using 1
      by_cases more : j + 1 < (next :: cells).length
      · rw [if_pos more, if_pos (by simpa using more), Option.map_some, columnStart_cons]
      · rw [if_neg more, if_neg (by simpa using more), Option.map_none]

end Text
