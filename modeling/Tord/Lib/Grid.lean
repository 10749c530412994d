import Mathlib.Data.List.Forall2
import Tord.Lib.Layout

/-! A table in columns, read back: the words of its first line stand where its columns
start, and each further line is cut there. -/
namespace Text

/-- Where words start, from position `i` on. `blank` tells what came before it. -/
def wordStarts (i : Nat) (blank : Bool) : List Char → List Nat
  | [] => []
  | c :: cs =>
    if blank && c != ' ' then i :: wordStarts (i + 1) false cs else wordStarts (i + 1) (c == ' ') cs

/-- The cells that start at these positions; the last one has the rest of the line. -/
def cut : List Nat → List Char → List String
  | [], _ => []
  | [_], line => [String.ofList line]
  | start :: next :: starts, line =>
    trimEnd (String.ofList (line.take (next - start))) :: cut (next :: starts) (line.drop (next - start))

def readGrid (text : String) : List (List String) :=
  match lines text with
  | [] => []
  | top :: rest => (top :: rest).map fun line => cut (wordStarts 0 true top.toList) line.toList

theorem length_readGrid (text : String) : (readGrid text).length = (lines text).length := by
  unfold readGrid
  cases lines text <;> simp

example : readGrid "ID  PEER\n7   local\n12  ::1" = [["ID", "PEER"], ["7", "local"], ["12", "::1"]] := by
  decide +kernel

def startsFrom (start : Nat) : List Nat → List Nat
  | [] => []
  | [_] => [start]
  | width :: next :: widths => start :: startsFrom (start + (width + 2)) (next :: widths)

theorem wordStarts_word {word : List Char} (solid : ' ' ∉ word) (i : Nat) (rest : List Char) :
    wordStarts i false (word ++ rest) = wordStarts (i + word.length) false rest := by
  induction word generalizing i with
  | nil => rfl
  | cons c word ih =>
    obtain ⟨ink, solid⟩ := not_or.mp (mt List.mem_cons.mpr solid)
    have ink : (c == ' ') = false := beq_eq_false_iff_ne.mpr (Ne.symm ink)
    rw [List.cons_append, wordStarts, Bool.false_and, ink, if_neg Bool.false_ne_true, ih solid,
      List.length_cons]
    congr 1
    omega

theorem wordStarts_blanks (n i : Nat) (before : Bool) (rest : List Char) :
    wordStarts i before (List.replicate (n + 1) ' ' ++ rest) = wordStarts (i + (n + 1)) true rest := by
  induction n generalizing i before with
  | zero => simp [wordStarts]
  | succ n ih =>
    rw [List.replicate_succ, List.cons_append, wordStarts]
    simp only [bne_self_eq_false, Bool.and_false, Bool.false_eq_true, if_false, BEq.rfl]
    rw [ih]
    congr 1
    omega

def isWord (text : String) : Bool := text.toList != [] && text.toList.all (!isWhitespace ·)

/-- A text that can be told from its neighbours. -/
structure Word (text : String) : Prop where
  some : text.toList ≠ []
  ink : ∀ c ∈ text.toList, isWhitespace c = false

theorem word_of_isWord (word : isWord text) : Word text := by
  simp only [isWord, Bool.and_eq_true, bne_iff_ne, List.all_eq_true, Bool.not_eq_true'] at word
  exact ⟨word.1, word.2⟩

theorem Word.solid (word : Word text) : ' ' ∉ text.toList := by
  intro member
  cases word.ink _ member

theorem Word.oneLine (word : Word text) : OneLine text := by
  intro broken
  cases word.ink _ broken

theorem Word.trimEnd_eq (word : Word text) : trimEnd text = text := by
  obtain ⟨some, solid⟩ := word
  rcases List.eq_nil_or_concat text.toList with empty | ⟨front, c, whole⟩
  · exact absurd empty some
  · rw [List.concat_eq_append] at whole
    exact EndsInked.trimEnd_eq ⟨front, c, whole, solid c (by simp [whole])⟩

theorem wordStarts_append (word : Word text) (i : Nat) (rest : List Char) :
    wordStarts i true (text.toList ++ rest) = i :: wordStarts (i + text.length) false rest := by
  have some := word.some
  have solid := word.solid
  rw [← String.length_toList]
  cases whole : text.toList with
  | nil => exact absurd whole some
  | cons c word =>
    rw [whole] at solid
    obtain ⟨ink, solid⟩ := not_or.mp (mt List.mem_cons.mpr solid)
    have ink : (c != ' ') = true := bne_iff_ne.mpr (Ne.symm ink)
    rw [List.cons_append, wordStarts, ink, Bool.true_and, if_pos rfl, wordStarts_word solid,
      List.length_cons]
    congr 2
    omega

theorem wordStarts_laid (laid : Laid widths names line) (words : ∀ name ∈ names, Word name)
    (fits : List.Forall₂ (fun cell width => cell.length ≤ width) names widths) (i : Nat) :
    wordStarts i true line.toList = startsFrom i widths := by
  induction laid generalizing i with
  | @last _ cell =>
    have alone := wordStarts_append (words cell (.head _)) i []
    rw [List.append_nil] at alone
    exact alone
  | @next after widths next cells line width cell rest ih =>
    rcases fits with _ | ⟨fit, fits⟩
    rw [List.forall_mem_cons] at words
    rw [String.toList_append, String.toList_append, List.append_assoc,
      wordStarts_append words.1, toList_blanks, wordStarts_blanks, ih words.2 fits, startsFrom]
    congr 2
    omega

theorem startsFrom_cons (start width : Nat) (widths : List Nat) :
    ∃ starts, startsFrom start (width :: widths) = start :: starts := by
  cases widths <;> exact ⟨_, rfl⟩

/-- The cells of a line are read back if none but the last ends in a blank. -/
theorem cut_laid_iff (laid : Laid widths cells line)
    (fits : List.Forall₂ (fun cell width => cell.length ≤ width) cells widths) (i : Nat) :
    cut (startsFrom i widths) line.toList = cells ↔ ∀ cell ∈ cells.dropLast, trimEnd cell = cell := by
  induction laid generalizing i with
  | last => simp [startsFrom, cut]
  | @next after widths next cells line width cell rest ih =>
    rcases fits with _ | ⟨fit, fits⟩
    obtain ⟨starts, later⟩ := startsFrom_cons (i + (width + 2)) after widths
    have step : i + (width + 2) - i = (cell ++ blanks (width - cell.length + 2)).toList.length := by
      rw [String.length_toList, String.length_append, length_blanks]
      omega
    have blank : ∀ c ∈ (blanks (width - cell.length + 2)).toList, isWhitespace c := by
      rw [toList_blanks]
      exact fun c member => by rw [(List.mem_replicate.mp member).2]; rfl
    rw [startsFrom, later, cut, ← later, step, String.toList_append (s := cell ++ _),
      List.take_left, List.drop_left, String.ofList_toList, trimEnd_append_blank _ blank,
      List.cons.injEq, ih fits, List.dropLast_cons_cons, List.forall_mem_cons]

theorem map_cut_laid_iff {table : List (List String)} {texts : List String}
    (laid : List.Forall₂ (Laid widths) table texts) (fits : ∀ row ∈ table,
      List.Forall₂ (fun cell width => cell.length ≤ width) row widths) :
    texts.map (fun line => cut (startsFrom 0 widths) line.toList) = table ↔
      ∀ row ∈ table, ∀ cell ∈ row.dropLast, trimEnd cell = cell := by
  induction laid with
  | nil => simp
  | cons first _ ih =>
    rw [List.forall_mem_cons] at fits
    rw [List.map_cons, List.cons.injEq, cut_laid_iff first fits.1, ih fits.2, List.forall_mem_cons]

/-- A table under a header of words is read back exactly if every cell keeps to its line,
and none but the last of a row ends in a blank. -/
theorem readGrid_laid_iff {table : List (List String)} {texts : List String}
    (laid : List.Forall₂ (Laid widths) (names :: table) texts) (words : ∀ name ∈ names, Word name)
    (fits : ∀ row ∈ names :: table,
      List.Forall₂ (fun cell width => cell.length ≤ width) row widths) :
    readGrid ("\n".intercalate texts) = names :: table ↔ ∀ row ∈ table,
      (∀ cell ∈ row, OneLine cell) ∧ ∀ cell ∈ row.dropLast, trimEnd cell = cell := by
  have some : texts ≠ [] := by rintro rfl; cases laid
  have titles : ∀ name ∈ names, OneLine name := fun name member => (words name member).oneLine
  have breaks := forall_oneLine (laid.imp fun _ _ => Laid.shows)
  rw [List.forall_mem_cons, and_iff_right titles] at breaks
  have trimmed := map_cut_laid_iff laid fits
  rw [List.forall_mem_cons, and_iff_right fun name member =>
    (words name (List.dropLast_subset _ member)).trimEnd_eq] at trimmed
  have read (plain : ∀ text ∈ texts, OneLine text) : readGrid ("\n".intercalate texts) =
      texts.map fun line => cut (startsFrom 0 widths) line.toList := by
    unfold readGrid
    rw [lines_intercalate some plain]
    cases laid with
    | cons first later => simp only [wordStarts_laid first words (fits names (.head _))]
  constructor
  · intro whole
    have plain : ∀ text ∈ texts, OneLine text := by
      apply (length_lines_intercalate some).2.mp
      rw [← length_readGrid, whole, laid.length_eq]
    rw [read plain, trimmed] at whole
    exact fun row member => ⟨breaks.mp plain row member, whole row member⟩
  · intro each
    rw [read (breaks.mpr fun row member => (each row member).1), trimmed]
    exact fun row member => (each row member).2

end Text
