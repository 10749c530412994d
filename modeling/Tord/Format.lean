import Tord.Json
import Tord.Lib.Layout
import Tord.Lib.Rounding

/-! Rendering of control replies for `tord query`, driven off the shape of the reply. -/
namespace Tord

open Rounding Text

inductive OutputFormat where
  | table
  | json

/-- `Display` of a number; a float is written as in its document. -/
def Number.toString (serde : Serde) : Number → String
  | .posInt n => s!"{n}"
  | .negInt n => s!"{n}"
  | .float f => serde.toString (.number (.float f))

def scalar (serde : Serde) : Value → String
  | .string text => text
  | .null => "-"
  | .bool b => if b then "true" else "false"
  | .number n => n.toString serde
  | other => serde.toString other

def field (v : Value) (key : String) : String :=
  match v.get key with
  | some (.string text) => text
  | _ => "-"

/-- `n as f64`: the nearest number of 53 significant bits. -/
def asF64 (n : UInt64) : ℚ :=
  let unit : ℚ := 2 ^ (n.toNat.log2 - 52)
  roundTiesEven (n.toNat / unit) * unit

/-- `{:.1}`, for a number that is not negative. -/
def format1 (value : ℚ) : String :=
  let tenths := (roundTiesEven (value * 10)).toNat
  s!"{tenths / 10}.{tenths % 10}"

/-- The loop of `human_bytes`, with the units that are left. Dividing by 1024 is exact. -/
def scaleDown (value : ℚ) (unit : String) : List String → ℚ × String
  | [] => (value, unit)
  | next :: rest => if value ≥ 1024 then scaleDown (value / 1024) next rest else (value, unit)

def humanBytes (n : UInt64) : String :=
  let (value, unit) := scaleDown (asF64 n) "B" ["K", "M", "G", "T"]
  if unit = "B" then s!"{n}B" else format1 value ++ unit

def humanAge (secs : UInt64) : String :=
  if secs < 60 then s!"{secs}s"
  else if secs < 3600 then s!"{secs / 60}m{secs % 60}s"
  else s!"{secs / 3600}h{(secs % 3600) / 60}m"

example : humanBytes 1536 = "1.5K" := by decide +kernel
example : humanAge 75 = "1m15s" := by decide +kernel

def header : List String := ["ID", "PEER", "TARGET", "ISO", "AGE", "UP", "DOWN"]

def cells (serde : Serde) (r : Value) : List String :=
  [((r.get "id").map (scalar serde)).getD "", field r "peer", field r "target", field r "isolation",
    humanAge (((r.get "age_secs").bind Value.asU64).getD 0),
    humanBytes (((r.get "bytes_to_upstream").bind Value.asU64).getD 0),
    humanBytes (((r.get "bytes_to_client").bind Value.asU64).getD 0)]

def widths (table : List (List String)) : List Nat :=
  table.foldl (fun width row => List.zipWith (fun w cell => max w cell.utf8ByteSize) width row)
    (List.replicate header.length 0)

def renderRow (width : List Nat) (row : List String) : Option String := do
  let line ← (row.zip width).mapM fun (cell, w) => padEnd w cell
  return trimEnd ("  ".intercalate line) ++ "\n"

/-- There is no text where the formatter panics, here and in every view. -/
def renderStreams (serde : Serde) (rows : List Value) : Option String :=
  if rows.isEmpty then some "no active connections"
  else do
    let table := header :: rows.map (cells serde)
    let out ← table.mapM (renderRow (widths table))
    return trimEnd (String.join out)

mutual

def collectKv (serde : Serde) : Value → Nat → List (String × Option String)
  | .object members, indent => collectMembers serde members indent
  | _, _ => []

def collectMembers (serde : Serde) :
    List (String × Value) → Nat → List (String × Option String)
  | [], _ => []
  | (k, val) :: rest, indent =>
    -- `status` is protocol framing, not data
    if indent = 0 ∧ k = "status" then collectMembers serde rest indent
    else
      let key := blanks (2 * indent) ++ k
      if val.isObject then
        (key, none) :: collectKv serde val (indent + 1) ++ collectMembers serde rest indent
      else (key, some (scalar serde val)) :: collectMembers serde rest indent

end

def renderMember (keyWidth : Nat) : String × Option String → Option String
  | (key, some text) => do return s!"{← padEnd keyWidth key}   {text}\n"
  | (key, none) => some s!"{key}:\n"

def renderKv (serde : Serde) (command : String) (v : Value) : Option String :=
  let lines := collectKv serde v 0
  if lines.isEmpty then some s!"{command}: ok"
  else do
    let keyWidth := ((lines.filter (·.2.isSome)).map (·.1.utf8ByteSize)).foldl max 0
    let out ← lines.mapM (renderMember keyWidth)
    return trimEnd (String.join out)

inductive View where
  | error (message : String)
  | streams (rows : List Value)
  | keyValue

def view (v : Value) : View :=
  if (v.get "status").bind Value.asStr = some "error" then
    .error (((v.get "message").bind Value.asStr).getD "(no message)")
  else
    match (v.get "streams").bind Value.asArray with
    | some rows => .streams rows
    | none => .keyValue

def renderTable (serde : Serde) (command : String) (v : Value) : Option String :=
  match view v with
  | .error message => some s!"error: {message}"
  | .streams rows => renderStreams serde rows
  | .keyValue => renderKv serde command v

/-- A reply that is no JSON is shown as it is. -/
def render (serde : Serde) (command reply : String) (format : OutputFormat) : Option String :=
  match serde.fromStr reply with
  | none => some (trimEnd reply)
  | some value =>
    match format with
    | .json => some ((serde.toStringPretty value).getD (trimEnd reply))
    | .table => renderTable serde command value

theorem oneLine_humanAge (secs : UInt64) : OneLine (humanAge secs) := by
  unfold humanAge
  split
  · simp +decide
  split <;> simp +decide

theorem oneLine_format1 (value : ℚ) : OneLine (format1 value) := by
  simp +decide [format1]

theorem scaleDown_unit (value : ℚ) (unit : String) (rest : List String) :
    (scaleDown value unit rest).2 ∈ unit :: rest := by
  induction rest generalizing value unit with
  | nil => simp [scaleDown]
  | cons next rest ih =>
    rw [scaleDown]
    split
    · exact .tail _ (ih _ _)
    · exact .head _

/-- A count ends in its unit. -/
theorem humanBytes_eq (n : UInt64) : ∃ front unit, humanBytes n = front ++ unit ∧ OneLine front ∧
    unit ∈ ["B", "K", "M", "G", "T"] := by
  unfold humanBytes
  have member := scaleDown_unit (asF64 n) "B" ["K", "M", "G", "T"]
  generalize scaleDown (asF64 n) "B" ["K", "M", "G", "T"] = scaled at *
  obtain ⟨value, unit⟩ := scaled
  simp only
  split
  · exact ⟨toString n, "B", rfl, by simp, by simp⟩
  · exact ⟨format1 value, unit, rfl, oneLine_format1 value, member⟩

theorem oneLine_humanBytes (n : UInt64) : OneLine (humanBytes n) := by
  obtain ⟨front, unit, whole, plain, member⟩ := humanBytes_eq n
  have each : ∀ unit ∈ ["B", "K", "M", "G", "T"], OneLine unit := by decide
  rw [whole, oneLine_append]
  exact ⟨plain, each _ member⟩

theorem endsInked_humanBytes (n : UInt64) : EndsInked (humanBytes n) := by
  obtain ⟨front, unit, whole, plain, member⟩ := humanBytes_eq n
  rw [whole]
  apply EndsInked.prepend _
  simp only [List.mem_cons, List.not_mem_nil, or_false] at member
  rcases member with rfl | rfl | rfl | rfl | rfl <;> exact ⟨[], _, rfl, rfl⟩

theorem scaleDown_le (positive : 0 ≤ value) (unit : String) (rest : List String) :
    (scaleDown value unit rest).1 ≤ value := by
  induction rest generalizing value unit with
  | nil => exact le_rfl
  | cons next rest ih =>
    rw [scaleDown]
    split
    · exact (ih (div_nonneg positive (by norm_num)) next).trans (div_le_self positive (by norm_num))
    · exact le_rfl

/-- A 64-bit count does not get out of hand when it is rounded to 53 bits. -/
theorem asF64_bounds (n : UInt64) : 0 ≤ asF64 n ∧ asF64 n ≤ 2 ^ 65 := by
  have unit : (0 : ℚ) < 2 ^ (n.toNat.log2 - 52) := by positivity
  have small : ((2 : ℚ) ^ (n.toNat.log2 - 52)) ≤ 2 ^ 64 := by
    have bits : n.toNat.log2 - 52 ≤ 64 := by
      by_cases zero : n.toNat = 0
      · simp [zero]
      · exact (Nat.sub_le _ _).trans ((Nat.log2_lt zero).mpr n.toNat_lt).le
    exact pow_le_pow_right₀ (by norm_num) bits
  have count : ((n.toNat : Nat) : ℚ) ≤ 2 ^ 64 := by exact_mod_cast n.toNat_lt.le
  have rounded := nearest_roundTiesEven ((n.toNat : ℚ) / 2 ^ (n.toNat.log2 - 52))
  constructor
  · have positive : (0 : ℤ) ≤ roundTiesEven ((n.toNat : ℚ) / 2 ^ (n.toNat.log2 - 52)) :=
      rounded.le (by push_cast; positivity)
    exact mul_nonneg (by exact_mod_cast positive) unit.le
  · calc asF64 n
        ≤ ((n.toNat : ℚ) / 2 ^ (n.toNat.log2 - 52) + 1 / 2) * 2 ^ (n.toNat.log2 - 52) :=
          mul_le_mul_of_nonneg_right (roundTiesEven_le _) unit.le
      _ = n.toNat + 2 ^ (n.toNat.log2 - 52) / 2 := by rw [add_mul, div_mul_cancel₀ _ unit.ne']; ring
      _ ≤ 2 ^ 65 := by linarith

theorem length_repr_le (digits : Nat) (positive : 0 < digits) (small : n < 10 ^ digits) :
    n.repr.length ≤ digits := (Nat.length_repr_le_iff positive).mpr small

theorem length_repr_uint64 (n : UInt64) : n.toNat.repr.length ≤ 20 :=
  length_repr_le 20 (by decide) (n.toNat_lt.trans (by decide))

theorem narrow_humanAge (secs : UInt64) : Narrow (humanAge secs) := by
  have single (c : Char) : c.toString.length = 1 := by simp
  have two (a b : UInt64) (one other : Char) :
      Narrow (a.toNat.repr ++ one.toString ++ b.toNat.repr ++ other.toString) := by
    have first := length_repr_uint64 a
    have second := length_repr_uint64 b
    apply narrow_of_length
    simp only [String.length_append, single]
    omega
  unfold humanAge
  split
  · have count := length_repr_uint64 secs
    apply narrow_of_length
    rw [String.length_append]
    change secs.toNat.repr.length + 1 < _
    omega
  split
  · exact two _ _ 'm' 's'
  · exact two _ _ 'h' 'm'

theorem narrow_humanBytes (n : UInt64) : Narrow (humanBytes n) := by
  have unit := scaleDown_unit (asF64 n) "B" ["K", "M", "G", "T"]
  have below := scaleDown_le (asF64_bounds n).1 "B" ["K", "M", "G", "T"]
  unfold humanBytes
  generalize scaleDown (asF64 n) "B" ["K", "M", "G", "T"] = scaled at *
  obtain ⟨value, name⟩ := scaled
  have letter : name.length = 1 := by
    have each : ∀ name ∈ ["B", "K", "M", "G", "T"], name.length = 1 := by decide
    exact each _ unit
  have small : (roundTiesEven (value * 10)).toNat < 10 ^ 21 := by
    have most := roundTiesEven_le (value * 10)
    have bound := (asF64_bounds n).2
    have whole : ((roundTiesEven (value * 10) : ℤ) : ℚ) < ((10 ^ 21 : ℤ) : ℚ) := by
      push_cast
      simp only at below
      linarith
    have := Int.cast_lt.mp whole
    omega
  apply narrow_of_length
  simp only
  by_cases bytes : name = "B"
  · have count := length_repr_uint64 n
    rw [if_pos bytes, String.length_append]
    change n.toNat.repr.length + 1 < _
    omega
  · have tenths := length_repr_le 21 (by decide) ((Nat.div_le_self _ 10).trans_lt small)
    have digit : ((roundTiesEven (value * 10)).toNat % 10).repr.length ≤ 1 :=
      length_repr_le 1 (by decide) (Nat.mod_lt _ (by decide))
    rw [if_neg bytes, String.length_append, letter, format1]
    simp only [String.length_append]
    change (Nat.repr _).length + 1 + (Nat.repr _).length + 1 < _
    omega

theorem length_foldl_widths {table : List (List String)} {width : List Nat}
    (each : ∀ row ∈ table, row.length = width.length) :
    (table.foldl (fun width row => List.zipWith (fun w cell => max w cell.utf8ByteSize) width row)
      width).length = width.length := by
  induction table generalizing width with
  | nil => rfl
  | cons row table ih =>
    have size : (List.zipWith (fun w cell => max w cell.utf8ByteSize) width row).length =
        width.length := by
      simp [each row (.head _)]
    rw [List.foldl_cons, ih fun other member => by rw [size, each other (.tail _ member)], size]

/-- The header and the rows: as many cells, and the last is never blank. -/
theorem last_cell (serde : Serde) (rows : List Value)
    (member : row ∈ header :: rows.map (cells serde)) :
    ∃ front last, row = front ++ [last] ∧ row.length = header.length ∧ EndsInked last := by
  rcases List.mem_cons.mp member with rfl | later
  · exact ⟨header.dropLast, "DOWN", rfl, rfl, ['D', 'O', 'W'], 'N', rfl, rfl⟩
  · obtain ⟨r, -, rfl⟩ := List.mem_map.mp later
    exact ⟨(cells serde r).dropLast, _, rfl, rfl, endsInked_humanBytes _⟩

theorem length_widths (serde : Serde) (rows : List Value) :
    (widths (header :: rows.map (cells serde))).length = header.length := by
  refine (length_foldl_widths fun row member => ?_).trans (List.length_replicate ..)
  obtain ⟨_, _, -, size, -⟩ := last_cell serde rows member
  rw [size, List.length_replicate]

theorem renderRow_eq (size : row.length = width.length) :
    renderRow width row = if ∀ w ∈ width, w < 2 ^ 16 then
      some (trimEnd (columns width row) ++ "\n") else none := by
  rw [renderRow, mapM_padEnd size.ge]
  split <;> rfl

/-- The table is one line after the other, each with the cells of its row, unless a column
is wider than the formatter takes. -/
theorem renderStreams_laid (serde : Serde) {rows : List Value} (some : rows ≠ []) :
    ∃ texts, (renderStreams serde rows =
        if ∀ w ∈ widths (header :: rows.map (cells serde)), w < 2 ^ 16 then
          .some ("\n".intercalate texts) else none) ∧
      List.Forall₂ (Laid (widths (header :: rows.map (cells serde))))
        (header :: rows.map (cells serde)) texts := by
  have size := length_widths serde rows
  have line (row : List String) (member : row ∈ header :: rows.map (cells serde)) :
      row.length = (widths (header :: rows.map (cells serde))).length ∧
        Laid (widths (header :: rows.map (cells serde))) row
          (trimEnd (columns (widths (header :: rows.map (cells serde))) row)) ∧
        EndsInked (trimEnd (columns (widths (header :: rows.map (cells serde))) row)) := by
    obtain ⟨front, last, rfl, length, ends⟩ := last_cell serde rows member
    exact ⟨length.trans size.symm,
      laid_columns (by rw [size, ← length, List.length_append]; rfl) ends⟩
  have first : header :: rows.map (cells serde) ≠ [] := List.cons_ne_nil _ _
  rw [renderStreams, if_neg (by simpa using some)]
  generalize header :: rows.map (cells serde) = table at *
  refine ⟨table.map fun row => trimEnd (columns (widths table) row), ?_, ?_⟩
  · have each := @mapM_guard _ _ (fun _ => ∀ w ∈ widths table, w < 2 ^ 16) _ _ _ _
      fun row here => renderRow_eq (line row here).1
    have out : trimEnd (String.join (table.map fun row => trimEnd (columns (widths table) row) ++ "\n")) =
        "\n".intercalate (table.map fun row => trimEnd (columns (widths table) row)) := by
      have joined := @trimEnd_join_inked (table.map fun row => trimEnd (columns (widths table) row))
        (by simpa using first) fun text member => by
          obtain ⟨row, here, rfl⟩ := List.mem_map.mp member
          exact (line row here).2.2
      rwa [List.map_map] at joined
    simp only [each]
    by_cases fit : ∀ w ∈ widths table, w < 2 ^ 16
    · rw [if_pos fit, if_pos fun _ _ => fit, ← out]
      rfl
    · obtain ⟨row, here⟩ := List.exists_mem_of_ne_nil table first
      rw [if_neg fit, if_neg fun each => fit (each row here)]
      rfl
  · rw [List.forall₂_map_right_iff, List.forall₂_same]
    exact fun row here => (line row here).2.1

/-- One row more widens the columns by its own cells. -/
theorem forall_zipWith_max {row : List String} {width : List Nat} (size : row.length = width.length) :
    (∀ w ∈ List.zipWith (fun w cell => max w cell.utf8ByteSize) width row, w < bound) ↔
      (∀ w ∈ width, w < bound) ∧ ∀ cell ∈ row, cell.utf8ByteSize < bound := by
  induction row generalizing width with
  | nil =>
    obtain rfl := List.length_eq_zero_iff.mp size.symm
    simp
  | cons cell row ih =>
    obtain ⟨w, width, rfl⟩ := List.exists_cons_of_length_eq_add_one size.symm
    simp only [List.zipWith_cons_cons, List.forall_mem_cons, ih (by simpa using size), max_lt_iff]
    tauto

theorem forall_foldl_widths {table : List (List String)} {width : List Nat}
    (each : ∀ row ∈ table, row.length = width.length) :
    (∀ w ∈ table.foldl (fun width row => List.zipWith (fun w cell => max w cell.utf8ByteSize) width row)
      width, w < bound) ↔
      (∀ w ∈ width, w < bound) ∧ ∀ row ∈ table, ∀ cell ∈ row, cell.utf8ByteSize < bound := by
  induction table generalizing width with
  | nil => simp
  | cons row table ih =>
    have size : (List.zipWith (fun w cell => max w cell.utf8ByteSize) width row).length =
        width.length := by
      simp [each row (.head _)]
    rw [List.foldl_cons, ih fun other member => by rw [size, each other (.tail _ member)],
      forall_zipWith_max (each row (.head _)), List.forall_mem_cons, and_assoc]

/-- The formatter takes every width exactly if it takes the length of every cell. -/
theorem widths_lt_iff (serde : Serde) (rows : List Value) :
    (∀ w ∈ widths (header :: rows.map (cells serde)), w < 2 ^ 16) ↔
      ∀ r ∈ rows, ∀ cell ∈ cells serde r, Narrow cell := by
  have titles : ∀ cell ∈ header, Narrow cell := by decide
  rw [widths, forall_foldl_widths fun row member => by
    obtain ⟨_, _, -, size, -⟩ := last_cell serde rows member
    rw [size, List.length_replicate]]
  rw [List.forall_mem_cons, List.forall_mem_map]
  constructor
  · exact fun ⟨_, _, each⟩ => each
  · exact fun each => ⟨by simp +contextual, titles, each⟩

/-- The text has these lines, if no cell breaks one. -/
theorem lines_of_laid (laid : List.Forall₂ (Laid width) table texts) (some : table ≠ [])
    (plain : ∀ row ∈ table, ∀ cell ∈ row, OneLine cell) :
    lines ("\n".intercalate texts) = texts := by
  refine lines_intercalate ?_ ((forall_oneLine (laid.imp fun _ _ => Laid.shows)).mpr plain)
  rintro rfl
  cases laid
  exact some rfl

theorem oneLine_header : ∀ cell ∈ header, OneLine cell := by decide

/-- There is a text, and it has a line for each row, exactly if no cell breaks its line or
is too long. -/
theorem renderStreams_lines (serde : Serde) {rows : List Value} (some : rows ≠ []) :
    (∃ text, renderStreams serde rows = .some text ∧
        List.Forall₂ Shows (header :: rows.map (cells serde)) (lines text)) ↔
      ∀ r ∈ rows, ∀ cell ∈ cells serde r, OneLine cell ∧ Narrow cell := by
  obtain ⟨texts, whole, laid⟩ := renderStreams_laid serde some
  have shown : List.Forall₂ Shows (header :: rows.map (cells serde)) texts :=
    laid.imp fun _ _ => Laid.shows
  have nonempty : texts ≠ [] := by rintro rfl; cases laid
  have plain : (∀ text ∈ texts, OneLine text) ↔ ∀ r ∈ rows, ∀ cell ∈ cells serde r, OneLine cell := by
    rw [forall_oneLine shown, List.forall_mem_cons, List.forall_mem_map]
    exact ⟨And.right, fun rest => ⟨oneLine_header, rest⟩⟩
  have fit := widths_lt_iff serde rows
  simp only [forall_and]
  rw [← plain, ← fit, whole]
  constructor
  · rintro ⟨text, printed, rendered⟩
    split at printed
    · next narrow =>
      obtain rfl := Option.some.inj printed
      exact ⟨(length_lines_intercalate nonempty).2.mp
        (rendered.length_eq.symm.trans shown.length_eq), narrow⟩
    · cases printed
  · rintro ⟨each, narrow⟩
    exact ⟨_, if_pos narrow, by rwa [lines_intercalate nonempty each]⟩

end Tord
