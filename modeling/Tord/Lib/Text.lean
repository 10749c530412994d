import Mathlib.Data.List.DropRight

/-! Text as its UTF-8 bytes and as its lines. -/
namespace Text

def utf8 (text : String) : List UInt8 := text.toByteArray.data.toList

def decodeUtf8 (bytes : List UInt8) : Option String := String.fromUTF8? bytes.toByteArray

theorem utf8_injective {s t : String} (same : utf8 s = utf8 t) : s = t := by
  apply String.toByteArray_inj.mp
  apply ByteArray.ext
  exact Array.toList_inj.mp same

@[simp] theorem length_utf8 (text : String) : (utf8 text).length = text.utf8ByteSize := rfl

theorem toByteArray_utf8 (text : String) : (utf8 text).toByteArray = text.toByteArray := by
  apply ByteArray.ext
  simp [utf8, List.data_toByteArray]

/-- Decoding accepts exactly the encodings and undoes them. -/
theorem decodeUtf8_eq_some_iff {bytes : List UInt8} {text : String} :
    decodeUtf8 bytes = some text ↔ utf8 text = bytes := by
  unfold decodeUtf8 String.fromUTF8?
  constructor
  · intro decoded
    split at decoded
    · obtain rfl := Option.some.inj decoded
      simp [utf8, String.fromUTF8, List.data_toByteArray]
    · contradiction
  · rintro rfl
    have valid : (utf8 text).toByteArray.IsValidUTF8 := by
      rw [toByteArray_utf8]; exact text.isValidUTF8
    rw [dif_pos valid]
    congr 1
    apply String.toByteArray_inj.mp
    simp [String.fromUTF8, toByteArray_utf8]

@[simp] theorem decodeUtf8_utf8 (text : String) : decodeUtf8 (utf8 text) = some text :=
  decodeUtf8_eq_some_iff.mpr rfl

@[simp] theorem toString_text (text : String) : toString text = text := rfl
@[simp] theorem toString_uint8 (n : UInt8) : toString n = n.toNat.repr := rfl
@[simp] theorem toString_uint16 (n : UInt16) : toString n = n.toNat.repr := rfl
@[simp] theorem toString_uint32 (n : UInt32) : toString n = n.toNat.repr := rfl
@[simp] theorem toString_uint64 (n : UInt64) : toString n = n.toNat.repr := rfl

@[simp] theorem utf8_append (s t : String) : utf8 (s ++ t) = utf8 s ++ utf8 t := by
  simp [utf8]

theorem utf8_ofList (chars : List Char) :
    utf8 (String.ofList chars) = chars.flatMap String.utf8EncodeChar := by
  simp [utf8, List.utf8Encode, List.data_toByteArray]

/-- A byte below 0x80 is a character of its own. -/
theorem toNat_of_mem_utf8EncodeChar {c : Char} (member : b ∈ String.utf8EncodeChar c)
    (ascii : b.toNat < 0x80) : c.toNat = b.toNat := by
  have value : c.val.toNat = c.toNat := rfl
  simp only [String.utf8EncodeChar, value] at member
  repeat' split at member
  all_goals
    simp only [List.mem_cons, List.not_mem_nil, or_false, ← UInt8.toNat_inj, UInt8.toNat_ofNat']
      at member
    omega

def OneLine (text : String) : Prop := '\n' ∉ text.toList

instance : Decidable (OneLine text) := inferInstanceAs (Decidable (_ ∉ _))

@[simp] theorem oneLine_append {s t : String} : OneLine (s ++ t) ↔ OneLine s ∧ OneLine t := by
  simp [OneLine]

theorem oneLine_intercalate {separator : String} (plain : OneLine separator)
    {texts : List String} (each : ∀ text ∈ texts, OneLine text) :
    OneLine (separator.intercalate texts) := by
  induction texts with
  | nil => simp [OneLine]
  | cons text rest ih =>
    cases rest with
    | nil => simpa using each
    | cons next rest =>
      rw [String.intercalate_cons_cons]
      have tail := ih fun other member => each other (List.mem_cons_of_mem _ member)
      simp [each text List.mem_cons_self, plain, tail]

theorem newline_notMem_toDigits (base n : Nat) (large : 1 < base) :
    '\n' ∉ Nat.toDigits base n := by
  induction n using Nat.strongRecOn with
  | _ n ih =>
    rw [Nat.toDigits_eq_if large]
    split
    · simp
    · next high => simp [ih _ (Nat.div_lt_self (by omega) large)]

@[simp] theorem oneLine_repr (n : Nat) : OneLine n.repr := by
  simpa [OneLine] using newline_notMem_toDigits 10 n (by decide)

theorem newline_notMem_utf8 {text : String} (plain : OneLine text) : 0x0a ∉ utf8 text := by
  intro member
  rw [← text.ofList_toList, utf8_ofList] at member
  obtain ⟨c, inside, member⟩ := List.mem_flatMap.mp member
  have same : c = '\n' := Char.toNat_inj.mp (toNat_of_mem_utf8EncodeChar member (by decide))
  exact plain (same ▸ inside)

def firstLine (text : String) : String := String.ofList (text.toList.takeWhile (· ≠ '\n'))

theorem oneLine_firstLine (text : String) : OneLine (firstLine text) := by
  intro broken
  rw [firstLine, String.toList_ofList] at broken
  simpa using List.mem_takeWhile_imp broken

/-- What follows the first line starts with its line break. -/
theorem firstLine_append (text : String) :
    ∃ rest, text ++ "\n" = firstLine text ++ "\n" ++ rest := by
  have whole := @List.takeWhile_append_dropWhile _ (· ≠ '\n') text.toList
  cases later : text.toList.dropWhile (· ≠ '\n') with
  | nil =>
    refine ⟨"", ?_⟩
    rw [later, List.append_nil] at whole
    rw [firstLine, whole, String.ofList_toList, String.append_empty]
  | cons c rest =>
    obtain rfl : c = '\n' := by
      have head := List.head?_dropWhile_not (· ≠ '\n') text.toList
      rw [later] at head
      simpa using head
    refine ⟨String.ofList rest ++ "\n", ?_⟩
    rw [← String.toList_inj]
    simp only [String.toList_append, firstLine, String.toList_ofList]
    conv_lhs => rw [← whole, later]
    simp

/-- The tables of Unicode that `Debug` goes by. -/
structure CharTables where
  graphemeExtend : Char → Bool
  printable : Char → Bool

def escapeDebug (tables : CharTables) (c : Char) : String :=
  if c = '\x00' then "\\0"
  else if c = '\t' then "\\t"
  else if c = '\r' then "\\r"
  else if c = '\n' then "\\n"
  else if c = '\x22' then "\\\""
  else if c = '\\' then "\\\\"
  else if tables.graphemeExtend c || !tables.printable c then
    "\\u\x7b" ++ String.ofList (Nat.toDigits 16 c.toNat) ++ "\x7d"
  else c.toString

/-- `format!("{text:?}")`. -/
def debug (tables : CharTables) (text : String) : String :=
  "\"" ++ String.join (text.toList.map (escapeDebug tables)) ++ "\""

end Text
