import Mathlib.Data.String.Basic
import Mathlib.Data.UInt
import Tord.Lib.Binary32
import Tord.Lib.SortedMap
import Tord.Lib.Text

/-! JSON as the daemon and its query tool exchange it. A `Value` also stands for the
text of a document, with the members of each object as they are written; what is read
back has them in the order of their keys. `serde_json` itself is a parameter. -/
namespace Tord

open Binary32 Text

inductive Number where
  | posInt (n : UInt64)
  | negInt (n : Int64)
  | float (f : Float)

inductive Value where
  | null
  | bool (b : Bool)
  | number (n : Number)
  | string (text : String)
  | array (elems : List Value)
  | object (members : List (String × Value))

namespace Value

def get (v : Value) (key : String) : Option Value :=
  match v with
  | .object members => SortedMap.lookup key members
  | _ => none

def asStr : Value → Option String
  | .string text => some text
  | _ => none

def asArray : Value → Option (List Value)
  | .array elems => some elems
  | _ => none

def asObject : Value → Option (List (String × Value))
  | .object members => some members
  | _ => none

def asU64 : Value → Option UInt64
  | .number (.posInt n) => some n
  | _ => none

def isObject (v : Value) : Bool := v.asObject.isSome

def ofU64 (n : UInt64) : Value := .number (.posInt n)

/-- `Number` holds no infinity and no NaN. The denominator is a power of two, so that the
quotient is exact. -/
def ofF32 : Single → Value
  | .finite q => .number (.float (Float.ofInt q.num / Float.ofNat q.den))
  | _ => .null

def ofOption (text : Option String) : Value := text.elim .null .string

def ofMembers (members : List (String × Value)) : Value := .object (SortedMap.collect members)

mutual

/-- What is read back from a document: of a repeated key the last member stays. -/
def normal : Value → Value
  | .array elems => .array (normalElems elems)
  | .object members => .object (SortedMap.collect (normalMembers members))
  | .null => .null
  | .bool b => .bool b
  | .number n => .number n
  | .string text => .string text

def normalElems : List Value → List Value
  | [] => []
  | v :: rest => v.normal :: normalElems rest

def normalMembers : List (String × Value) → List (String × Value)
  | [] => []
  | (key, v) :: rest => (key, v.normal) :: normalMembers rest

end

def escape (c : Char) : String :=
  if c = '\x22' then "\\\""
  else if c = '\\' then "\\\\"
  else if c = '\x08' then "\\b"
  else if c = '\x0c' then "\\f"
  else if c = '\n' then "\\n"
  else if c = '\r' then "\\r"
  else if c = '\t' then "\\t"
  else if c.toNat < 0x20 then
    "\\u00" ++ String.ofList [Nat.digitChar (c.toNat / 16), Nat.digitChar (c.toNat % 16)]
  else c.toString

def quote (text : String) : String := "\"" ++ String.join (text.toList.map escape) ++ "\""

mutual

/-- The compact text of a document; `float` writes a float. -/
def print (float : Float → String) : Value → String
  | .null => "null"
  | .bool b => if b then "true" else "false"
  | .number (.posInt n) => s!"{n}"
  | .number (.negInt n) => s!"{n}"
  | .number (.float f) => float f
  | .string text => quote text
  | .array elems => "[" ++ ",".intercalate (printElems float elems) ++ "]"
  | .object members => "\x7b" ++ ",".intercalate (printMembers float members) ++ "\x7d"

def printElems (float : Float → String) : List Value → List String
  | [] => []
  | v :: rest => v.print float :: printElems float rest

def printMembers (float : Float → String) : List (String × Value) → List String
  | [] => []
  | (key, v) :: rest => (quote key ++ ":" ++ v.print float) :: printMembers float rest

end

theorem oneLine_escape (c : Char) : OneLine (escape c) := by
  have digit : ∀ n < 16, Nat.digitChar n ≠ '\n' := by decide
  unfold escape
  repeat' split
  all_goals try decide
  · next small =>
    have high := digit (c.toNat / 16) (by omega)
    have low := digit (c.toNat % 16) (by omega)
    rw [oneLine_append]
    exact ⟨by decide, by simp [OneLine, high.symm, low.symm]⟩
  · next feed _ _ _ => simpa [OneLine] using Ne.symm feed

theorem oneLine_quote (text : String) : OneLine (quote text) := by
  have chars (cs : List Char) : OneLine (String.join (cs.map escape)) := by
    induction cs with
    | nil => simp [OneLine]
    | cons c cs ih => simp [oneLine_escape, ih]
  have mark : OneLine "\"" := by decide
  simp [quote, chars, mark]

theorem oneLine_int64 (n : Int64) : OneLine (toString n) := by
  change OneLine (toString n.toInt)
  cases n.toInt with
  | ofNat n => exact oneLine_repr n
  | negSucc n => exact oneLine_append.mpr ⟨by decide, oneLine_repr _⟩

mutual

theorem oneLine_print {float : Float → String} (plain : ∀ f, OneLine (float f)) :
    ∀ v : Value, OneLine (v.print float)
  | .null => by rw [print]; decide
  | .bool b => by cases b <;> rw [print] <;> decide
  | .number (.posInt n) => oneLine_repr _
  | .number (.negInt n) => oneLine_int64 n
  | .number (.float f) => plain f
  | .string text => oneLine_quote text
  | .array elems => by
    rw [print, oneLine_append, oneLine_append]
    exact ⟨⟨by decide, oneLine_intercalate (by decide) (oneLine_printElems plain elems)⟩, by decide⟩
  | .object members => by
    rw [print, oneLine_append, oneLine_append]
    exact ⟨⟨by decide, oneLine_intercalate (by decide) (oneLine_printMembers plain members)⟩,
      by decide⟩

theorem oneLine_printElems {float : Float → String} (plain : ∀ f, OneLine (float f)) :
    ∀ elems : List Value, ∀ text ∈ printElems float elems, OneLine text
  | [] => nofun
  | v :: rest => by
    rw [printElems, List.forall_mem_cons]
    exact ⟨oneLine_print plain v, oneLine_printElems plain rest⟩

theorem oneLine_printMembers {float : Float → String} (plain : ∀ f, OneLine (float f)) :
    ∀ members : List (String × Value), ∀ text ∈ printMembers float members, OneLine text
  | [] => nofun
  | (key, v) :: rest => by
    rw [printMembers, List.forall_mem_cons, oneLine_append, oneLine_append]
    exact ⟨⟨⟨oneLine_quote key, by decide⟩, oneLine_print plain v⟩, oneLine_printMembers plain rest⟩

end

def Canonical (v : Value) : Prop := v.normal = v

variable {members : List (String × Value)}

theorem normalElems_of_canonical {elems : List Value} (each : ∀ v ∈ elems, Canonical v) :
    normalElems elems = elems := by
  induction elems with
  | nil => rfl
  | cons v rest ih =>
    rw [normalElems, each v (.head _), ih fun other member => each other (.tail _ member)]

theorem normalMembers_of_canonical (each : ∀ member ∈ members, Canonical member.2) :
    normalMembers members = members := by
  induction members with
  | nil => rfl
  | cons first rest ih =>
    rw [normalMembers, each first (.head _), ih fun other member => each other (.tail _ member)]

theorem canonical_bool (b : Bool) : Canonical (.bool b) := rfl
theorem canonical_string (text : String) : Canonical (.string text) := rfl
theorem canonical_ofU64 (n : UInt64) : Canonical (ofU64 n) := rfl

theorem canonical_ofF32 (f : Single) : Canonical (ofF32 f) := by
  cases f <;> rfl

theorem canonical_ofOption (text : Option String) : Canonical (ofOption text) := by
  cases text <;> rfl

theorem canonical_array {elems : List Value} (each : ∀ v ∈ elems, Canonical v) :
    Canonical (.array elems) := congrArg Value.array (normalElems_of_canonical each)

theorem canonical_object (sorted : SortedMap.Sorted members)
    (each : ∀ member ∈ members, Canonical member.2) : Canonical (.object members) := by
  rw [Canonical, normal, normalMembers_of_canonical each, SortedMap.collect_of_sorted sorted]

theorem canonical_ofMembers (each : ∀ member ∈ members, Canonical member.2) :
    Canonical (ofMembers members) :=
  canonical_object (SortedMap.sorted_collect members)
    fun _ here => each _ (SortedMap.mem_collect here)

/-- Ahead of a canonical object's members, a new member is read back among them. -/
theorem normal_cons {key : String} {v : Value} (canonical : Canonical v)
    (sorted : SortedMap.Sorted members) (each : ∀ member ∈ members, Canonical member.2)
    (new : ∀ member ∈ members, member.1 ≠ key) :
    normal (.object ((key, v) :: members)) = .object (SortedMap.insert key v members) := by
  rw [normal, normalMembers, canonical, normalMembers_of_canonical each,
    SortedMap.collect_cons sorted new]

end Value

/-- `to_string` of a document, `from_str` and `to_string_pretty`. -/
structure Serde where
  toString : Value → String
  fromStr : String → Option Value
  toStringPretty : Value → Option String

/-- All that is known of one document and its text. -/
def Serde.of (document : Value) (text : String) : Serde where
  toString _ := text
  fromStr line := if line = text ++ "\n" then some document.normal else none
  toStringPretty _ := none

/-- The line of a document holds the document. -/
structure Serde.Carries (serde : Serde) (document : Value) : Prop where
  oneLine : OneLine (serde.toString document)
  fromStr : serde.fromStr (serde.toString document ++ "\n") = some document.normal

theorem Serde.carries_of (plain : OneLine text) : (Serde.of document text).Carries document :=
  ⟨plain, by simp [Serde.of]⟩

/-- It prints every document, and reads the text of one. -/
def Serde.printing (float : Float → String) (document : Value) : Serde where
  toString := Value.print float
  fromStr line := if line = document.print float ++ "\n" then some document.normal else none
  toStringPretty _ := none

theorem Serde.carries_printing (plain : ∀ f, OneLine (float f)) :
    (Serde.printing float document).Carries document :=
  ⟨Value.oneLine_print plain document, by simp [Serde.printing]⟩

end Tord
