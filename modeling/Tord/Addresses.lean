import Tord.Lib.Numeral
import Tord.Net

/-! An address can be read back from its text, also where a run of zeroes is left out. -/
namespace Tord

open Text

def octetDigits (octet : UInt8) : List Char := Nat.toDigits 10 octet.toNat

theorem octetDigits_injective : Function.Injective octetDigits := fun _ _ same =>
  UInt8.toNat_inj.mp (toDigits_injective (by decide) (by decide) same)

namespace Ipv4Addr

theorem toList_toString (ip : Ipv4Addr) :
    ip.toString.toList = ['.'].intercalate (ip.octets.1.map octetDigits) := by
  rw [Buffer.four ip.octets]
  simp [Ipv4Addr.toString, octetDigits]

theorem toString_injective : Function.Injective Ipv4Addr.toString := by
  intro a b same
  have texts := congrArg String.toList same
  rw [toList_toString, toList_toString] at texts
  have plain (ip : Ipv4Addr) : ∀ field ∈ ip.octets.1.map octetDigits, '.' ∉ field := by
    rintro _ member
    obtain ⟨octet, -, rfl⟩ := List.mem_map.mp member
    exact notMem_toDigits (by decide) (by decide) dot_ne_digit
  have nonempty (ip : Ipv4Addr) : ip.octets.1.map octetDigits ≠ [] := by
    rw [Buffer.four ip.octets]
    exact List.cons_ne_nil _ _
  have fields := intercalate_injective (nonempty a) (nonempty b) (plain a) (plain b) texts
  have octets := List.map_injective_iff.mpr octetDigits_injective fields
  obtain ⟨octets⟩ := a
  obtain ⟨_⟩ := b
  exact congrArg Ipv4Addr.mk (Subtype.ext ‹_›)

theorem colon_notMem (ip : Ipv4Addr) : ':' ∉ ip.toString.toList := by
  have plain (octet : UInt8) : ':' ∉ Nat.toDigits 10 octet.toNat :=
    notMem_toDigits (by decide) (by decide) colon_ne_digit
  simp [Ipv4Addr.toString, plain]

theorem dot_mem (ip : Ipv4Addr) : '.' ∈ ip.toString.toList := by
  simp [Ipv4Addr.toString]

end Ipv4Addr

def Zeroes (segments : List UInt16) (span : Span) : Prop :=
  ∀ i, span.start ≤ i → i < span.start + span.len → segments[i]? = some 0

theorem longestZeroes_zeroes {segments rest front : List UInt16} {longest current : Span}
    (whole : segments = front ++ rest) (found : Zeroes segments longest)
    (running : Zeroes segments current)
    (adjacent : current.len = 0 ∨ current.start + current.len = front.length) :
    Zeroes segments (longestZeroes rest front.length longest current) := by
  induction rest generalizing front longest current with
  | nil => exact found
  | cons segment rest ih =>
    have next : segments = (front ++ [segment]) ++ rest := by simp [whole]
    have count : (front ++ [segment]).length = front.length + 1 := by simp
    rw [longestZeroes, ← count]
    by_cases zero : segment = 0
    · subst zero
      rw [if_pos rfl]
      have here : segments[front.length]? = some 0 := by simp [whole]
      have start : (if current.len = 0 then front.length else current.start) + current.len =
          front.length := by
        split <;> omega
      have grown : Zeroes segments
          ⟨if current.len = 0 then front.length else current.start, current.len + 1⟩ := by
        intro i after before
        simp only at after before
        by_cases last : i = front.length
        · rw [last, here]
        · have more : current.len ≠ 0 := by
            intro fresh
            rw [if_pos fresh] at after
            omega
          rw [if_neg more] at after before start
          exact running i after (by omega)
      refine ih next (iteInduction (fun _ => grown) fun _ => found) grown (.inr ?_)
      simp only
      omega
    · rw [if_neg zero]
      exact ih next found (fun i after before => absurd before (by simp)) (.inl rfl)

theorem zeroes_longest (segments : List UInt16) :
    Zeroes segments (longestZeroes segments 0 ⟨0, 0⟩ ⟨0, 0⟩) :=
  @longestZeroes_zeroes segments segments [] _ _ rfl (fun i _ before => absurd before (by simp))
    (fun i _ before => absurd before (by simp)) (.inl rfl)

theorem Zeroes.fill {segments : List UInt16} {span : Span} (zeroes : Zeroes segments span) :
    segments.take span.start ++ (List.replicate span.len 0 ++
      segments.drop (span.start + span.len)) = segments := by
  have middle : (segments.drop span.start).take span.len = List.replicate span.len 0 := by
    refine List.ext_getElem? fun i => ?_
    by_cases inside : i < span.len
    · rw [List.getElem?_take_of_lt inside, List.getElem?_drop, List.getElem?_replicate_of_lt inside]
      exact zeroes _ (by omega) (by omega)
    · rw [List.getElem?_take_eq_none (by omega), List.getElem?_replicate, if_neg inside]
  rw [← middle, ← List.drop_drop, List.take_append_drop, List.take_append_drop]

def segmentDigits (segment : UInt16) : List Char := Nat.toDigits 16 segment.toNat

theorem toList_fmtSubslice (segments : List UInt16) :
    (fmtSubslice segments).toList = [':'].intercalate (segments.map segmentDigits) := by
  rw [fmtSubslice, String.toList_intercalate, List.map_map]
  exact congrArg _ (List.map_congr_left fun segment _ => String.toList_ofList)

/-- An empty side of `::` is an empty field of its own. -/
def orEmpty (fields : List (List Char)) : List (List Char) := if fields = [] then [[]] else fields

def gapped (front back : List UInt16) : List (List Char) :=
  orEmpty (front.map segmentDigits) ++ [] :: orEmpty (back.map segmentDigits)

theorem orEmpty_ne_nil (fields : List (List Char)) : orEmpty fields ≠ [] := by
  unfold orEmpty
  split <;> simp_all

theorem intercalate_orEmpty (fields : List (List Char)) :
    [':'].intercalate (orEmpty fields) = [':'].intercalate fields := by
  unfold orEmpty
  split
  · simp_all
  · rfl

theorem intercalate_gapped (front back : List UInt16) : [':'].intercalate (gapped front back) =
    (fmtSubslice front ++ "::" ++ fmtSubslice back).toList := by
  rw [gapped, intercalate_append (orEmpty_ne_nil _) (by simp),
    List.intercalate_cons_of_ne_nil (orEmpty_ne_nil _), intercalate_orEmpty, intercalate_orEmpty]
  simp [toList_fmtSubslice]

/-- The segments before the first empty field and those after the last one, with as many
zeroes between them as make eight. -/
def expand (fields : List (List Char)) : List Nat :=
  let front := fields.takeWhile (· ≠ [])
  let back := (fields.reverse.takeWhile (· ≠ [])).reverse
  if front = fields then fields.map (readDigits 16)
  else front.map (readDigits 16) ++ (List.replicate (8 - (front.length + back.length)) 0 ++
    back.map (readDigits 16))

theorem takeWhile_orEmpty {fields rest : List (List Char)} (filled : ∀ field ∈ fields, field ≠ []) :
    (orEmpty fields ++ [] :: rest).takeWhile (· ≠ []) = fields := by
  unfold orEmpty
  split
  · simp_all
  · rw [List.takeWhile_append_of_pos (by simpa using filled)]
    simp

theorem segmentDigits_ne_nil (segments : List UInt16) :
    ∀ field ∈ segments.map segmentDigits, field ≠ [] := by
  rintro _ member
  obtain ⟨segment, -, rfl⟩ := List.mem_map.mp member
  exact Nat.toDigits_ne_nil

theorem map_readDigits (segments : List UInt16) :
    (segments.map segmentDigits).map (readDigits 16) = segments.map (·.toNat) := by
  rw [List.map_map]
  exact List.map_congr_left fun segment _ =>
    readDigits_toDigits (by decide) (by decide) segment.toNat

theorem expand_map (segments : List UInt16) :
    expand (segments.map segmentDigits) = segments.map (·.toNat) := by
  have whole : (segments.map segmentDigits).takeWhile (· ≠ []) = segments.map segmentDigits :=
    List.takeWhile_eq_self_iff.mpr (by simpa using segmentDigits_ne_nil segments)
  rw [expand, if_pos whole, map_readDigits]

theorem reverse_orEmpty (fields : List (List Char)) : (orEmpty fields).reverse = orEmpty fields.reverse := by
  unfold orEmpty
  split <;> simp_all

theorem expand_gapped (front back : List UInt16) : expand (gapped front back) =
    front.map (·.toNat) ++ (List.replicate (8 - (front.length + back.length)) 0 ++
      back.map (·.toNat)) := by
  have early : (gapped front back).takeWhile (· ≠ []) = front.map segmentDigits :=
    takeWhile_orEmpty (segmentDigits_ne_nil front)
  have late : (gapped front back).reverse.takeWhile (· ≠ []) = (back.map segmentDigits).reverse := by
    rw [gapped, List.reverse_append, List.reverse_cons, List.append_assoc, reverse_orEmpty]
    exact takeWhile_orEmpty fun field member =>
      segmentDigits_ne_nil back field (List.mem_reverse.mp member)
  have gap : front.map segmentDigits ≠ gapped front back := by
    intro same
    have empty : [] ∈ front.map segmentDigits := by
      rw [same, gapped]
      simp
    exact segmentDigits_ne_nil front _ empty rfl
  rw [expand, early, late, if_neg gap, List.reverse_reverse, map_readDigits, map_readDigits,
    List.length_map, List.length_map]

namespace Ipv6Addr

theorem length_words {bytes : List UInt8} (even : bytes.length = 2 * n) : (words bytes).length = n := by
  induction n generalizing bytes with
  | zero =>
    rw [List.eq_nil_of_length_eq_zero even]
    rfl
  | succ n ih =>
    match bytes with
    | high :: low :: rest =>
      have fewer : rest.length = 2 * n := by
        simp only [List.length_cons] at even
        omega
      simp [words, ih fewer]

theorem flatMap_words {bytes : List UInt8} (even : bytes.length = 2 * n) :
    (words bytes).flatMap beBytes = bytes := by
  induction n generalizing bytes with
  | zero =>
    rw [List.eq_nil_of_length_eq_zero even]
    rfl
  | succ n ih =>
    match bytes with
    | high :: low :: rest =>
      have fewer : rest.length = 2 * n := by
        simp only [List.length_cons] at even
        omega
      simp [words, beBytes_u16FromBeBytes, ih fewer]

def fields (ip : Ipv6Addr) : List (List Char) :=
  let zeroes := longestZeroes ip.segments 0 ⟨0, 0⟩ ⟨0, 0⟩
  if zeroes.len > 1 then
    gapped (ip.segments.take zeroes.start) (ip.segments.drop (zeroes.start + zeroes.len))
  else ip.segments.map segmentDigits

theorem toList_toString {ip : Ipv6Addr} (unmapped : ip.toIpv4Mapped = none) :
    ip.toString.toList = [':'].intercalate ip.fields := by
  rw [Ipv6Addr.toString, unmapped, fields]
  simp only
  split
  · rw [intercalate_gapped]
  · rw [toList_fmtSubslice]

theorem expand_fields (ip : Ipv6Addr) : expand ip.fields = ip.segments.map (·.toNat) := by
  have eight : ip.segments.length = 8 := length_words ip.octets.2
  rw [fields]
  split
  · next gap =>
    have filled := (zeroes_longest ip.segments).fill
    generalize longestZeroes ip.segments 0 ⟨0, 0⟩ ⟨0, 0⟩ = zeroes at gap filled
    have count := congrArg List.length filled
    simp only [List.length_append, List.length_replicate, eight] at count
    have left_out : 8 - ((ip.segments.take zeroes.start).length +
        (ip.segments.drop (zeroes.start + zeroes.len)).length) = zeroes.len := by
      omega
    rw [expand_gapped, left_out]
    have zero : List.replicate zeroes.len 0 =
        (List.replicate zeroes.len (0 : UInt16)).map (·.toNat) := by simp
    rw [zero, ← List.map_append, ← List.map_append, filled]
  · rw [expand_map]

theorem fields_ne_nil (ip : Ipv6Addr) : ip.fields ≠ [] := by
  have eight : ip.segments.length = 8 := length_words ip.octets.2
  rw [fields]
  split
  · simp [gapped]
  · intro empty
    rw [List.map_eq_nil_iff.mp empty] at eight
    cases eight

theorem fields_plain (ip : Ipv6Addr) {mark : Char} (plain : ∀ d < 16, mark ≠ d.digitChar) :
    ∀ field ∈ ip.fields, mark ∉ field := by
  have digits (segments : List UInt16) : ∀ field ∈ segments.map segmentDigits, mark ∉ field := by
    rintro _ member
    obtain ⟨segment, -, rfl⟩ := List.mem_map.mp member
    exact notMem_toDigits (by decide) (by decide) plain
  have side (segments : List UInt16) :
      ∀ field ∈ orEmpty (segments.map segmentDigits), mark ∉ field := by
    unfold orEmpty
    split
    · simp
    · exact digits segments
  rw [fields]
  split
  · intro field member
    rcases List.mem_append.mp member with front | back
    · exact side _ field front
    · rcases List.mem_cons.mp back with rfl | back
      · exact List.not_mem_nil
      · exact side _ field back
  · exact digits _

theorem octets_of_mapped {ip : Ipv6Addr} (mapped : ip.toIpv4Mapped = some ipv4) :
    ip.octets.1 = List.replicate 10 0 ++ [0xff, 0xff] ++ ipv4.octets.1 := by
  unfold toIpv4Mapped at mapped
  split at mapped
  · next head =>
    cases mapped
    rw [← head]
    exact (List.take_append_drop 12 ip.octets.1).symm
  · cases mapped

theorem toString_mapped {ip : Ipv6Addr} (mapped : ip.toIpv4Mapped = some ipv4) :
    ip.toString = "::ffff:" ++ ipv4.toString := by
  rw [Ipv6Addr.toString, mapped]
  simp

theorem dot_mem_iff (ip : Ipv6Addr) : '.' ∈ ip.toString.toList ↔ ip.toIpv4Mapped.isSome := by
  cases mapped : ip.toIpv4Mapped with
  | some ipv4 =>
    rw [toString_mapped mapped]
    simp [ipv4.dot_mem]
  | none =>
    rw [toList_toString mapped]
    refine iff_of_false (fun member => ?_) (by simp)
    rcases mem_intercalate member with same | ⟨field, among, inside⟩
    · cases same
    · exact ip.fields_plain dot_ne_digit field among inside

theorem toString_injective : Function.Injective Ipv6Addr.toString := by
  intro a b same
  have marks : a.toIpv4Mapped.isSome ↔ b.toIpv4Mapped.isSome := by
    rw [← dot_mem_iff, ← dot_mem_iff, same]
  cases mapped : a.toIpv4Mapped with
  | some ipv4 =>
    obtain ⟨other, mapped'⟩ := Option.isSome_iff_exists.mp (marks.mp (by simp [mapped]))
    rw [toString_mapped mapped, toString_mapped mapped', String.append_right_inj] at same
    have octets := octets_of_mapped mapped
    rw [Ipv4Addr.toString_injective same, ← octets_of_mapped mapped'] at octets
    obtain ⟨_⟩ := a
    obtain ⟨_⟩ := b
    exact congrArg Ipv6Addr.mk (Subtype.ext octets)
  | none =>
    have unmapped : b.toIpv4Mapped = none := by
      rw [mapped] at marks
      simpa using marks
    have texts := congrArg String.toList same
    rw [toList_toString mapped, toList_toString unmapped] at texts
    have fields := intercalate_injective a.fields_ne_nil b.fields_ne_nil
      (a.fields_plain colon_ne_digit) (b.fields_plain colon_ne_digit) texts
    have segments := congrArg expand fields
    rw [expand_fields, expand_fields] at segments
    have segments := List.map_injective_iff.mpr (fun _ _ => UInt16.toNat_inj.mp) segments
    have octets := congrArg (List.flatMap beBytes) segments
    rw [Ipv6Addr.segments, flatMap_words (n := 8) a.octets.2, Ipv6Addr.segments,
      flatMap_words (n := 8) b.octets.2] at octets
    obtain ⟨_⟩ := a
    obtain ⟨_⟩ := b
    exact congrArg Ipv6Addr.mk (Subtype.ext octets)

end Ipv6Addr

theorem Ipv4Addr.toString_ne (a : Ipv4Addr) (b : Ipv6Addr) : a.toString ≠ b.toString := by
  intro same
  have dotted := a.dot_mem
  rw [same, b.dot_mem_iff] at dotted
  obtain ⟨ipv4, mapped⟩ := Option.isSome_iff_exists.mp dotted
  have plain := a.colon_notMem
  rw [same, Ipv6Addr.toString_mapped mapped] at plain
  simp at plain

end Tord
