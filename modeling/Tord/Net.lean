import Tord.Lib.Text

/-! Addresses of `std::net` and their `Display` text. -/
namespace Tord

open Text

/-- A byte array of a fixed length, `[u8; n]`. -/
abbrev Buffer (n : Nat) := { bytes : List UInt8 // bytes.length = n }

instance : GetElem (Buffer n) Nat UInt8 (fun _ i => i < n) where
  getElem buffer i bound :=
    have inside : i < buffer.1.length := buffer.2.symm ▸ bound
    buffer.1[i]

def Buffer.of (bytes : List UInt8) : Buffer bytes.length := ⟨bytes, rfl⟩

@[simp] theorem Buffer.of_val (bytes : List UInt8) : (Buffer.of bytes).1 = bytes := rfl

theorem Buffer.one (b : Buffer 1) : b.1 = [getElem b 0 (by decide)] := by
  match b with
  | ⟨[_], _⟩ => rfl

theorem Buffer.two (b : Buffer 2) : b.1 = [getElem b 0 (by decide), getElem b 1 (by decide)] := by
  match b with
  | ⟨[_, _], _⟩ => rfl

theorem Buffer.four (b : Buffer 4) : b.1 =
    [getElem b 0 (by decide), getElem b 1 (by decide), getElem b 2 (by decide),
      getElem b 3 (by decide)] := by
  match b with
  | ⟨[_, _, _, _], _⟩ => rfl

/-- `u16::from_be_bytes`. -/
def u16FromBeBytes (high low : UInt8) : UInt16 := .ofNat (256 * high.toNat + low.toNat)

def beBytes (value : UInt16) : List UInt8 :=
  [.ofNat (value.toNat / 256), .ofNat (value.toNat % 256)]

theorem u16FromBeBytes_div_mod (value : UInt16) :
    u16FromBeBytes (.ofNat (value.toNat / 256)) (.ofNat (value.toNat % 256)) = value := by
  have bound := value.toNat_lt
  have high : value.toNat / 256 < 256 := by omega
  have low : value.toNat % 256 < 256 := by omega
  rw [u16FromBeBytes, UInt8.toNat_ofNat_of_lt' high, UInt8.toNat_ofNat_of_lt' low,
    Nat.div_add_mod, UInt16.ofNat_toNat]

theorem beBytes_u16FromBeBytes (high low : UInt8) :
    beBytes (u16FromBeBytes high low) = [high, low] := by
  have h := high.toNat_lt
  have l := low.toNat_lt
  have value : (u16FromBeBytes high low).toNat = 256 * high.toNat + low.toNat :=
    UInt16.toNat_ofNat_of_lt' (show _ < 65536 by omega)
  have quotient : (256 * high.toNat + low.toNat) / 256 = high.toNat := by omega
  have remainder : (256 * high.toNat + low.toNat) % 256 = low.toNat := by omega
  rw [beBytes, value, quotient, remainder, UInt8.ofNat_toNat, UInt8.ofNat_toNat]

structure Ipv4Addr where
  octets : Buffer 4
  deriving DecidableEq

structure Ipv6Addr where
  octets : Buffer 16
  deriving DecidableEq

namespace Ipv4Addr

def toString (ip : Ipv4Addr) : String :=
  s!"{ip.octets[0]}.{ip.octets[1]}.{ip.octets[2]}.{ip.octets[3]}"

def isUnspecified (ip : Ipv4Addr) : Bool := ip.octets.1.all (· == 0)

end Ipv4Addr

def words : List UInt8 → List UInt16
  | high :: low :: rest => u16FromBeBytes high low :: words rest
  | _ => []

/-- A run of zero segments: where it starts and how long it is. -/
structure Span where
  start : Nat
  len : Nat
  deriving DecidableEq

/-- The first of the longest runs of zeroes, as the standard library's loop finds it. -/
def longestZeroes : List UInt16 → (index : Nat) → (longest current : Span) → Span
  | [], _, longest, _ => longest
  | segment :: rest, index, longest, current =>
    if segment = 0 then
      let start := if current.len = 0 then index else current.start
      let current := Span.mk start (current.len + 1)
      longestZeroes rest (index + 1) (if current.len > longest.len then current else longest)
        current
    else longestZeroes rest (index + 1) longest ⟨0, 0⟩

def hex (segment : UInt16) : String := String.ofList (Nat.toDigits 16 segment.toNat)

def fmtSubslice (segments : List UInt16) : String := ":".intercalate (segments.map hex)

namespace Ipv6Addr

def segments (ip : Ipv6Addr) : List UInt16 := words ip.octets.1

def isUnspecified (ip : Ipv6Addr) : Bool := ip.octets.1.all (· == 0)

/-- The embedded address of `::ffff:a.b.c.d`. -/
def toIpv4Mapped (ip : Ipv6Addr) : Option Ipv4Addr :=
  if ip.octets.1.take 12 = List.replicate 10 0 ++ [0xff, 0xff] then
    some ⟨ip.octets.1.drop 12, by simp [ip.octets.2]⟩
  else none

def toString (ip : Ipv6Addr) : String :=
  match ip.toIpv4Mapped with
  | some ipv4 => s!"::ffff:{ipv4.toString}"
  | none =>
    let zeroes := longestZeroes ip.segments 0 ⟨0, 0⟩ ⟨0, 0⟩
    if zeroes.len > 1 then
      fmtSubslice (ip.segments.take zeroes.start) ++ "::" ++
        fmtSubslice (ip.segments.drop (zeroes.start + zeroes.len))
    else fmtSubslice ip.segments

end Ipv6Addr

inductive SocketAddr where
  | v4 (ip : Ipv4Addr) (port : UInt16)
  | v6 (ip : Ipv6Addr) (port : UInt16) (flowinfo scopeId : UInt32)
  deriving DecidableEq

namespace SocketAddr

/-- `addr.ip().is_unspecified()`. -/
def ipIsUnspecified : SocketAddr → Bool
  | .v4 ip _ => ip.isUnspecified
  | .v6 ip _ _ _ => ip.isUnspecified

def toString : SocketAddr → String
  | .v4 ip port => s!"{ip.toString}:{port}"
  | .v6 ip port _ scopeId =>
    if scopeId = 0 then s!"[{ip.toString}]:{port}" else s!"[{ip.toString}%{scopeId}]:{port}"

end SocketAddr

example : Ipv6Addr.toString ⟨[0x20, 1, 0xd, 0xb8, 0, 0, 0, 0, 0, 0, 0, 0, 0, 0, 0, 1], rfl⟩ =
    "2001:db8::1" := by decide

theorem oneLine_hex (segment : UInt16) : OneLine (hex segment) := by
  simpa [OneLine, hex] using newline_notMem_toDigits 16 segment.toNat (by decide)

theorem oneLine_fmtSubslice (segments : List UInt16) : OneLine (fmtSubslice segments) := by
  simp only [fmtSubslice]
  apply oneLine_intercalate
  · decide
  · intro text member
    obtain ⟨segment, -, rfl⟩ := List.mem_map.mp member
    exact oneLine_hex segment

theorem Ipv4Addr.oneLine (ip : Ipv4Addr) : OneLine ip.toString := by
  simp +decide [Ipv4Addr.toString]

theorem Ipv6Addr.oneLine (ip : Ipv6Addr) : OneLine ip.toString := by
  unfold Ipv6Addr.toString
  split
  · simp +decide [Ipv4Addr.oneLine]
  · simp only
    split <;> simp +decide [oneLine_fmtSubslice]

theorem SocketAddr.oneLine (addr : SocketAddr) : OneLine addr.toString := by
  cases addr with
  | v4 ip port => simp +decide [SocketAddr.toString, Ipv4Addr.oneLine]
  | v6 ip port flowinfo scopeId =>
    simp only [SocketAddr.toString]
    split <;> simp +decide [Ipv6Addr.oneLine]

theorem length_fmtSubslice_le (segments : List UInt16) :
    (fmtSubslice segments).length ≤ 5 * segments.length := by
  have digits (segment : UInt16) : (hex segment).length ≤ 4 := by
    rw [hex, String.length_ofList, Nat.length_toDigits_le_iff (by decide) (by decide)]
    exact segment.toNat_lt
  unfold fmtSubslice
  induction segments with
  | nil => decide
  | cons segment rest ih =>
    have first := digits segment
    cases rest with
    | nil => simpa using first.trans (by decide)
    | cons next rest =>
      simp only [List.map_cons, String.intercalate_cons_cons, String.length_append,
        List.length_cons, show ":".length = 1 from rfl] at ih ⊢
      omega

theorem length_words_le (bytes : List UInt8) : 2 * (words bytes).length ≤ bytes.length := by
  fun_induction words bytes with
  | case1 high low rest ih =>
    simp only [List.length_cons]
    omega
  | case2 => simp

theorem Ipv4Addr.length_toString_le (ip : Ipv4Addr) : ip.toString.length ≤ 15 := by
  have digits (octet : UInt8) : octet.toNat.repr.length ≤ 3 :=
    (Nat.length_repr_le_iff (by decide)).mpr (octet.toNat_lt.trans (by decide))
  have a := digits ip.octets[0]
  have b := digits ip.octets[1]
  have c := digits ip.octets[2]
  have d := digits ip.octets[3]
  have dot : ".".length = 1 := rfl
  simp [Ipv4Addr.toString, dot]
  omega

theorem Ipv6Addr.length_toString_le (ip : Ipv6Addr) : ip.toString.length ≤ 82 := by
  have count : 2 * ip.segments.length ≤ 16 := ip.octets.2 ▸ length_words_le ip.octets.1
  unfold Ipv6Addr.toString
  split
  · next ipv4 _ =>
    have short := ipv4.length_toString_le
    have front : "::ffff:".length = 7 := rfl
    simp [front]
    omega
  · have left (n : Nat) := length_fmtSubslice_le (ip.segments.take n)
    have right (n : Nat) := length_fmtSubslice_le (ip.segments.drop n)
    have all := length_fmtSubslice_le ip.segments
    have colons : "::".length = 2 := rfl
    simp only [List.length_take, List.length_drop] at left right
    generalize longestZeroes ip.segments 0 ⟨0, 0⟩ ⟨0, 0⟩ = zeroes
    simp only
    by_cases run : zeroes.len > 1
    · have before := left zeroes.start
      have after := right (zeroes.start + zeroes.len)
      rw [if_pos run, String.length_append, String.length_append, colons]
      omega
    · rw [if_neg run]
      omega

theorem SocketAddr.length_toString_le (addr : SocketAddr) : addr.toString.length ≤ 101 := by
  have digits (port : UInt16) : port.toNat.repr.length ≤ 5 :=
    (Nat.length_repr_le_iff (by decide)).mpr (port.toNat_lt.trans (by decide))
  cases addr with
  | v4 ip port =>
    have address := ip.length_toString_le
    have port := digits port
    have colon : ":".length = 1 := rfl
    simp [SocketAddr.toString, colon]
    omega
  | v6 ip port flowinfo scopeId =>
    have address := ip.length_toString_le
    have port := digits port
    have zone : scopeId.toNat.repr.length ≤ 10 :=
      (Nat.length_repr_le_iff (by decide)).mpr (scopeId.toNat_lt.trans (by decide))
    have opening : "[".length = 1 := rfl
    have percent : "%".length = 1 := rfl
    have closing : "]:".length = 2 := rfl
    simp only [SocketAddr.toString]
    split <;> simp [opening, percent, closing] <;> omega

/-- No address is written as a name without a colon, such as `local`. -/
theorem SocketAddr.colon_mem (addr : SocketAddr) : ':' ∈ addr.toString.toList := by
  cases addr with
  | v4 ip port => simp [SocketAddr.toString]
  | v6 ip port flowinfo scopeId =>
    simp only [SocketAddr.toString]
    split <;> simp

end Tord
