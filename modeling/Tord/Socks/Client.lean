import Tord.Socks.FailClosed

/-! An RFC 1928 client, and `handle` against it: what the handler reads and writes, in
which order, when its reads deliver what the client sends and no write fails. -/
namespace Tord.Socks

open Interaction Text

structure Client where
  methods : List UInt8
  methods_len : methods.length ≤ 255
  credentials : Credentials
  cmd : UInt8
  rsv : UInt8
  address : Address
  port : UInt16
  /-- Whether it sends its credentials, or its request, ahead of the answer before them. -/
  authAhead : Bool
  requestAhead : Bool

namespace Client

variable {c : Client}

/-- The method a server selects that prefers username/password. A client that sends
ahead of time counts on it. -/
def selected (c : Client) : UInt8 :=
  if methodUserpass ∈ c.methods then methodUserpass
  else if methodNoauth ∈ c.methods then methodNoauth
  else methodNone

def greeting (c : Client) : List UInt8 := socks5 :: counted c.methods

def request (c : Client) : List UInt8 :=
  [socks5, c.cmd, c.rsv, c.address.atyp] ++ (c.address.bytes ++ beBytes c.port)

def afterAuth (c : Client) : List UInt8 → List UInt8
  | _ :: status :: _ => if status = repSuccess then c.request else []
  | _ => if c.requestAhead then c.request else []

def afterGreeting (c : Client) : List UInt8 → List UInt8
  | _ :: method :: rest =>
    if method = methodUserpass then c.credentials.bytes ++ c.afterAuth rest
    else if method = methodNoauth then c.request
    else []
  | _ =>
    if c.selected = methodUserpass then
      if c.authAhead then c.credentials.bytes ++ c.afterAuth [] else []
    else if c.selected = methodNoauth then if c.requestAhead then c.request else []
    else []

/-- Everything it is ready to have sent once it has read `inbox`. -/
def may (c : Client) (inbox : List UInt8) : List UInt8 := c.greeting ++ c.afterGreeting inbox

/-- What follows the address type of a reply, as far as its length is known. -/
def boundLen (atyp : UInt8) (bound : List UInt8) : Option Nat :=
  if atyp = atypIpv4 then some 6
  else if atyp = atypIpv6 then some 18
  else if atyp = atypDomain then bound.head?.map (·.toNat + 3)
  else none

def codeOf : List UInt8 → Option UInt8
  | _ :: code :: _ :: atyp :: bound =>
    if (boundLen atyp bound).any (· ≤ bound.length) then some code else none
  | _ => none

def replyCode : List UInt8 → Option UInt8
  | _ :: method :: rest => codeOf (if method = methodUserpass then rest.drop 2 else rest)
  | _ => none

def user (c : Client) : Option String :=
  if c.selected = methodUserpass then some c.credentials.uname else none

def call (c : Client) : Op := .connect c.address.host c.port c.user

/-- All it ever sends to a server that selects `selected`. -/
def script (c : Client) : List UInt8 :=
  c.greeting ++
    if c.selected = methodUserpass then c.credentials.bytes ++ c.request
    else if c.selected = methodNoauth then c.request
    else []

def prelude (c : Client) : List UInt8 :=
  [socks5, c.selected] ++ if c.selected = methodUserpass then [authUserpassVer, repSuccess] else []

/-- Words that the server may have written so far. -/
def Hears (c : Client) (out : List UInt8) : Prop := ∃ code, out <+: c.prelude ++ replyBytes code

theorem Hears.earlier (hears : c.Hears back) (earlier : front <+: back) : c.Hears front := by
  obtain ⟨code, within⟩ := hears
  exact ⟨code, earlier.trans within⟩

theorem Hears.selection (hears : c.Hears (version :: method :: rest)) :
    version = socks5 ∧ method = c.selected := by
  obtain ⟨code, within⟩ := hears
  simp only [prelude, List.cons_append, List.cons_prefix_cons] at within
  exact ⟨within.1, within.2.1⟩

theorem Hears.status (hears : c.Hears (version :: method :: rest))
    (authenticates : c.selected = methodUserpass) :
    ∃ more, rest <+: authUserpassVer :: repSuccess :: more := by
  obtain ⟨code, within⟩ := hears
  simp only [prelude, authenticates, ↓reduceIte, List.cons_append, List.nil_append,
    List.cons_prefix_cons] at within
  exact ⟨_, within.2.2⟩

theorem afterAuth_le (answered : rest <+: authUserpassVer :: repSuccess :: more) :
    c.afterAuth rest <+: c.request := by
  match rest with
  | [] | [_] => simp only [afterAuth]; split <;> simp
  | _ :: status :: _ =>
    simp only [List.cons_prefix_cons] at answered
    simp [afterAuth, answered.2.1]

theorem afterAuth_mono (answered : back <+: authUserpassVer :: repSuccess :: more)
    (earlier : front <+: back) : c.afterAuth front <+: c.afterAuth back := by
  obtain ⟨later, rfl⟩ := earlier
  have ahead (short : front.length < 2) : c.afterAuth front <+: c.afterAuth (front ++ later) := by
    cases here : c.requestAhead with
    | false =>
      match front with
      | [] | [_] => simp [afterAuth, here]
    | true =>
      have whole : c.afterAuth (front ++ later) = c.request := by
        generalize front ++ later = read at *
        match read with
        | [] | [_] => simp [afterAuth, here]
        | _ :: status :: _ =>
          simp only [List.cons_prefix_cons] at answered
          simp [afterAuth, answered.2.1]
      rw [whole]
      exact afterAuth_le ((List.prefix_append _ _).trans answered)
  match front with
  | [] | [_] => exact ahead (by simp)
  | _ :: _ :: _ => exact List.prefix_rfl

/-- Once it knows the method, it follows the script. -/
theorem may_of_selection (hears : c.Hears (version :: method :: rest)) :
    c.may (version :: method :: rest) = c.greeting ++
      if c.selected = methodUserpass then c.credentials.bytes ++ c.afterAuth rest
      else if c.selected = methodNoauth then c.request
      else [] := by
  obtain ⟨rfl, rfl⟩ := hears.selection
  rfl

theorem may_le_script (hears : c.Hears out) : c.may out <+: c.script := by
  apply (List.prefix_append_right_inj _).mpr
  match out with
  | [] | [_] =>
    simp only [afterGreeting]
    split
    · split
      · exact (List.prefix_append_right_inj _).mpr (@afterAuth_le c [] [] List.nil_prefix)
      · simp
    split
    · split <;> simp
    · simp
  | version :: method :: rest =>
    have known := List.append_cancel_left (may_of_selection hears)
    rw [known]
    split
    · next authenticates =>
      obtain ⟨more, answered⟩ := hears.status authenticates
      exact (List.prefix_append_right_inj _).mpr (afterAuth_le answered)
    · exact List.prefix_rfl

/-- What it has read only ever adds to what it may send. -/
theorem may_mono (hears : c.Hears back) (earlier : front <+: back) : c.may front <+: c.may back := by
  match front, back, earlier with
  | [], [], _ | [], [_], _ | [_], [_], _ => exact List.prefix_rfl
  | [], version :: method :: rest, _ | [_], version :: method :: rest, _ =>
    rw [may_of_selection hears]
    apply (List.prefix_append_right_inj _).mpr
    simp only [afterGreeting]
    split
    · next authenticates =>
      split
      · obtain ⟨more, answered⟩ := hears.status authenticates
        exact (List.prefix_append_right_inj _).mpr (afterAuth_mono answered List.nil_prefix)
      · exact List.nil_prefix
    split
    · split <;> simp
    · exact List.prefix_rfl
  | version :: method :: rest, _ :: _ :: later, earlier =>
    rw [may_of_selection hears, may_of_selection (hears.earlier earlier)]
    apply (List.prefix_append_right_inj _).mpr
    simp only [List.cons_prefix_cons] at earlier
    split
    · next authenticates =>
      obtain ⟨more, answered⟩ := hears.status authenticates
      exact (List.prefix_append_right_inj _).mpr (afterAuth_mono answered earlier.2.2)
    · exact List.prefix_rfl

theorem codeOf_eq_some (part : body <+: replyBytes code) (read : codeOf body = some answer) :
    answer = code ∧ body.length = 10 := by
  match body with
  | [] | [_] | [_, _] | [_, _, _] => simp [codeOf] at read
  | _ :: _ :: _ :: atyp :: bound =>
    simp only [replyBytes, List.cons_prefix_cons] at part
    obtain ⟨-, rfl, -, rfl, zeros⟩ := part
    have most := zeros.length_le
    simp only [codeOf, boundLen, ↓reduceIte, Option.any_some, decide_eq_true_eq,
      Option.ite_none_right_eq_some, Option.some.injEq] at read
    simp only [List.length_cons, List.length_nil] at most ⊢
    exact ⟨read.2.symm, by omega⟩

/-- A reply it has read whole is the whole of what the server wrote. -/
theorem replyCode_eq_some (within : out <+: c.prelude ++ replyBytes code)
    (answered : replyCode out = some answer) :
    answer = code ∧ out = c.prelude ++ replyBytes code := by
  suffices whole : answer = code ∧ (c.prelude ++ replyBytes code).length ≤ out.length from
    ⟨whole.1, within.eq_of_length_le whole.2⟩
  match out with
  | [] | [_] => simp [replyCode] at answered
  | _ :: method :: rest =>
    simp only [prelude, List.cons_append, List.nil_append, List.cons_prefix_cons] at within
    obtain ⟨-, rfl, within⟩ := within
    simp only [replyCode] at answered
    by_cases authenticates : c.selected = methodUserpass
    · rw [if_pos authenticates] at answered within
      obtain ⟨same, len⟩ := codeOf_eq_some (by simpa using within.drop 2) answered
      simp only [List.length_drop] at len
      exact ⟨same, by simp [prelude, authenticates, replyBytes]; omega⟩
    · rw [if_neg authenticates] at answered within
      obtain ⟨same, len⟩ := codeOf_eq_some within answered
      exact ⟨same, by simp [prelude, authenticates, replyBytes]; omega⟩

end Client

end Tord.Socks
