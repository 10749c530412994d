import Tord.Socks.Server

/-! `handle` against a client byte stream that ends in EOF and takes every write. The
environment answers everything but `connect`, where the run stops. A handler that
reads is described by the language it accepts, and languages compose with `bind`. -/
namespace Tord.Socks

open Interaction Text

variable {stream : StreamHandle} {α β : Type}

/-- The whole stream at hand: exact reads take from its front. -/
def answerBytes (stream : StreamHandle) : (op : Op) → List UInt8 → Option (op.Res × List UInt8)
  | .readExact n, s =>
    if enough : n ≤ s.length then some (.ok ⟨s.take n, List.length_take_of_le enough⟩, s.drop n)
    else some (.error .earlyEof, [])
  | .writeAll _, s => some (.ok (), s)
  | .fetchAdd _ _, s => some ((), s)
  | .register _ _ _, s => some (stream, s)
  | .connect _ _ _, _ => none
  | .copyBidirectional _, _ => none
  | .dropStream _, s => some ((), s)

/-- The loop of `read_exact` over polls that each deliver at most one fragment and no
more than fits; an empty fragment is a poll that was pending, no fragment is EOF. -/
def fill : Nat → List (List UInt8) → List UInt8 × List (List UInt8)
  | 0, source => ([], source)
  | _ + 1, [] => ([], [])
  | n + 1, fragment :: source =>
    if fragment.length ≤ n + 1 then
      let (more, left) := fill (n + 1 - fragment.length) source
      (fragment ++ more, left)
    else (fragment.take (n + 1), fragment.drop (n + 1) :: source)

def answerFragments (stream : StreamHandle) :
    (op : Op) → List (List UInt8) → Option (op.Res × List (List UInt8))
  | .readExact n, source =>
    if full : (fill n source).1.length = n then some (.ok ⟨(fill n source).1, full⟩, (fill n source).2)
    else some (.error .earlyEof, (fill n source).2)
  | .writeAll _, source => some (.ok (), source)
  | .fetchAdd _ _, source => some ((), source)
  | .register _ _ _, source => some (stream, source)
  | .connect _ _ _, _ => none
  | .copyBidirectional _, _ => none
  | .dropStream _, source => some ((), source)

theorem fill_flatten (n : Nat) (source : List (List UInt8)) :
    (fill n source).1 = source.flatten.take n ∧ (fill n source).2.flatten = source.flatten.drop n := by
  induction n, source using fill.induct with
  | case1 source => simp [fill]
  | case2 n => simp [fill]
  | case3 n fragment source fits more left rest ih =>
    simp only [fill, fits, ↓reduceIte, List.flatten_cons, ih, List.take_append, List.drop_append]
    simp [List.take_of_length_le fits, List.drop_eq_nil_of_le fits]
  | case4 n fragment source exceeds =>
    simp only [fill, exceeds, ↓reduceIte, List.flatten_cons]
    rw [List.take_append_of_le_length (by omega), List.drop_append_of_le_length (by omega)]
    exact ⟨rfl, rfl⟩

/-- Fragmentation does not change a run. -/
theorem run_fragments (p : Prog Op.Res α) (source : List (List UInt8)) :
    p.run (answerBytes stream) source.flatten =
      ((p.run (answerFragments stream) source).1, (p.run (answerFragments stream) source).2.flatten) := by
  apply run_view List.flatten
  intro op source
  cases op with
  | readExact n =>
    obtain ⟨filled, left⟩ := fill_flatten n source
    simp only [answerBytes, answerFragments]
    by_cases enough : n ≤ source.flatten.length
    · have full : (fill n source).1.length = n := by rw [filled, List.length_take_of_le enough]
      rw [dif_pos enough, dif_pos full]
      simp [filled, left]
    · have short : (fill n source).1.length ≠ n := by rw [filled, List.length_take]; omega
      rw [dif_neg enough, dif_neg short]
      simp [left, List.drop_eq_nil_of_le (Nat.le_of_not_le enough)]
  | _ => rfl

/-- `x` returns on every stream, and accepts exactly the words of its language, with
the value it returns for each, leaving what follows unread. -/
structure Parses (stream : StreamHandle) (x : Handler α) (language : List UInt8 → α → Prop) :
    Prop where
  returns : ∀ s, ∃ result, (x.run.run (answerBytes stream) s).1 = .inl result
  accepts : ∀ s value rest, x.run.run (answerBytes stream) s = (.inl (.ok value), rest) ↔
    ∃ word, language word value ∧ s = word ++ rest

namespace Parses

theorem congr {x : Handler α} {language other : List UInt8 → α → Prop}
    (parses : Parses stream x language) (same : ∀ word value, language word value ↔ other word value) :
    Parses stream x other where
  returns := parses.returns
  accepts s value rest := by simp only [parses.accepts, same]

theorem pure (value : α) : Parses stream (Pure.pure value) fun word v => word = [] ∧ v = value where
  returns s := ⟨.ok value, rfl⟩
  accepts s v rest := by
    change ((.inl (.ok value), s) : (Except Error α ⊕ Op) × _) = _ ↔ _
    simp [eq_comm]

theorem throw (e : Error) : Parses stream (throw e : Handler α) fun _ _ => False where
  returns s := ⟨.error e, rfl⟩
  accepts s v rest := by
    change ((.inl (.error e), s) : (Except Error α ⊕ Op) × _) = _ ↔ _
    simp

theorem bind {x : Handler α} {f : α → Handler β} {language : List UInt8 → α → Prop}
    {following : α → List UInt8 → β → Prop} (first : Parses stream x language)
    (rest : ∀ value, Parses stream (f value) (following value)) :
    Parses stream (x >>= f) fun word b => ∃ front back value,
      language front value ∧ following value back b ∧ word = front ++ back where
  returns s := by
    obtain ⟨result, returned⟩ := first.returns s
    rw [ExceptT.run_bind, run_bind]
    generalize x.run.run (answerBytes stream) s = outcome at *
    obtain ⟨ending, left⟩ := outcome
    cases returned
    cases result with
    | error e => exact ⟨.error e, rfl⟩
    | ok value => exact (rest value).returns left
  accepts s b left := by
    obtain ⟨result, returned⟩ := first.returns s
    have accepted := first.accepts s
    rw [ExceptT.run_bind, run_bind]
    generalize x.run.run (answerBytes stream) s = outcome at *
    obtain ⟨ending, middle⟩ := outcome
    cases returned
    cases result with
    | error e =>
      constructor
      · intro h
        change ((.inl (.error e), middle) : (Except Error β ⊕ Op) × _) = _ at h
        simp at h
      · rintro ⟨word, ⟨front, back, value, inFront, -, rfl⟩, rfl⟩
        have := (accepted value (back ++ left)).mpr ⟨front, inFront, by simp⟩
        simp at this
    | ok value =>
      have split := (accepted value middle).mp rfl
      change (f value).run.run (answerBytes stream) middle = _ ↔ _
      rw [(rest value).accepts]
      constructor
      · rintro ⟨back, inBack, rfl⟩
        obtain ⟨front, inFront, rfl⟩ := split
        exact ⟨front ++ back, ⟨front, back, value, inFront, inBack, rfl⟩, by simp⟩
      · rintro ⟨word, ⟨front, back, other, inFront, inBack, rfl⟩, rfl⟩
        have same := (accepted other (back ++ left)).mpr ⟨front, inFront, by simp⟩
        simp only [Prod.mk.injEq, Sum.inl.injEq, Except.ok.injEq] at same
        obtain ⟨rfl, rfl⟩ := same
        exact ⟨back, inBack, rfl⟩

theorem readExact (n : Nat) : Parses stream (readExact n) fun word b => word = b.1 where
  returns s := by
    rw [run_readExact]
    by_cases enough : n ≤ s.length <;> simp [Prog.run, answerBytes, enough]
  accepts s b rest := by
    rw [run_readExact]
    by_cases enough : n ≤ s.length
    · simp only [Prog.run, answerBytes, enough, ↓reduceDIte, Except.mapError, Prod.mk.injEq,
        Sum.inl.injEq, Except.ok.injEq, Subtype.ext_iff, exists_eq_left]
      constructor
      · rintro ⟨front, rfl⟩
        rw [← front, List.take_append_drop]
      · rintro rfl
        have size := b.2
        simp [← size]
    · simp only [Prog.run, answerBytes, enough, ↓reduceDIte, Except.mapError, Prod.mk.injEq,
        Sum.inl.injEq, reduceCtorEq, false_and, exists_eq_left, false_iff]
      rintro rfl
      have size := b.2
      simp [← size] at enough

theorem writeAll (bytes : List UInt8) :
    Parses stream (writeAll bytes) fun word _ => word = [] where
  returns s := ⟨.ok (), rfl⟩
  accepts s v rest := by
    change ((.inl (.ok ()), s) : (Except Error Unit ⊕ Op) × _) = _ ↔ _
    simp

theorem context (text : String) {x : Handler α} {language : List UInt8 → α → Prop}
    (parses : Parses stream x language) : Parses stream (context text x) language where
  returns s := by
    obtain ⟨result, returned⟩ := parses.returns s
    rw [run_context, run_bind]
    generalize x.run.run (answerBytes stream) s = outcome at *
    obtain ⟨ending, left⟩ := outcome
    cases returned
    exact ⟨_, rfl⟩
  accepts s value rest := by
    obtain ⟨result, returned⟩ := parses.returns s
    rw [← parses.accepts, run_context, run_bind]
    generalize x.run.run (answerBytes stream) s = outcome at *
    obtain ⟨ending, left⟩ := outcome
    cases returned
    cases result <;> simp [Except.mapError]

theorem bail (text : String) : Parses stream (bail text : Handler α) fun _ _ => False :=
  throw (.msg text)

theorem ensure (condition : Prop) [Decidable condition] (text : String) :
    Parses stream (ensure condition text) fun word _ => word = [] ∧ condition := by
  unfold Socks.ensure
  by_cases holds : condition
  · rw [if_pos holds]
    exact (pure ()).congr (by simp [holds])
  · rw [if_neg holds]
    exact (bail text).congr (by simp [holds])

theorem fromUtf8 (bytes : List UInt8) (text : String) :
    Parses stream (fromUtf8 bytes text) fun word decoded => word = [] ∧ bytes = utf8 decoded := by
  unfold Socks.fromUtf8
  cases decoded : decodeUtf8 bytes with
  | some name =>
    obtain rfl := decodeUtf8_eq_some_iff.mp decoded
    refine (pure name).congr fun word other => ?_
    constructor
    · rintro ⟨rfl, rfl⟩; exact ⟨rfl, rfl⟩
    · rintro ⟨rfl, same⟩; exact ⟨rfl, (utf8_injective same).symm⟩
  | none =>
    refine (throw _).congr fun word other => ?_
    simp only [false_iff, not_and]
    rintro - rfl
    simp at decoded

/-- A recovery that never succeeds adds nothing to the language. -/
theorem tryCatch {x : Handler α} {recover : Error → Handler α} {language : List UInt8 → α → Prop}
    (parses : Parses stream x language)
    (hopeless : ∀ e, Parses stream (recover e) fun _ _ => False) :
    Parses stream (tryCatch x recover) language where
  returns s := by
    obtain ⟨result, returned⟩ := parses.returns s
    rw [run_tryCatch, run_bind]
    generalize x.run.run (answerBytes stream) s = outcome at *
    obtain ⟨ending, left⟩ := outcome
    cases returned
    cases result with
    | ok value => exact ⟨.ok value, rfl⟩
    | error e => exact (hopeless e).returns left
  accepts s value rest := by
    obtain ⟨result, returned⟩ := parses.returns s
    rw [← parses.accepts, run_tryCatch, run_bind]
    generalize x.run.run (answerBytes stream) s = outcome at *
    obtain ⟨ending, left⟩ := outcome
    cases returned
    cases result with
    | ok value => simp
    | error e =>
      apply ((hopeless e).accepts left value rest).trans
      simp

end Parses

end Tord.Socks
