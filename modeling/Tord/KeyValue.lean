import Tord.Format

/-! The key/value view of an object. What the lines should be is said by recursion on the
members, apart from the code's own list of lines and its width. -/
namespace Tord

open Text

/-- No key is blank, and neither a key nor the text of a value breaks its line. -/
inductive Plain (serde : Serde) : List (String × Value) → Prop where
  | nil : Plain serde []
  | object (inked : Inked key) (line : OneLine key) (inside : Plain serde nested)
      (rest : Plain serde members) : Plain serde ((key, .object nested) :: members)
  | value (inked : Inked key) (line : OneLine key) (single : v.isObject = false)
      (text : OneLine (scalar serde v)) (rest : Plain serde members) :
      Plain serde ((key, v) :: members)

/-- No key of a value is, with its indentation, longer than a width can be, in bytes. -/
inductive NarrowKeys : Nat → List (String × Value) → Prop where
  | nil : NarrowKeys depth []
  | framing (v : Value) (rest : NarrowKeys 0 members) : NarrowKeys 0 (("status", v) :: members)
  | object (kept : depth = 0 → key ≠ "status") (inside : NarrowKeys (depth + 1) nested)
      (rest : NarrowKeys depth members) : NarrowKeys depth ((key, .object nested) :: members)
  | value (kept : depth = 0 → key ≠ "status") (single : v.isObject = false)
      (fits : 2 * depth + key.utf8ByteSize < 2 ^ 16) (rest : NarrowKeys depth members) :
      NarrowKeys depth ((key, v) :: members)

/-- The lines of the members of an object at this depth: one for each of them in order, an
object's own right behind it, and the text of every value in the same column. -/
inductive Listed (serde : Serde) (column : Nat) :
    Nat → List (String × Value) → List String → Prop where
  | nil : Listed serde column depth [] []
  | framing (v : Value) (rest : Listed serde column 0 members shown) :
      Listed serde column 0 (("status", v) :: members) shown
  | object (kept : depth = 0 → key ≠ "status")
      (inside : Listed serde column (depth + 1) nested children)
      (rest : Listed serde column depth members shown) :
      Listed serde column depth ((key, .object nested) :: members)
        ((blanks (2 * depth) ++ key ++ ":") :: (children ++ shown))
  | value (kept : depth = 0 → key ≠ "status") (single : v.isObject = false) (wide : 3 ≤ gap)
      (fills : 2 * depth + key.length + gap = column)
      (rest : Listed serde column depth members shown) :
      Listed serde column depth ((key, v) :: members)
        ((blanks (2 * depth) ++ key ++ blanks gap ++ scalar serde v) :: shown)

variable {serde : Serde} {members : List (String × Value)}

def kvLine (width : Nat) : String × Option String → String
  | (key, some text) => fill width key ++ "   " ++ text
  | (key, none) => key ++ ":"

theorem collectMembers_status (v : Value) (members : List (String × Value)) :
    collectMembers serde (("status", v) :: members) 0 = collectMembers serde members 0 := by
  rw [collectMembers, if_pos ⟨rfl, rfl⟩]

theorem collectMembers_object (kept : depth = 0 → key ≠ "status")
    (nested members : List (String × Value)) :
    collectMembers serde ((key, .object nested) :: members) depth =
      (blanks (2 * depth) ++ key, none) ::
        (collectMembers serde nested (depth + 1) ++ collectMembers serde members depth) := by
  rw [collectMembers, if_neg fun both => kept both.1 both.2]
  rfl

theorem collectMembers_value (kept : depth = 0 → key ≠ "status") (single : v.isObject = false)
    (members : List (String × Value)) :
    collectMembers serde ((key, v) :: members) depth =
      (blanks (2 * depth) ++ key, some (scalar serde v)) :: collectMembers serde members depth := by
  rw [collectMembers, if_neg fun both => kept both.1 both.2]
  simp [single]

/-- A member that is framing is left out, any other is kept. -/
theorem kept_or_framing (depth : Nat) (key : String) :
    (depth = 0 ∧ key = "status") ∨ (depth = 0 → key ≠ "status") := by
  by_cases top : depth = 0
  · by_cases framing : key = "status"
    · exact .inl ⟨top, framing⟩
    · exact .inr fun _ => framing
  · exact .inr fun same => (top same).elim

theorem collectMembers_eq_nil (members : List (String × Value)) :
    collectMembers serde members 0 = [] ↔ ∀ member ∈ members, member.1 = "status" := by
  induction members with
  | nil => simp [collectMembers]
  | cons first members ih =>
    obtain ⟨key, v⟩ := first
    rcases kept_or_framing 0 key with ⟨-, rfl⟩ | kept
    · rw [collectMembers_status, ih]
      simp
    · have different := kept rfl
      cases single : v.isObject with
      | false => simp [collectMembers_value kept single, different]
      | true =>
        cases v with
        | object nested => simp [collectMembers_object kept, different]
        | _ => cases single

/-- Every line of the code has a visible character and is one line. -/
theorem kvLine_plain (plain : Plain serde members) (depth width : Nat) :
    ∀ line ∈ collectMembers serde members depth,
      Inked (kvLine width line) ∧ OneLine (kvLine width line) := by
  induction plain generalizing depth with
  | nil => simp [collectMembers]
  | @object key nested members inked line _ _ ihInside ihRest =>
    rcases kept_or_framing depth key with ⟨rfl, rfl⟩ | kept
    · rw [collectMembers_status]
      exact ihRest 0
    · rw [collectMembers_object kept, List.forall_mem_cons, List.forall_mem_append]
      refine ⟨⟨(inked.prepend _).append _, ?_⟩, ihInside _, ihRest _⟩
      have colon : OneLine ":" := by decide
      simpa [kvLine, oneLine_blanks, colon] using line
  | @value key v members inked line single text _ ihRest =>
    rcases kept_or_framing depth key with ⟨rfl, rfl⟩ | kept
    · rw [collectMembers_status]
      exact ihRest 0
    · rw [collectMembers_value kept single, List.forall_mem_cons]
      refine ⟨⟨(((inked.prepend _).append _).append _).append _, ?_⟩, ihRest _⟩
      have gap : OneLine "   " := oneLine_blanks 3
      simpa [kvLine, fill, oneLine_blanks, gap] using ⟨line, text⟩

/-- The lines of the code are those of the listing, in any width that the keys of values fit. -/
theorem listed_collectMembers (plain : Plain serde members) (depth : Nat)
    (fits : ∀ line ∈ collectMembers serde members depth, line.2.isSome → line.1.length ≤ width) :
    Listed serde (width + 3) depth members
      ((collectMembers serde members depth).map (kvLine width)) := by
  induction plain generalizing depth with
  | nil => exact .nil
  | @object key nested members _ _ _ _ ihInside ihRest =>
    rcases kept_or_framing depth key with ⟨rfl, rfl⟩ | kept
    · rw [collectMembers_status] at fits ⊢
      exact .framing _ (ihRest 0 fits)
    · rw [collectMembers_object kept, List.forall_mem_cons, List.forall_mem_append] at fits
      rw [collectMembers_object kept, List.map_cons, List.map_append]
      exact .object kept (ihInside _ fits.2.1) (ihRest _ fits.2.2)
  | @value key v members _ _ single _ _ ihRest =>
    rcases kept_or_framing depth key with ⟨rfl, rfl⟩ | kept
    · rw [collectMembers_status] at fits ⊢
      exact .framing _ (ihRest 0 fits)
    · rw [collectMembers_value kept single, List.forall_mem_cons] at fits
      have fit := fits.1 rfl
      rw [String.length_append, length_blanks] at fit
      have line : kvLine width (blanks (2 * depth) ++ key, some (scalar serde v)) =
          blanks (2 * depth) ++ key ++ blanks (width - (2 * depth + key.length) + 3) ++ scalar serde v := by
        rw [kvLine, fill, String.length_append, length_blanks, ← blanks_append]
        simp only [String.append_assoc]
        rfl
      rw [collectMembers_value kept single, List.map_cons, line]
      exact .value kept single (by omega) (by omega) (ihRest _ fits.2)

def keyWidth (shown : List (String × Option String)) : Nat :=
  ((shown.filter (·.2.isSome)).map (·.1.utf8ByteSize)).foldl max 0

theorem foldl_max_lt_iff (start : Nat) (sizes : List Nat) :
    sizes.foldl max start < bound ↔ start < bound ∧ ∀ size ∈ sizes, size < bound := by
  induction sizes generalizing start with
  | nil => simp
  | cons first sizes ih =>
    rw [List.foldl_cons, ih, max_lt_iff, List.forall_mem_cons, and_assoc]

theorem keyWidth_lt_iff (shown : List (String × Option String)) (positive : 0 < bound) :
    keyWidth shown < bound ↔ ∀ line ∈ shown, line.2.isSome → line.1.utf8ByteSize < bound := by
  rw [keyWidth, foldl_max_lt_iff, List.forall_mem_map]
  simp [positive]

theorem fits_keyWidth (shown : List (String × Option String)) :
    ∀ line ∈ shown, line.2.isSome → line.1.length ≤ keyWidth shown := by
  intro line member valued
  have below := (keyWidth_lt_iff shown (Nat.succ_pos _)).mp (Nat.lt_succ_self _) line member valued
  have chars := length_le_utf8ByteSize line.1
  omega

theorem utf8ByteSize_blanks (n : Nat) : (blanks n).utf8ByteSize = n := by
  induction n with
  | zero => rfl
  | succ n ih =>
    rw [← blanks_append, String.utf8ByteSize_append, ih]
    rfl

theorem narrowKeys_iff (plain : Plain serde members) (depth : Nat) :
    NarrowKeys depth members ↔ ∀ line ∈ collectMembers serde members depth,
      line.2.isSome → line.1.utf8ByteSize < 2 ^ 16 := by
  induction plain generalizing depth with
  | nil => exact ⟨nofun, fun _ => .nil⟩
  | @object key nested members _ _ _ _ ihInside ihRest =>
    rcases kept_or_framing depth key with ⟨rfl, rfl⟩ | kept
    · rw [collectMembers_status, ← ihRest]
      constructor
      · intro narrow
        rcases narrow with _ | ⟨_, rest⟩ | ⟨kept, _, _⟩ | ⟨kept, _, _, _⟩
        · exact rest
        · exact (kept rfl rfl).elim
        · exact (kept rfl rfl).elim
      · exact .framing _
    · rw [collectMembers_object kept, List.forall_mem_cons, List.forall_mem_append, ← ihInside,
        ← ihRest]
      constructor
      · intro narrow
        rcases narrow with _ | ⟨_, _⟩ | ⟨_, inside, rest⟩ | ⟨_, single, _, _⟩
        · exact (kept rfl rfl).elim
        · exact ⟨nofun, inside, rest⟩
        · cases single
      · exact fun ⟨_, inside, rest⟩ => .object kept inside rest
  | @value key v members _ _ single _ _ ihRest =>
    rcases kept_or_framing depth key with ⟨rfl, rfl⟩ | kept
    · rw [collectMembers_status, ← ihRest]
      constructor
      · intro narrow
        rcases narrow with _ | ⟨_, rest⟩ | ⟨kept, _, _⟩ | ⟨kept, _, _, _⟩
        · exact rest
        · exact (kept rfl rfl).elim
        · exact (kept rfl rfl).elim
      · exact .framing _
    · rw [collectMembers_value kept single, List.forall_mem_cons, ← ihRest,
        String.utf8ByteSize_append, utf8ByteSize_blanks]
      constructor
      · intro narrow
        rcases narrow with _ | ⟨_, _⟩ | ⟨_, _, _⟩ | ⟨_, _, fits, rest⟩
        · exact (kept rfl rfl).elim
        · cases single
        · exact ⟨fun _ => fits, rest⟩
      · exact fun ⟨fits, rest⟩ => .value kept single (fits rfl) rest

theorem renderMember_eq (width : Nat) (line : String × Option String) :
    renderMember width line =
      if line.2.isSome → width < 2 ^ 16 then some (kvLine width line ++ "\n") else none := by
  obtain ⟨key, _ | text⟩ := line
  · rw [if_pos nofun, renderMember, kvLine, String.append_assoc]
    rfl
  · by_cases fit : width < 2 ^ 16
    · rw [if_pos fun _ => fit, renderMember, padEnd, if_pos fit]
      rfl
    · rw [if_neg fun each => fit (each rfl), renderMember, padEnd, if_neg fit]
      rfl

theorem renderKv_eq (command : String) (shown : collectMembers serde members 0 ≠ []) :
    renderKv serde command (.object members) =
      if keyWidth (collectMembers serde members 0) < 2 ^ 16 then some (trimEnd (String.join
        (((collectMembers serde members 0).map
          (kvLine (keyWidth (collectMembers serde members 0)))).map (· ++ "\n"))))
      else none := by
  have lines : collectKv serde (.object members) 0 = collectMembers serde members 0 := by
    rw [collectKv]
  rw [renderKv, lines, if_neg (by simpa using shown)]
  have fit := keyWidth_lt_iff (collectMembers serde members 0) (Nat.two_pow_pos 16)
  generalize collectMembers serde members 0 = pairs at *
  have out := mapM_guard fun line (_ : line ∈ pairs) => renderMember_eq (keyWidth pairs) line
  change (do let out ← pairs.mapM (renderMember (keyWidth pairs)); return trimEnd (String.join out)) = _
  rw [out, List.map_map]
  by_cases narrow : keyWidth pairs < 2 ^ 16
  · rw [if_pos narrow, if_pos fun _ _ _ => narrow]
    rfl
  · rw [if_neg narrow, if_neg fun each => narrow (fit.mpr fun line member valued =>
      absurd (each line member valued) narrow)]
    rfl

/-- The view of an object is the listing of its members, with the end of the last line
trimmed, exactly if the formatter takes the lengths of their keys; without a member to show
it says that the command went well. -/
theorem renderKv_lossless_iff (command : String) (plain : Plain serde members) :
    (((∃ member ∈ members, member.1 ≠ "status") → ∃ text column front last,
        renderKv serde command (.object members) = some text ∧
        Listed serde column 0 members (front ++ [last]) ∧ lines text = front ++ [trimEnd last]) ∧
      ((∀ member ∈ members, member.1 = "status") →
        renderKv serde command (.object members) = some (command ++ ": ok"))) ↔
      NarrowKeys 0 members := by
  have narrow : NarrowKeys 0 members ↔ keyWidth (collectMembers serde members 0) < 2 ^ 16 :=
    (narrowKeys_iff plain 0).trans (keyWidth_lt_iff _ (Nat.two_pow_pos 16)).symm
  have some_iff : collectMembers serde members 0 ≠ [] ↔ ∃ member ∈ members, member.1 ≠ "status" := by
    rw [ne_eq, collectMembers_eq_nil]
    push Not
    rfl
  rw [narrow]
  constructor
  · rintro ⟨listed, -⟩
    by_cases shown : collectMembers serde members 0 = []
    · rw [shown]
      decide
    · obtain ⟨text, -, -, -, printed, -⟩ := listed (some_iff.mp shown)
      rw [renderKv_eq command shown] at printed
      by_contra wide
      rw [if_neg wide] at printed
      cases printed
  · intro fit
    constructor
    · intro kept
      have shown := some_iff.mpr kept
      have listed := listed_collectMembers plain 0 (fits_keyWidth (collectMembers serde members 0))
      have each := kvLine_plain plain 0 (keyWidth (collectMembers serde members 0))
      rw [renderKv_eq command shown, if_pos fit]
      generalize keyWidth (collectMembers serde members 0) = width at *
      rcases List.eq_nil_or_concat (collectMembers serde members 0) with empty | ⟨front, last, whole⟩
      · exact (shown empty).elim
      · rw [List.concat_eq_append] at whole
        rw [whole, List.map_append, List.map_singleton] at listed ⊢
        rw [whole, List.forall_mem_append, List.forall_mem_singleton] at each
        refine ⟨_, _, _, _, rfl, listed, ?_⟩
        rw [trimEnd_join _ each.2.1, lines_intercalate (by simp)]
        rw [List.forall_mem_append, List.forall_mem_singleton, List.forall_mem_map]
        exact ⟨fun line member => (each.1 line member).2, oneLine_trimEnd each.2.2⟩
    · intro framing
      have empty : collectMembers serde members 0 = [] := (collectMembers_eq_nil members).mpr framing
      have lines : collectKv serde (.object members) 0 = [] := by rw [collectKv, empty]
      rw [renderKv, lines]
      rfl

/-- A `status` below the top is kept, and an empty value is trimmed with its line. -/
theorem renderKv_lossless_nested : ∃ text column front last,
    renderKv (.of .null "null") "status" (.object
      [("status", .string "ok"), ("tor", .object [("status", .bool true)]), ("é", .string "")]) =
      some text ∧
    Listed (.of .null "null") column 0
      [("status", .string "ok"), ("tor", .object [("status", .bool true)]), ("é", .string "")]
      (front ++ [last]) ∧ lines text = front ++ [trimEnd last] := by
  have inked {key : String} (c : Char) (member : c ∈ key.toList) (ink : isWhitespace c = false) :
      Inked key := ⟨c, member, ink⟩
  have inside : Plain (.of .null "null") [("status", .bool true)] :=
    .value (inked 's' (by decide) (by decide)) (by decide) rfl (by decide) .nil
  have plain : Plain (.of .null "null")
      [("status", .string "ok"), ("tor", .object [("status", .bool true)]), ("é", .string "")] :=
    .value (inked 's' (by decide) (by decide)) (by decide) rfl (by decide)
      (.object (inked 't' (by decide) (by decide)) (by decide) inside
        (.value (inked 'é' (by decide) (by decide)) (by decide) rfl (by decide) .nil))
  have narrow : NarrowKeys 0
      [("status", .string "ok"), ("tor", .object [("status", .bool true)]), ("é", .string "")] :=
    .framing _ (.object (by simp) (.value (by simp) rfl (by decide) .nil)
      (.value (by simp) rfl (by decide) .nil))
  exact ((renderKv_lossless_iff "status" plain).mpr narrow).1 ⟨_, .tail _ (.head _), by decide⟩

/-- A key of 65536 letters, and there is no view. -/
theorem renderKv_lossy : ∃ key : String, key.toList = List.replicate 65536 'a' ∧
    Plain (.of .null "null") [("status", .string "ok"), (key, .bool true)] ∧
    renderKv (.of .null "null") "status" (.object [("status", .string "ok"), (key, .bool true)]) = none ∧
    ¬ ∃ text column front last,
      renderKv (.of .null "null") "status" (.object [("status", .string "ok"), (key, .bool true)]) =
        some text ∧
      Listed (.of .null "null") column 0 [("status", .string "ok"), (key, .bool true)]
        (front ++ [last]) ∧ lines text = front ++ [trimEnd last] := by
  obtain ⟨key, letters⟩ : ∃ key : String, key.toList = List.replicate 65536 'a' :=
    ⟨_, String.toList_ofList⟩
  have inked : Inked key := ⟨'a', by rw [letters, List.mem_replicate]; simp, rfl⟩
  have line : OneLine key := by
    rw [OneLine, letters, List.mem_replicate]
    simp
  have wide : ¬ key.utf8ByteSize < 2 ^ 16 := by
    have least := length_le_utf8ByteSize key
    rw [← String.length_toList, letters, List.length_replicate] at least
    exact Nat.not_lt.mpr least
  have different : key ≠ "status" := by
    rintro rfl
    exact wide (by decide)
  have plain : Plain (.of .null "null") [("status", .string "ok"), (key, .bool true)] :=
    .value ⟨'s', by decide, rfl⟩ (by decide) rfl (by decide) (.value inked line rfl (by decide) .nil)
  have shown : collectMembers (.of .null "null") [("status", .string "ok"), (key, .bool true)] 0 ≠ [] := by
    rw [collectMembers_status, collectMembers_value (fun _ => different) rfl]
    exact List.cons_ne_nil _ _
  have panics : renderKv (.of .null "null") "status"
      (.object [("status", .string "ok"), (key, .bool true)]) = none := by
    rw [renderKv_eq "status" shown, if_neg]
    rw [keyWidth_lt_iff _ (Nat.two_pow_pos 16), ← narrowKeys_iff plain]
    intro narrow
    rcases narrow with _ | ⟨_, rest⟩ | ⟨_, _, _⟩ | ⟨kept, _, _, _⟩
    · rcases rest with _ | _ | _ | ⟨_, _, fits, _⟩
      · exact different rfl
      · exact wide (by simpa using fits)
    · exact kept rfl rfl
  exact ⟨key, letters, plain, panics, by simp [panics]⟩

end Tord
