import Delegation.Symbol
import Mathlib.Tactic.ByContra

/-!
# Grammars

What names look like, said of their characters. The validators scan the UTF-8 bytes of a name, and
the scan is exact because UTF-8 keeps the two ranges apart: an ASCII character is one byte of its
own code, and every byte of any other character is at least 128, which neither grammar admits
anywhere. So a byte that is admitted is a character that is admitted, and the at sign that opens a
hook is one character cut off the front.

An identifier opens with a letter or an underscore, a hook with an at sign or with the first
character of an operator, and so no name is both.
-/

namespace Delegation

/-- One ASCII letter or underscore, then any number of ASCII letters, digits and underscores. -/
def Identifier (name : String) : Prop :=
  ∃ first rest, name.toList = first :: rest ∧ (first.isAlpha ∨ first = '_') ∧
    ∀ c ∈ rest, c.isAlphanum ∨ c = '_'

/-- An identifier behind an at sign, or an operator. -/
inductive Hook : String → Prop where
  | named {name : String} (identifier : Identifier name) : Hook ("@" ++ name)
  | operator {name : String}
      (token : name ∈ ["+", "-", "*", "/", "%", "==", "!=", "<", "<=", ">", ">=", "!", "()", "[]",
        "[]="]) : Hook name

/-! ### The bytes of a character -/

theorem utf8EncodeChar_of_ascii {c : Char} (ascii : c.toNat < 128) :
    String.utf8EncodeChar c = [UInt8.ofNat c.toNat] :=
  if_pos (Nat.le_of_lt_succ ascii)

theorem toNat_byte_of_ascii {c : Char} (ascii : c.toNat < 128) :
    (UInt8.ofNat c.toNat).toNat = c.toNat :=
  UInt8.toNat_ofNat_of_lt (Nat.lt_trans ascii (by decide))

theorem le_of_mem_utf8EncodeChar {c : Char} (beyond : 128 ≤ c.toNat) :
    ∀ b ∈ String.utf8EncodeChar c, 128 ≤ b := by
  have same : c.toNat = c.val.toNat := rfl
  -- One case for each number of bytes: all of several carry a mark in the topmost bit.
  fun_cases String.utf8EncodeChar c with
  | case1 => omega
  | case2 | case3 | case4 => simp [UInt8.le_iff_toNat_le]; omega

theorem exists_utf8EncodeChar_of_le {c : Char} (beyond : 128 ≤ c.toNat) :
    ∃ b bs, String.utf8EncodeChar c = b :: bs ∧ 128 ≤ b := by
  have filled : String.utf8EncodeChar c ≠ [] := by
    intro empty
    have := String.length_utf8EncodeChar c
    have := Char.utf8Size_pos c
    simp_all
  obtain ⟨b, bs, encoded⟩ := List.exists_cons_of_ne_nil filled
  exact ⟨b, bs, encoded, le_of_mem_utf8EncodeChar beyond b (encoded ▸ List.mem_cons_self)⟩

theorem nameBytes_eq_flatMap (name : String) :
    nameBytes name = name.toList.flatMap String.utf8EncodeChar := by
  have encoded : name.toList.utf8Encode = name.toByteArray := String.utf8Encode_toList
  simp [nameBytes, ← encoded, List.utf8Encode]

/-! ### The bytes that identifiers admit -/

theorem isAlpha_iff (c : Char) : c.isAlpha = true ↔
    65 ≤ c.toNat ∧ c.toNat ≤ 90 ∨ 97 ≤ c.toNat ∧ c.toNat ≤ 122 := by
  have ranges : c.isAlpha =
      (decide (65 ≤ c.val ∧ c.val ≤ 90) || decide (97 ≤ c.val) && decide (c.val ≤ 122)) := rfl
  simp only [ranges, Bool.or_eq_true, Bool.and_eq_true, decide_eq_true_eq, UInt32.le_iff_toNat_le]
  rfl

theorem isAlphanum_iff (c : Char) : c.isAlphanum = true ↔
    c.isAlpha = true ∨ 48 ≤ c.toNat ∧ c.toNat ≤ 57 := by
  have ranges : c.isAlphanum =
      (c.isAlpha || decide (48 ≤ c.val) && decide (c.val ≤ 57)) := rfl
  simp only [ranges, Bool.or_eq_true, Bool.and_eq_true, decide_eq_true_eq, UInt32.le_iff_toNat_le]
  rfl

theorem eq_underscore_iff (c : Char) : c = '_' ↔ c.toNat = 95 := by
  rw [Char.ext_iff, ← UInt32.toNat_inj]
  rfl

theorem lt_of_continuesIdentifier {b : UInt8} (continues : continuesIdentifier b = true) :
    b < 128 := by
  simp only [continuesIdentifier, opensIdentifier, Bool.or_eq_true, Bool.and_eq_true,
    decide_eq_true_eq, beq_iff_eq, UInt8.le_iff_toNat_le, UInt8.lt_iff_toNat_lt,
    ← UInt8.toNat_inj, UInt8.reduceToNat] at *
  omega

theorem lt_of_opensIdentifier {b : UInt8} (opens : opensIdentifier b = true) : b < 128 :=
  lt_of_continuesIdentifier (by simp [continuesIdentifier, opens])

theorem opensIdentifier_of_ascii {c : Char} (ascii : c.toNat < 128) :
    opensIdentifier (UInt8.ofNat c.toNat) = true ↔ c.isAlpha = true ∨ c = '_' := by
  simp only [opensIdentifier, Bool.or_eq_true, Bool.and_eq_true, decide_eq_true_eq, beq_iff_eq,
    UInt8.le_iff_toNat_le, ← UInt8.toNat_inj, toNat_byte_of_ascii ascii, isAlpha_iff,
    eq_underscore_iff]
  rfl

theorem continuesIdentifier_of_ascii {c : Char} (ascii : c.toNat < 128) :
    continuesIdentifier (UInt8.ofNat c.toNat) = true ↔ c.isAlphanum = true ∨ c = '_' := by
  rw [continuesIdentifier, Bool.or_eq_true, opensIdentifier_of_ascii ascii, isAlphanum_iff,
    Bool.and_eq_true, decide_eq_true_eq, decide_eq_true_eq, UInt8.le_iff_toNat_le,
    UInt8.le_iff_toNat_le, toNat_byte_of_ascii ascii]
  exact or_right_comm

theorem ascii_of_continues {c : Char} (continues : c.isAlphanum = true ∨ c = '_') :
    c.toNat < 128 := by
  rw [isAlphanum_iff, isAlpha_iff, eq_underscore_iff] at continues
  omega

theorem continues_of_opens {c : Char} (opens : c.isAlpha = true ∨ c = '_') :
    c.isAlphanum = true ∨ c = '_' :=
  opens.imp_left fun alphabetic => (isAlphanum_iff c).mpr (.inl alphabetic)

theorem continuesIdentifier_utf8EncodeChar (c : Char) :
    (∀ b ∈ String.utf8EncodeChar c, continuesIdentifier b = true) ↔
      c.isAlphanum = true ∨ c = '_' := by
  by_cases ascii : c.toNat < 128
  · simp [utf8EncodeChar_of_ascii ascii, continuesIdentifier_of_ascii ascii]
  · obtain ⟨b, bs, encoded, high⟩ := exists_utf8EncodeChar_of_le (Nat.le_of_not_lt ascii)
    refine iff_of_false (fun admitted => ?_) fun continues => ascii (ascii_of_continues continues)
    have low := lt_of_continuesIdentifier (admitted b (encoded ▸ List.mem_cons_self))
    exact absurd high (UInt8.not_le.mpr low)

/-! ### The two grammars -/

theorem spellsIdentifier_utf8EncodeChar (c : Char) (cs : List Char) :
    spellsIdentifier ((c :: cs).flatMap String.utf8EncodeChar) = true ↔
      (c.isAlpha = true ∨ c = '_') ∧ ∀ d ∈ cs, d.isAlphanum = true ∨ d = '_' := by
  have continues : (cs.flatMap String.utf8EncodeChar).all continuesIdentifier = true ↔
      ∀ d ∈ cs, d.isAlphanum = true ∨ d = '_' := by
    simp only [List.all_flatMap, List.all_eq_true, continuesIdentifier_utf8EncodeChar]
  by_cases ascii : c.toNat < 128
  · rw [List.flatMap_cons, utf8EncodeChar_of_ascii ascii, List.singleton_append, spellsIdentifier,
      Bool.and_eq_true, opensIdentifier_of_ascii ascii, continues]
  · obtain ⟨b, bs, encoded, high⟩ := exists_utf8EncodeChar_of_le (Nat.le_of_not_lt ascii)
    refine iff_of_false (fun spelled => ?_) fun identifier =>
      ascii (ascii_of_continues (continues_of_opens identifier.1))
    have opens : opensIdentifier b = true := by
      rw [List.flatMap_cons, encoded] at spelled
      exact (Bool.and_eq_true_iff.mp spelled).1
    exact absurd high (UInt8.not_le.mpr (lt_of_opensIdentifier opens))

theorem isIdentifier_iff (name : String) : isIdentifier name = true ↔ Identifier name := by
  rw [isIdentifier, nameBytes_eq_flatMap, Identifier]
  cases characters : name.toList with
  | nil => simp [spellsIdentifier]
  | cons first rest =>
    rw [spellsIdentifier_utf8EncodeChar]
    constructor
    · exact fun identifier => ⟨first, rest, rfl, identifier⟩
    · rintro ⟨_, _, same, identifier⟩
      obtain ⟨rfl, rfl⟩ := List.cons.inj same
      exact identifier

/-- The byte of the at sign is the at sign, wherever a character may begin. -/
theorem exists_append_of_nameBytes {name : String} {bytes : List UInt8}
    (spelled : nameBytes name = 64 :: bytes) :
    ∃ rest, name = "@" ++ rest ∧ nameBytes rest = bytes := by
  rw [nameBytes_eq_flatMap] at spelled
  cases characters : name.toList with
  | nil => simp [characters] at spelled
  | cons c cs =>
    rw [characters, List.flatMap_cons] at spelled
    have ascii : c.toNat < 128 := by
      by_contra beyond
      obtain ⟨b, bs, encoded, high⟩ := exists_utf8EncodeChar_of_le (Nat.le_of_not_lt beyond)
      obtain ⟨rfl, -⟩ := List.cons.inj (encoded ▸ spelled)
      exact absurd high (by decide)
    rw [utf8EncodeChar_of_ascii ascii] at spelled
    obtain ⟨sign, rest⟩ := List.cons.inj spelled
    have at_sign : c = '@' := by
      have code : c.toNat = 64 :=
        (toNat_byte_of_ascii ascii).symm.trans (congrArg UInt8.toNat sign)
      exact Char.ext (UInt32.toNat_inj.mp code)
    refine ⟨String.ofList cs, ?_, ?_⟩
    · apply String.toList_inj.mp
      simp [characters, at_sign]
    · rw [nameBytes_eq_flatMap, String.toList_ofList]
      exact rest

theorem nameBytes_append_at (name : String) : nameBytes ("@" ++ name) = 64 :: nameBytes name := by
  rw [nameBytes_eq_flatMap, nameBytes_eq_flatMap, String.toList_append, List.flatMap_append]
  rfl

theorem head?_nameBytes_of_operator {name : String} (token : name ∈ operatorHooks) :
    (nameBytes name).head? ≠ some 64 :=
  (by decide : ∀ token ∈ operatorHooks, (nameBytes token).head? ≠ some 64) name token

theorem isHook_iff (name : String) : isHook name = true ↔ Hook name := by
  unfold isHook
  split
  case h_1 named spelled =>
    constructor
    · intro identifier
      obtain ⟨rest, rfl, rfl⟩ := exists_append_of_nameBytes spelled
      exact .named ((isIdentifier_iff rest).mp identifier)
    · rintro (⟨identifier⟩ | token)
      · rename_i rest
        rw [nameBytes_append_at] at spelled
        obtain rfl := (List.cons.inj spelled).2
        exact (isIdentifier_iff rest).mpr identifier
      · exact absurd (by rw [spelled]; rfl) (head?_nameBytes_of_operator token)
  case h_2 unmarked =>
    constructor
    · exact fun token => .operator (List.contains_iff_mem.mp token)
    · rintro (⟨-⟩ | token)
      · exact absurd (nameBytes_append_at _) (unmarked _)
      · exact List.contains_iff_mem.mpr token

theorem Identifier.ascii {name : String} (identifier : Identifier name) :
    ∀ c ∈ name.toList, c.toNat < 128 := by
  obtain ⟨first, rest, characters, opens, continues⟩ := identifier
  rw [characters]
  intro c mem
  rcases List.mem_cons.mp mem with rfl | later
  · exact ascii_of_continues (continues_of_opens opens)
  · exact ascii_of_continues (continues c later)

theorem Hook.ascii {name : String} (hook : Hook name) : ∀ c ∈ name.toList, c.toNat < 128 := by
  cases hook with
  | @named rest identifier =>
    intro c mem
    rcases List.mem_append.mp (String.toList_append ▸ mem) with sign | later
    · obtain rfl : c = '@' := List.mem_singleton.mp sign
      decide
    · exact identifier.ascii c later
  | operator token =>
    have ascii : (operatorHooks.all fun token => token.toList.all (·.toNat < 128)) = true := by
      decide
    simp only [List.all_eq_true, decide_eq_true_eq] at ascii
    exact ascii name token

/-- A hook opens with a character that opens no identifier. -/
theorem Hook.not_identifier {name : String} (hook : Hook name) : ¬Identifier name := by
  rintro ⟨first, rest, characters, opens, -⟩
  cases hook with
  | @named named identifier =>
    rw [String.toList_append] at characters
    obtain ⟨rfl, -⟩ := List.cons.inj characters
    revert opens
    decide
  | operator token =>
    have closed : (operatorHooks.all fun token =>
        token.toList.head?.all fun c => !(c.isAlpha || c == '_')) = true := by decide
    have opensNone := List.all_eq_true.mp closed name token
    simp only [characters, List.head?_cons, Option.all_some, Bool.not_eq_true',
      Bool.or_eq_false_iff, beq_eq_false_iff_ne] at opensNone
    rcases opens with letter | underscore
    · exact absurd letter (by simp [opensNone.1])
    · exact opensNone.2 underscore

/-- No name is accepted both as an identifier and as a hook. -/
theorem not_isHook_of_isIdentifier {name : String} (identifier : isIdentifier name = true) :
    ¬isHook name = true :=
  fun hook => ((isHook_iff name).mp hook).not_identifier ((isIdentifier_iff name).mp identifier)

namespace Policy

/-- What the names of a table look like. -/
def Describes : Policy → String → Prop
  | .identifier, name => Identifier name
  | .hook, name => Hook name

theorem accepts_iff (policy : Policy) (name : String) :
    policy.accepts name = true ↔ policy.Describes name := by
  cases policy with
  | identifier => exact isIdentifier_iff name
  | hook => exact isHook_iff name

theorem Describes.ascii {policy : Policy} {name : String} (described : policy.Describes name) :
    ∀ c ∈ name.toList, c.toNat < 128 := by
  cases policy with
  | identifier => exact Identifier.ascii described
  | hook => exact Hook.ascii described

/-- The validators accept the two grammars and nothing else: no name belongs to both, and none
holds a character beyond ASCII. -/
theorem exact_grammars (name : String) :
    (isIdentifier name = true ↔ Identifier name) ∧
    (isHook name = true ↔ Hook name) ∧
    ¬(accepts .identifier name = true ∧ accepts .hook name = true) ∧
    (∀ policy : Policy, policy.accepts name = true → ∀ c ∈ name.toList, c.toNat < 128) := by
  refine ⟨isIdentifier_iff name, isHook_iff name, ?_, fun policy accepted => ?_⟩
  · exact fun both => not_isHook_of_isIdentifier both.1 both.2
  · exact ((accepts_iff policy name).mp accepted).ascii

/-- A character of several bytes spells nothing, nor does an at sign by itself or before another. -/
example : (["é", "aé", "@é", "@", "@@x", "@x", "_1", ""].filter isHook,
    ["é", "aé", "@é", "@", "@@x", "@x", "_1", ""].filter isIdentifier) = (["@x"], ["_1"]) := by
  decide

end Policy

end Delegation
