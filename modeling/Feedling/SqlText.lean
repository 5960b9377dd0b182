import Mathlib.Data.List.Lex
import Mathlib.Data.String.Basic

/-!
# Texts in SQL

`LIKE` with an escape character, positions and substrings, and the order of texts by their bytes. An
escaped text followed by `%` matches exactly the texts that begin with it, and the order of the
bytes in UTF-8 is the order of the characters.
-/

namespace SqlText

/-! ## Patterns -/

/-- Some end of the text passes. -/
def anySuffix (p : List Char → Bool) : List Char → Bool
  | [] => p []
  | c :: text => p (c :: text) || anySuffix p text

/-- `text LIKE pattern ESCAPE '\'`; a pattern that ends in the escape character matches nothing
here. -/
def like : List Char → List Char → Bool
  | [], text => text.isEmpty
  | c :: pattern, text =>
    if c = '%' then anySuffix (like pattern) text
    else if c = '_' then
      match text with
      | [] => false
      | _ :: text => like pattern text
    else if c = '\\' then
      match pattern with
      | [] => false
      | d :: pattern =>
        match text with
        | [] => false
        | e :: text => d == e && like pattern text
    else
      match text with
      | [] => false
      | e :: text => c == e && like pattern text

/-- `text.replace(c, by)` for one character. -/
def replaceChar (c : Char) (new : List Char) (text : List Char) : List Char :=
  text.flatMap fun d => if d = c then new else [d]

/-- `text.replace("\\", "\\\\").replace("%", "\\%").replace("_", "\\_")`. -/
def escapeLike (text : List Char) : List Char :=
  replaceChar '_' ['\\', '_'] (replaceChar '%' ['\\', '%'] (replaceChar '\\' ['\\', '\\'] text))

theorem escapeLike_cons (c : Char) (text : List Char) :
    escapeLike (c :: text) = (if c ∈ ['\\', '%', '_'] then ['\\', c] else [c]) ++
      escapeLike text := by
  by_cases hescape : c = '\\'
  · subst hescape
    rfl
  by_cases hpercent : c = '%'
  · subst hpercent
    rfl
  by_cases hline : c = '_'
  · subst hline
    rfl
  simp [escapeLike, replaceChar, hescape, hpercent, hline]

theorem escapeLike_append (text text' : List Char) :
    escapeLike (text ++ text') = escapeLike text ++ escapeLike text' := by
  simp only [escapeLike, replaceChar, List.flatMap_append]

theorem like_escaped (c : Char) (pattern text : List Char) :
    like ((if c ∈ ['\\', '%', '_'] then ['\\', c] else [c]) ++ pattern) text =
      match text with
      | [] => false
      | e :: text => c == e && like pattern text := by
  split_ifs with hspecial
  · cases text <;> rfl
  · have hne : c ≠ '\\' ∧ c ≠ '%' ∧ c ≠ '_' := by simpa using hspecial
    rw [List.singleton_append, like.eq_def]
    dsimp only
    rw [if_neg hne.2.1, if_neg hne.2.2, if_neg hne.1]

theorem like_percent (text : List Char) : like ['%'] text = true := by
  have hany : ∀ text, anySuffix (like []) text = true := by
    intro text
    induction text with
    | nil => rfl
    | cons c text ih => rw [anySuffix, ih, Bool.or_true]
  exact hany text

/-- An escaped text and `%` match the texts that begin with it. -/
theorem like_escapeLike_percent (front text : List Char) :
    like (escapeLike front ++ ['%']) text = true ↔ front <+: text := by
  induction front generalizing text with
  | nil => exact ⟨fun _ => List.nil_prefix, fun _ => like_percent text⟩
  | cons c front ih =>
    rw [escapeLike_cons, List.append_assoc, like_escaped]
    cases text with
    | nil => simp
    | cons e text =>
      dsimp only
      rw [Bool.and_eq_true, beq_iff_eq, ih, List.cons_prefix_cons]

/-! ## Positions -/

/-- `position(c IN text)`, from one; zero if it is not there. -/
def position (c : Char) (text : List Char) : Nat :=
  match text.findIdx? (· == c) with
  | some i => i + 1
  | none => 0

/-- `substring(text FROM start)` for a positive start. -/
def substringFrom (text : List Char) (start : Nat) : List Char := text.drop (start - 1)

theorem position_eq_zero {c : Char} {text : List Char} : position c text = 0 ↔ c ∉ text := by
  unfold position
  cases h : text.findIdx? (· == c) with
  | none =>
    rw [List.findIdx?_eq_none_iff] at h
    refine iff_of_true rfl fun hmem => ?_
    simpa using h c hmem
  | some i =>
    refine iff_of_false (Nat.succ_ne_zero i) fun hnot => ?_
    have hnone : text.findIdx? (· == c) = none := by
      rw [List.findIdx?_eq_none_iff]
      intro d hd
      rw [beq_eq_false_iff_ne]
      rintro rfl
      exact hnot hd
    rw [hnone] at h
    cases h

/-! ## Collation by bytes -/

def bytes (text : List Char) : List UInt8 := text.flatMap String.utf8EncodeChar

theorem bytes_cons (c : Char) (text : List Char) :
    bytes (c :: text) = String.utf8EncodeChar c ++ bytes text := rfl

/-- The codes of two characters differ in a byte that both have. -/
theorem utf8EncodeChar_append_lt {c d : Char} (h : c < d) (l m : List UInt8) :
    String.utf8EncodeChar c ++ l < String.utf8EncodeChar d ++ m := by
  have hlt : c.val.toNat < d.val.toNat := h
  have hmax : d.val.toNat < 0x110000 := by
    have hvalid := d.valid
    unfold UInt32.isValidChar Nat.isValidChar at hvalid
    omega
  -- the digits in base 64, as iterated quotients
  have hsecond : ∀ n, n / 4096 = n / 64 / 64 := fun n => (Nat.div_div_eq_div_mul n 64 64).symm
  have hthird : ∀ n, n / 262144 = n / 64 / 64 / 64 := by
    intro n
    rw [Nat.div_div_eq_div_mul, Nat.div_div_eq_div_mul]
  unfold String.utf8EncodeChar
  dsimp only
  split_ifs <;>
    simp only [hsecond, hthird, List.cons_append, List.nil_append, List.cons_lt_cons_iff,
      UInt8.lt_iff_toNat_lt, ← UInt8.toNat_inj, UInt8.toNat_ofNat'] <;>
    omega

theorem append_lt_append {front l m : List UInt8} (h : l < m) : front ++ l < front ++ m := by
  induction front with
  | nil => exact h
  | cons b front ih => exact List.cons_lt_cons_iff.mpr (Or.inr ⟨rfl, ih⟩)

theorem bytes_lt_of_lt {a b : List Char} (h : a < b) : bytes a < bytes b := by
  induction a generalizing b with
  | nil =>
    cases b with
    | nil => exact absurd h (List.lt_irrefl _)
    | cons d b =>
      rw [bytes_cons]
      cases hd : String.utf8EncodeChar d with
      | nil => exact absurd hd String.utf8EncodeChar_ne_nil
      | cons x l => exact List.nil_lt_cons _ _
  | cons c a ih =>
    cases b with
    | nil => exact absurd h (List.not_lt_nil _)
    | cons d b =>
      rw [bytes_cons, bytes_cons]
      obtain hlt | ⟨rfl, hlt⟩ := List.cons_lt_cons_iff.mp h
      · exact utf8EncodeChar_append_lt hlt _ _
      · exact append_lt_append (ih hlt)

theorem bytes_lt_iff {a b : List Char} : bytes a < bytes b ↔ a < b := by
  refine ⟨fun h => ?_, bytes_lt_of_lt⟩
  obtain hlt | rfl | hgt := lt_trichotomy a b
  · exact hlt
  · exact absurd h (List.lt_irrefl _)
  · exact absurd (bytes_lt_of_lt hgt) (List.lt_asymm h)

end SqlText
