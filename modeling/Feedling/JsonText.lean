import Mathlib.Data.List.Basic

/-!
# JSON text in ASCII

Strings are written with every character outside the printable ASCII range escaped, those above the
basic plane as two surrogates, and read back. Objects are read as far as their values are scalars.
-/

namespace JsonText

/-! ## UTF-16 units -/

def units (c : Char) : List Nat :=
  if c.toNat < 0x10000 then [c.toNat] else [0xD800 + (c.toNat - 0x10000) / 0x400,
    0xDC00 + (c.toNat - 0x10000) % 0x400]

def IsHigh (u : Nat) : Prop := 0xD800 ≤ u ∧ u < 0xDC00

def IsLow (u : Nat) : Prop := 0xDC00 ≤ u ∧ u < 0xE000

instance (u : Nat) : Decidable (IsHigh u) := inferInstanceAs (Decidable (_ ∧ _))

instance (u : Nat) : Decidable (IsLow u) := inferInstanceAs (Decidable (_ ∧ _))

/-- A surrogate without its other half is no character. -/
def ofUnits : List Nat → Option (List Char)
  | [] => some []
  | [u] => if u.isValidChar then some [Char.ofNat u] else none
  | u :: v :: rest =>
    if IsHigh u ∧ IsLow v then
      (ofUnits rest).map (Char.ofNat (0x10000 + (u - 0xD800) * 0x400 + (v - 0xDC00)) :: ·)
    else if u.isValidChar then (ofUnits (v :: rest)).map (Char.ofNat u :: ·)
    else none

variable {u : Nat} (rest : List Char) (c : Char) (text : List Char)

theorem toNat_ofNat (h : u.isValidChar) : (Char.ofNat u).toNat = u := by
  rw [Char.ofNat, dif_pos h]
  rfl

theorem ofUnits_append (us : List Nat) : ofUnits (units c ++ us) = (ofUnits us).map (c :: ·) := by
  have hvalid : c.toNat < 0xD800 ∨ (0xDFFF < c.toNat ∧ c.toNat < 0x110000) := c.valid
  unfold units
  split_ifs with hbasic
  · have hsingle : ¬IsHigh c.toNat := by
      unfold IsHigh
      omega
    have hchar : c.toNat.isValidChar := hvalid
    cases us with
    | nil => simp [ofUnits, hchar]
    | cons u us => simp [ofUnits, hsingle, hchar]
  · have hhigh : IsHigh (0xD800 + (c.toNat - 0x10000) / 0x400) := by
      unfold IsHigh
      omega
    have hlow : IsLow (0xDC00 + (c.toNat - 0x10000) % 0x400) := by
      unfold IsLow
      omega
    have hjoin : 0x10000 + (0xD800 + (c.toNat - 0x10000) / 0x400 - 0xD800) * 0x400 +
      (0xDC00 + (c.toNat - 0x10000) % 0x400 - 0xDC00) =
        c.toNat := by omega
    rw [List.cons_append, List.cons_append, List.nil_append, ofUnits, if_pos ⟨hhigh, hlow⟩, hjoin,
      Char.ofNat_toNat]

theorem ofUnits_flatMap (cs : List Char) : ofUnits (cs.flatMap units) = some cs := by
  induction cs with
  | nil => rfl
  | cons c cs ih => rw [List.flatMap_cons, ofUnits_append, ih, Option.map_some]

/-! ## Strings -/

def hexChar (d : Nat) : Char := "0123456789abcdef".toList.getD d '0'

def hexDigit (c : Char) : Option Nat :=
  ("0123456789abcdef".toList.idxOf? c).or ("0123456789ABCDEF".toList.idxOf? c)

def hex4 (u : Nat) : List Char :=
  [hexChar (u / 4096 % 16), hexChar (u / 256 % 16), hexChar (u / 16 % 16), hexChar (u % 16)]

/-- The character after the backslash of a short escape, and its unit. -/
def shortEscapes : List (Char × Nat) :=
  [('"', 34), ('\\', 92), ('n', 10), ('r', 13), ('t', 9), ('b', 8), ('f', 12), ('/', 47)]

def unitText (u : Nat) : List Char :=
  if u = 34 then ['\\', '"']
  else if u = 92 then ['\\', '\\']
  else if u = 10 then ['\\', 'n']
  else if u = 13 then ['\\', 'r']
  else if u = 9 then ['\\', 't']
  else if u = 8 then ['\\', 'b']
  else if u = 12 then ['\\', 'f']
  else if 32 ≤ u ∧ u ≤ 126 then [Char.ofNat u]
  else '\\' :: 'u' :: hex4 u

def quote (text : List Char) : List Char := '"' :: (text.flatMap units).flatMap unitText ++ ['"']

def readHex (a b c d : Char) : Option Nat := do
  let a ← hexDigit a
  let b ← hexDigit b
  let c ← hexDigit c
  let d ← hexDigit d
  some (a * 4096 + b * 256 + c * 16 + d)

/-- The units up to the closing quote, and the text behind it. -/
def readUnits : List Char → Option (List Nat × List Char)
  | [] => none
  | c :: rest =>
    if c = '"' then some ([], rest)
    else if c = '\\' then
      match rest with
      | [] => none
      | e :: rest =>
        if e = 'u' then
          match rest with
          | h₁ :: h₂ :: h₃ :: h₄ :: rest =>
            (readHex h₁ h₂ h₃ h₄).bind fun u => (readUnits rest).map fun r => (u :: r.1, r.2)
          | _ => none
        else (shortEscapes.lookup e).bind fun u => (readUnits rest).map fun r => (u :: r.1, r.2)
    else if c.toNat < 32 then none
    else (readUnits rest).map fun r => (units c ++ r.1, r.2)

def readString : List Char → Option (List Char × List Char)
  | [] => none
  | c :: rest =>
    if c = '"' then (readUnits rest).bind fun r => (ofUnits r.1).map fun text => (text, r.2)
      else none

theorem readUnits_quote : readUnits ('"' :: rest) = some ([], rest) := by
  unfold readUnits
  exact if_pos rfl

theorem readUnits_short {e : Char} (he : e ≠ 'u') (hlookup : shortEscapes.lookup e = some u)
    (rest : List Char) :
    readUnits ('\\' :: e :: rest) = (readUnits rest).map fun r => (u :: r.1, r.2) := by
  conv_lhs => unfold readUnits
  simp [he, hlookup]

theorem readUnits_hex (h₁ h₂ h₃ h₄ : Char) (rest : List Char) :
    readUnits ('\\' :: 'u' :: h₁ :: h₂ :: h₃ :: h₄ :: rest) =
      (readHex h₁ h₂ h₃ h₄).bind fun u => (readUnits rest).map fun r => (u :: r.1, r.2) := by
  conv_lhs => unfold readUnits
  simp

theorem readUnits_plain {c : Char} (hquote : c ≠ '"') (hslash : c ≠ '\\') (hcontrol : 32 ≤ c.toNat)
    (rest : List Char) :
    readUnits (c :: rest) = (readUnits rest).map fun r => (units c ++ r.1, r.2) := by
  conv_lhs => unfold readUnits
  rw [if_neg hquote, if_neg hslash, if_neg (Nat.not_lt.mpr hcontrol)]

theorem hexDigit_hexChar : ∀ d < 16, hexDigit (hexChar d) = some d := by decide +kernel

theorem readHex_hex4 (h : u < 0x10000) :
    readHex (hexChar (u / 4096 % 16)) (hexChar (u / 256 % 16)) (hexChar (u / 16 % 16))
      (hexChar (u % 16)) = some u := by
  have hdigit : ∀ n : Nat, hexDigit (hexChar (n % 16)) = some (n % 16) :=
    fun n => hexDigit_hexChar _ (Nat.mod_lt _ (by decide))
  have hsum : u / 4096 % 16 * 4096 + u / 256 % 16 * 256 + u / 16 % 16 * 16 + u % 16 = u := by omega
  simp only [readHex, hdigit, Option.bind_eq_bind, Option.bind_some, hsum]

theorem readUnits_unitText (h : u < 0x10000) (rest : List Char) :
    readUnits (unitText u ++ rest) = (readUnits rest).map fun r => (u :: r.1, r.2) := by
  unfold unitText
  split_ifs with h34 h92 h10 h13 h9 h8 h12 hprintable
  · rw [h34]
    exact readUnits_short (by decide) (by decide) rest
  · rw [h92]
    exact readUnits_short (by decide) (by decide) rest
  · rw [h10]
    exact readUnits_short (by decide) (by decide) rest
  · rw [h13]
    exact readUnits_short (by decide) (by decide) rest
  · rw [h9]
    exact readUnits_short (by decide) (by decide) rest
  · rw [h8]
    exact readUnits_short (by decide) (by decide) rest
  · rw [h12]
    exact readUnits_short (by decide) (by decide) rest
  · -- a printable character stands for itself
    have hchar : (Char.ofNat u).toNat = u := toNat_ofNat (Or.inl (by omega))
    have hquote : Char.ofNat u ≠ '"' := fun heq => h34 (by rw [← hchar, heq]; rfl)
    have hslash : Char.ofNat u ≠ '\\' := fun heq => h92 (by rw [← hchar, heq]; rfl)
    rw [List.singleton_append, readUnits_plain hquote hslash (by omega), units, hchar, if_pos h]
    rfl
  · rw [List.cons_append, List.cons_append]
    dsimp only [hex4, List.cons_append, List.nil_append]
    rw [readUnits_hex, readHex_hex4 h, Option.bind_some]

theorem units_lt : ∀ u ∈ units c, u < 0x10000 := by
  have hvalid : c.toNat < 0xD800 ∨ (0xDFFF < c.toNat ∧ c.toNat < 0x110000) := c.valid
  intro u hu
  unfold units at hu
  split_ifs at hu with hbasic
  · rw [List.mem_singleton.mp hu]
    exact hbasic
  · simp only [List.mem_cons, List.not_mem_nil, or_false] at hu
    omega

theorem readUnits_text {us : List Nat} (h : ∀ u ∈ us, u < 0x10000) (rest : List Char) :
    readUnits (us.flatMap unitText ++ '"' :: rest) = some (us, rest) := by
  induction us with
  | nil =>
    rw [List.flatMap_nil, List.nil_append, readUnits_quote]
  | cons u us ih =>
    rw [List.flatMap_cons, List.append_assoc, readUnits_unitText (h u List.mem_cons_self),
      ih fun v hv => h v (List.mem_cons_of_mem u hv), Option.map_some]

theorem readString_quote (text rest : List Char) :
    readString (quote text ++ rest) = some (text, rest) := by
  have hunits : ∀ u ∈ text.flatMap units, u < 0x10000 := by
    intro u hu
    obtain ⟨c, -, hc⟩ := List.mem_flatMap.mp hu
    exact units_lt c u hc
  rw [quote, List.cons_append, List.cons_append, readString, if_pos rfl, List.append_assoc,
    List.singleton_append, readUnits_text hunits, Option.bind_some, ofUnits_flatMap,
      Option.map_some]

theorem unitText_ascii (u : Nat) : ∀ c ∈ unitText u, c.toNat < 128 := by
  have hhex : ∀ d < 16, (hexChar d).toNat < 128 := by decide +kernel
  have hhex : ∀ n : Nat, (hexChar (n % 16)).toNat < 128 :=
    fun n => hhex _ (Nat.mod_lt _ (by decide))
  unfold unitText
  split_ifs with h34 h92 h10 h13 h9 h8 h12 hprintable
  · simp
  · simp
  · simp
  · simp
  · simp
  · simp
  · simp
  · intro c hc
    rw [List.mem_singleton.mp hc, toNat_ofNat (Or.inl (by omega))]
    omega
  · intro c hc
    simp only [hex4, List.mem_cons, List.not_mem_nil, or_false] at hc
    obtain rfl | rfl | rfl | rfl | rfl | rfl := hc
    · decide
    · decide
    · exact hhex _
    · exact hhex _
    · exact hhex _
    · exact hhex _

theorem quote_ascii : ∀ c ∈ quote text, c.toNat < 128 := by
  intro c hc
  rw [quote, List.mem_append, List.mem_cons, List.mem_singleton] at hc
  obtain (rfl | hc) | rfl := hc
  · decide
  · obtain ⟨u, -, hu⟩ := List.mem_flatMap.mp hc
    exact unitText_ascii u c hu
  · decide

theorem length_le_flatMap {α β : Type} {f : α → List β} (h : ∀ a, 0 < (f a).length) (l : List α) :
    l.length ≤ (l.flatMap f).length := by
  induction l with
  | nil => exact Nat.le_refl _
  | cons a l ih =>
    have ha := h a
    rw [List.flatMap_cons, List.length_append, List.length_cons]
    omega

theorem length_le_quote : text.length ≤ (quote text).length := by
  have hunits : ∀ c, 0 < (units c).length := by
    intro c
    unfold units
    split_ifs <;> exact Nat.succ_pos _
  have htext : ∀ u, 0 < (unitText u).length := by
    intro u
    unfold unitText
    split_ifs <;> exact Nat.succ_pos _
  have hfirst := length_le_flatMap hunits text
  have hsecond := length_le_flatMap htext (text.flatMap units)
  rw [quote, List.length_append, List.length_cons]
  omega

/-! ## Objects -/

inductive Scalar where
  | null
  | bool (b : Bool)
  | int (n : Int)
  | str (text : List Char)
  deriving DecidableEq, Repr

def nullText : List Char := ['n', 'u', 'l', 'l']

def boolText : Bool → List Char
  | true => ['t', 'r', 'u', 'e']
  | false => ['f', 'a', 'l', 's', 'e']

def natOfDigits (digits : List Char) : Nat := digits.foldl (fun n c => n * 10 + (c.toNat - 48)) 0

def readNumber (text : List Char) : Option (Int × List Char) :=
  let digits := text.takeWhile Char.isDigit
  if digits.isEmpty then none else some (natOfDigits digits, text.dropWhile Char.isDigit)

def readInt (text : List Char) : Option (Int × List Char) :=
  match text.dropPrefix? ['-'] with
  | some rest => (readNumber rest).map fun r => (-r.1, r.2)
  | none => readNumber text

def readScalar (text : List Char) : Option (Scalar × List Char) :=
  match text.dropPrefix? nullText with
  | some rest => some (.null, rest)
  | none =>
    match text.dropPrefix? (boolText true) with
    | some rest => some (.bool true, rest)
    | none =>
      match text.dropPrefix? (boolText false) with
      | some rest => some (.bool false, rest)
      | none =>
        match readString text with
        | some (value, rest) => some (.str value, rest)
        | none => (readInt text).map fun r => (.int r.1, r.2)

/-- The fields of an object up to its closing brace; the first argument bounds their number. -/
def readFields : Nat → List Char → Option (List (List Char × Scalar) × List Char)
  | 0, _ => none
  | n + 1, text =>
    (readString text).bind fun key => (key.2.dropPrefix? [':']).bind fun text =>
      (readScalar text).bind fun value =>
      match value.2 with
      | ',' :: rest => (readFields n rest).map fun r => ((key.1, value.1) :: r.1, r.2)
      | '\x7d' :: rest => some ([(key.1, value.1)], rest)
      | _ => none

/-- An object whose values are scalars. -/
def readObject (text : List Char) : Option (List (List Char × Scalar)) :=
  (text.dropPrefix? ['\x7b']).bind fun text =>
    match readFields text.length text with
    | some (fields, []) => some fields
    | _ => none

variable {value : Scalar}

@[simp] theorem dropPrefix?_append (front : List Char) :
    (front ++ rest).dropPrefix? front = some rest :=
  List.dropPrefix?_eq_some_iff.mpr ⟨front, rfl, beq_self_eq_true front⟩

theorem readScalar_null : readScalar (nullText ++ rest) = some (.null, rest) := by
  rw [readScalar, dropPrefix?_append]

theorem readScalar_bool (b : Bool) (rest : List Char) :
    readScalar (boolText b ++ rest) = some (.bool b, rest) := by
  have hnull : (boolText b ++ rest).dropPrefix? nullText = none := by cases b <;> rfl
  rw [readScalar, hnull]
  cases b with
  | true => rw [dropPrefix?_append]
  | false =>
    have htrue : (boolText false ++ rest).dropPrefix? (boolText true) = none := rfl
    rw [htrue, dropPrefix?_append]

theorem readScalar_quote (text rest : List Char) :
    readScalar (quote text ++ rest) = some (.str text, rest) := by
  have hnone : ∀ c cs, '"' ≠ c → (quote text ++ rest).dropPrefix? (c :: cs) = none := by
    intro c cs hc
    rw [quote, List.cons_append, List.cons_append, List.dropPrefix?, if_neg (by simpa using hc)]
  rw [readScalar, nullText, boolText, boolText, hnone 'n' _ (by decide), hnone 't' _ (by decide),
    hnone 'f' _ (by decide), readString_quote]

theorem readFields_more {n : Nat} {key text rest : List Char}
    (h : readScalar (text ++ ',' :: rest) = some (value, ',' :: rest)) :
    readFields (n + 1) (quote key ++ ':' :: (text ++ ',' :: rest)) = (readFields n rest).map
      fun r => ((key, value) :: r.1, r.2) := by
  rw [readFields, readString_quote, Option.bind_some, ← List.singleton_append, dropPrefix?_append,
    Option.bind_some, h]
  rfl

theorem readFields_last {n : Nat} {key text rest : List Char}
    (h : readScalar (text ++ '\x7d' :: rest) = some (value, '\x7d' :: rest)) :
    readFields (n + 1) (quote key ++ ':' :: (text ++ '\x7d' :: rest)) =
      some ([(key, value)], rest) := by
  rw [readFields, readString_quote, Option.bind_some, ← List.singleton_append, dropPrefix?_append,
    Option.bind_some, h]
  rfl

end JsonText
