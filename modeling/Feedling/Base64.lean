import Mathlib.Data.List.Basic

/-!
# Base64 without padding

Three bytes are four digits of six bits; one or two bytes at the end are two or three digits. Digits
are written in the alphabet that is safe in addresses.
-/

namespace Base64

def alphabet : List Char :=
  "ABCDEFGHIJKLMNOPQRSTUVWXYZabcdefghijklmnopqrstuvwxyz0123456789-_".toList

def digitChar (d : Nat) : Char := alphabet.getD d 'A'

def charDigit (c : Char) : Option Nat := alphabet.idxOf? c

def toDigits : List Nat → List Nat
  | [] => []
  | [a] => [a / 4, a % 4 * 16]
  | [a, b] => [a / 4, a % 4 * 16 + b / 16, b % 16 * 4]
  | a :: b :: c :: rest =>
    a / 4 :: (a % 4 * 16 + b / 16) :: (b % 16 * 4 + c / 64) :: c % 64 :: toDigits rest

/-- One digit alone at the end is no byte. -/
def ofDigits : List Nat → Option (List Nat)
  | [] => some []
  | [_] => none
  | [d, e] => some [d * 4 + e / 16]
  | [d, e, f] => some [d * 4 + e / 16, e % 16 * 16 + f / 4]
  | d :: e :: f :: g :: rest =>
    (ofDigits rest).map fun bytes => (d * 4 + e / 16) :: (e % 16 * 16 + f / 4) ::
      (f % 4 * 64 + g) :: bytes

def encode (bytes : List Nat) : List Char := (toDigits bytes).map digitChar

def decode (text : List Char) : Option (List Nat) := (text.mapM charDigit).bind ofDigits

theorem charDigit_digitChar : ∀ d < 64, charDigit (digitChar d) = some d := by decide +kernel

theorem toDigits_lt {bytes : List Nat} (h : ∀ b ∈ bytes, b < 256) :
    ∀ d ∈ toDigits bytes, d < 64 := by
  fun_induction toDigits bytes with
  | case1 => intro d hd; cases hd
  | case2 a =>
    have ha := h a (by simp)
    intro d hd
    simp only [List.mem_cons, List.not_mem_nil, or_false] at hd
    omega
  | case3 a b =>
    have ha := h a (by simp)
    have hb := h b (by simp)
    intro d hd
    simp only [List.mem_cons, List.not_mem_nil, or_false] at hd
    omega
  | case4 a b c rest ih =>
    have ha := h a (by simp)
    have hb := h b (by simp)
    have hc := h c (by simp)
    intro d hd
    simp only [List.mem_cons] at hd
    obtain hd | hd | hd | hd | hd := hd
    · omega
    · omega
    · omega
    · omega
    · exact ih (fun x hx => h x (by simp [hx])) d hd

theorem ofDigits_toDigits {bytes : List Nat} (h : ∀ b ∈ bytes, b < 256) :
    ofDigits (toDigits bytes) = some bytes := by
  fun_induction toDigits bytes with
  | case1 => rfl
  | case2 a =>
    have ha := h a (by simp)
    rw [ofDigits]
    congr 2
    omega
  | case3 a b =>
    have ha := h a (by simp)
    have hb := h b (by simp)
    rw [ofDigits]
    congr 2
    · omega
    · congr 1
      omega
  | case4 a b c rest ih =>
    have ha := h a (by simp)
    have hb := h b (by simp)
    have hc := h c (by simp)
    rw [ofDigits, ih fun x hx => h x (by simp [hx]), Option.map_some]
    congr 2
    · omega
    · congr 1
      · omega
      · congr 1
        omega

theorem mapM_charDigit {digits : List Nat} (h : ∀ d ∈ digits, d < 64) :
    (digits.map digitChar).mapM charDigit = some digits := by
  induction digits with
  | nil => rfl
  | cons d digits ih =>
    rw [List.map_cons, List.mapM_cons, charDigit_digitChar d (h d List.mem_cons_self),
      ih fun x hx => h x (List.mem_cons_of_mem d hx)]
    rfl

theorem decode_encode {bytes : List Nat} (h : ∀ b ∈ bytes, b < 256) :
    decode (encode bytes) = some bytes := by
  rw [decode, encode, mapM_charDigit (toDigits_lt h)]
  exact ofDigits_toDigits h

theorem length_encode (bytes : List Nat) : (encode bytes).length = (4 * bytes.length + 2) / 3 := by
  rw [encode, List.length_map]
  fun_induction toDigits bytes with
  | case1 => rfl
  | case2 a => simp
  | case3 a b => simp
  | case4 a b c rest ih =>
    simp only [List.length_cons, ih]
    omega

end Base64
