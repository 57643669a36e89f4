import Mathlib.Data.Nat.Digits.Lemmas
import MapServer.Text

namespace MapServer

def digitByte (digit : Nat) : UInt8 := (48 + digit).toUInt8

def natText (n : Nat) : CString := if n = 0 then [48] else ((Nat.digits 10 n).map digitByte).reverse

theorem digitByte_toNat {digit : Nat} (isDigit : digit < 10) : (digitByte digit).toNat = 48 + digit := by
  rw [digitByte, Nat.toUInt8_eq, UInt8.toNat_ofNat']
  omega

theorem isdigit_digitByte {digit : Nat} (isDigit : digit < 10) : isdigit (digitByte digit) = true := by
  simp only [isdigit, Bool.and_eq_true, decide_eq_true_eq, UInt8.le_iff_toNat_le, digitByte_toNat isDigit]
  exact ⟨Nat.le_add_right 48 digit, by simp only [UInt8.toNat_ofNat]; omega⟩

theorem isdigit_natText (n : Nat) : ∀ c ∈ natText n, isdigit c = true := by
  intro c member
  unfold natText at member
  split at member
  · cases List.mem_singleton.mp member
    rfl
  · rw [List.mem_reverse, List.mem_map] at member
    obtain ⟨digit, isDigit, rfl⟩ := member
    exact isdigit_digitByte (Nat.digits_lt_base (by decide) isDigit)

theorem toNat_of_isdigit {c : UInt8} (digit : isdigit c = true) : 48 ≤ c.toNat ∧ c.toNat ≤ 57 := by
  simpa [isdigit, UInt8.le_iff_toNat_le] using digit

theorem isspace_of_isdigit {c : UInt8} (digit : isdigit c = true) : isspace c = false := by
  have bounds := toNat_of_isdigit digit
  have blank : c ≠ 32 := by rintro rfl; exact absurd bounds.1 (by decide)
  have control : ¬c ≤ 13 := by
    rw [UInt8.le_iff_toNat_le, show (13 : UInt8).toNat = 13 from rfl]
    omega
  simp [isspace, blank, control]

theorem strtol_cons {c : UInt8} (digit : isdigit c = true) (rest : CString) :
    strtol (c :: rest) = max (-9223372036854775808) (min 9223372036854775807 (digitsValue ((c :: rest).takeWhile isdigit))) := by
  have bounds := toNat_of_isdigit digit
  rw [strtol, List.dropWhile_cons_of_neg (by simp [isspace_of_isdigit digit])]
  split
  · rename_i same
    cases same
    exact absurd bounds.1 (by decide)
  · rename_i same
    cases same
    exact absurd bounds.1 (by decide)
  · rfl

theorem natText_ne_nil (n : Nat) : natText n ≠ [] := by
  unfold natText
  split
  · exact List.cons_ne_nil _ _
  · rename_i positive
    simp [Nat.digits_ne_nil_iff_ne_zero.mpr positive]

theorem digitsValue_append (front : CString) (c : UInt8) :
    digitsValue (front ++ [c]) = 10 * digitsValue front + (c.toNat - 48) := by
  simp [digitsValue]

theorem digitsValue_natText (n : Nat) : digitsValue (natText n) = n := by
  have reads (digits : List Nat) (areDigits : ∀ digit ∈ digits, digit < 10) :
      digitsValue ((digits.map digitByte).reverse) = (Nat.ofDigits 10 digits : Nat) := by
    induction digits with
    | nil => rfl
    | cons digit digits ih =>
      rw [List.forall_mem_cons] at areDigits
      rw [List.map_cons, List.reverse_cons, digitsValue_append, ih areDigits.2, digitByte_toNat areDigits.1, Nat.ofDigits_cons]
      omega
  unfold natText
  split
  · rename_i zero
    subst zero
    rfl
  · rw [reads _ (fun digit member => Nat.digits_lt_base (by decide) member), Nat.ofDigits_digits]

end MapServer
