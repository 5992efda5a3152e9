import FileWatch.Toml.Number
import Mathlib.Data.List.Basic

/-!
# Digits

A row of digits says a number, and the digits of a number say that number (`numeral_toDigits`), in every
base up to sixteen.
-/

namespace FileWatch.Toml

theorem digitValue_digitChar {d : Nat} (h : d < 16) : digitValue d.digitChar = d := by
  have hall : ∀ d < 16, digitValue d.digitChar = d := by decide
  exact hall d h

theorem isDigitOf_digitChar {base d : Nat} (hbase : base ≤ 16) (h : d < base) :
    isDigitOf base d.digitChar = true := by
  have hall : ∀ d < 16, (isDecimal d.digitChar || ('a' ≤ d.digitChar && d.digitChar ≤ 'f')
      || ('A' ≤ d.digitChar && d.digitChar ≤ 'F')) = true := by decide
  unfold isDigitOf
  rw [hall d (by omega), digitValue_digitChar (by omega)]
  exact decide_eq_true h

theorem isDigitOf_of_mem_toDigits {base n : Nat} (hbase : 1 < base) (hbase' : base ≤ 16) {c : Char}
    (h : c ∈ Nat.toDigits base n) : isDigitOf base c = true := by
  induction n using Nat.strongRecOn with
  | _ n ih =>
    rw [Nat.toDigits_eq_if hbase] at h
    split at h
    · rename_i hlt
      rw [List.mem_singleton.mp h]
      exact isDigitOf_digitChar hbase' hlt
    · rcases List.mem_append.mp h with hmem | hmem
      · exact ih _ (Nat.div_lt_self (by omega) hbase) hmem
      · rw [List.mem_singleton.mp hmem]
        exact isDigitOf_digitChar hbase' (Nat.mod_lt n (by omega))

theorem isDecimal_of_isDigitOf {c : Char} (h : isDigitOf 10 c = true) : isDecimal c = true := by
  by_contra hc
  rw [Bool.not_eq_true] at hc
  have hvalue : 10 ≤ digitValue c := by
    unfold digitValue
    rw [hc]
    split
    · contradiction
    · split <;> omega
  unfold isDigitOf at h
  rw [Bool.and_eq_true, decide_eq_true_eq] at h
  omega

theorem isDecimal_of_mem_toDigits {n : Nat} {c : Char} (h : c ∈ Nat.toDigits 10 n) :
    isDecimal c = true :=
  isDecimal_of_isDigitOf (isDigitOf_of_mem_toDigits (by omega) (by omega) h)

/-- The digits of a number begin with a zero for zero only. -/
theorem toDigits_head {n : Nat} (h : 0 < n) :
    ∃ c cs, Nat.toDigits 10 n = c :: cs ∧ c ≠ '0' := by
  induction n using Nat.strongRecOn with
  | _ n ih =>
    rw [Nat.toDigits_eq_if (by omega)]
    split
    · rename_i hlt
      have hnonzero : ∀ d < 10, 0 < d → d.digitChar ≠ '0' := by decide
      exact ⟨_, [], rfl, hnonzero n hlt h⟩
    · obtain ⟨c, cs, hdigits, hc⟩ := ih (n / 10) (by omega) (by omega)
      rw [hdigits]
      exact ⟨c, _, rfl, hc⟩

theorem numeral_concat (base : Nat) (digits : List Char) (c : Char) :
    numeral base (digits ++ [c]) = numeral base digits * base + digitValue c := by
  unfold numeral
  rw [List.foldl_append]
  rfl

/-- **The digits of a number say that number.** -/
theorem numeral_toDigits {base : Nat} (hbase : 1 < base) (hbase' : base ≤ 16) (n : Nat) :
    numeral base (Nat.toDigits base n) = n := by
  induction n using Nat.strongRecOn with
  | _ n ih =>
    rw [Nat.toDigits_eq_if hbase]
    split
    · rename_i hlt
      rw [← List.nil_append [n.digitChar], numeral_concat, digitValue_digitChar (by omega)]
      rw [show numeral base [] = 0 from rfl, Nat.zero_mul, Nat.zero_add]
    · have hmod : n % base < base := Nat.mod_lt n (by omega)
      rw [numeral_concat, ih _ (Nat.div_lt_self (by omega) hbase), digitValue_digitChar (by omega),
        Nat.mul_comm]
      exact Nat.div_add_mod n base

end FileWatch.Toml
