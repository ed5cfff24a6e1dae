import Mathlib.Tactic.Common
import Mathlib.Tactic.IntervalCases

/-! # Numerals

Reading the numerals that `Nat.toDigits` writes, in any base up to sixteen. -/
namespace Os161.Lib

/-- What a digit stands for. -/
def digitValue (c : Char) : Option Nat :=
  if '0' ≤ c ∧ c ≤ '9' then some (c.toNat - 48)
  else if 'a' ≤ c ∧ c ≤ 'f' then some (c.toNat - 87)
  else none

/-- Reads on behind digits that were worth `n`. -/
def numeralFrom (base : Nat) : Nat → List Char → Option Nat
  | n, [] => some n
  | n, c :: cs =>
    match digitValue c with
    | none => none
    | some d => if d < base then numeralFrom base (base * n + d) cs else none

/-- The value of a numeral, which has at least one digit. -/
def numeral (base : Nat) (cs : List Char) : Option Nat :=
  if cs = [] then none else numeralFrom base 0 cs

theorem digitValue_digitChar {d : Nat} (h : d < 16) : digitValue d.digitChar = some d := by
  interval_cases d <;> decide

variable {base : Nat}

theorem numeralFrom_digit {n d : Nat} {cs : List Char} (hb : base ≤ 16) (h : d < base) :
    numeralFrom base n (d.digitChar :: cs) = numeralFrom base (base * n + d) cs := by
  rw [numeralFrom, digitValue_digitChar (by omega)]
  exact if_pos h

theorem numeralFrom_append (n : Nat) (cs ds : List Char) :
    numeralFrom base n (cs ++ ds) = (numeralFrom base n cs).bind fun m =>
      numeralFrom base m ds := by
  induction cs generalizing n with
  | nil => rfl
  | cons c cs ih =>
    simp only [List.cons_append, numeralFrom]
    cases digitValue c with
    | none => rfl
    | some d =>
      dsimp only
      by_cases h : d < base
      · rw [if_pos h, if_pos h, ih]
      · rw [if_neg h, if_neg h]
        rfl

/-- Zeros shift what was read before them. -/
theorem numeralFrom_zeros (h : 0 < base) (n k : Nat) :
    numeralFrom base n (List.replicate k '0') = some (base ^ k * n) := by
  induction k generalizing n with
  | zero => simp [numeralFrom]
  | succ k ih =>
    have hd : digitValue '0' = some 0 := by decide
    rw [List.replicate_succ, numeralFrom, hd]
    dsimp only
    rw [if_pos h, ih, Nat.add_zero, Nat.pow_succ, Nat.mul_assoc]

theorem numeralFrom_toDigits (hb : 1 < base) (hb' : base ≤ 16) (n : Nat) :
    numeralFrom base 0 (Nat.toDigits base n) = some n := by
  induction n using Nat.base_induction base hb with
  | single m hm =>
    rw [Nat.toDigits_of_lt_base hm, numeralFrom_digit hb' hm, Nat.mul_zero, Nat.zero_add]
    rfl
  | digit m k hk hm ih =>
    rw [← Nat.toDigits_append_toDigits hb hm hk, numeralFrom_append, ih,
      Nat.toDigits_of_lt_base hk, Option.bind_some, numeralFrom_digit hb' hk]
    rfl

/-- Zeros before a numeral do not change it. -/
theorem numeral_zeros_toDigits (hb : 1 < base) (hb' : base ≤ 16) (k n : Nat) :
    numeral base (List.replicate k '0' ++ Nat.toDigits base n) = some n := by
  rw [numeral, if_neg (by simp), numeralFrom_append, numeralFrom_zeros (by omega), Nat.mul_zero,
    Option.bind_some, numeralFrom_toDigits hb hb']

/-- Zeros behind a numeral are digits of it. -/
theorem numeral_toDigits_zeros (hb : 1 < base) (hb' : base ≤ 16) (k n : Nat) :
    numeral base (Nat.toDigits base n ++ List.replicate k '0') = some (base ^ k * n) := by
  rw [numeral, if_neg (by simp), numeralFrom_append, numeralFrom_toDigits hb hb',
    Option.bind_some, numeralFrom_zeros (by omega)]

theorem digitChar_ne {d : Nat} {c : Char} (hd : d < 16) (hc : digitValue c = none) :
    d.digitChar ≠ c := by
  rintro rfl
  rw [digitValue_digitChar hd] at hc
  cases hc

/-- A numeral has no character but digits. -/
theorem not_mem_toDigits {c : Char} (hb : 1 < base) (hb' : base ≤ 16) (hc : digitValue c = none)
    (n : Nat) : c ∉ Nat.toDigits base n := by
  induction n using Nat.base_induction base hb with
  | single m hm =>
    rw [Nat.toDigits_of_lt_base hm, List.mem_singleton]
    exact (digitChar_ne (by omega) hc).symm
  | digit m k hk hm ih =>
    rw [← Nat.toDigits_append_toDigits hb hm hk, Nat.toDigits_of_lt_base hk, List.mem_append,
      List.mem_singleton, not_or]
    exact ⟨ih, (digitChar_ne (by omega) hc).symm⟩

end Os161.Lib
