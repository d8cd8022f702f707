import ServerPoller.Lib.RustText

/-! Decimal texts of integers, and what the number parsers make of them. -/

namespace RustText

structure IsDigits (l : List Char) : Prop where
  full : l ≠ []
  digits : ∀ c ∈ l, c.isDigit = true

/-- The texts of an integer: digits, with a sign or, when it is not negative, without. -/
inductive Decimal : List Char → Int → Prop
  | plain {l} : IsDigits l → Decimal l (Nat.ofDigitChars 10 l 0)
  | positive {l} : IsDigits l → Decimal ('+' :: l) (Nat.ofDigitChars 10 l 0)
  | negative {l} : IsDigits l → Decimal ('-' :: l) (-(Nat.ofDigitChars 10 l 0 : Int))

theorem digitsValue_eq {l : List Char} (h : IsDigits l) : digitsValue l = some (Nat.ofDigitChars 10 l 0) := by
  have some_ : (l.isEmpty || l.any fun c => !c.isDigit) = false := by
    simpa [h.full] using h.digits
  have steps : (fun (n : Nat) (c : Char) => n * 10 + (c.toNat - 48)) = fun n c => 10 * n + (c.toNat - '0'.toNat) := by
    funext n c
    rw [Nat.mul_comm]
    rfl
  rw [digitsValue, some_, steps]
  rfl

theorem IsDigits.unsigned {l : List Char} (h : IsDigits l) {sign : Char} (other : sign.isDigit = false) (rest : List Char) :
    l ≠ sign :: rest := by
  rintro rfl
  exact absurd (h.digits sign List.mem_cons_self) (by simp [other])

private theorem bind_signed {α : Type} {n : Nat} (sign : Int → Int) (f : Int → Option α) :
    (Option.map sign (do let a ← some n; pure (a : Int)) >>= f) = f (sign n) := rfl

theorem Decimal.parseI64 {s : String} {v : Int} (h : Decimal s.toList v) (fits : -2 ^ 63 ≤ v ∧ v < 2 ^ 63) :
    RustText.parseI64 s = some (Int64.ofInt v) := by
  have value : (if -2 ^ 63 ≤ v ∧ v < 2 ^ 63 then some (Int64.ofInt v) else none) = some (Int64.ofInt v) :=
    if_pos fits
  unfold RustText.parseI64
  generalize s.toList = l at h
  cases h with
  | plain digits =>
      split
      · exact absurd rfl (digits.unsigned (by decide) _)
      · exact absurd rfl (digits.unsigned (by decide) _)
      · rw [digitsValue_eq digits, bind_signed]
        exact value
  | @positive l digits =>
      show (Option.map (fun n => n) (do let a ← digitsValue l; pure (a : Int)) >>= _) = _
      rw [digitsValue_eq digits, bind_signed]
      exact value
  | @negative l digits =>
      show (Option.map (fun n => -n) (do let a ← digitsValue l; pure (a : Int)) >>= _) = _
      rw [digitsValue_eq digits, bind_signed]
      exact value

theorem isDigits_toDigits (n : Nat) : IsDigits (Nat.toDigits 10 n) :=
  ⟨Nat.toDigits_ne_nil, fun _ => Nat.isDigit_of_mem_toDigits (by decide) (by decide)⟩

theorem toList_toString (v : Int) :
    (toString v).toList = if 0 ≤ v then Nat.toDigits 10 v.toNat else '-' :: Nat.toDigits 10 (-v).toNat := by
  rw [Int.toString_eq_repr, Int.repr_eq_if]
  split
  · exact Nat.toList_repr
  · rw [String.toList_append, Nat.toList_repr]
    rfl

theorem decimal_toString (v : Int) : Decimal (toString v).toList v := by
  rw [toList_toString]
  split
  · rename_i positive
    have text := Decimal.plain (isDigits_toDigits v.toNat)
    rwa [Nat.ofDigitChars_ten_toDigits, Int.toNat_of_nonneg positive] at text
  · rename_i negative
    have text := Decimal.negative (isDigits_toDigits (-v).toNat)
    rwa [Nat.ofDigitChars_ten_toDigits, Int.toNat_of_nonneg (by omega), Int.neg_neg] at text

theorem isDigit_range {c : Char} (digit : c.isDigit = true) : 48 ≤ c.toNat ∧ c.toNat ≤ 57 := by
  simp only [Char.isDigit, Bool.and_eq_true, decide_eq_true_eq] at digit
  exact digit

private theorem digitChar_of_isDigit {c : Char} (digit : c.isDigit = true) :
    c.toNat - '0'.toNat < 10 ∧ Nat.digitChar (c.toNat - '0'.toNat) = c := by
  have zero : '0'.toNat = 48 := rfl
  obtain ⟨low, high⟩ := isDigit_range digit
  have ten : ∀ d < 10, Nat.digitChar d = Char.ofNat (48 + d) := by decide
  rw [zero, ten _ (by omega), Nat.add_sub_cancel' low, Char.ofNat_toNat]
  exact ⟨by omega, rfl⟩

private theorem toDigits_ofDigitChars_of_pos {l : List Char} (digits : ∀ c ∈ l, c.isDigit = true) {n : Nat}
    (positive : 0 < n) : Nat.toDigits 10 (Nat.ofDigitChars 10 l n) = Nat.toDigits 10 n ++ l := by
  induction l generalizing n with
  | nil => rw [Nat.ofDigitChars_nil, List.append_nil]
  | cons c l ih =>
      obtain ⟨small, same⟩ := digitChar_of_isDigit (digits c List.mem_cons_self)
      have later := ih (fun d member => digits d (List.mem_cons_of_mem c member))
        (show 0 < 10 * n + (c.toNat - '0'.toNat) by omega)
      rw [Nat.ofDigitChars_cons, later, ← Nat.toDigits_append_toDigits (by decide) positive small,
        Nat.toDigits_of_lt_base small, same, List.append_assoc, List.singleton_append]

/-- A decimal text without leading zeros is the text of its number. -/
theorem toDigits_ofDigitChars {l : List Char} (h : IsDigits l) (leading : l.head? = some '0' → l = ['0']) :
    Nat.toDigits 10 (Nat.ofDigitChars 10 l 0) = l := by
  cases l with
  | nil => exact absurd rfl h.full
  | cons c rest =>
      by_cases zero : c = '0'
      · rw [leading (by rw [zero, List.head?_cons])]
        rfl
      · obtain ⟨small, same⟩ := digitChar_of_isDigit (h.digits c List.mem_cons_self)
        have positive : 0 < 10 * 0 + (c.toNat - '0'.toNat) := by
          refine Nat.pos_of_ne_zero fun nothing => zero ?_
          rw [Nat.mul_zero, Nat.zero_add] at nothing
          rw [← same, nothing]
          rfl
        have later : ∀ d ∈ rest, d.isDigit = true := fun d member => h.digits d (List.mem_cons_of_mem c member)
        rw [Nat.ofDigitChars_cons, toDigits_ofDigitChars_of_pos later positive, Nat.mul_zero, Nat.zero_add,
          Nat.toDigits_of_lt_base small, same]
        rfl

theorem parseU16_digits {s : String} (h : IsDigits s.toList) : parseU16 s =
    if Nat.ofDigitChars 10 s.toList 0 < 2 ^ 16 then some (UInt16.ofNat (Nat.ofDigitChars 10 s.toList 0)) else none := by
  unfold parseU16
  generalize s.toList = l at h
  split
  · exact absurd rfl (h.unsigned (by decide) _)
  · rw [digitsValue_eq h, Option.bind_eq_bind, Option.bind_some]

theorem parseU16_toString (v : Int) :
    parseU16 (toString v) = if 0 ≤ v ∧ v < 2 ^ 16 then some (UInt16.ofNat v.toNat) else none := by
  have text := toList_toString v
  by_cases positive : 0 ≤ v
  · rw [if_pos positive] at text
    have small : v.toNat < 2 ^ 16 ↔ 0 ≤ v ∧ v < 2 ^ 16 := by omega
    rw [parseU16_digits (text ▸ isDigits_toDigits v.toNat), text, Nat.ofDigitChars_ten_toDigits]
    exact if_congr small rfl rfl
  · rw [if_neg positive] at text
    rw [if_neg fun fits => positive fits.1, parseU16, text]
    rfl

end RustText
