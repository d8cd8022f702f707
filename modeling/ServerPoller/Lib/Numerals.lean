import Mathlib.Data.List.Basic
import Mathlib.Data.String.Basic
import Mathlib.Data.Nat.Basic
import Mathlib.Tactic.Ring

/-! Positional numerals: big-endian byte strings of a fixed width, and decimal texts, whose
order as texts is the order of the numbers when their lengths agree. -/

namespace Numerals

/-- The low `width` bytes of a number, most significant first. -/
def toBeBytes : Nat → Nat → List UInt8
  | 0, _ => []
  | width+1, n => UInt8.ofNat (n / 256 ^ width) :: toBeBytes width n

def ofBeBytes (bs : List UInt8) : Nat := bs.foldl (fun acc b => acc * 256 + b.toNat) 0

@[simp] theorem length_toBeBytes (width n : Nat) : (toBeBytes width n).length = width := by
  induction width with
  | zero => rfl
  | succ width ih => simp only [toBeBytes, List.length_cons, ih]

private theorem foldl_toBeBytes (width n acc : Nat) :
    (toBeBytes width n).foldl (fun acc b => acc * 256 + b.toNat) acc =
      acc * 256 ^ width + n % 256 ^ width := by
  induction width generalizing acc with
  | zero => simp [toBeBytes, Nat.mod_one]
  | succ width ih =>
      have split : n % 256 ^ (width + 1) = n / 256 ^ width % 256 * 256 ^ width + n % 256 ^ width := by
        rw [pow_succ, Nat.mod_mul, Nat.mul_comm, Nat.add_comm]
      simp only [toBeBytes, List.foldl_cons, ih, UInt8.toNat_ofNat', split]
      ring

theorem ofBeBytes_toBeBytes (width n : Nat) : ofBeBytes (toBeBytes width n) = n % 256 ^ width := by
  simpa [ofBeBytes] using foldl_toBeBytes width n 0

private theorem digit_range {c : Char} (h : c.isDigit = true) : 48 ≤ c.toNat ∧ c.toNat ≤ 57 := by
  simp only [Char.isDigit, Bool.and_eq_true, decide_eq_true_eq] at h
  exact ⟨h.1, h.2⟩

private theorem ofDigitChars_lt {l : List Char} (h : ∀ c ∈ l, c.isDigit = true) :
    Nat.ofDigitChars 10 l 0 < 10 ^ l.length := by
  induction l with
  | nil => simp
  | cons c l ih =>
      have hc := digit_range (h c (by simp))
      have hl := ih (fun d hd => h d (List.mem_cons_of_mem c hd))
      rw [Nat.ofDigitChars_cons, Nat.ofDigitChars_eq_ofDigitChars_zero, List.length_cons, pow_succ]
      have top : c.toNat - '0'.toNat ≤ 9 := by
        have : '0'.toNat = 48 := rfl
        omega
      have scaled := Nat.mul_le_mul_left (10 ^ l.length) top
      simp only [Nat.mul_zero, Nat.zero_add]
      omega

/-- Digit lists of one length are ordered as the numbers they denote. -/
private theorem digits_lt_iff {l m : List Char} (hl : ∀ c ∈ l, c.isDigit = true)
    (hm : ∀ c ∈ m, c.isDigit = true) (same : l.length = m.length) :
    l < m ↔ Nat.ofDigitChars 10 l 0 < Nat.ofDigitChars 10 m 0 := by
  induction l generalizing m with
  | nil => simp [List.length_eq_zero_iff.mp same.symm]
  | cons c l ih =>
      obtain ⟨d, m, rfl⟩ := List.exists_cons_of_length_eq_add_one same.symm
      have hlen : l.length = m.length := by simpa using same
      have hc := digit_range (hl c (by simp))
      have hd := digit_range (hm d (by simp))
      have tails := ih (fun x hx => hl x (List.mem_cons_of_mem c hx))
        (fun x hx => hm x (List.mem_cons_of_mem d hx)) hlen
      have bl := ofDigitChars_lt (fun x hx => hl x (List.mem_cons_of_mem c hx))
      have bm := ofDigitChars_lt (fun x hx => hm x (List.mem_cons_of_mem d hx))
      have zero : '0'.toNat = 48 := rfl
      rw [List.cons_lt_cons_iff, Nat.ofDigitChars_cons, Nat.ofDigitChars_cons,
        Nat.ofDigitChars_eq_ofDigitChars_zero (l := l), Nat.ofDigitChars_eq_ofDigitChars_zero (l := m),
        tails, ← hlen]
      rw [← hlen] at bm
      have order : c < d ↔ c.toNat < d.toNat := Iff.rfl
      rcases Nat.lt_trichotomy c.toNat d.toNat with lt | eq | gt
      · have step := Nat.mul_le_mul_left (10 ^ l.length) (show c.toNat - 48 + 1 ≤ d.toNat - 48 by omega)
        rw [Nat.mul_add, Nat.mul_one] at step
        simp only [order, lt, true_or, zero, Nat.mul_zero, Nat.zero_add, true_iff]
        omega
      · have hcd : c = d := Char.toNat_inj.mp eq
        subst hcd
        simp
      · have step := Nat.mul_le_mul_left (10 ^ l.length) (show d.toNat - 48 + 1 ≤ c.toNat - 48 by omega)
        rw [Nat.mul_add, Nat.mul_one] at step
        have ne : c ≠ d := fun h => by rw [h] at gt; exact lt_irrefl _ gt
        simp only [order, Nat.lt_asymm gt, ne, false_and, or_self, zero, Nat.mul_zero, Nat.zero_add,
          false_iff, not_lt]
        omega

theorem toDigits_lt_toDigits_iff {m n : Nat}
    (same : (Nat.toDigits 10 m).length = (Nat.toDigits 10 n).length) :
    Nat.toDigits 10 m < Nat.toDigits 10 n ↔ m < n := by
  rw [digits_lt_iff (fun c hc => Nat.isDigit_of_mem_toDigits (by decide) (by decide) hc)
    (fun c hc => Nat.isDigit_of_mem_toDigits (by decide) (by decide) hc) same]
  simp

theorem append_lt_append_left_iff (head l m : List Char) : head ++ l < head ++ m ↔ l < m := by
  induction head with
  | nil => rfl
  | cons c head ih => simp [ih]

theorem append_lt_append_of_lt {l m : List Char} (same : l.length = m.length) (h : l < m)
    (tail tail' : List Char) : l ++ tail < m ++ tail' := by
  induction l generalizing m with
  | nil =>
      rw [List.length_eq_zero_iff.mp same.symm] at h
      exact absurd h (by simp)
  | cons c l ih =>
      obtain ⟨d, m, rfl⟩ := List.exists_cons_of_length_eq_add_one same.symm
      rw [List.cons_append, List.cons_append, List.cons_lt_cons_iff]
      rcases List.cons_lt_cons_iff.mp h with head | ⟨eq, rest⟩
      · exact .inl head
      · exact .inr ⟨eq, ih (by simpa using same) rest⟩

end Numerals
