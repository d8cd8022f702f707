import Mathlib.Data.List.Infix
import Mathlib.Tactic.Common

/-! Texts that are indexed by the bytes of their UTF-8 encoding: slices, which exist only between
character boundaries, single bytes, and searches that give byte offsets. -/

namespace Utf8

/-- A text, as its characters. -/
abbrev Text := List Char

def size : Text → Nat
  | [] => 0
  | c :: s => c.utf8Size + size s

def bytes (s : Text) : List UInt8 := s.flatMap String.utf8EncodeChar

/-- The characters before a byte offset and those from it on, if it is a character boundary. -/
def splitAt : Text → Nat → Option (Text × Text)
  | s, 0 => some ([], s)
  | [], _+1 => none
  | c :: s, i+1 =>
      if c.utf8Size ≤ i + 1 then (splitAt s (i + 1 - c.utf8Size)).map fun parts => (c :: parts.1, parts.2)
      else none

def sliceTo (s : Text) (stop : Nat) : Option Text := (splitAt s stop).map Prod.fst
def sliceFrom (s : Text) (start : Nat) : Option Text := (splitAt s start).map Prod.snd

def slice (s : Text) (start stop : Nat) : Option Text := (sliceTo s stop).bind fun front => sliceFrom front start

/-- The byte offset of the first occurrence of a text. -/
def find (pattern : Text) : Text → Option Nat
  | [] => if pattern = [] then some 0 else none
  | c :: s => if pattern <+: c :: s then some 0 else (find pattern s).map (c.utf8Size + ·)

abbrev byte (c : Char) : UInt8 := UInt8.ofNat c.toNat

/-- The offset of the first byte from this one on that does not pass. -/
def skipWhile (p : UInt8 → Bool) (bs : List UInt8) (index : Nat) : Nat :=
  index + ((bs.drop index).takeWhile p).length

def isAsciiDigit (b : UInt8) : Bool := 48 ≤ b.toNat && b.toNat ≤ 57

def isAsciiAlphanumeric (b : UInt8) : Bool :=
  isAsciiDigit b || (65 ≤ b.toNat && b.toNat ≤ 90) || (97 ≤ b.toNat && b.toNat ≤ 122)

def toAsciiLowercase (s : Text) : Text := s.map Char.toLower

@[simp] theorem size_nil : size [] = 0 := rfl

@[simp] theorem size_cons (c : Char) (s : Text) : size (c :: s) = c.utf8Size + size s := rfl

@[simp] theorem size_append (s t : Text) : size (s ++ t) = size s + size t := by
  induction s with
  | nil => rw [List.nil_append, size_nil, Nat.zero_add]
  | cons c s ih => rw [List.cons_append, size_cons, size_cons, ih, Nat.add_assoc]

@[simp] theorem bytes_append (s t : Text) : bytes (s ++ t) = bytes s ++ bytes t := List.flatMap_append

@[simp] theorem length_bytes (s : Text) : (bytes s).length = size s := by
  induction s with
  | nil => rfl
  | cons c s ih => rw [size_cons, bytes, List.flatMap_cons, List.length_append, String.length_utf8EncodeChar,
      ← bytes, ih]

theorem size_le_of_infix {s t : Text} (part : s <:+: t) : size s ≤ size t := by
  obtain ⟨before, after, rfl⟩ := part
  simp only [size_append]
  omega

theorem splitAt_size (s t : Text) : splitAt (s ++ t) (size s) = some (s, t) := by
  induction s with
  | nil => cases t <;> rfl
  | cons c s ih =>
      obtain ⟨n, width⟩ := Nat.exists_eq_add_of_lt c.utf8Size_pos
      have position : size (c :: s) = (n + size s) + 1 := by
        rw [size_cons]
        omega
      rw [position, List.cons_append, splitAt, if_pos (by omega)]
      have rest : n + size s + 1 - c.utf8Size = size s := by omega
      rw [rest, ih]
      rfl

@[simp] theorem sliceTo_size (s t : Text) : sliceTo (s ++ t) (size s) = some s := by
  rw [sliceTo, splitAt_size]
  rfl

@[simp] theorem sliceFrom_size (s t : Text) : sliceFrom (s ++ t) (size s) = some t := by
  rw [sliceFrom, splitAt_size]
  rfl

@[simp] theorem sliceFrom_zero (s : Text) : sliceFrom s 0 = some s := sliceFrom_size [] s

@[simp] theorem slice_size (s t u : Text) : slice (s ++ t ++ u) (size s) (size (s ++ t)) = some t := by
  rw [slice, sliceTo_size, Option.bind_some, sliceFrom_size]

theorem prefix_toAsciiLowercase {p s : Text} (start : p <+: toAsciiLowercase s) :
    ∃ a b, s = a ++ b ∧ toAsciiLowercase a = p := by
  obtain ⟨tail, eq⟩ := start
  obtain ⟨a, b, split, lower, _⟩ := List.map_eq_append_iff.mp eq.symm
  exact ⟨a, b, split, lower⟩

theorem toLower_of_not_upper {c : Char} (other : ¬(c.val ≥ 'A'.val ∧ c.val ≤ 'Z'.val)) : c.toLower = c := dif_neg other

theorem utf8Size_toLower (c : Char) : c.toLower.utf8Size = c.utf8Size := by
  by_cases upper : c.val ≥ 'A'.val ∧ c.val ≤ 'Z'.val
  · have top : c.val.toNat ≤ 90 := upper.2
    have shifted : c.toLower.val = c.val + 32 := congrArg Char.val (dif_pos upper)
    have code : c.toLower.val.toNat = c.val.toNat + 32 := by
      rw [shifted, UInt32.toNat_add]
      have small : (32 : UInt32).toNat = 32 := rfl
      omega
    have before : c.val ≤ 127 := UInt32.le_iff_toNat_le.mpr (by omega : c.val.toNat ≤ 127)
    have after : c.toLower.val ≤ 127 := UInt32.le_iff_toNat_le.mpr (by omega : c.toLower.val.toNat ≤ 127)
    rw [Char.utf8Size_eq_one_iff.mpr before, Char.utf8Size_eq_one_iff.mpr after]
  · rw [toLower_of_not_upper upper]

theorem size_toAsciiLowercase (s : Text) : size (toAsciiLowercase s) = size s := by
  induction s with
  | nil => rfl
  | cons c s ih =>
      rw [toAsciiLowercase, List.map_cons, size_cons, size_cons, utf8Size_toLower, ← toAsciiLowercase, ih]

def firstByte (c : Char) : UInt8 := (String.utf8EncodeChar c).headD 0

theorem firstByte_ascii {c : Char} (ascii : c.toNat < 128) : firstByte c = byte c := by
  have small : c.val.toNat ≤ 127 := Nat.le_of_lt_succ ascii
  simp only [firstByte, String.utf8EncodeChar, if_pos small]
  rfl

theorem firstByte_wide {c : Char} (wide : 128 ≤ c.toNat) : 128 ≤ (firstByte c).toNat := by
  have large : ¬c.val.toNat ≤ 127 := Nat.not_le.mpr wide
  simp only [firstByte, String.utf8EncodeChar, if_neg large]
  split
  · simp only [List.headD_cons, UInt8.toNat_ofNat']
    omega
  · split
    · simp only [List.headD_cons, UInt8.toNat_ofNat']
      omega
    · simp only [List.headD_cons, UInt8.toNat_ofNat']
      omega

theorem utf8Size_ascii {c : Char} (ascii : c.toNat < 128) : c.utf8Size = 1 :=
  Char.utf8Size_eq_one_iff.mpr (Nat.le_of_lt_succ ascii)

theorem size_push (s : Text) {c : Char} (ascii : c.toNat < 128) : size s + 1 = size (s ++ [c]) := by
  rw [size_append, size_cons, size_nil, utf8Size_ascii ascii]

theorem bytes_cons (c : Char) (s : Text) :
    bytes (c :: s) = firstByte c :: ((String.utf8EncodeChar c).tail ++ bytes s) := by
  have start : String.utf8EncodeChar c = firstByte c :: (String.utf8EncodeChar c).tail := by
    cases code : String.utf8EncodeChar c with
    | nil => exact absurd code String.utf8EncodeChar_ne_nil
    | cons b bs => rw [firstByte, code]; rfl
  rw [bytes, List.flatMap_cons, start]
  rfl

theorem getElem?_bytes (s t : Text) : (bytes (s ++ t))[size s]? = t.head?.map firstByte := by
  rw [bytes_append, List.getElem?_append_right (le_of_eq (length_bytes s)), length_bytes, Nat.sub_self]
  cases t with
  | nil => rfl
  | cons c t => rw [bytes_cons]; rfl

/-- A property of bytes that says of the first byte of a character what another says of the character. -/
def Reads (p : UInt8 → Bool) (q : Char → Bool) : Prop := ∀ c, p (firstByte c) = q c

/-- Byte properties that hold of ASCII only are properties of the characters. -/
theorem reads_ascii {p : UInt8 → Bool} {q : Char → Bool} (agree : ∀ c, c.toNat < 128 → p (byte c) = q c)
    (wide : ∀ b : UInt8, 128 ≤ b.toNat → p b = false) (other : ∀ c, 128 ≤ c.toNat → q c = false) : Reads p q := by
  intro c
  rcases Nat.lt_or_ge c.toNat 128 with ascii | large
  · rw [firstByte_ascii ascii, agree c ascii]
  · rw [other c large, wide _ (firstByte_wide large)]

section Classes
variable {c : Char}

private theorem toNat_ofNat_ascii (ascii : c.toNat < 128) : (byte c).toNat = c.toNat := by
  rw [UInt8.toNat_ofNat']
  omega

theorem isDigit_iff : c.isDigit = true ↔ 48 ≤ c.toNat ∧ c.toNat ≤ 57 := by
  rw [Char.isDigit, Bool.and_eq_true, decide_eq_true_iff, decide_eq_true_iff]
  rfl

theorem isAlphanum_iff : c.isAlphanum = true ↔
    (65 ≤ c.toNat ∧ c.toNat ≤ 90) ∨ (97 ≤ c.toNat ∧ c.toNat ≤ 122) ∨ (48 ≤ c.toNat ∧ c.toNat ≤ 57) := by
  show (decide (c.val ≥ 65 ∧ c.val ≤ 90) || (decide (c.val ≥ 97) && decide (c.val ≤ 122)) ||
    c.isDigit) = true ↔ _
  rw [Bool.or_eq_true, Bool.or_eq_true, isDigit_iff]
  simp only [Bool.and_eq_true, decide_eq_true_iff, or_assoc]
  rfl

theorem isAlphanum_of_toLower {c : Char} (lower : c.toLower.isLower = true) : c.isAlphanum = true := by
  by_cases upper : c.val ≥ 'A'.val ∧ c.val ≤ 'Z'.val
  · exact isAlphanum_iff.mpr (.inl upper)
  · rw [toLower_of_not_upper upper] at lower
    show (c.isUpper || c.isLower || c.isDigit) = true
    rw [lower, Bool.or_true, Bool.true_or]

theorem reads_isDigit : Reads isAsciiDigit Char.isDigit := by
  refine reads_ascii (fun c ascii => ?_) (fun b wide => ?_) fun c wide => ?_
  · rw [Bool.eq_iff_iff, isDigit_iff, isAsciiDigit, toNat_ofNat_ascii ascii]
    simp only [Bool.and_eq_true, decide_eq_true_iff]
  · simp only [isAsciiDigit, Bool.and_eq_false_iff, decide_eq_false_iff_not]
    omega
  · rw [Bool.eq_false_iff, ne_eq, isDigit_iff]
    omega

theorem reads_isAlphanum : Reads isAsciiAlphanumeric Char.isAlphanum := by
  refine reads_ascii (fun c ascii => ?_) (fun b wide => ?_) fun c wide => ?_
  · rw [Bool.eq_iff_iff, isAlphanum_iff, isAsciiAlphanumeric, isAsciiDigit, toNat_ofNat_ascii ascii]
    simp only [Bool.or_eq_true, Bool.and_eq_true, decide_eq_true_iff]
    tauto
  · simp only [isAsciiAlphanumeric, isAsciiDigit, Bool.or_eq_false_iff, Bool.and_eq_false_iff,
      decide_eq_false_iff_not]
    omega
  · rw [Bool.eq_false_iff, ne_eq, isAlphanum_iff]
    omega

theorem reads_char (d : Char) (ascii : d.toNat < 128) : Reads (· == byte d) (· == d) := by
  refine reads_ascii (fun c small => ?_) (fun b wide => ?_) fun c wide => ?_
  · rw [Bool.eq_iff_iff, beq_iff_eq, beq_iff_eq]
    constructor
    · intro same
      have codes := congrArg UInt8.toNat same
      rw [toNat_ofNat_ascii small, toNat_ofNat_ascii ascii] at codes
      exact Char.toNat_inj.mp codes
    · rintro rfl
      rfl
  · refine beq_eq_false_iff_ne.mpr fun same => ?_
    rw [same, toNat_ofNat_ascii ascii] at wide
    omega
  · refine beq_eq_false_iff_ne.mpr ?_
    rintro rfl
    omega

end Classes

theorem Reads.any {p : UInt8 → Bool} {q : Char → Bool} (reads : Reads p q) (s t : Text) :
    ((bytes (s ++ t))[size s]?).any p = t.head?.any q := by
  rw [getElem?_bytes]
  cases t with
  | nil => rfl
  | cons c t => exact reads c

theorem getElem?_eq_some_iff {d : Char} (ascii : d.toNat < 128) (s t : Text) :
    (bytes (s ++ t))[size s]? = some (byte d) ↔ t.head? = some d := by
  have same := (reads_char d ascii).any s t
  rw [Bool.eq_iff_iff] at same
  simpa only [Option.any_eq_true, beq_iff_eq, exists_eq_right] using same

theorem Reads.skipWhile {p : UInt8 → Bool} {q : Char → Bool} (reads : Reads p q)
    (ascii : ∀ c, q c = true → c.toNat < 128) (s t : Text) :
    skipWhile p (bytes (s ++ t)) (size s) = size (s ++ t.takeWhile q) := by
  have skipped : ((bytes t).takeWhile p).length = size (t.takeWhile q) := by
    induction t with
    | nil => rfl
    | cons c t ih =>
        rw [bytes_cons, List.takeWhile_cons, List.takeWhile_cons, reads c]
        cases passes : q c with
        | false => rfl
        | true =>
            have width := utf8Size_ascii (ascii c passes)
            have alone : (String.utf8EncodeChar c).tail = [] := by
              rw [String.utf8EncodeChar_eq_singleton width]
              rfl
            rw [alone, List.nil_append, if_pos rfl, if_pos rfl, List.length_cons, ih, size_cons, width, Nat.add_comm]
  rw [Utf8.skipWhile, bytes_append, ← length_bytes s, List.drop_left, skipped, length_bytes, size_append]

theorem find_eq_some {pattern s : Text} {index : Nat} (found : find pattern s = some index) :
    ∃ before after, s = before ++ pattern ++ after ∧ index = size before := by
  induction s generalizing index with
  | nil =>
      rw [find] at found
      split at found
      · rename_i empty
        cases found
        exact ⟨[], [], by rw [empty]; rfl, rfl⟩
      · cases found
  | cons c s ih =>
      rw [find] at found
      split at found
      · rename_i here
        obtain ⟨after, eq⟩ := here
        cases found
        exact ⟨[], after, eq.symm, rfl⟩
      · obtain ⟨i, later, eq⟩ := Option.map_eq_some_iff.mp found
        obtain ⟨before, after, rfl, rfl⟩ := ih later
        exact ⟨c :: before, after, rfl, by rw [size_cons, eq]⟩

theorem find_eq_none {pattern s : Text} (absent : ¬pattern <:+: s) : find pattern s = none := by
  induction s with
  | nil =>
      rw [find, if_neg]
      rintro rfl
      exact absent List.infix_rfl
  | cons c s ih =>
      rw [find, if_neg (fun here => absent here.isInfix), ih, Option.map_none]
      exact fun later => absent (later.trans (List.suffix_cons c s).isInfix)

end Utf8
