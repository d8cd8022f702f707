import ServerPoller.Lib.Utf8

/-! Bytes that are read as UTF-8 whether they are or not: each of the longest pieces that no character begins
with becomes one replacement character. -/

namespace Utf8

def replacementCharacter : Char := '\uFFFD'

/-- The character that the bytes begin with, if it is there in full. -/
def firstChar (bs : List UInt8) : Option Char := bs.toByteArray.utf8DecodeChar? 0

def isContinuation (b : UInt8) : Bool := 0x80 ≤ b.toNat && b.toNat ≤ 0xBF

/-- The number of bytes of the characters with this first byte, from two on. -/
def charWidth (first : UInt8) : Nat :=
  if 0xC2 ≤ first.toNat ∧ first.toNat ≤ 0xDF then 2
  else if 0xE0 ≤ first.toNat ∧ first.toNat ≤ 0xEF then 3
  else if 0xF0 ≤ first.toNat ∧ first.toNat ≤ 0xF4 then 4
  else 0

/-- A character of three or four bytes can begin with these two. -/
def beginsWide (first second : UInt8) : Bool :=
  if first.toNat = 0xE0 then 0xA0 ≤ second.toNat && second.toNat ≤ 0xBF
  else if first.toNat = 0xED then 0x80 ≤ second.toNat && second.toNat ≤ 0x9F
  else if first.toNat = 0xF0 then 0x90 ≤ second.toNat && second.toNat ≤ 0xBF
  else if first.toNat = 0xF4 then 0x80 ≤ second.toNat && second.toNat ≤ 0x8F
  else isContinuation second

/-- How many of the bytes after the first one are part of the same broken character. -/
def brokenLength (first : UInt8) (rest : List UInt8) : Nat :=
  match rest with
  | [] => 0
  | second :: rest =>
      if 3 ≤ charWidth first ∧ beginsWide first second then
        match rest with
        | [] => 1
        | third :: _ => if charWidth first = 4 ∧ isContinuation third then 2 else 1
      else 0

/-- `String::from_utf8_lossy`. -/
def lossy : List UInt8 → Text
  | [] => []
  | b :: rest =>
      match firstChar (b :: rest) with
      | some c => c :: lossy (rest.drop (c.utf8Size - 1))
      | none => replacementCharacter :: lossy (rest.drop (brokenLength b rest))
termination_by bs => bs.length

theorem firstChar_encode (c : Char) (rest : List UInt8) : firstChar (String.utf8EncodeChar c ++ rest) = some c := by
  rw [firstChar, List.toByteArray_append]
  exact ByteArray.utf8DecodeChar?_utf8EncodeChar_append

theorem eq_of_firstChar {bs : List UInt8} {c : Char} (read : firstChar bs = some c) :
    ∃ rest, bs = String.utf8EncodeChar c ++ rest := by
  obtain ⟨tail, eq⟩ := ByteArray.exists_of_utf8DecodeChar?_eq_some read
  have lists := congrArg (fun array => array.data.toList) eq
  rw [ByteArray.data_append, Array.toList_append, List.toList_data_toByteArray, List.toList_data_toByteArray] at lists
  exact ⟨tail.data.toList, lists⟩

theorem lossy_encode (c : Char) (rest : List UInt8) : lossy (String.utf8EncodeChar c ++ rest) = c :: lossy rest := by
  have read := firstChar_encode c rest
  have length := String.length_utf8EncodeChar c
  cases code : String.utf8EncodeChar c with
  | nil => exact absurd code String.utf8EncodeChar_ne_nil
  | cons b more =>
      rw [code, List.cons_append] at read
      rw [code, List.length_cons] at length
      have skipped : (more ++ rest).drop (c.utf8Size - 1) = rest := by
        rw [← length, Nat.add_sub_cancel, List.drop_left]
      rw [List.cons_append, lossy, read]
      dsimp only
      rw [skipped]

/-- Valid bytes are read as they are. -/
theorem lossy_bytes (s : Text) : lossy (bytes s) = s := by
  induction s with
  | nil => rw [bytes, List.flatMap_nil, lossy]
  | cons c s ih => rw [bytes, List.flatMap_cons, lossy_encode, ← bytes, ih]

theorem encode_ascii {c : Char} (ascii : c.toNat < 128) : String.utf8EncodeChar c = [byte c] := by
  have small : c.val.toNat ≤ 127 := Nat.le_of_lt_succ ascii
  simp only [String.utf8EncodeChar, if_pos small]
  rfl

theorem encode_wide {c : Char} (wide : 128 ≤ c.toNat) : ∀ b ∈ String.utf8EncodeChar c, 128 ≤ b.toNat := by
  have large : ¬c.val.toNat ≤ 127 := Nat.not_le.mpr wide
  simp only [String.utf8EncodeChar, if_neg large]
  intro b member
  split at member
  · simp only [List.mem_cons, List.not_mem_nil, or_false] at member
    rcases member with rfl | rfl <;> rw [UInt8.toNat_ofNat'] <;> omega
  · split at member
    · simp only [List.mem_cons, List.not_mem_nil, or_false] at member
      rcases member with rfl | rfl | rfl <;> rw [UInt8.toNat_ofNat'] <;> omega
    · simp only [List.mem_cons, List.not_mem_nil, or_false] at member
      rcases member with rfl | rfl | rfl | rfl <;> rw [UInt8.toNat_ofNat'] <;> omega

theorem firstChar_ascii {b : UInt8} (ascii : b.toNat < 128) (rest : List UInt8) : firstChar (b :: rest) ≠ none := by
  have valid : b.toNat.isValidChar := .inl (by omega)
  have code : (Char.ofNat b.toNat).toNat = b.toNat := by
    rw [Char.ofNat, dif_pos valid]
    rfl
  have encoded : String.utf8EncodeChar (Char.ofNat b.toNat) = [b] := by
    rw [encode_ascii (by omega), byte, code, UInt8.ofNat_toNat]
  have read := firstChar_encode (Char.ofNat b.toNat) rest
  rw [encoded, List.singleton_append] at read
  rw [read]
  exact Option.some_ne_none _

/-- A broken character has no ASCII bytes. -/
theorem broken_wide (first : UInt8) (rest : List UInt8) : ∀ b ∈ rest.take (brokenLength first rest), 128 ≤ b.toNat := by
  have continuation : ∀ {b : UInt8}, isContinuation b = true → 128 ≤ b.toNat := by
    intro b h
    simp only [isContinuation, Bool.and_eq_true, decide_eq_true_eq] at h
    exact h.1
  have begins : ∀ {second : UInt8}, beginsWide first second = true → 128 ≤ second.toNat := by
    intro second h
    unfold beginsWide at h
    split_ifs at h
    all_goals first
      | exact continuation h
      | simp only [Bool.and_eq_true, decide_eq_true_eq] at h
        omega
  cases rest with
  | nil => simp [brokenLength]
  | cons second rest =>
      by_cases wide : 3 ≤ charWidth first ∧ beginsWide first second = true
      · have one := begins wide.2
        cases rest with
        | nil => simp [brokenLength, wide, one]
        | cons third rest =>
            by_cases full : charWidth first = 4 ∧ isContinuation third = true
            · simp [brokenLength, wide, full, one, continuation full.2]
            · simp [brokenLength, wide, full, one]
      · simp [brokenLength, wide]

theorem count_encode {sep : Char} (ascii : sep.toNat < 128) (c : Char) :
    (String.utf8EncodeChar c).count (byte sep) = [c].count sep := by
  have sepByte : (byte sep).toNat = sep.toNat := by
    rw [byte, UInt8.toNat_ofNat']
    omega
  rcases Nat.lt_or_ge c.toNat 128 with small | wide
  · have cByte : (byte c).toNat = c.toNat := by
      rw [byte, UInt8.toNat_ofNat']
      omega
    have same : byte c = byte sep ↔ c = sep := by
      rw [← UInt8.toNat_inj, cByte, sepByte]
      exact Char.toNat_inj
    rw [encode_ascii small, List.count_singleton, List.count_singleton]
    simp only [beq_iff_eq, same]
  · have other : c ≠ sep := fun same => absurd ascii (Nat.not_lt.mpr (same ▸ wide))
    rw [List.count_eq_zero_of_not_mem, List.count_singleton, if_neg (by simpa using other)]
    intro member
    have large := encode_wide wide _ member
    omega

theorem count_wide {sep : Char} (ascii : sep.toNat < 128) {bs : List UInt8} (wide : ∀ b ∈ bs, 128 ≤ b.toNat) :
    bs.count (byte sep) = 0 := by
  refine List.count_eq_zero_of_not_mem fun member => ?_
  have large := wide _ member
  rw [byte, UInt8.toNat_ofNat'] at large
  omega

theorem count_lossy {sep : Char} (ascii : sep.toNat < 128) (bs : List UInt8) :
    (lossy bs).count sep = bs.count (byte sep) := by
  induction bs using lossy.induct with
  | case1 => rw [lossy, List.count_nil, List.count_nil]
  | case2 b rest c read ih =>
      obtain ⟨tail, eq⟩ := eq_of_firstChar read
      have width := c.utf8Size_pos
      have skipped : rest.drop (c.utf8Size - 1) = tail := by
        have dropped := congrArg (List.drop c.utf8Size) eq
        rw [← String.length_utf8EncodeChar c, List.drop_left, String.length_utf8EncodeChar] at dropped
        have position : c.utf8Size = (c.utf8Size - 1) + 1 := by omega
        rw [← dropped, position, List.drop_succ_cons, Nat.add_sub_cancel]
      rw [lossy, read]
      dsimp only
      rw [skipped] at ih ⊢
      rw [← List.singleton_append, List.count_append, ih, eq, List.count_append, count_encode ascii]
  | case3 b rest broken ih =>
      have wide : 128 ≤ b.toNat := by
        by_contra small
        exact firstChar_ascii (Nat.lt_of_not_le small) rest broken
      have front : (b :: rest.take (brokenLength b rest)).count (byte sep) = 0 :=
        count_wide ascii (List.forall_mem_cons.mpr ⟨wide, broken_wide b rest⟩)
      have split : b :: rest = (b :: rest.take (brokenLength b rest)) ++ rest.drop (brokenLength b rest) := by
        rw [List.cons_append, List.take_append_drop]
      have other : (replacementCharacter == sep) = false := by
        refine beq_eq_false_iff_ne.mpr fun same => ?_
        rw [← same] at ascii
        exact absurd ascii (by decide)
      rw [lossy, broken]
      dsimp only
      rw [List.count_cons, other, ih, split, List.count_append, front]
      simp

end Utf8
