import ServerPoller.VersionTokens

/-! Plain versions and ranges of them are found, whatever stands around them. -/

namespace ServerPoller
open Utf8 RustText Searches

/-- A version of two or three numbers, with the number of its patch read as 0 where it is missing. -/
inductive PlainVersion : Text → Nat × Nat → Prop
  | minor {a n} : IsNumber a n → PlainVersion ('1' :: '.' :: a) (n, 0)
  | patch {a b n p} : IsNumber a n → IsNumber b p → PlainVersion ('1' :: '.' :: (a ++ '.' :: b)) (n, p)

/-- The text before a version is empty or ends outside words. -/
def EndsOutside (s : Text) : Prop := ∀ c ∈ s.getLast?, c.isAlphanum = false ∧ c ≠ '.'

def GoesOn (s : Text) : Prop := ∀ c ∈ s.head?, c.isAlphanum = false ∧ c ≠ '.'

section Finding
variable {before after : Text}

theorem not_isDigit_of_not_isAlphanum {c : Char} (outside : c.isAlphanum = false) : c.isDigit = false := by
  rw [Bool.eq_false_iff, ne_eq, isAlphanum_iff, not_or, not_or] at outside
  rw [Bool.eq_false_iff, ne_eq, isDigit_iff]
  exact outside.2.2

theorem takeWhile_number {d after : Text} {n : Nat} (h : IsNumber d n) (stops : ∀ c ∈ after.head?, c.isDigit = false) :
    (d ++ after).takeWhile Char.isDigit = d := by
  rw [List.takeWhile_append_of_pos h.digits.2]
  cases after with
  | nil => rw [List.takeWhile_nil, List.append_nil]
  | cons c after => rw [List.takeWhile_cons, stops c rfl, if_neg Bool.false_ne_true, List.append_nil]

theorem number_finds (before after : Text) {d : Text} {n : Nat} (h : IsNumber d n) :
    Finds (number (before ++ (d ++ after)) (size before) (size (before ++ d))) (n : Int) := by
  refine finds_lift_bind (a := d) ?_ ?_
  · rw [← List.append_assoc, slice_size]
    rfl
  · rw [h.parseI32]
    rfl

theorem parseDigits_number (before : Text) {d : Text} {n : Nat} (h : IsNumber d n)
    (stops : ∀ c ∈ after.head?, c.isDigit = false) :
    parseDigits (bytes (before ++ (d ++ after))) (size before) = some (size (before ++ d)) := by
  rw [parseDigits_at, takeWhile_number h stops, if_neg h.digits.1]

theorem readNumber_finds (before : Text) {d : Text} {n : Nat} (h : IsNumber d n)
    (stops : ∀ c ∈ after.head?, c.isDigit = false) :
    Finds (readNumber (before ++ (d ++ after)) (size before)) ((n : Int), size (before ++ d)) := by
  refine finds_bind (a := size (before ++ d)) ?_ (finds_bind (number_finds before after h) (finds_pure _))
  rw [parseDigits_number before h stops]
  rfl

theorem readPatch_none (before : Text) (parts : List Int) (stops : GoesOn after) :
    Finds (readPatch (before ++ after) parts (size before)) (parts, size before) := by
  rw [readPatch, if_neg]
  · exact finds_pure _
  · rw [getElem?_eq_some_iff (by decide)]
    exact fun dot => (stops '.' dot).2 rfl

theorem readPatch_number (before : Text) (parts : List Int) {b : Text} {p : Nat} (h : IsNumber b p)
    (stops : GoesOn after) :
    Finds (readPatch (before ++ ('.' :: (b ++ after))) parts (size before))
      (parts ++ [(p : Int)], size (before ++ '.' :: b)) := by
  have next : size before + 1 = size (before ++ ['.']) := size_push before (by decide)
  have digit : ∀ c ∈ (b ++ after).head?, c.isDigit = true := by
    obtain ⟨full, digits⟩ := h.digits
    rw [List.head?_append_of_ne_nil _ full]
    exact fun c first => digits c (List.mem_of_head? first)
  have solid : ¬((bytes ((before ++ ['.']) ++ (b ++ after)))[size (before ++ ['.'])]? = some (byte 'x') ∨
      (bytes ((before ++ ['.']) ++ (b ++ after)))[size (before ++ ['.'])]? = some (byte 'X')) := by
    rintro (lower | upper)
    · exact absurd (digit 'x' ((getElem?_eq_some_iff (by decide) _ _).mp lower)) (by decide)
    · exact absurd (digit 'X' ((getElem?_eq_some_iff (by decide) _ _).mp upper)) (by decide)
  have scanned := parseDigits_number (before ++ ['.']) h
    fun c first => not_isDigit_of_not_isAlphanum (stops c first).1
  have found_ := number_finds (before ++ ['.']) after h
  rw [← List.append_cons before '.' b] at scanned found_
  rw [readPatch, if_pos ((getElem?_eq_some_iff (by decide) ..).mpr rfl)]
  dsimp only
  rw [List.append_cons, next, if_neg solid, scanned]
  exact finds_bind found_ (finds_pure _)

theorem readSuffix_none (before : Text)
    (plain : ∀ rest, after = '-' :: rest → startsWithVersionSuffix rest = false) :
    readSuffix (before ++ after) (size before) = .ok (size before) := by
  unfold readSuffix
  split
  · rename_i dash
    rw [getElem?_eq_some_iff (by decide)] at dash
    obtain ⟨rest, rfl⟩ := List.head?_eq_some_iff.mp dash
    rw [List.append_cons, size_push before (c := '-') (by decide), sliceFrom_size]
    simp only [sliced, pure_bind, plain rest rfl, Bool.false_eq_true, if_false]
    rfl
  · rfl

theorem isNumber_one : IsNumber ['1'] 1 := ⟨by decide, by decide⟩

theorem parseToken_of_patch (before : Text) {a x : Text} {n : Nat} {parts : List Int} (minor : IsNumber a n)
    (ends : ∀ c ∈ (x ++ after).head?, c.isDigit = false)
    (patch : Finds (readPatch ((before ++ '1' :: '.' :: a) ++ (x ++ after)) [1, (n : Int)]
      (size (before ++ '1' :: '.' :: a))) (parts, size ((before ++ '1' :: '.' :: a) ++ x)))
    (stops : GoesOn after) (plain : ∀ rest, after = '-' :: rest → startsWithVersionSuffix rest = false) :
    Finds (parseMinecraftVersionToken (before ++ ('1' :: '.' :: (a ++ x) ++ after)) (size before))
      (⟨trimLabel ('1' :: '.' :: (a ++ x)), parts⟩, size (before ++ '1' :: '.' :: (a ++ x))) := by
  have atMajor : before ++ ('1' :: '.' :: (a ++ x) ++ after) = before ++ (['1'] ++ '.' :: (a ++ (x ++ after))) := by simp
  have atDot : before ++ (['1'] ++ '.' :: (a ++ (x ++ after))) = (before ++ ['1']) ++ '.' :: (a ++ (x ++ after)) := by simp
  have atMinor : (before ++ ['1']) ++ '.' :: (a ++ (x ++ after)) = (before ++ ['1', '.']) ++ (a ++ (x ++ after)) := by simp
  have afterMinor : before ++ ['1', '.'] ++ a = before ++ '1' :: '.' :: a := by simp
  have atPatch : (before ++ ['1', '.']) ++ (a ++ (x ++ after)) = (before ++ '1' :: '.' :: a) ++ (x ++ after) := by simp
  have atEnd : (before ++ '1' :: '.' :: a) ++ (x ++ after) = ((before ++ '1' :: '.' :: a) ++ x) ++ after := by simp
  have shape : (before ++ '1' :: '.' :: a) ++ x = before ++ '1' :: '.' :: (a ++ x) := by simp
  have next : size (before ++ ['1']) + 1 = size (before ++ ['1', '.']) := by
    rw [size_push (before ++ ['1']) (c := '.') (by decide), List.append_assoc]
    rfl
  rw [atMajor]
  refine finds_bind (readNumber_finds before isNumber_one (by rintro _ ⟨⟩; decide)) ?_
  dsimp only
  rw [atDot, if_neg]
  · rw [next, atMinor]
    refine finds_bind (readNumber_finds (before ++ ['1', '.']) minor ends) ?_
    dsimp only
    rw [atPatch, afterMinor]
    refine finds_bind patch ?_
    dsimp only
    rw [atEnd]
    refine finds_lift_bind (readSuffix_none _ plain) ?_
    have outside : ((bytes (((before ++ '1' :: '.' :: a) ++ x) ++ after))[
        size ((before ++ '1' :: '.' :: a) ++ x)]?).any isAsciiAlphanumeric = false := by
      rw [reads_isAlphanum.any, Option.any_eq_false]
      intro c first
      exact Bool.not_eq_true _ ▸ (stops c first).1
    rw [if_neg (Bool.eq_false_iff.mp outside), shape]
    exact finds_lift_bind (by rw [slice_size]; rfl) (finds_pure _)
  · rw [not_or, not_not, not_not, getElem?_eq_some_iff (by decide)]
    exact ⟨rfl, rfl⟩

theorem trimLabel_digits (base : Text) {d : Text} {n : Nat} (h : IsNumber d n) : trimLabel (base ++ d) = base ++ d := by
  have solid : ∀ c, c = 'x' ∨ c = 'X' → ¬['.', c] <:+ base ++ d := by
    rintro c wildcard ⟨t, same⟩
    exact not_wildcard_of_digits wildcard h.digits.1 h.digits.2 same
  rw [trimLabel, trimEndMatches_eq_self (solid 'x' (.inl rfl)), trimEndMatches_eq_self (solid 'X' (.inr rfl))]

/-- A plain version is read off where it stands. -/
theorem parseToken_plain (before : Text) {x : Text} {v : Nat × Nat} (h : PlainVersion x v) (stops : GoesOn after)
    (plain : ∀ rest, after = '-' :: rest → startsWithVersionSuffix rest = false) :
    ∃ parts, TokenOf ⟨x, parts⟩ x v ∧
      Finds (parseMinecraftVersionToken (before ++ (x ++ after)) (size before)) (⟨x, parts⟩, size (before ++ x)) := by
  have noDigit : ∀ c ∈ after.head?, c.isDigit = false := fun c first => not_isDigit_of_not_isAlphanum (stops c first).1
  cases h with
  | @minor a n number =>
      refine ⟨[1, n], ⟨⟨['1'], a, [], [], by simp, isNumber_one, number, .none, .none⟩, List.prefix_refl _,
        .inl ⟨rfl, rfl⟩⟩, ?_⟩
      have parsed := parseToken_of_patch before (x := []) number noDigit
        (by rw [List.append_nil]; exact readPatch_none _ _ stops) stops plain
      rw [List.append_nil, ← List.singleton_append (l := a), ← List.cons_append, trimLabel_digits _ number] at parsed
      exact parsed
  | @patch a b n p number number' =>
      refine ⟨[1, n, p], ⟨⟨['1'], a, '.' :: b, [], by simp, isNumber_one, number, .number number', .none⟩,
        List.prefix_refl _, .inr rfl⟩, ?_⟩
      have parsed := parseToken_of_patch before (x := '.' :: b) number (by rintro _ ⟨⟩; decide)
        (readPatch_number _ _ number' stops) stops plain
      have shape : '1' :: '.' :: (a ++ '.' :: b) = ('1' :: '.' :: (a ++ ['.'])) ++ b := by simp
      rw [shape, trimLabel_digits _ number', ← shape] at parsed
      exact parsed

theorem firstToken_skip (value before p rest : Text) (noOne : '1' ∉ p) :
    (firstToken value (size before) (p ++ rest)).run = (firstToken value (size (before ++ p)) rest).run := by
  induction p generalizing before with
  | nil => rw [List.nil_append, List.append_nil]
  | cons ch p ih =>
      rw [List.mem_cons, not_or] at noOne
      have silent : (tokenAt value (size before) ch).run = .ok none := by
        rw [tokenAt, if_pos (fun same => noOne.1 same.symm)]
        rfl
      have next : size before + ch.utf8Size = size (before ++ [ch]) := by
        rw [size_append, size_cons, size_nil, Nat.add_zero]
      rw [List.cons_append, firstToken, run_orElse silent, next]
      refine (ih (before ++ [ch]) noOne.2).trans ?_
      rw [← List.append_cons]

/-- The first token is the version before which there is no 1. -/
theorem findToken_plain {p x : Text} {v : Nat × Nat} (h : PlainVersion x v) (noOne : '1' ∉ p)
    (outside : EndsOutside p) (stops : GoesOn after)
    (plain : ∀ rest, after = '-' :: rest → startsWithVersionSuffix rest = false) :
    ∃ parts, TokenOf ⟨x, parts⟩ x v ∧
      Finds (findMinecraftVersionToken (p ++ (x ++ after)) 0) (⟨x, parts⟩, size (p ++ x)) := by
  obtain ⟨parts, token, parsed⟩ := parseToken_plain p h stops plain
  obtain ⟨x', start⟩ : ∃ x', x = '1' :: x' := by cases h <;> exact ⟨_, rfl⟩
  refine ⟨parts, token, finds_lift_bind (a := p ++ (x ++ after)) (by rw [sliceFrom_zero]; rfl) ?_⟩
  have skipped := firstToken_skip (p ++ (x ++ after)) [] p (x ++ after) noOne
  rw [Finds, ← size_nil, skipped, List.nil_append]
  have found_ : Finds (tokenAt (p ++ (x ++ after)) (size p) '1') (⟨x, parts⟩, size (p ++ x)) := by
    rw [tokenAt, if_neg (fun other => other rfl), isVersionBoundaryBefore, sliceTo_size]
    refine finds_lift_bind (a := true) ?_ parsed
    have boundary : p.getLast?.all (fun ch => !ch.isAlphanum && ch != '.') = true := by
      rw [Option.all_eq_true]
      intro c last
      rw [(outside c last).1, Bool.not_false, Bool.true_and]
      exact bne_iff_ne.mpr (outside c last).2
    exact congrArg Except.ok boundary
  have first : (x ++ after) = '1' :: (x' ++ after) := by rw [start, List.cons_append]
  rw [first] at found_ ⊢
  exact found_.orElse

def OneSpace (s : Text) : Prop := s = [] ∨ s = [' ']

theorem trimStart_oneSpace {s rest : Text} {c : Char} (space : OneSpace s) (solid : isWhitespace c = false) :
    trimStart (s ++ c :: rest) = c :: rest := by
  have stops : trimStart (c :: rest) = c :: rest := by
    rw [trimStart, List.dropWhile_cons, solid, if_neg Bool.false_ne_true]
  rcases space with rfl | rfl
  · exact stops
  · exact stops

theorem secondToken_plain (before : Text) {s s' y : Text} {w : Nat × Nat} (h : PlainVersion y w) (space : OneSpace s)
    (space' : OneSpace s') (stops : GoesOn after) (noDash : after.head? ≠ some '-') :
    ∃ parts stop, TokenOf ⟨y, parts⟩ y w ∧
      Finds (secondToken (before ++ (s ++ '-' :: (s' ++ (y ++ after)))) (size before)) (⟨y, parts⟩, stop) := by
  obtain ⟨y', start⟩ : ∃ y', y = '1' :: y' := by cases h <;> exact ⟨_, rfl⟩
  have trimmed : trimStart (s' ++ (y ++ after)) = y ++ after := by
    rw [start, List.cons_append]
    exact trimStart_oneSpace space' (by decide)
  obtain ⟨front, _, second⟩ := secondToken_dash before
    (trimStart_oneSpace space (by decide) : trimStart (s ++ '-' :: (s' ++ (y ++ after))) = '-' :: (s' ++ (y ++ after)))
  obtain ⟨parts, token, parsed⟩ := parseToken_plain front h stops
    (fun rest dash => absurd (by rw [dash]; rfl) noDash)
  refine ⟨parts, size (front ++ y), token, ?_⟩
  rw [second, trimmed]
  exact parsed

theorem secondToken_none (before : Text) (noDash : '-' ∉ after) :
    secondToken (before ++ after) (size before) = failure :=
  secondToken_other before fun first =>
    noDash ((List.dropWhile_suffix isWhitespace).subset (List.mem_of_head? first))

end Finding

section Sanitizing
variable {raw p x q : Text} {v : Nat × Nat}

/-- Without a mark for a version in parentheses the sanitizer searches the text. -/
theorem sanitize_of_search (full : normalizeVersionCandidate raw ≠ [])
    (noMc : ¬mcMark <:+: toAsciiLowercase (normalizeVersionCandidate raw)) :
    sanitizeMinecraftVersion raw = searchVersion (normalizeVersionCandidate raw) := by
  have none_ : (extractMcParenthetical (normalizeVersionCandidate raw)).run = .ok none := by
    rw [extractMcParenthetical, find_eq_none noMc]
    exact run_bind_none rfl
  rw [sanitizeMinecraftVersion, sanitizeWithin, sanitizeCall]
  dsimp only
  rw [if_neg full, none_]
  rfl

theorem searchVersion_range {value : Text} {first second : MinecraftVersionToken} {stop stop' : Nat}
    (here : Finds (findMinecraftVersionToken value 0) (first, stop))
    (later : Finds (secondToken value stop) (second, stop')) :
    searchVersion value = .ok (formatVersionRange first second) := by
  rw [Finds] at here later
  rw [searchVersion, here]
  show ((secondToken value stop).run >>= _) = _
  rw [later]
  rfl

theorem searchVersion_single {value : Text} {first : MinecraftVersionToken} {stop : Nat}
    (here : Finds (findMinecraftVersionToken value 0) (first, stop)) (alone : secondToken value stop = failure) :
    searchVersion value = .ok first.label := by
  rw [Finds] at here
  rw [searchVersion, here]
  show ((secondToken value stop).run >>= _) = _
  rw [alone]
  rfl

theorem PlainVersion.unique {w : Nat × Nat} (h : PlainVersion x v) (k : PlainVersion x w) : v = w := by
  have value : ∀ {d : Text} {n m : Nat}, IsNumber d n → IsNumber d m → n = m :=
    fun first second => Option.some.inj (first.1.symm.trans second.1)
  have front : ∀ {a b a' b' : Text} {n m : Nat}, IsNumber a n → IsNumber a' m → a ++ '.' :: b = a' ++ '.' :: b' →
      a = a' ∧ b = b' := by
    intro a b a' b' n m first second same
    have dot : ∀ c ∈ ('.' :: b).head?, c.isDigit = false := by rintro _ ⟨⟩; decide
    have heads := congrArg (List.takeWhile Char.isDigit) same
    rw [takeWhile_number first dot, takeWhile_number second (by rintro _ ⟨⟩; decide)] at heads
    subst heads
    exact ⟨rfl, List.tail_eq_of_cons_eq (List.append_cancel_left same)⟩
  have alone : ∀ {a a' b' : Text} {n : Nat}, IsNumber a n → a ≠ a' ++ '.' :: b' := by
    rintro a a' b' n number rfl
    have digit := number.digits.2 '.' (List.mem_append_right a' List.mem_cons_self)
    exact absurd digit (by decide)
  cases h with
  | minor number =>
      generalize eq : '1' :: '.' :: _ = text at k
      cases k with
      | minor number' =>
          cases eq
          rw [value number number']
      | patch _ _ => exact absurd (List.cons.inj (List.cons.inj eq).2).2 (alone number)
  | patch number number' =>
      generalize eq : '1' :: '.' :: _ = text at k
      cases k with
      | minor other => exact absurd (List.cons.inj (List.cons.inj eq).2).2.symm (alone other)
      | patch other other' =>
          obtain ⟨rfl, rfl⟩ := front number other (List.cons.inj (List.cons.inj eq).2).2
          rw [value number other, value number' other']

/-- The range starts with the lower version; of two spellings of one version the first is kept first. -/
theorem formatVersionRange_plain {y : Text} {w : Nat × Nat} {parts parts' : List Int}
    (hx : TokenOf ⟨x, parts⟩ x v) (hy : TokenOf ⟨y, parts'⟩ y w) (same : x = y → v = w) :
    formatVersionRange ⟨x, parts⟩ ⟨y, parts'⟩ =
      if x = y then x else if toLex w < toLex v then y ++ '-' :: x else x ++ '-' :: y := by
  have order := compareVersionParts_tokens hx hy
  have differ : ∀ {o}, o ≠ .eq → (compare (v.1 : Int) w.1).then (compare (v.2 : Int) w.2) = o → x ≠ y := by
    rintro o other eq texts
    rw [same texts, compare_eq_iff_eq.mpr rfl, compare_eq_iff_eq.mpr rfl] at eq
    exact other eq.symm
  unfold formatVersionRange
  split
  · rename_i equal
    rw [equal] at order
    have notLess : ¬toLex w < toLex v := (toLex_le_of_compare (by rw [← order]; decide)).not_gt
    dsimp only
    rw [if_neg notLess]
  · rename_i greater
    rw [greater] at order
    rw [if_neg (differ (by decide) order.symm), if_pos (toLex_lt_of_compare order.symm)]
  · rename_i less
    rw [less] at order
    have notLess : ¬toLex w < toLex v := (toLex_le_of_compare (by rw [← order]; decide)).not_gt
    rw [if_neg (differ (by decide) order.symm), if_neg notLess]

theorem startsWithVersionSuffix_false {c : Char} {rest : Text} (solid : c.toLower.isLower = false) :
    startsWithVersionSuffix (c :: rest) = false := by
  have starts : ∀ p ∈ versionSuffixPrefixes, p.head?.any Char.isLower = true := by decide
  rw [startsWithVersionSuffix, List.any_eq_false]
  intro p known start
  have lower := starts p known
  cases p with
  | nil => cases lower
  | cons l p' =>
      have first := (List.cons_prefix_cons.mp (of_decide_eq_true start)).1
      rw [List.head?_cons, Option.any_some, first, solid] at lower
      cases lower

/-- Around plain versions in a normalized text without a 1 before them, nothing matters. -/
theorem plain_versions_found (raw p x q : Text) (v : Nat × Nat) (plain : PlainVersion x v) (noOne : '1' ∉ p)
    (outside : EndsOutside p) (goesOn : GoesOn q) (noDash : q.head? ≠ some '-')
    (noMc : ¬mcMark <:+: toAsciiLowercase (normalizeVersionCandidate raw)) :
    (∀ s s' y w, OneSpace s → OneSpace s' → PlainVersion y w →
      normalizeVersionCandidate raw = p ++ x ++ s ++ ['-'] ++ s' ++ y ++ q →
        sanitizeMinecraftVersion raw =
          .ok (if x = y then x else if toLex w < toLex v then y ++ '-' :: x else x ++ '-' :: y)) ∧
      (normalizeVersionCandidate raw = p ++ x ++ q → '-' ∉ q → sanitizeMinecraftVersion raw = .ok x) := by
  obtain ⟨x', start⟩ : ∃ x', x = '1' :: x' := by cases plain <;> exact ⟨_, rfl⟩
  have full : ∀ rest, p ++ (x ++ rest) ≠ [] := by
    intro rest empty
    rw [start] at empty
    exact absurd (List.append_eq_nil_iff.mp empty).2 nofun
  constructor
  · intro s s' y w space space' plain' normal
    have shape : p ++ x ++ s ++ ['-'] ++ s' ++ y ++ q = p ++ (x ++ (s ++ '-' :: (s' ++ (y ++ q)))) := by simp
    rw [shape] at normal
    obtain ⟨y', start'⟩ : ∃ y', y = '1' :: y' := by cases plain' <;> exact ⟨_, rfl⟩
    have next : GoesOn (s ++ '-' :: (s' ++ (y ++ q))) := by
      rcases space with rfl | rfl
      · rintro _ ⟨⟩
        decide
      · rintro _ ⟨⟩
        decide
    have noSuffix : ∀ rest, s ++ '-' :: (s' ++ (y ++ q)) = '-' :: rest → startsWithVersionSuffix rest = false := by
      intro rest eq
      have afterDash : ∃ c rest', rest = c :: rest' ∧ c.toLower.isLower = false := by
        rcases space with rfl | rfl
        · cases eq
          rcases space' with rfl | rfl
          · exact ⟨'1', y' ++ q, by rw [start']; rfl, by decide⟩
          · exact ⟨' ', y ++ q, rfl, by decide⟩
        · exact absurd (List.cons.inj eq).1 (by decide)
      obtain ⟨c, rest', rfl, solid⟩ := afterDash
      exact startsWithVersionSuffix_false solid
    obtain ⟨parts, token, first⟩ := findToken_plain plain noOne outside next noSuffix
    obtain ⟨parts', stop, token', second⟩ := secondToken_plain (p ++ x) plain' space space' goesOn noDash
    rw [sanitize_of_search (normal ▸ full _) noMc, normal]
    rw [List.append_assoc] at second
    rw [searchVersion_range first second, formatVersionRange_plain token token' fun eq => plain.unique (eq ▸ plain')]
  · intro normal noDash'
    rw [List.append_assoc] at normal
    obtain ⟨parts, token, first⟩ := findToken_plain plain noOne outside goesOn
      fun rest dash => absurd (by rw [dash]; rfl) noDash
    have alone := secondToken_none (p ++ x) noDash'
    rw [List.append_assoc] at alone
    rw [sanitize_of_search (normal ▸ full _) noMc, normal]
    exact searchVersion_single first alone

end Sanitizing

/-- A range that a proxy spells from the higher version to the lower, behind a colour code. -/
theorem plain_versions_found_swapped :
    sanitizeMinecraftVersion ['§', 'a', 'V', ' ', '1', '.', '9', ' ', '-', '1', '.', '8', '.', '2', '+'] =
      .ok ['1', '.', '8', '.', '2', '-', '1', '.', '9'] := by
  have outside : EndsOutside ['V', ' '] := by rintro _ ⟨⟩; decide
  have goesOn : GoesOn ['+'] := by rintro _ ⟨⟩; decide
  have nine : PlainVersion ['1', '.', '9'] (9, 0) := .minor (a := ['9']) ⟨by decide, by decide⟩
  have eight : PlainVersion ['1', '.', '8', '.', '2'] (8, 2) :=
    .patch (a := ['8']) (b := ['2']) ⟨by decide, by decide⟩ ⟨by decide, by decide⟩
  have less : toLex (8, 2) < toLex (9, 0) := Prod.Lex.toLex_lt_toLex.mpr (.inl (by decide))
  have range := (plain_versions_found
    ['§', 'a', 'V', ' ', '1', '.', '9', ' ', '-', '1', '.', '8', '.', '2', '+'] ['V', ' '] ['1', '.', '9'] ['+'] (9, 0)
    nine (by decide) outside goesOn (by decide) (by decide +kernel)).1 [' '] [] ['1', '.', '8', '.', '2'] (8, 2)
    (.inr rfl) (.inl rfl) eight (by decide +kernel)
  rw [if_neg (by decide), if_pos less] at range
  exact range

end ServerPoller
