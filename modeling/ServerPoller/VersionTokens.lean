import ServerPoller.VersionSanitizer
import Mathlib.Data.Prod.Lex

/-! What the version sanitizer may put out. Each scanning function is described on the characters from its
offset on, and never panics. -/

namespace ServerPoller
open Utf8 RustText Searches

def IsNumber (d : Text) (n : Nat) : Prop := digitsValue d = some n ∧ n < 2 ^ 31

/-- What may follow the minor number, and the patch number that it stands for. -/
inductive PatchPart : Text → Nat → Prop
  | none : PatchPart [] 0
  | number {d n} : IsNumber d n → PatchPart ('.' :: d) n
  | wildcard {c} : c = 'x' ∨ c = 'X' → PatchPart ['.', c] 0

/-- Letters, digits, dots and dashes that start, ignoring case, as a suffix must. -/
structure IsSuffix (s : Text) : Prop where
  letters : ∀ c ∈ s, c.isAlphanum = true ∨ c = '.' ∨ c = '-'
  starts : ∃ p ∈ versionSuffixPrefixes, p <+: toAsciiLowercase s

inductive SuffixPart : Text → Prop
  | none : SuffixPart []
  | some {s} : IsSuffix s → SuffixPart ('-' :: s)

/-- A version of major number 1 with these minor and patch numbers. -/
def IsVersion (text : Text) (v : Nat × Nat) : Prop :=
  ∃ major minor patch suffix, text = major ++ '.' :: (minor ++ patch ++ suffix) ∧ IsNumber major 1 ∧
    IsNumber minor v.1 ∧ PatchPart patch v.2 ∧ SuffixPart suffix

/-- What a token holds of a version: its text, without wildcards at its end, and its numbers. -/
structure TokenOf (token : MinecraftVersionToken) (text : Text) (v : Nat × Nat) : Prop where
  version : IsVersion token.label v
  label : token.label <+: text
  parts : (token.parts = [1, (v.1 : Int)] ∧ v.2 = 0) ∨ token.parts = [1, (v.1 : Int), (v.2 : Int)]

theorem IsNumber.digits {d : Text} {n : Nat} (h : IsNumber d n) : d ≠ [] ∧ ∀ c ∈ d, c.isDigit = true := by
  have value := h.1
  rw [digitsValue] at value
  split at value
  · cases value
  · rename_i clean
    rw [Bool.or_eq_true, not_or, List.isEmpty_iff, Bool.not_eq_true, List.any_eq_false] at clean
    exact ⟨clean.1, fun c member => by simpa using clean.2 c member⟩

theorem not_isDigit_of_wildcard {c : Char} (wildcard : c = 'x' ∨ c = 'X') : c.isDigit = false := by
  rcases wildcard with rfl | rfl <;> decide

theorem suffixPrefixes_plain : ∀ p ∈ versionSuffixPrefixes, '.' ∉ p ∧ 2 ≤ p.length := by decide

theorem prefix_of_prefix_append {p a b : Text} {c : Char} (start : p <+: a ++ c :: b) (absent : c ∉ p) : p <+: a := by
  rcases Nat.le_total p.length a.length with short | long
  · exact List.prefix_of_prefix_length_le start (List.prefix_append a _) short
  · rcases Nat.lt_or_eq_of_le long with less | same
    · have inside : a ++ [c] <+: p := by
        refine List.prefix_of_prefix_length_le ⟨b, ?_⟩ start ?_
        · rw [List.append_assoc]
          rfl
        · rw [List.length_append, List.length_singleton]
          exact less
      exact absurd (inside.subset (List.mem_append_right a (List.mem_singleton_self c))) absent
    · exact (List.prefix_of_prefix_length_le start (List.prefix_append a _) same.ge)

theorem IsSuffix.dropWildcard {s : Text} {c : Char} (h : IsSuffix (s ++ ['.', c])) : IsSuffix s := by
  refine ⟨fun d member => h.letters d (List.mem_append_left _ member), ?_⟩
  obtain ⟨p, known, start⟩ := h.starts
  rw [toAsciiLowercase, List.map_append] at start
  exact ⟨p, known, prefix_of_prefix_append start (suffixPrefixes_plain p known).1⟩

theorem IsSuffix.length {s : Text} (h : IsSuffix s) : 2 ≤ s.length := by
  obtain ⟨p, known, start⟩ := h.starts
  have enough := start.length_le
  rw [toAsciiLowercase, List.length_map] at enough
  exact (suffixPrefixes_plain p known).2.trans enough

theorem not_wildcard_of_digits {t base d : Text} {c : Char} (wildcard : c = 'x' ∨ c = 'X') (full : d ≠ [])
    (digits : ∀ c ∈ d, c.isDigit = true) : t ++ ['.', c] ≠ base ++ d := by
  intro same
  have last := congrArg List.getLast? same
  rw [List.getLast?_append_of_ne_nil _ (List.cons_ne_nil _ _), List.getLast?_append_of_ne_nil _ full] at last
  have member : c ∈ d := List.mem_of_getLast? last.symm
  exact absurd ((digits c member).symm.trans (not_isDigit_of_wildcard wildcard)) nofun

theorem IsVersion.dropWildcard {t : Text} {c : Char} {v : Nat × Nat} (wildcard : c = 'x' ∨ c = 'X')
    (h : IsVersion (t ++ ['.', c]) v) : IsVersion t v := by
  obtain ⟨major, minor, patch, suffix, eq, hMajor, hMinor, hPatch, hSuffix⟩ := h
  obtain ⟨n, p⟩ := v
  dsimp only at hMinor hPatch
  cases hSuffix with
  | none =>
      rw [List.append_nil] at eq
      cases hPatch with
      | none =>
          have shape : major ++ '.' :: (minor ++ []) = (major ++ ['.']) ++ minor := by simp
          exact absurd (eq.trans shape) (not_wildcard_of_digits wildcard hMinor.digits.1 hMinor.digits.2)
      | @number d n number =>
          have shape : major ++ '.' :: (minor ++ '.' :: d) = (major ++ '.' :: (minor ++ ['.'])) ++ d := by simp
          exact absurd (eq.trans shape) (not_wildcard_of_digits wildcard number.digits.1 number.digits.2)
      | @wildcard e _ =>
          have shape : major ++ '.' :: (minor ++ ['.', e]) = (major ++ '.' :: minor) ++ ['.', e] := by simp
          have front := (List.append_inj' (eq.trans shape) rfl).1
          exact ⟨major, minor, [], [], by rw [front, List.append_nil, List.append_nil], hMajor, hMinor, .none, .none⟩
  | @some s hs =>
      have shape : major ++ '.' :: (minor ++ patch ++ '-' :: s) = (major ++ '.' :: (minor ++ patch ++ ['-'])) ++ s := by
        simp
      have ends : ['.', c] <:+ s :=
        List.suffix_of_suffix_length_le ⟨t, eq.trans shape⟩ (List.suffix_append _ s) hs.length
      obtain ⟨s', rfl⟩ := ends
      rw [← List.append_assoc] at shape
      have front := List.append_cancel_right (eq.trans shape)
      exact ⟨major, minor, patch, '-' :: s', by rw [front]; simp, hMajor, hMinor, hPatch, .some hs.dropWildcard⟩

theorem trimLabel_version {text : Text} {v : Nat × Nat} (h : IsVersion text v) :
    IsVersion (trimLabel text) v ∧ trimLabel text <+: text := by
  have keep : ∀ c, c = 'x' ∨ c = 'X' → ∀ t, IsVersion (t ++ ['.', c]) v ∧ t ++ ['.', c] <+: text →
      IsVersion t v ∧ t <+: text := fun c wildcard t kept =>
    ⟨kept.1.dropWildcard wildcard, (List.prefix_append t _).trans kept.2⟩
  have lower := trimEndMatches_keeps (P := fun t => IsVersion t v ∧ t <+: text) (keep 'x' (.inl rfl))
    ⟨h, List.prefix_refl text⟩
  exact trimEndMatches_keeps (P := fun t => IsVersion t v ∧ t <+: text) (keep 'X' (.inr rfl)) lower

section Scanning
variable {before rest : Text} {v : Nat × Nat}

theorem isDigit_ascii {c : Char} (digit : c.isDigit = true) : c.toNat < 128 := by
  have range := isDigit_iff.mp digit
  omega

theorem digits_takeWhile (t : Text) : ∀ c ∈ t.takeWhile Char.isDigit, c.isDigit = true :=
  fun _ => List.mem_takeWhile_imp

theorem parseDigits_at (before rest : Text) :
    parseDigits (bytes (before ++ rest)) (size before) =
      if rest.takeWhile Char.isDigit = [] then none else some (size (before ++ rest.takeWhile Char.isDigit)) := by
  rw [parseDigits, reads_isDigit.any, reads_isDigit.skipWhile fun _ => isDigit_ascii]
  cases rest with
  | nil => rfl
  | cons c rest =>
      rw [List.head?_cons, Option.any_some, List.takeWhile_cons]
      cases c.isDigit <;> rfl

theorem parseI32_digits {d : Text} (digits : ∀ c ∈ d, c.isDigit = true) (full : d ≠ []) :
    parseI32 d = (digitsValue d).bind fun n => if n < 2 ^ 31 then some (n : Int) else none := by
  obtain ⟨c, d, rfl⟩ := List.exists_cons_of_ne_nil full
  have digit := digits c List.mem_cons_self
  have value : parseI32 (c :: d) = ((digitsValue (c :: d)).map Int.ofNat).bind fun n =>
      if -2 ^ 31 ≤ n ∧ n < 2 ^ 31 then some n else none := by
    unfold parseI32
    split
    · rename_i eq
      cases eq
      exact absurd digit (by decide)
    · rename_i eq
      cases eq
      exact absurd digit (by decide)
    · rfl
  rw [value]
  cases digitsValue (c :: d) with
  | none => rfl
  | some n =>
      rw [Option.map_some, Option.bind_some, Option.bind_some, Int.ofNat_eq_natCast]
      by_cases small : n < 2 ^ 31
      · rw [if_pos small, if_pos (by omega)]
      · rw [if_neg small, if_neg (by omega)]

theorem parseI32_number {d : Text} (digits : ∀ c ∈ d, c.isDigit = true) (full : d ≠ []) {n : Int}
    (parsed : parseI32 d = some n) : ∃ m : Nat, n = m ∧ IsNumber d m := by
  rw [parseI32_digits digits full, Option.bind_eq_some_iff] at parsed
  obtain ⟨m, value, bound⟩ := parsed
  split at bound
  · rename_i small
    cases bound
    exact ⟨m, rfl, value, small⟩
  · cases bound

theorem IsNumber.parseI32 {d : Text} {n : Nat} (h : IsNumber d n) : RustText.parseI32 d = some (n : Int) := by
  rw [parseI32_digits h.digits.2 h.digits.1, h.1, Option.bind_some, if_pos h.2]

theorem number_safe (before middle rest : Text) (digits : ∀ c ∈ middle, c.isDigit = true) (full : middle ≠ []) :
    Safe (number (before ++ (middle ++ rest)) (size before) (size (before ++ middle)))
      fun n => ∃ m : Nat, n = m ∧ IsNumber middle m := by
  refine safe_lift_bind (a := middle) ?_ (safe_found fun n parsed => parseI32_number digits full parsed)
  rw [← List.append_assoc, slice_size]
  rfl

theorem readNumber_safe (before rest : Text) :
    Safe (readNumber (before ++ rest) (size before)) fun r => ∃ d after, ∃ m : Nat,
      rest = d ++ after ∧ r.2 = size (before ++ d) ∧ IsNumber d m ∧ r.1 = m := by
  refine (safe_found (P := fun stop => rest.takeWhile Char.isDigit ≠ [] ∧
    stop = size (before ++ rest.takeWhile Char.isDigit)) fun stop eq => ?_).bind ?_
  · rw [parseDigits_at] at eq
    split at eq
    · cases eq
    · cases eq
      exact ⟨‹_›, rfl⟩
  · rintro _ ⟨full, rfl⟩
    have whole : rest = rest.takeWhile Char.isDigit ++ rest.dropWhile Char.isDigit :=
      List.takeWhile_append_dropWhile.symm
    have scanned := number_safe before (rest.takeWhile Char.isDigit) (rest.dropWhile Char.isDigit)
      (digits_takeWhile rest) full
    rw [← whole] at scanned
    refine scanned.bind ?_
    rintro _ ⟨m, rfl, value⟩
    exact safe_pure ⟨_, _, m, whole, rfl, value, rfl⟩

/-- The patch or the wildcard, as long as it has the number of the patch. -/
theorem readPatch_safe (before rest : Text) (parts : List Int) :
    Safe (readPatch (before ++ rest) parts (size before)) fun r => ∃ text after n,
      rest = text ++ after ∧ r.2 = size (before ++ text) ∧ PatchPart text n ∧
        ((r.1 = parts ∧ n = 0) ∨ r.1 = parts ++ [(n : Int)]) := by
  have none_ : Safe (pure (parts, size before) : Search Panic _) fun r => ∃ text after n,
      rest = text ++ after ∧ r.2 = size (before ++ text) ∧ PatchPart text n ∧
        ((r.1 = parts ∧ n = 0) ∨ r.1 = parts ++ [(n : Int)]) :=
    safe_pure ⟨[], rest, 0, rfl, by rw [List.append_nil], .none, .inl ⟨rfl, rfl⟩⟩
  unfold readPatch
  split
  · rename_i dot
    rw [getElem?_eq_some_iff (by decide)] at dot
    obtain ⟨after, rfl⟩ := List.head?_eq_some_iff.mp dot
    have whole : before ++ '.' :: after = (before ++ ['.']) ++ after := (List.append_cons ..)
    have next : size before + 1 = size (before ++ ['.']) := size_push before (by decide)
    dsimp only
    rw [whole, next]
    split
    · rename_i wildcard
      rw [getElem?_eq_some_iff (by decide), getElem?_eq_some_iff (by decide)] at wildcard
      obtain ⟨c, after, rfl, sort⟩ : ∃ c after', after = c :: after' ∧ (c = 'x' ∨ c = 'X') := by
        rcases wildcard with lower | upper
        · obtain ⟨after', rfl⟩ := List.head?_eq_some_iff.mp lower
          exact ⟨'x', after', rfl, .inl rfl⟩
        · obtain ⟨after', rfl⟩ := List.head?_eq_some_iff.mp upper
          exact ⟨'X', after', rfl, .inr rfl⟩
      have ascii : c.toNat < 128 := by rcases sort with rfl | rfl <;> decide
      refine safe_pure ⟨['.', c], after, 0, rfl, ?_, .wildcard sort, .inl ⟨rfl, rfl⟩⟩
      rw [size_push _ ascii, List.append_assoc]
      rfl
    · split
      · rename_i stop eq
        rw [parseDigits_at] at eq
        split at eq
        · cases eq
        · rename_i full
          cases eq
          have split : after = after.takeWhile Char.isDigit ++ after.dropWhile Char.isDigit :=
            List.takeWhile_append_dropWhile.symm
          have scanned := number_safe (before ++ ['.']) _ (after.dropWhile Char.isDigit)
            (digits_takeWhile after) full
          rw [← split] at scanned
          refine scanned.bind ?_
          rintro _ ⟨n, rfl, value⟩
          refine safe_pure ⟨'.' :: after.takeWhile Char.isDigit, after.dropWhile Char.isDigit, n, ?_, ?_,
            .number value, .inr rfl⟩
          · rw [List.cons_append, ← split]
          · rw [← List.append_cons]
      · exact none_
  · exact none_

def isSuffixChar (c : Char) : Bool := c.isAlphanum || c == '.' || c == '-'

theorem reads_isSuffixChar : Reads isSuffixByte isSuffixChar := by
  intro c
  have dot : (firstByte c == byte '.') = (c == '.') := reads_char '.' (by decide) c
  have dash : (firstByte c == byte '-') = (c == '-') := reads_char '-' (by decide) c
  rw [isSuffixByte, isSuffixChar, reads_isAlphanum c, dot, dash]

theorem isSuffixChar_ascii {c : Char} (passes : isSuffixChar c = true) : c.toNat < 128 := by
  rw [isSuffixChar, Bool.or_eq_true, Bool.or_eq_true, isAlphanum_iff] at passes
  rcases passes with (range | dot) | dash
  · omega
  · rw [eq_of_beq dot]
    decide
  · rw [eq_of_beq dash]
    decide

theorem suffixPrefixes_lower : ∀ p ∈ versionSuffixPrefixes, ∀ c ∈ p, c.isLower = true := by
  have all : versionSuffixPrefixes.all (·.all Char.isLower) = true := by decide
  exact fun p known c member => List.all_eq_true.mp (List.all_eq_true.mp all p known) c member

theorem isSuffix_takeWhile {s : Text} (starts : startsWithVersionSuffix s = true) :
    IsSuffix (s.takeWhile isSuffixChar) := by
  rw [startsWithVersionSuffix, List.any_eq_true] at starts
  obtain ⟨p, known, start⟩ := starts
  obtain ⟨a, b, rfl, lower⟩ := prefix_toAsciiLowercase (of_decide_eq_true start)
  have passes : ∀ c ∈ a, isSuffixChar c = true := by
    intro c member
    have small := suffixPrefixes_lower p known c.toLower (lower ▸ List.mem_map_of_mem member)
    rw [isSuffixChar, isAlphanum_of_toLower small, Bool.true_or, Bool.true_or]
  refine ⟨fun c member => ?_, p, known, ?_⟩
  · have passed := List.mem_takeWhile_imp member
    rwa [isSuffixChar, Bool.or_eq_true, Bool.or_eq_true, beq_iff_eq, beq_iff_eq, or_assoc] at passed
  · rw [List.takeWhile_append_of_pos passes, toAsciiLowercase, List.map_append, ← toAsciiLowercase, lower]
    exact List.prefix_append _ _

theorem readSuffix_at (before rest : Text) :
    ∃ text after, rest = text ++ after ∧ SuffixPart text ∧
      readSuffix (before ++ rest) (size before) = .ok (size (before ++ text)) := by
  have none_ : ∃ text after, rest = text ++ after ∧ SuffixPart text ∧
      (pure (size before) : Checked Nat) = .ok (size (before ++ text)) :=
    ⟨[], rest, rfl, .none, by rw [List.append_nil]; rfl⟩
  unfold readSuffix
  split
  · rename_i dash
    rw [getElem?_eq_some_iff (by decide)] at dash
    obtain ⟨after, rfl⟩ := List.head?_eq_some_iff.mp dash
    have whole : before ++ '-' :: after = (before ++ ['-']) ++ after := (List.append_cons ..)
    have next : size before + 1 = size (before ++ ['-']) := size_push before (by decide)
    rw [whole, next, sliceFrom_size, reads_isSuffixChar.skipWhile fun _ => isSuffixChar_ascii]
    cases starts : startsWithVersionSuffix after with
    | true =>
        refine ⟨'-' :: after.takeWhile isSuffixChar, after.dropWhile isSuffixChar, ?_, .some (isSuffix_takeWhile starts),
          ?_⟩
        · rw [List.cons_append, List.takeWhile_append_dropWhile]
        · simp only [sliced, pure_bind, starts, if_true, ← List.append_cons]
          rfl
    | false =>
        simp only [sliced, pure_bind, starts, Bool.false_eq_true, if_false]
        exact none_
  · exact none_

theorem parseToken_safe (before rest : Text) :
    Safe (parseMinecraftVersionToken (before ++ rest) (size before)) fun r => ∃ text after v,
      rest = text ++ after ∧ r.2 = size (before ++ text) ∧ TokenOf r.1 text v := by
  refine (readNumber_safe before rest).bind ?_
  rintro ⟨_, _⟩ ⟨major, afterMajor, _, rfl, rfl, majorValue, rfl⟩
  dsimp only
  split
  · exact safe_failure
  · rename_i one
    rw [not_or, not_not, not_not, ← List.append_assoc, getElem?_eq_some_iff (by decide)] at one
    obtain ⟨first, dot⟩ := one
    obtain ⟨afterDot, rfl⟩ := List.head?_eq_some_iff.mp dot
    have oneValue := Int.ofNat_inj.mp first
    subst oneValue
    have atMinor : before ++ (major ++ '.' :: afterDot) = (before ++ major ++ ['.']) ++ afterDot := by simp
    rw [atMinor, size_push _ (c := '.') (by decide)]
    refine (readNumber_safe _ afterDot).bind ?_
    rintro ⟨_, _⟩ ⟨minor, afterMinor, m, rfl, rfl, minorValue, rfl⟩
    dsimp only
    rw [← List.append_assoc]
    refine (readPatch_safe _ afterMinor _).bind ?_
    rintro ⟨parts, _⟩ ⟨patch, afterPatch, p, rfl, rfl, patchPart, numbers⟩
    dsimp only at numbers ⊢
    rw [← List.append_assoc]
    obtain ⟨suffix, after, rfl, suffixPart, ends⟩ :=
      readSuffix_at (before ++ major ++ ['.'] ++ minor ++ patch) afterPatch
    refine safe_lift_bind ends ?_
    split
    · exact safe_failure
    · have whole : before ++ major ++ ['.'] ++ minor ++ patch ++ (suffix ++ after) =
          before ++ (major ++ '.' :: (minor ++ patch ++ suffix)) ++ after := by simp
      have stop : before ++ major ++ ['.'] ++ minor ++ patch ++ suffix =
          before ++ (major ++ '.' :: (minor ++ patch ++ suffix)) := by simp
      rw [whole, stop]
      refine safe_lift_bind (a := major ++ '.' :: (minor ++ patch ++ suffix)) (by rw [slice_size]; rfl) ?_
      have version : IsVersion (major ++ '.' :: (minor ++ patch ++ suffix)) (m, p) :=
        ⟨major, minor, patch, suffix, rfl, majorValue, minorValue, patchPart, suffixPart⟩
      obtain ⟨label, shorter⟩ := trimLabel_version version
      refine safe_pure ⟨_, after, (m, p), ?_, rfl, label, shorter, ?_⟩
      · simp
      · rcases numbers with ⟨rfl, rfl⟩ | rfl
        · exact .inl ⟨rfl, rfl⟩
        · exact .inr rfl

/-- A token that was read off some place of a text. -/
def TokenIn (value : Text) (r : MinecraftVersionToken × Nat) : Prop :=
  ∃ before text after v, value = before ++ text ++ after ∧ r.2 = size (before ++ text) ∧ TokenOf r.1 text v

theorem parseToken_tokenIn (before rest : Text) :
    Safe (parseMinecraftVersionToken (before ++ rest) (size before)) (TokenIn (before ++ rest)) := by
  refine (parseToken_safe before rest).mono ?_
  rintro r ⟨text, after, v, rfl, stop, token⟩
  exact ⟨before, text, after, v, (List.append_assoc ..).symm, stop, token⟩

theorem firstToken_safe (before rest : Text) :
    Safe (firstToken (before ++ rest) (size before) rest) (TokenIn (before ++ rest)) := by
  induction rest generalizing before with
  | nil => exact safe_failure
  | cons ch rest ih =>
      have later := ih (before ++ [ch])
      rw [← List.append_cons, size_append, size_cons, size_nil, Nat.add_zero] at later
      refine Safe.orElse ?_ later
      unfold tokenAt
      split
      · exact safe_failure
      · unfold isVersionBoundaryBefore
        rw [sliceTo_size]
        refine safe_lift_bind rfl ?_
        split
        · exact parseToken_tokenIn before (ch :: rest)
        · exact safe_failure

theorem findToken_safe (value : Text) : Safe (findMinecraftVersionToken value 0) (TokenIn value) := by
  have start := firstToken_safe [] value
  exact safe_lift_bind (a := value) (by rw [sliceFrom_zero]; rfl) start

theorem trimStart_spaces (s : Text) :
    s = s.takeWhile isWhitespace ++ trimStart s ∧ size s - size (trimStart s) = size (s.takeWhile isWhitespace) := by
  have whole : s.takeWhile isWhitespace ++ trimStart s = s := List.takeWhile_append_dropWhile
  have sizes := congrArg size whole
  rw [size_append] at sizes
  exact ⟨whole.symm, by omega⟩

theorem secondToken_trimmed (before rest : Text) :
    secondToken (before ++ rest) (size before) = match trimStart rest with
      | '-' :: afterDash => parseMinecraftVersionToken (before ++ rest)
          (size before + size (rest.takeWhile isWhitespace) + 1 + (size afterDash - size (trimStart afterDash)))
      | _ => failure := by
  obtain ⟨split, spaces⟩ := trimStart_spaces rest
  have afterSpaces : sliceFrom rest (size (rest.takeWhile isWhitespace)) = some (trimStart rest) := by
    have place := sliceFrom_size (rest.takeWhile isWhitespace) (trimStart rest)
    rwa [← split] at place
  rw [secondToken, sliceFrom_size]
  refine (lift_bind_ok (a := rest) rfl).trans ?_
  dsimp only
  rw [spaces, afterSpaces]
  exact lift_bind_ok (a := trimStart rest) rfl

theorem secondToken_dash (before : Text) {rest afterDash : Text} (dash : trimStart rest = '-' :: afterDash) :
    ∃ front, before ++ rest = front ++ trimStart afterDash ∧
      secondToken (before ++ rest) (size before) =
        parseMinecraftVersionToken (front ++ trimStart afterDash) (size front) := by
  obtain ⟨split, _⟩ := trimStart_spaces rest
  obtain ⟨split', spaces'⟩ := trimStart_spaces afterDash
  have place : before ++ rest = (before ++ rest.takeWhile isWhitespace ++ ['-'] ++ afterDash.takeWhile isWhitespace) ++
      trimStart afterDash := by
    rw [List.append_assoc _ _ (trimStart afterDash), ← split', ← List.append_cons, ← dash, List.append_assoc, ← split]
  have offset : size before + size (rest.takeWhile isWhitespace) + 1 + size (afterDash.takeWhile isWhitespace) =
      size (before ++ rest.takeWhile isWhitespace ++ ['-'] ++ afterDash.takeWhile isWhitespace) := by
    rw [size_append _ (afterDash.takeWhile isWhitespace), ← size_push _ (by decide), size_append]
  refine ⟨_, place, ?_⟩
  rw [secondToken_trimmed, dash]
  show parseMinecraftVersionToken (before ++ rest)
    (size before + size (rest.takeWhile isWhitespace) + 1 + (size afterDash - size (trimStart afterDash))) = _
  rw [spaces', offset, place]

theorem secondToken_other (before : Text) {rest : Text} (other : (trimStart rest).head? ≠ some '-') :
    secondToken (before ++ rest) (size before) = failure := by
  rw [secondToken_trimmed]
  split
  · rename_i dash
    rw [dash] at other
    exact absurd rfl other
  · rfl

theorem secondToken_safe (before rest : Text) :
    Safe (secondToken (before ++ rest) (size before)) (TokenIn (before ++ rest)) := by
  by_cases dash : (trimStart rest).head? = some '-'
  · obtain ⟨afterDash, eq⟩ := List.head?_eq_some_iff.mp dash
    obtain ⟨front, place, second⟩ := secondToken_dash before eq
    rw [second, place]
    exact parseToken_tokenIn front _
  · rw [secondToken_other before dash]
    exact safe_failure

end Scanning

theorem compareVersionParts_tokens {left right : MinecraftVersionToken} {s t : Text} {v w : Nat × Nat}
    (hl : TokenOf left s v) (hr : TokenOf right t w) :
    compareVersionParts left.parts right.parts =
      (compare (v.1 : Int) w.1).then (compare (v.2 : Int) w.2) := by
  have same : compare (1 : Int) 1 = .eq := rfl
  have none_ : ∀ o : Ordering, o.then .eq = o := fun o => by cases o <;> rfl
  rcases hl.parts with ⟨l, lp⟩ | l <;> rcases hr.parts with ⟨r, rp⟩ | r
  · rw [l, r, lp, rp]
    show (compare (1 : Int) 1).then ((compare (v.1 : Int) w.1).then .eq) = _
    rw [same, none_]
    exact (none_ _).symm
  · rw [l, r, lp]
    show (compare (1 : Int) 1).then ((compare (v.1 : Int) w.1).then ((compare 0 (w.2 : Int)).then .eq)) = _
    rw [same, none_]
    rfl
  · rw [l, r, rp]
    show (compare (1 : Int) 1).then ((compare (v.1 : Int) w.1).then ((compare (v.2 : Int) 0).then .eq)) = _
    rw [same, none_]
    rfl
  · rw [l, r]
    show (compare (1 : Int) 1).then ((compare (v.1 : Int) w.1).then ((compare (v.2 : Int) w.2).then .eq)) = _
    rw [same, none_]
    rfl

theorem toLex_le_of_compare {v w : Nat × Nat}
    (order : (compare (v.1 : Int) w.1).then (compare (v.2 : Int) w.2) ≠ .gt) : toLex v ≤ toLex w := by
  rw [ne_eq, Ordering.then_eq_gt, compare_gt_iff_gt, compare_eq_iff_eq, compare_gt_iff_gt] at order
  rw [Prod.Lex.toLex_le_toLex]
  omega

theorem toLex_lt_of_compare {v w : Nat × Nat}
    (order : (compare (v.1 : Int) w.1).then (compare (v.2 : Int) w.2) = .gt) : toLex w < toLex v := by
  rw [Ordering.then_eq_gt, compare_gt_iff_gt, compare_eq_iff_eq, compare_gt_iff_gt] at order
  rw [Prod.Lex.toLex_lt_toLex]
  omega

/-- Nothing, a version that stands in the text, or a range of two of them. -/
def Sanitized (normalized out : Text) : Prop :=
  out = [] ∨ (∃ v, IsVersion out v ∧ out <:+: normalized) ∨
    ∃ left right v w, out = left ++ '-' :: right ∧ IsVersion left v ∧ IsVersion right w ∧ toLex v ≤ toLex w ∧
      left <:+: normalized ∧ right <:+: normalized

theorem formatVersionRange_sanitized {value s t : Text} {left right : MinecraftVersionToken} {v w : Nat × Nat}
    (hl : TokenOf left s v) (hr : TokenOf right t w) (inLeft : left.label <:+: value)
    (inRight : right.label <:+: value) : Sanitized value (formatVersionRange left right) := by
  have order := compareVersionParts_tokens hl hr
  unfold formatVersionRange
  split
  · rename_i equal
    rw [equal] at order
    split
    · exact .inr (.inl ⟨v, hl.version, inLeft⟩)
    · exact .inr (.inr ⟨_, _, v, w, rfl, hl.version, hr.version, toLex_le_of_compare (by rw [← order]; decide), inLeft,
        inRight⟩)
  · rename_i greater
    rw [greater] at order
    exact .inr (.inr ⟨_, _, w, v, rfl, hr.version, hl.version, (toLex_lt_of_compare order.symm).le, inRight, inLeft⟩)
  · rename_i less
    rw [less] at order
    exact .inr (.inr ⟨_, _, v, w, rfl, hl.version, hr.version, toLex_le_of_compare (by rw [← order]; decide), inLeft,
      inRight⟩)

theorem TokenIn.label {value : Text} {r : MinecraftVersionToken × Nat} (h : TokenIn value r) :
    ∃ text v, TokenOf r.1 text v ∧ r.1.label <:+: value := by
  obtain ⟨before, text, after, v, rfl, _, token⟩ := h
  exact ⟨text, v, token, token.label.isInfix.trans ⟨before, after, rfl⟩⟩

theorem searchVersion_sanitized (normalized : Text) :
    ∃ out, searchVersion normalized = .ok out ∧ Sanitized normalized out := by
  obtain ⟨r, run, all⟩ := findToken_safe normalized
  unfold searchVersion
  rw [run]
  cases r with
  | none => exact ⟨[], rfl, .inl rfl⟩
  | some first =>
      obtain ⟨token, stop⟩ := first
      have place := all _ rfl
      obtain ⟨text, v, isToken, inside⟩ := place.label
      obtain ⟨before, part, after, _, eq, stop_eq, _⟩ := place
      dsimp only at stop_eq
      have later := secondToken_safe (before ++ part) after
      rw [← eq, ← stop_eq] at later
      obtain ⟨r', run', all'⟩ := later
      show ∃ out, ((secondToken normalized stop).run >>= _) = .ok out ∧ _
      rw [run']
      cases r' with
      | none => exact ⟨token.label, rfl, .inr (.inl ⟨v, isToken.version, inside⟩)⟩
      | some second =>
          obtain ⟨text', w, isToken', inside'⟩ := (all' _ rfl).label
          exact ⟨_, rfl, formatVersionRange_sanitized isToken isToken' inside inside'⟩

theorem section_notMem_stripColours (skip : Bool) (s : Text) : '§' ∉ stripColours skip s := by
  induction s generalizing skip with
  | nil => exact List.not_mem_nil
  | cons ch s ih =>
      cases skip with
      | true => exact ih false
      | false =>
          rw [stripColours]
          split
          · exact ih true
          · rename_i other
            exact fun member => (List.mem_cons.mp member).elim (fun same => other same.symm) (ih false)

theorem stripColours_eq_self {s : Text} (none_ : '§' ∉ s) : stripColours false s = s := by
  induction s with
  | nil => rfl
  | cons ch s ih =>
      rw [List.mem_cons, not_or] at none_
      rw [stripColours, if_neg (fun same => none_.1 same.symm), ih none_.2]

theorem size_stripColours (skip : Bool) (s : Text) : size (stripColours skip s) ≤ size s := by
  induction s generalizing skip with
  | nil => rfl
  | cons ch s ih =>
      rw [size_cons]
      cases skip with
      | true => exact (ih false).trans (Nat.le_add_left _ _)
      | false =>
          rw [stripColours]
          split
          · exact (ih true).trans (Nat.le_add_left _ _)
          · rw [size_cons]
            exact Nat.add_le_add_left (ih false) _

theorem size_normalize (raw : Text) : size (normalizeVersionCandidate raw) ≤ size raw :=
  (size_joinWords_splitWhitespace _).trans (size_stripColours false raw)

theorem tidy_normalize (raw : Text) : Tidy (normalizeVersionCandidate raw) :=
  tidy_joinWords fun _ member =>
    ⟨(splitWhitespace_words member).1, fun c inside => ((splitWhitespace_words member).2 c inside).1⟩

theorem section_notMem_normalize (raw : Text) : '§' ∉ normalizeVersionCandidate raw := by
  intro member
  rcases mem_joinWords member with space | ⟨word, words, inside⟩
  · exact absurd space (by decide)
  · exact section_notMem_stripColours false raw ((splitWhitespace_words words).2 '§' inside).2

/-- What stands in a normalized text is normalized once it is trimmed. -/
theorem normalize_part {raw part : Text} (inside : part <:+: normalizeVersionCandidate raw) :
    normalizeVersionCandidate (trimText part) = trimText part := by
  have plain : '§' ∉ trimText part := fun member =>
    section_notMem_normalize raw (((trimText_part part).trans inside).subset member)
  rw [normalizeVersionCandidate, stripColours_eq_self plain]
  exact joinWords_splitWhitespace ((tidy_normalize raw).trimText inside)

/-- The text in parentheses is shorter than the whole. -/
theorem extractMc_safe (value : Text) :
    Safe (extractMcParenthetical value) fun mc => ∃ body, body <:+: value ∧ mc = trimText body ∧
      size body < size value := by
  refine (safe_found (P := fun start => ∃ before mark rest, value = before ++ mark ++ rest ∧
    start + size mcMark = size (before ++ mark) ∧ 0 < size mark) fun start eq => ?_).bind ?_
  · obtain ⟨before, after, split, rfl⟩ := find_eq_some eq
    obtain ⟨front, rest, rfl, lower, _⟩ := List.map_eq_append_iff.mp split
    obtain ⟨before', mark, rfl, lowerBefore, lowerMark⟩ := List.map_eq_append_iff.mp lower
    have sizeBefore : size before = size before' := by rw [← lowerBefore, ← toAsciiLowercase, size_toAsciiLowercase]
    have sizeMark : size mcMark = size mark := by rw [← lowerMark, ← toAsciiLowercase, size_toAsciiLowercase]
    have four : size mcMark = 4 := by decide
    exact ⟨before', mark, rest, rfl, by rw [size_append, sizeBefore, sizeMark], by omega⟩
  · rintro start ⟨before, mark, rest, rfl, bodyStart, wide⟩
    dsimp only
    rw [bodyStart, sliceFrom_size]
    refine safe_lift_bind (a := rest) rfl ?_
    refine (safe_found (P := fun stop => ∃ body after, rest = body ++ after ∧ stop = size body) fun stop eq => ?_).bind ?_
    · obtain ⟨body, after, rfl, rfl⟩ := find_eq_some eq
      exact ⟨body, [')'] ++ after, List.append_assoc .., rfl⟩
    · rintro _ ⟨body, after, rfl, rfl⟩
      rw [← List.append_assoc, ← size_append, slice_size]
      refine safe_lift_bind (a := body) rfl (safe_pure ⟨body, ⟨before ++ mark, after, rfl⟩, rfl, ?_⟩)
      simp only [size_append]
      omega

/-- A sanitizer that goes deeper than the text is long never gets to the end of its depth. -/
theorem sanitizeWithin_sanitized (depth : Nat) (raw : Text) (deep : size raw < depth) :
    ∃ out, sanitizeWithin depth raw = .ok out ∧ Sanitized (normalizeVersionCandidate raw) out := by
  induction depth generalizing raw with
  | zero => exact absurd deep (Nat.not_lt_zero _)
  | succ depth ih =>
      rw [sanitizeWithin, sanitizeCall]
      dsimp only
      split
      · exact ⟨[], rfl, .inl rfl⟩
      · have finish : ∀ version, Sanitized (normalizeVersionCandidate raw) version →
            ∃ out, (if version ≠ [] then pure version else searchVersion (normalizeVersionCandidate raw)) = .ok out ∧
              Sanitized (normalizeVersionCandidate raw) out := by
          intro version sound
          split
          · exact ⟨version, rfl, sound⟩
          · exact searchVersion_sanitized _
        obtain ⟨r, run, all⟩ := extractMc_safe (normalizeVersionCandidate raw)
        rw [run]
        cases r with
        | none => exact finish [] (.inl rfl)
        | some mc =>
            obtain ⟨body, inside, rfl, shorter⟩ := all mc rfl
            have bound := size_normalize raw
            have trimmed := size_le_of_infix (trimText_part body)
            obtain ⟨version, within, sound⟩ := ih (trimText body) (by omega)
            rw [normalize_part inside] at sound
            show ∃ out, (sanitizeWithin depth (trimText body) >>= _) = .ok out ∧ _
            rw [within]
            refine finish version ?_
            have part := (trimText_part body).trans inside
            rcases sound with empty | ⟨v, isVersion, place⟩ | ⟨left, right, v, w, eq, hl, hr, order, pl, pr⟩
            · exact .inl empty
            · exact .inr (.inl ⟨v, isVersion, place.trans part⟩)
            · exact .inr (.inr ⟨left, right, v, w, eq, hl, hr, order, pl.trans part, pr.trans part⟩)

/-- The sanitizer does not panic, and gives nothing but versions that stand in the normalized text. -/
theorem sanitizer_outputs_versions (raw : Text) :
    ∃ out, sanitizeMinecraftVersion raw = .ok out ∧ Sanitized (normalizeVersionCandidate raw) out :=
  sanitizeWithin_sanitized (size raw + 1) raw (Nat.lt_succ_self _)

end ServerPoller
