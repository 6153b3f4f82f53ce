/-
  Lexemes: the lexical grammar, said without the scanner.

  1. **Spec** (`Lexeme`) — every lexeme of the language with the kind of its token, the decoded
     value included.  A number out of range is a lexeme without a kind.
  2. **Program** (`Scan.lexeme`) — looks at the first character and reads on from there.  `Follows`
     is the grammar in that order, and `lexeme_cons_iff` says that it is the same grammar.
  3. **The crux** (`lexeme_reads`) — the scanner reads the longest lexeme in front of a text.  Every
     other lexeme there is shorter, so the longest one has one kind only, and where the scanner
     fails there is none that has a kind.
-/
import Scriptlet.Proofs.Layout.Scanning

namespace Scriptlet

/-- What is not negative and does not fit is too large. -/
theorem Integer.fit?_eq_none_iff {n : Nat} : fit? n = none ↔ greatest < (n : Int) := by
  unfold fit?
  have hleast : least ≤ (n : Int) := by
    show (-0x8000000000000000 : Int) ≤ n
    omega
  constructor
  · intro h
    split at h
    · exact nomatch h
    · omega
  · intro h
    rw [if_neg fun hrange => absurd hrange.2 (by omega)]

namespace Scan

/-! ## Lexemes -/

/-- The inside of a string literal and the text it denotes: an escape stands for its character, and
    every character but a quote and a backslash for itself. -/
inductive Quoted : List Char → List Char → Prop
  | nil : Quoted [] []
  | plain {c : Char} {body text : List Char} (hquote : c ≠ '"') (hslash : c ≠ '\\')
      (more : Quoted body text) : Quoted (c :: body) (c :: text)
  | escape {letter c : Char} {body text : List Char} (hc : Text.unescape? letter = some c)
      (more : Quoted body text) : Quoted ('\\' :: letter :: body) (c :: text)

/-- One or more ASCII digits. -/
def Digits (l : List Char) : Prop := l ≠ [] ∧ ∀ c ∈ l, c.isDigit = true

/-- Every lexeme with the kind of its token; a number out of range has none. -/
inductive Lexeme : List Char → Option TokenKind → Prop
  | lineFeed : Lexeme ['\n'] (some .newline)
  | carriageReturn : Lexeme ['\r', '\n'] (some .newline)
  | str {body text : List Char} (h : Quoted body text) :
      Lexeme ('"' :: body ++ ['"']) (some (.str (String.ofList text)))
  | integer {digits : List Char} {n : Int64} (h : Digits digits)
      (hn : n.toInt = Decimal.natOfDigits digits) : Lexeme digits (some (.integer n))
  | hugeInteger {digits : List Char} (h : Digits digits)
      (hn : Integer.greatest < (Decimal.natOfDigits digits : Int)) : Lexeme digits none
  | float {whole places : List Char} (hwhole : Digits whole) (hplaces : Digits places)
      (hfinite : (Decimal.ofFraction whole places).isFinite = true) :
      Lexeme (whole ++ '.' :: places) (some (.float (Decimal.ofFraction whole places)))
  | hugeFloat {whole places : List Char} (hwhole : Digits whole) (hplaces : Digits places)
      (hinfinite : (Decimal.ofFraction whole places).isFinite = false) :
      Lexeme (whole ++ '.' :: places) none
  | keyword (k : Keyword) : Lexeme k.chars (some (.keyword k))
  | identifier {c : Char} {tail : List Char} (hc : isWordStart c = true)
      (htail : ∀ x ∈ tail, isWordPart x = true) (hname : ∀ k : Keyword, k.chars ≠ c :: tail) :
      Lexeme (c :: tail) (some .identifier)
  | symbol (s : Symbol) : Lexeme s.chars (some (.symbol s))

variable {c : Char} {cs rest l : List Char} {k : Option TokenKind} {kind : TokenKind} {extra : Nat}

/-- The lexeme a text starts with, and its kind: whatever other lexeme stands there is shorter. -/
def LongestLexeme (l : List Char) (k : Option TokenKind) (text : List Char) : Prop :=
  Lexeme l k ∧ l <+: text ∧
    ∀ l' k', Lexeme l' k' → l' <+: text → (l' = l ∧ k' = k) ∨ l'.length < l.length

/-- There is one longest lexeme in front of a text, with one kind. -/
theorem LongestLexeme.unique {l' text : List Char} {k' : Option TokenKind}
    (h : LongestLexeme l k text) (h' : LongestLexeme l' k' text) : l' = l ∧ k' = k := by
  rcases h.2.2 l' k' h'.1 h'.2.1 with heq | hlt
  · exact heq
  · rcases h'.2.2 l k h.1 h.2.1 with ⟨heq, hk⟩ | hlt'
    · exact ⟨heq.symm, hk.symm⟩
    · omega

/-- One digit more in front. -/
theorem digits_cons (hc : c.isDigit = true) (h : ∀ x ∈ l, x.isDigit = true) : Digits (c :: l) :=
  ⟨List.cons_ne_nil c l, List.forall_mem_cons.mpr ⟨hc, h⟩⟩

/-! ## Lexemes by their first character -/

/-- The kind of a number without a fraction. -/
def integerKind? (digits : List Char) : Option TokenKind :=
  (Integer.fit? (Decimal.natOfDigits digits)).map .integer

/-- The kind of a number with a fraction. -/
def floatKind? (whole places : List Char) : Option TokenKind :=
  if (Decimal.ofFraction whole places).isFinite then some (.float (Decimal.ofFraction whole places))
  else none

/-- The rest of a lexeme after its first character `c`: what the scanner looks for, and the kind it
    gives. -/
def Follows (c : Char) (t : List Char) (k : Option TokenKind) : Prop :=
  if c = '\n' then t = [] ∧ k = some .newline
  else if c = '\r' then t = ['\n'] ∧ k = some .newline
  else if c = '"' then
    ∃ body text, t = body ++ ['"'] ∧ Quoted body text ∧ k = some (.str (String.ofList text))
  else if c.isDigit then
    ((∀ x ∈ t, x.isDigit = true) ∧ k = integerKind? (c :: t)) ∨
      ∃ whole places, t = whole ++ '.' :: places ∧ (∀ x ∈ whole, x.isDigit = true) ∧
        Digits places ∧ k = floatKind? (c :: whole) places
  else if isWordStart c then (∀ x ∈ t, isWordPart x = true) ∧ k = some (wordKind (c :: t))
  else ∃ s : Symbol, s.chars = c :: t ∧ k = some (.symbol s)

section FirstCharacter

variable {t : List Char}

/-- A digit starts a number, whole or with places. -/
theorem follows_digit (hc : c.isDigit = true)
    (h : ((∀ x ∈ t, x.isDigit = true) ∧ k = integerKind? (c :: t)) ∨
      ∃ whole places, t = whole ++ '.' :: places ∧ (∀ x ∈ whole, x.isDigit = true) ∧
        Digits places ∧ k = floatKind? (c :: whole) places) : Follows c t k := by
  have hne : ∀ x : Char, x.isDigit = false → c ≠ x := by
    rintro x hx rfl
    rw [hc] at hx
    exact nomatch hx
  unfold Follows
  rwa [if_neg (hne _ (by decide)), if_neg (hne _ (by decide)), if_neg (hne _ (by decide)),
    if_pos hc]

/-- A letter or underscore starts a word. -/
theorem follows_word (hc : isWordStart c = true) (ht : ∀ x ∈ t, isWordPart x = true) :
    Follows c t (some (wordKind (c :: t))) := by
  have hne : ∀ x : Char, isWordStart x = false → c ≠ x := by
    rintro x hx rfl
    rw [hc] at hx
    exact nomatch hx
  have hdigit : ¬ c.isDigit = true := by
    intro hd
    rw [isWordStart_of_isDigit hd] at hc
    exact nomatch hc
  unfold Follows
  rw [if_neg (hne _ (by decide)), if_neg (hne _ (by decide)), if_neg (hne _ (by decide)),
    if_neg hdigit, if_pos hc]
  exact ⟨ht, rfl⟩

/-- No character of a symbol belongs to another lexeme. -/
theorem symbol_chars (s : Symbol) : ∀ c ∈ s.chars,
    c ≠ '\n' ∧ c ≠ '\r' ∧ c ≠ '"' ∧ ¬ c.isDigit = true ∧ ¬ isWordStart c = true := by
  have hall : s.chars.all (fun c => c != '\n' && c != '\r' && c != '"' && !c.isDigit &&
      !isWordStart c) = true := by
    cases s <;> decide
  intro c hc
  simpa [and_assoc] using List.all_eq_true.mp hall c hc

/-- The first character of a symbol starts it. -/
theorem follows_symbol (s : Symbol) (hs : s.chars = c :: t) : Follows c t (some (.symbol s)) := by
  obtain ⟨hfeed, hreturn, hquote, hdigit, hword⟩ :=
    symbol_chars s c (by rw [hs]; exact List.mem_cons_self ..)
  unfold Follows
  rw [if_neg hfeed, if_neg hreturn, if_neg hquote, if_neg hdigit, if_neg hword]
  exact ⟨s, hs, rfl⟩

/-- The word of a keyword is that keyword. -/
theorem wordKind_chars (k : Keyword) : wordKind k.chars = .keyword k := by
  cases k <;> rfl

/-- A keyword is a word. -/
theorem keyword_chars (k : Keyword) : ∃ c t, k.chars = c :: t ∧ isWordStart c = true ∧
    ∀ x ∈ t, isWordPart x = true := by
  cases k <;> exact ⟨_, _, rfl, by decide, List.all_eq_true.mp (by decide)⟩

/-- A word is a keyword, or spelled like none. -/
theorem wordKind_cases (word : List Char) :
    (∃ k : Keyword, k.chars = word ∧ wordKind word = .keyword k) ∨
      ((∀ k : Keyword, k.chars ≠ word) ∧ wordKind word = .identifier) := by
  unfold wordKind
  cases hword : Keyword.ofChars? word with
  | some k =>
    unfold Keyword.ofChars? at hword
    exact .inl ⟨k, by simpa using List.find?_some hword, rfl⟩
  | none =>
    refine .inr ⟨fun k hk => ?_, rfl⟩
    have hall : k ∈ Keyword.all := by cases k <;> decide
    exact List.find?_eq_none.mp hword k hall (beq_iff_eq.mpr hk)

/-- No lexeme is empty, and its first character tells how it goes on. -/
theorem Lexeme.exists_follows (h : Lexeme l k) : ∃ c t, l = c :: t ∧ Follows c t k := by
  cases h with
  -- a line end and a string are known from their first character
  | lineFeed => exact ⟨_, _, rfl, rfl, rfl⟩
  | carriageReturn => exact ⟨_, _, rfl, rfl, rfl⟩
  | str h => exact ⟨_, _, rfl, _, _, rfl, h, rfl⟩
  | @integer digits n h hn =>
    obtain ⟨c, t, rfl⟩ := List.exists_cons_of_ne_nil h.1
    obtain ⟨hc, ht⟩ := List.forall_mem_cons.mp h.2
    -- digits alone: an integer that fits
    refine ⟨c, t, rfl, follows_digit hc (.inl ⟨ht, ?_⟩)⟩
    rw [integerKind?, Integer.fit?_eq_some_iff.mpr hn]
    rfl
  | hugeInteger h hn =>
    obtain ⟨c, t, rfl⟩ := List.exists_cons_of_ne_nil h.1
    obtain ⟨hc, ht⟩ := List.forall_mem_cons.mp h.2
    -- digits alone: an integer that does not fit
    refine ⟨c, t, rfl, follows_digit hc (.inl ⟨ht, ?_⟩)⟩
    rw [integerKind?, Integer.fit?_eq_none_iff.mpr hn]
    rfl
  | @float whole places hwhole hplaces hfinite =>
    obtain ⟨c, t, rfl⟩ := List.exists_cons_of_ne_nil hwhole.1
    obtain ⟨hc, ht⟩ := List.forall_mem_cons.mp hwhole.2
    -- digits around a point: a finite value
    refine ⟨c, t ++ '.' :: places, rfl, follows_digit hc (.inr ⟨t, places, rfl, ht, hplaces, ?_⟩)⟩
    rw [floatKind?, if_pos hfinite]
  | @hugeFloat whole places hwhole hplaces hinfinite =>
    obtain ⟨c, t, rfl⟩ := List.exists_cons_of_ne_nil hwhole.1
    obtain ⟨hc, ht⟩ := List.forall_mem_cons.mp hwhole.2
    -- digits around a point: an infinite value
    refine ⟨c, t ++ '.' :: places, rfl, follows_digit hc (.inr ⟨t, places, rfl, ht, hplaces, ?_⟩)⟩
    rw [floatKind?, hinfinite, if_neg Bool.false_ne_true]
  | keyword k =>
    obtain ⟨c, t, hk, hc, ht⟩ := keyword_chars k
    refine ⟨c, t, hk, ?_⟩
    rw [← wordKind_chars, hk]
    exact follows_word hc ht
  | @identifier c tail hc htail hname =>
    refine ⟨c, tail, rfl, ?_⟩
    -- letters that spell a keyword are no identifier
    rcases wordKind_cases (c :: tail) with ⟨k, hk, -⟩ | ⟨-, hkind⟩
    · exact absurd hk (hname k)
    · rw [← hkind]
      exact follows_word hc htail
  | symbol s =>
    obtain ⟨c, t, hs, -⟩ := lexeme_symbol s
    exact ⟨c, t, hs, follows_symbol s hs⟩

/-- What follows a first character makes a lexeme with it. -/
theorem Follows.lexeme (h : Follows c t k) : Lexeme (c :: t) k := by
  unfold Follows at h
  split at h
  -- the cases are those of the first character
  case isTrue hc =>
    obtain ⟨rfl, rfl⟩ := h
    rw [hc]
    exact .lineFeed
  split at h
  case isTrue hc =>
    obtain ⟨rfl, rfl⟩ := h
    rw [hc]
    exact .carriageReturn
  split at h
  case isTrue hc =>
    obtain ⟨body, text, rfl, hbody, rfl⟩ := h
    rw [hc]
    exact .str hbody
  split at h
  case isTrue hc =>
    -- digits: alone, or around a point
    rcases h with ⟨ht, rfl⟩ | ⟨whole, places, rfl, hwhole, hplaces, rfl⟩
    · have hdigits : Digits (c :: t) := digits_cons hc ht
      unfold integerKind?
      cases hfit : Integer.fit? (Decimal.natOfDigits (c :: t)) with
      | some n => exact .integer hdigits (Integer.fit?_eq_some_iff.mp hfit)
      | none => exact .hugeInteger hdigits (Integer.fit?_eq_none_iff.mp hfit)
    · have hdigits : Digits (c :: whole) := digits_cons hc hwhole
      unfold floatKind?
      split
      case isTrue hfinite => exact .float hdigits hplaces hfinite
      case isFalse hinfinite =>
        exact .hugeFloat hdigits hplaces ((Bool.not_eq_true _).mp hinfinite)
  split at h
  case isTrue hc =>
    obtain ⟨ht, rfl⟩ := h
    -- letters: a keyword or an identifier
    rcases wordKind_cases (c :: t) with ⟨k, hk, hkind⟩ | ⟨hname, hkind⟩
    · rw [hkind, ← hk]
      exact .keyword k
    · rw [hkind]
      exact .identifier hc ht hname
  · obtain ⟨s, hs, rfl⟩ := h
    rw [← hs]
    exact .symbol s

/-- **The two grammars are the same.** -/
theorem lexeme_cons_iff : Lexeme (c :: t) k ↔ Follows c t k := by
  refine ⟨fun h => ?_, Follows.lexeme⟩
  obtain ⟨c', t', heq, hfollows⟩ := h.exists_follows
  obtain ⟨rfl, rfl⟩ := List.cons.inj heq
  exact hfollows

end FirstCharacter

/-! ## The scanner reads the longest lexeme -/

/-- What a reading of a text promises: a lexeme that is read is the longest one there, and where
    reading fails, the longest one, if there is any, has no kind. -/
def Reads (text : List Char) : Reading → Prop
  | .ok (kind, extra) => LongestLexeme (text.take (extra + 1)) (some kind) text
  | .error _ => ∀ l k, LongestLexeme l k text → k = none

section Readers

variable {t : List Char} {fault : LexFault × Nat}

/-- A scanner that takes the longest lexeme reads right. -/
theorem LongestLexeme.reads_ok (h : LongestLexeme l (some kind) cs) (hlen : l.length = extra + 1) :
    Reads cs (.ok (kind, extra)) := by
  have htake : l = cs.take (extra + 1) := hlen ▸ List.prefix_iff_eq_take.mp h.2.1
  show LongestLexeme (cs.take (extra + 1)) (some kind) cs
  rwa [← htake]

/-- One that fails where the longest lexeme has no kind reads right too. -/
theorem LongestLexeme.reads_error (h : LongestLexeme l none cs) : Reads cs (.error fault) :=
  fun _ _ h' => (h.unique h').2

/-- The longest lexeme is the longest continuation of the first character. -/
theorem longest_of_follows (hfollows : Follows c t k) (ht : t <+: cs)
    (hall : ∀ t' k', Follows c t' k' → t' <+: cs → (t' = t ∧ k' = k) ∨ t'.length < t.length) :
    LongestLexeme (c :: t) k (c :: cs) := by
  refine ⟨hfollows.lexeme, List.cons_prefix_cons.mpr ⟨rfl, ht⟩, fun l' k' hl' hstart => ?_⟩
  obtain ⟨c', t', rfl, hfollows'⟩ := hl'.exists_follows
  obtain ⟨rfl, ht'⟩ := List.cons_prefix_cons.mp hstart
  rcases hall t' k' hfollows' ht' with ⟨rfl, rfl⟩ | hlt
  · exact .inl ⟨rfl, rfl⟩
  · exact .inr (Nat.succ_lt_succ hlt)

/-- Where nothing continues the first character there is no lexeme. -/
theorem reads_error_of_not_follows (h : ∀ t k, Follows c t k → ¬ t <+: cs) :
    Reads (c :: cs) (.error fault) := by
  intro l k hlongest
  obtain ⟨c', t, rfl, hfollows⟩ := hlongest.1.exists_follows
  obtain ⟨rfl, ht⟩ := List.cons_prefix_cons.mp hlongest.2.1
  exact absurd ht (h t k hfollows)

/-! Words. -/

/-- A text divides where a property of its characters first fails. -/
theorem exists_split (p : Char → Bool) (cs : List Char) : ∃ front rest, cs = front ++ rest ∧
    (∀ x ∈ front, p x = true) ∧ ∀ x ∈ rest.head?, p x = false := by
  refine ⟨cs.takeWhile p, cs.dropWhile p, List.takeWhile_append_dropWhile.symm,
    fun x hx => List.all_eq_true.mp List.all_takeWhile x hx, fun x hx => ?_⟩
  have hnot := List.head?_dropWhile_not p cs
  rw [Option.mem_def.mp hx] at hnot
  exact hnot

/-- Characters with the property that stand in front belong to the first part. -/
theorem prefix_front {p : Char → Bool} {front : List Char} (ht : ∀ x ∈ t, p x = true)
    (hfront : ∀ x ∈ front, p x = true) (hrest : ∀ x ∈ rest.head?, p x = false)
    (h : t <+: front ++ rest) : t = front ∨ t.length < front.length := by
  obtain ⟨more, hmore⟩ := h
  have hstart : t <+: front := by
    rw [← takeWhile_append_of_head hfront hrest, ← hmore, List.takeWhile_append_of_pos ht]
    exact List.prefix_append ..
  rcases Nat.lt_or_ge t.length front.length with hlt | hge
  · exact .inr hlt
  · exact .inl (hstart.eq_of_length_le hge)

/-- A word is read up to the first character that is no part of one. -/
theorem reads_word (hfollows : ∀ t k, Follows c t k ↔
    (∀ x ∈ t, isWordPart x = true) ∧ k = some (wordKind (c :: t))) :
    Reads (c :: cs) (readWord c cs) := by
  obtain ⟨front, rest, rfl, hfront, hrest⟩ := exists_split isWordPart cs
  unfold readWord
  rw [takeWhile_append_of_head hfront hrest]
  refine LongestLexeme.reads_ok (longest_of_follows ((hfollows _ _).mpr ⟨hfront, rfl⟩)
    (List.prefix_append ..) fun t' k' hf ht' => ?_) rfl
  obtain ⟨hparts, rfl⟩ := (hfollows _ _).mp hf
  rcases prefix_front hparts hfront hrest ht' with rfl | hlt
  · exact .inl ⟨rfl, rfl⟩
  · exact .inr hlt

/-! Numbers. -/

/-- A point belongs to a number before a digit only. -/
theorem fraction_cases (rest : List Char) :
    (fraction rest = [] ∧ ∀ places, Digits places → ¬ '.' :: places <+: rest) ∨
      ∃ places more, rest = '.' :: (places ++ more) ∧ Digits places ∧
        (∀ x ∈ more.head?, x.isDigit = false) ∧ fraction rest = places := by
  by_cases hpoint : ∃ cs, rest = '.' :: cs
  · obtain ⟨cs, rfl⟩ := hpoint
    obtain ⟨places, more, rfl, hplaces, hmore⟩ := exists_split Char.isDigit cs
    -- behind the point stand as many digits as there are
    have hfraction : fraction ('.' :: (places ++ more)) = places :=
      takeWhile_append_of_head hplaces hmore
    by_cases hnil : places = []
    · subst hnil
      -- none: so the point is not part of the number
      refine .inl ⟨hfraction, fun places' hdigits hstart => ?_⟩
      have hstart := (List.cons_prefix_cons.mp hstart).2
      rcases prefix_front hdigits.2 hplaces hmore hstart with hnil | hlt
      · exact hdigits.1 hnil
      · exact absurd hlt (Nat.not_lt_zero _)
    · exact .inr ⟨places, more, rfl, ⟨hnil, hplaces⟩, hmore, hfraction⟩
  · -- no point
    refine .inl ⟨?_, fun places _ hstart => ?_⟩
    · unfold fraction
      split
      · exact absurd ⟨_, rfl⟩ hpoint
      · rfl
    · obtain ⟨more, rfl⟩ := hstart
      exact hpoint ⟨_, rfl⟩

/-- The digits before a point are the digits in front. -/
theorem prefix_point {whole places front : List Char} (hwhole : ∀ x ∈ whole, x.isDigit = true)
    (hfront : ∀ x ∈ front, x.isDigit = true) (hrest : ∀ x ∈ rest.head?, x.isDigit = false)
    (h : whole ++ '.' :: places <+: front ++ rest) : whole = front ∧ '.' :: places <+: rest := by
  obtain ⟨more, hmore⟩ := h
  rw [List.append_assoc] at hmore
  have hpoint : ∀ x ∈ ('.' :: places ++ more).head?, x.isDigit = false := by
    intro x hx
    rw [← Option.some.inj hx]
    rfl
  have heq : whole = front := by
    rw [← takeWhile_append_of_head hwhole hpoint, hmore, takeWhile_append_of_head hfront hrest]
  subst heq
  exact ⟨rfl, more, List.append_cancel_left hmore⟩

/-- A number is read with its places if a digit stands behind the point. -/
theorem reads_number (hfollows : ∀ t k, Follows c t k ↔
    ((∀ x ∈ t, x.isDigit = true) ∧ k = integerKind? (c :: t)) ∨
      ∃ whole places, t = whole ++ '.' :: places ∧ (∀ x ∈ whole, x.isDigit = true) ∧
        Digits places ∧ k = floatKind? (c :: whole) places) :
    Reads (c :: cs) (readNumber c cs) := by
  obtain ⟨front, rest, rfl, hfront, hrest⟩ := exists_split Char.isDigit cs
  unfold readNumber
  simp only [takeWhile_append_of_head hfront hrest, List.drop_left]
  rcases fraction_cases rest with ⟨hnone, hpoint⟩ | ⟨places, more, rfl, hplaces, hmore, hsome⟩
  · -- no fraction: only digits can follow
    have hlongest :
        LongestLexeme (c :: front) (integerKind? (c :: front)) (c :: (front ++ rest)) := by
      refine longest_of_follows ((hfollows _ _).mpr (.inl ⟨hfront, rfl⟩)) (List.prefix_append ..)
        fun t' k' hf ht' => ?_
      rcases (hfollows _ _).mp hf with ⟨hdigits, rfl⟩ | ⟨whole, places, rfl, hwhole, hplaces, rfl⟩
      · rcases prefix_front hdigits hfront hrest ht' with rfl | hlt
        · exact .inl ⟨rfl, rfl⟩
        · exact .inr hlt
      · exact absurd (prefix_point hwhole hfront hrest ht').2 (hpoint places hplaces)
    rw [hnone]
    unfold integerKind? at hlongest
    cases hfit : Integer.fit? (Decimal.natOfDigits (c :: front)) with
    | some n =>
      rw [hfit] at hlongest
      exact hlongest.reads_ok rfl
    | none =>
      rw [hfit] at hlongest
      exact hlongest.reads_error
  · have hlongest : LongestLexeme (c :: (front ++ '.' :: places)) (floatKind? (c :: front) places)
        (c :: (front ++ '.' :: (places ++ more))) := by
      refine longest_of_follows
        ((hfollows _ _).mpr (.inr ⟨front, places, rfl, hfront, hplaces, rfl⟩))
        ⟨more, by simp⟩ fun t' k' hf ht' => ?_
      rcases (hfollows _ _).mp hf with ⟨hdigits, rfl⟩ | ⟨whole, places', rfl, hwhole, hplaces', rfl⟩
      · -- digits alone end at the point
        have hle : t'.length ≤ front.length := by
          rcases prefix_front hdigits hfront hrest ht' with rfl | hlt
          · exact Nat.le_refl _
          · exact Nat.le_of_lt hlt
        refine .inr ?_
        rw [List.length_append, List.length_cons]
        omega
      · obtain ⟨rfl, hstart⟩ := prefix_point hwhole hfront hrest ht'
        have hstart := (List.cons_prefix_cons.mp hstart).2
        rcases prefix_front hplaces'.2 hplaces.2 hmore hstart with rfl | hlt
        · exact .inl ⟨rfl, rfl⟩
        · refine .inr ?_
          simp only [List.length_append, List.length_cons]
          omega
    obtain ⟨d, places, rfl⟩ := List.exists_cons_of_ne_nil hplaces.1
    rw [hsome]
    unfold floatKind? at hlongest
    show Reads _ (if _ then _ else _)
    split
    case isTrue hfinite =>
      rw [if_pos hfinite] at hlongest
      refine hlongest.reads_ok ?_
      simp only [List.length_append, List.length_cons]
      omega
    case isFalse hinfinite =>
      rw [if_neg hinfinite] at hlongest
      exact hlongest.reads_error

/-! Strings. -/

/-- What reading the inside of a string gives if `text`, of this width, was passed before. -/
def passing (text : List Char) (width : Nat) : Text.QuotedBody → Text.QuotedBody
  | .closed more extra => .closed (text ++ more) (width + extra)
  | .badEscape letter offset => .badEscape letter (width + offset)
  | .unterminated => .unterminated

/-- Reading passes over the body of a string, character or escape by escape. -/
theorem Quoted.readBody_append {body text : List Char} (h : Quoted body text) (cs : List Char) :
    Text.readBody (body ++ cs) = passing text body.length (Text.readBody cs) := by
  -- what is passed over comes in front
  have hstep : ∀ (c : Char) (text : List Char) (n w : Nat) (r : Text.QuotedBody),
      (passing text n r).after c w = passing (c :: text) (n + w) r := by
    intro c text n w r
    cases r <;> simp [passing, Text.QuotedBody.after, Nat.add_right_comm]
  induction h with
  | nil =>
    rw [List.nil_append]
    cases Text.readBody cs <;> simp [passing]
  | plain hquote hslash _ ih =>
    -- a character that is neither a quotation mark nor a backslash
    rw [List.cons_append, Text.readBody, ih, hstep]
    · rfl
    · exact hquote
    · exact fun h => absurd h hslash
    · exact fun _ _ h => absurd h hslash
  | escape hc _ ih =>
    -- an escape, which stands for one character
    rw [List.cons_append, List.cons_append, Text.readBody, hc]
    dsimp only
    rw [ih, hstep]
    rfl

/-- Where the inside of a string cannot be read on: at its end, or at an unknown escape. -/
inductive Stuck : List Char → Prop
  | atEnd : Stuck []
  | atBackslash : Stuck ['\\']
  | atQuote (rest : List Char) : Stuck ('"' :: rest)
  | atEscape {letter : Char} (hletter : Text.unescape? letter = none) (rest : List Char) :
      Stuck ('\\' :: letter :: rest)

/-- Every text begins with a body of a string, up to a character that cannot go on with it. -/
theorem exists_quoted (cs : List Char) :
    ∃ body text rest, cs = body ++ rest ∧ Quoted body text ∧ Stuck rest := by
  fun_induction Text.readBody cs with
  | case1 => exact ⟨[], [], [], rfl, .nil, .atEnd⟩
  -- the closing quotation mark
  | case2 rest => exact ⟨[], [], _, rfl, .nil, .atQuote rest⟩
  | case3 => exact ⟨[], [], _, rfl, .nil, .atBackslash⟩
  | case4 letter rest c hc ih =>
    -- an escape that is known is part of the body
    obtain ⟨body, text, stuck, rfl, hquoted, hstuck⟩ := ih
    exact ⟨_, _, stuck, rfl, .escape hc hquoted, hstuck⟩
  | case5 letter rest hletter => exact ⟨[], [], _, rfl, .nil, .atEscape hletter rest⟩
  | case6 c rest hquote hend hslash ih =>
    obtain ⟨body, text, stuck, rfl, hquoted, hstuck⟩ := ih
    -- a character by itself is no backslash
    have hplain : c ≠ '\\' := by
      rintro rfl
      cases hmore : body ++ stuck with
      | nil => exact hend rfl hmore
      | cons letter more => exact hslash letter more rfl hmore
    exact ⟨_, _, stuck, rfl, .plain hquote hplain hquoted, hstuck⟩

/-- A quote behind a body closes the string. -/
theorem Quoted.readBody {body text : List Char} (h : Quoted body text) (rest : List Char) :
    Text.readBody (body ++ '"' :: rest) = .closed text (body.length + 1) := by
  rw [h.readBody_append]
  simp [Text.readBody, passing]

/-- A string that is closed has a body in front of its quote. -/
theorem quoted_of_readBody {text : List Char} {width : Nat}
    (h : Text.readBody cs = .closed text width) :
    ∃ body rest, cs = body ++ '"' :: rest ∧ Quoted body text ∧ width = body.length + 1 := by
  obtain ⟨body, text', stuck, rfl, hquoted, hstuck⟩ := exists_quoted cs
  cases hstuck with
  | atQuote rest =>
    -- only a quotation mark closes the string
    rw [hquoted.readBody] at h
    cases h
    exact ⟨body, rest, rfl, hquoted, rfl⟩
  | atEnd =>
    rw [hquoted.readBody_append] at h
    cases h
  | atBackslash =>
    rw [hquoted.readBody_append] at h
    cases h
  | atEscape hletter rest =>
    rw [hquoted.readBody_append, Text.readBody, hletter] at h
    cases h

/-- A string is read up to the first quote that is not escaped. -/
theorem reads_string (hfollows : ∀ t k, Follows c t k ↔
    ∃ body text, t = body ++ ['"'] ∧ Quoted body text ∧ k = some (.str (String.ofList text))) :
    Reads (c :: cs) (readString cs) := by
  -- the closing quote is the first that no backslash escapes, so no two literals stand in one place
  have hread : ∀ t k, Follows c t k → t <+: cs → ∃ text,
      Text.readBody cs = .closed text t.length ∧ k = some (.str (String.ofList text)) := by
    rintro t k hf ⟨more, rfl⟩
    obtain ⟨body, text, rfl, hquoted, rfl⟩ := (hfollows _ _).mp hf
    have hbody := hquoted.readBody more
    rw [List.append_assoc, List.length_append]
    exact ⟨text, hbody, rfl⟩
  unfold readString
  cases hbody : Text.readBody cs with
  | closed text width =>
    obtain ⟨body, rest, rfl, hquoted, rfl⟩ := quoted_of_readBody hbody
    refine LongestLexeme.reads_ok (l := c :: (body ++ ['"'])) (longest_of_follows
      ((hfollows _ _).mpr ⟨body, text, rfl, hquoted, rfl⟩) ⟨rest, by simp⟩ fun t' k' hf ht' => ?_)
      (by simp)
    obtain ⟨text', hbody', rfl⟩ := hread t' k' hf ht'
    rw [hbody] at hbody'
    obtain ⟨rfl, hlen⟩ := Text.QuotedBody.closed.inj hbody'
    have hstart : body ++ ['"'] <+: body ++ '"' :: rest := ⟨rest, by simp⟩
    have hlen : (body ++ ['"']).length = t'.length := by rw [← hlen]; simp
    have heq := (List.prefix_of_prefix_length_le hstart ht' (Nat.le_of_eq hlen)).eq_of_length hlen
    exact .inl ⟨heq.symm, rfl⟩
  | badEscape letter offset =>
    refine reads_error_of_not_follows fun t k hf ht => ?_
    obtain ⟨text, hbody', -⟩ := hread t k hf ht
    rw [hbody] at hbody'
    exact nomatch hbody'
  | unterminated =>
    refine reads_error_of_not_follows fun t k hf ht => ?_
    obtain ⟨text, hbody', -⟩ := hread t k hf ht
    rw [hbody] at hbody'
    exact nomatch hbody'

/-! Symbols. -/

/-- Long symbols are tried before short ones. -/
theorem symbols_pairwise : Symbol.all.Pairwise fun s s' => s'.chars.length ≤ s.chars.length := by
  decide

/-- Symbols are told by their characters. -/
theorem Symbol.chars_injective {s s' : Symbol} (h : s.chars = s'.chars) : s = s' := by
  have hs := @Symbol.atFront?_append [] s (fun _ hc => nomatch hc)
  have hs' := @Symbol.atFront?_append [] s' (fun _ hc => nomatch hc)
  rw [h, hs'] at hs
  exact (Option.some.inj hs).symm

/-- The symbol found stands in front. -/
theorem prefix_of_atFront? {s : Symbol} (h : Symbol.atFront? cs = some s) : s.chars <+: cs := by
  unfold Symbol.atFront? at h
  exact List.isPrefixOf_iff_prefix.mp (by simpa using List.find?_some h)

/-- A symbol in front is the one that is found, or a shorter one. -/
theorem atFront?_longest {s s' : Symbol} (h : Symbol.atFront? cs = some s) (h' : s'.chars <+: cs) :
    s' = s ∨ s'.chars.length < s.chars.length := by
  obtain ⟨-, before, after, hall, hbefore⟩ := List.find?_eq_some_iff_append.mp h
  have hs : s.chars <+: cs := prefix_of_atFront? h
  have hmem : s' ∈ Symbol.all := by cases s' <;> decide
  have hpairwise := symbols_pairwise
  rw [hall] at hmem hpairwise
  -- the symbols are tried from the longest on
  have hle : s'.chars.length ≤ s.chars.length := by
    rcases List.mem_append.mp hmem with hearly | hlate
    · -- an earlier one was tried, and is not in front
      have hnot := hbefore s' hearly
      rw [List.isPrefixOf_iff_prefix.mpr h'] at hnot
      exact nomatch hnot
    · rcases List.mem_cons.mp hlate with rfl | hlate
      · exact Nat.le_refl _
      · exact (List.pairwise_cons.mp (List.pairwise_append.mp hpairwise).2.1).1 s' hlate
  rcases Nat.lt_or_ge s'.chars.length s.chars.length with hlt | hge
  · exact .inr hlt
  · -- a symbol of the same length is the same one
    have hstart := List.prefix_of_prefix_length_le hs h' hge
    exact .inl (Symbol.chars_injective (hstart.eq_of_length_le hle)).symm

/-- Where no symbol is found, none stands in front. -/
theorem not_prefix_of_atFront?_eq_none (h : Symbol.atFront? cs = none) (s : Symbol) :
    ¬ s.chars <+: cs := by
  intro hs
  have hmem : s ∈ Symbol.all := by cases s <;> decide
  exact List.find?_eq_none.mp h s hmem (List.isPrefixOf_iff_prefix.mpr hs)

/-- The longer symbols are tried first, so the longest one is read. -/
theorem reads_symbol (hfollows : ∀ t k, Follows c t k ↔
    ∃ s : Symbol, s.chars = c :: t ∧ k = some (.symbol s)) :
    Reads (c :: cs) (readSymbol c cs) := by
  unfold readSymbol
  cases hfront : Symbol.atFront? (c :: cs) with
  | some s =>
    -- a symbol stands in front
    have hs : s.chars <+: c :: cs := prefix_of_atFront? hfront
    obtain ⟨d, t, hchars, -⟩ := lexeme_symbol s
    rw [hchars] at hs
    obtain ⟨rfl, ht⟩ := List.cons_prefix_cons.mp hs
    refine LongestLexeme.reads_ok (l := d :: t) (longest_of_follows
      ((hfollows _ _).mpr ⟨s, hchars, rfl⟩) ht fun t' k' hf ht' => ?_) (by rw [hchars]; rfl)
    obtain ⟨s', hchars', rfl⟩ := (hfollows _ _).mp hf
    have hstart : s'.chars <+: d :: cs := hchars' ▸ List.cons_prefix_cons.mpr ⟨rfl, ht'⟩
    -- any other one in front is shorter
    rcases atFront?_longest hfront hstart with rfl | hlt
    · rw [hchars] at hchars'
      exact .inl ⟨(List.cons.inj hchars').2.symm, rfl⟩
    · rw [hchars, hchars'] at hlt
      exact .inr (Nat.lt_of_succ_lt_succ hlt)
  | none =>
    -- no symbol stands in front
    refine reads_error_of_not_follows fun t k hf ht => ?_
    obtain ⟨s, hchars, -⟩ := (hfollows _ _).mp hf
    refine not_prefix_of_atFront?_eq_none hfront s ?_
    rw [hchars]
    exact List.cons_prefix_cons.mpr ⟨rfl, ht⟩

/-- A line end is read whole, be it one character or two. -/
theorem reads_newline (hfollows : ∀ t' k', Follows c t' k' ↔ t' = t ∧ k' = some .newline)
    (ht : t <+: cs) (hlen : t.length = extra) : Reads (c :: cs) (.ok (.newline, extra)) := by
  refine LongestLexeme.reads_ok (l := c :: t) (longest_of_follows ((hfollows _ _).mpr ⟨rfl, rfl⟩) ht
    fun t' k' hf _ => .inl ((hfollows _ _).mp hf)) ?_
  rw [List.length_cons, hlen]

/-- **The scanner reads the longest lexeme**, wherever no gap is left. -/
theorem lexeme_reads (hreturn : c = '\r' → cs.head? = some '\n') :
    Reads (c :: cs) (Scan.lexeme c cs) := by
  unfold Scan.lexeme
  -- one case for each kind of first character
  split
  case isTrue hc =>
    have hc : c = '\n' := beq_iff_eq.mp hc
    refine reads_newline (t := []) (fun t k => ?_) (List.nil_prefix ..) rfl
    rw [Follows, if_pos hc]
  case isFalse hfeed =>
  have hfeed : c ≠ '\n' := fun hc => hfeed (beq_iff_eq.mpr hc)
  split
  case isTrue hc =>
    have hc : c = '\r' := beq_iff_eq.mp hc
    have hnext : ['\n'] <+: cs := by
      obtain ⟨more, rfl⟩ := List.head?_eq_some_iff.mp (hreturn hc)
      exact ⟨more, rfl⟩
    refine reads_newline (fun t k => ?_) hnext rfl
    rw [Follows, if_neg hfeed, if_pos hc]
  case isFalse hret =>
  have hret : c ≠ '\r' := fun hc => hret (beq_iff_eq.mpr hc)
  split
  case isTrue hc =>
    refine reads_string fun t k => ?_
    rw [Follows, if_neg hfeed, if_neg hret, if_pos (beq_iff_eq.mp hc)]
  case isFalse hquote =>
  have hquote : c ≠ '"' := fun hc => hquote (beq_iff_eq.mpr hc)
  split
  case isTrue hc =>
    refine reads_number fun t k => ?_
    rw [Follows, if_neg hfeed, if_neg hret, if_neg hquote, if_pos hc]
  case isFalse hdigit =>
  split
  case isTrue hc =>
    refine reads_word fun t k => ?_
    rw [Follows, if_neg hfeed, if_neg hret, if_neg hquote, if_neg hdigit, if_pos hc]
  case isFalse hword =>
    refine reads_symbol fun t k => ?_
    rw [Follows, if_neg hfeed, if_neg hret, if_neg hquote, if_neg hdigit, if_neg hword]

end Readers

end Scan

end Scriptlet
