/-
  Failures: texts without tokens, and what is wrong with them.

  1. **Spec** (`Blames rest cause ahead`) — what each fault says about the text at whose front no
     token can be read, in terms of the lexical grammar, and how many characters ahead it is
     reported.
  2. **Program** (`Scan.lexeme`) — fails with one fault.  It is the one that may be blamed, and no
     other may (`lexeme_eq_error_iff`): the inside of a string, read up to its end, meets a closing
     quote or an unknown escape first, or neither.
  3. **Cutting a text short** (`LongestGap.cut`, `LongestLexeme.cut`) — a lexeme that is the longest
     in front of a text is the longest in front of the beginning of that text.  For a gap that holds
     up to the end of the lexeme behind it: the gap looks one character into the lexeme.
  4. **The crux (`account_of_scanFrom_error`)** — so what stands before a failure has tokens of its
     own.
-/
import Scriptlet.Proofs.Token.Account

namespace Scriptlet

namespace Scan

/-! ## Faults -/

/-- What is wrong with a text at whose front no token can be read, and how many characters ahead
    that is reported. -/
inductive Blames : List Char → LexFault → Nat → Prop
  /-- The character starts no lexeme, and no string either. -/
  | unexpectedCharacter {c : Char} {cs : List Char} (hquote : c ≠ '"')
      (hnone : ∀ l k, Lexeme l k → ¬ l <+: c :: cs) :
      Blames (c :: cs) (.unexpectedCharacter c) 0
  /-- All the digits in front, with no fraction behind them, are a number out of range. -/
  | integerOverflow {digits rest : List Char} (hdigits : Digits digits)
      (hrest : ∀ x ∈ rest.head?, x.isDigit = false)
      (hpoint : ∀ places, Digits places → ¬ '.' :: places <+: rest)
      (hhuge : Integer.greatest < (Decimal.natOfDigits digits : Int)) :
      Blames (digits ++ rest) (.integerOverflow (String.ofList digits)) 0
  /-- All the digits in front and the fraction behind them are a number that is not finite. -/
  | floatOverflow {whole places rest : List Char} (hwhole : Digits whole)
      (hplaces : Digits places) (hrest : ∀ x ∈ rest.head?, x.isDigit = false)
      (hinfinite : (Decimal.ofFraction whole places).isFinite = false) :
      Blames (whole ++ '.' :: places ++ rest)
        (.floatOverflow (String.ofList (whole ++ '.' :: places))) 0
  /-- No unescaped quote closes the string, and there is no unknown escape up to the end. -/
  | unterminatedString {cs : List Char}
      (hclosed : ∀ body text more, Quoted body text → cs ≠ body ++ '"' :: more)
      (hescaped : ∀ body text letter more, Quoted body text → cs = body ++ '\\' :: letter :: more →
        Text.unescape? letter ≠ none) :
      Blames ('"' :: cs) .unterminatedString 0
  /-- The first unknown escape of the string; it is reported at its backslash. -/
  | invalidEscape {body text more : List Char} {letter : Char} (hbody : Quoted body text)
      (hletter : Text.unescape? letter = none) :
      Blames ('"' :: body ++ '\\' :: letter :: more) (.invalidEscape letter) (body.length + 1)

variable {c letter : Char} {cs rest front more gap l : List Char} {k : Option TokenKind}
  {kind : TokenKind} {cause : LexFault} {ahead : Nat}

/-! ## Strings -/

theorem Quoted.readBody_invalid {body text : List Char} (h : Quoted body text)
    (hletter : Text.unescape? letter = none) (more : List Char) :
    Text.readBody (body ++ '\\' :: letter :: more) = .badEscape letter body.length := by
  rw [h.readBody_append, Text.readBody, hletter]
  rfl

theorem quoted_of_badEscape {offset : Nat} (h : Text.readBody cs = .badEscape letter offset) :
    ∃ body text more, cs = body ++ '\\' :: letter :: more ∧ Quoted body text ∧
      Text.unescape? letter = none ∧ offset = body.length := by
  obtain ⟨body, text, stuck, rfl, hquoted, hstuck⟩ := exists_quoted cs
  cases hstuck with
  | atEscape hletter rest =>
    -- only a letter that is no escape stops there
    rw [hquoted.readBody_invalid hletter] at h
    cases h
    exact ⟨body, text, rest, rfl, hquoted, hletter, rfl⟩
  | atQuote rest =>
    rw [hquoted.readBody] at h
    cases h
  | atEnd =>
    rw [hquoted.readBody_append] at h
    cases h
  | atBackslash =>
    rw [hquoted.readBody_append] at h
    cases h

/-- The inside of a string is read to the end exactly if nothing on the way stops it. -/
theorem readBody_eq_unterminated_iff : Text.readBody cs = .unterminated ↔
    (∀ body text more, Quoted body text → cs ≠ body ++ '"' :: more) ∧
    (∀ body text letter more, Quoted body text → cs = body ++ '\\' :: letter :: more →
      Text.unescape? letter ≠ none) := by
  constructor
  · intro h
    constructor
    · -- a body in front of a quotation mark would have closed it
      rintro body text more hbody rfl
      rw [hbody.readBody] at h
      exact nomatch h
    · rintro body text letter more hbody rfl hletter
      -- an escape that is not known would have stopped it
      rw [hbody.readBody_invalid hletter] at h
      exact nomatch h
  · rintro ⟨hclosed, hescaped⟩
    -- what stops the reading is one of the two
    cases hread : Text.readBody cs with
    | closed text width =>
      obtain ⟨body, more, rfl, hbody, -⟩ := quoted_of_readBody hread
      exact absurd rfl (hclosed body text more hbody)
    | badEscape letter offset =>
      obtain ⟨body, text, more, rfl, hbody, hletter, -⟩ := quoted_of_badEscape hread
      exact absurd hletter (hescaped body text letter more hbody rfl)
    | unterminated => rfl

theorem readString_blames (h : readString cs = .error (cause, ahead)) :
    Blames ('"' :: cs) cause ahead := by
  unfold readString at h
  cases hread : Text.readBody cs with
  | closed text width => rw [hread] at h; exact nomatch h
  | badEscape letter offset =>
    rw [hread] at h
    cases h
    obtain ⟨body, text, more, rfl, hbody, hletter, rfl⟩ := quoted_of_badEscape hread
    exact .invalidEscape hbody hletter
  | unterminated =>
    rw [hread] at h
    cases h
    obtain ⟨hclosed, hescaped⟩ := readBody_eq_unterminated_iff.mp hread
    exact .unterminatedString hclosed hescaped

/-! ## Numbers -/

theorem readNumber_blames (hc : c.isDigit = true) (h : readNumber c cs = .error (cause, ahead)) :
    Blames (c :: cs) cause ahead := by
  obtain ⟨front, rest, rfl, hfront, hrest⟩ := exists_split Char.isDigit cs
  unfold readNumber at h
  simp only [takeWhile_append_of_head hfront hrest, List.drop_left] at h
  -- a number with digits behind a point, or without
  rcases fraction_cases rest with ⟨hnone, hpoint⟩ | ⟨places, more, rfl, hplaces, hmore, hsome⟩
  · rw [hnone] at h
    dsimp only at h
    cases hfit : Integer.fit? (Decimal.natOfDigits (c :: front)) with
    -- an integer that fits is read
    | some n => rw [hfit] at h; exact nomatch h
    | none =>
      rw [hfit] at h
      -- one that does not is to blame
      cases h
      exact .integerOverflow (digits_cons hc hfront) hrest hpoint (Integer.fit?_eq_none_iff.mp hfit)
  · obtain ⟨d, places, rfl⟩ := List.exists_cons_of_ne_nil hplaces.1
    rw [hsome] at h
    dsimp only at h
    -- a float with a finite value is read
    split at h
    · exact nomatch h
    · next hinfinite =>
      cases h
      have hcut : c :: (front ++ '.' :: (d :: places ++ more))
          = c :: front ++ '.' :: (d :: places) ++ more := by simp
      rw [hcut]
      exact .floatOverflow (digits_cons hc hfront) hplaces hmore
        ((Bool.not_eq_true _).mp hinfinite)

theorem readNumber_integerOverflow {digits : List Char} (hdigits : Digits digits)
    (hrest : ∀ x ∈ rest.head?, x.isDigit = false)
    (hpoint : ∀ places, Digits places → ¬ '.' :: places <+: rest)
    (hhuge : Integer.greatest < (Decimal.natOfDigits digits : Int)) :
    ∃ c t, digits ++ rest = c :: t ∧ c.isDigit = true ∧
      readNumber c t = .error (.integerOverflow (String.ofList digits), 0) := by
  obtain ⟨c, front, rfl⟩ := List.exists_cons_of_ne_nil hdigits.1
  obtain ⟨hc, hfront⟩ := List.forall_mem_cons.mp hdigits.2
  refine ⟨c, front ++ rest, rfl, hc, ?_⟩
  have hnone : fraction rest = [] := by
    rcases fraction_cases rest with ⟨hnone, -⟩ | ⟨places, more, rfl, hplaces, -⟩
    · exact hnone
    · exact absurd ⟨more, rfl⟩ (hpoint places hplaces)
  unfold readNumber
  simp only [takeWhile_append_of_head hfront hrest, List.drop_left, hnone,
    Integer.fit?_eq_none_iff.mpr hhuge]

theorem readNumber_floatOverflow {whole places : List Char} (hwhole : Digits whole)
    (hplaces : Digits places) (hrest : ∀ x ∈ rest.head?, x.isDigit = false)
    (hinfinite : (Decimal.ofFraction whole places).isFinite = false) :
    ∃ c t, whole ++ '.' :: places ++ rest = c :: t ∧ c.isDigit = true ∧
      readNumber c t = .error (.floatOverflow (String.ofList (whole ++ '.' :: places)), 0) := by
  obtain ⟨c, front, rfl⟩ := List.exists_cons_of_ne_nil hwhole.1
  obtain ⟨d, more, rfl⟩ := List.exists_cons_of_ne_nil hplaces.1
  obtain ⟨hc, hfront⟩ := List.forall_mem_cons.mp hwhole.2
  refine ⟨c, front ++ ('.' :: d :: more ++ rest), by simp, hc, ?_⟩
  have hpoint : ∀ x ∈ ('.' :: d :: more ++ rest).head?, x.isDigit = false := by
    intro x hx
    rw [← Option.some.inj hx]
    rfl
  have hsome : fraction ('.' :: d :: more ++ rest) = d :: more :=
    takeWhile_append_of_head hplaces.2 hrest
  unfold readNumber
  simp only [takeWhile_append_of_head hfront hpoint, List.drop_left, hsome, hinfinite,
    Bool.false_eq_true, if_false]

/-! ## Symbols -/

theorem readSymbol_blames (hquote : c ≠ '"')
    (hfollows : ∀ t k, Follows c t k → ∃ s : Symbol, s.chars = c :: t)
    (h : readSymbol c cs = .error (cause, ahead)) : Blames (c :: cs) cause ahead := by
  unfold readSymbol at h
  cases hfront : Symbol.atFront? (c :: cs) with
  | some s =>
    rw [hfront] at h
    exact nomatch h
  | none =>
    rw [hfront] at h
    cases h
    refine .unexpectedCharacter hquote fun l k hl hstart => ?_
    obtain ⟨c', t, rfl, hf⟩ := hl.exists_follows
    obtain ⟨rfl, -⟩ := List.cons_prefix_cons.mp hstart
    obtain ⟨s, hchars⟩ := hfollows t k hf
    exact not_prefix_of_atFront?_eq_none hfront s (hchars ▸ hstart)

/-- Where no lexeme stands, nothing is tried but symbols, and none is found. -/
theorem lexeme_of_no_lexeme (hquote : c ≠ '"') (hreturn : c = '\r' → cs.head? = some '\n')
    (hnone : ∀ l k, Lexeme l k → ¬ l <+: c :: cs) :
    lexeme c cs = .error (.unexpectedCharacter c, 0) := by
  have hfirst : ∀ k, ¬ Follows c [] k := by
    intro k hf
    exact hnone _ _ hf.lexeme ⟨cs, rfl⟩
  have hfeed : c ≠ '\n' := by
    rintro rfl
    exact hnone _ _ .lineFeed ⟨cs, rfl⟩
  have hret : c ≠ '\r' := by
    rintro rfl
    obtain ⟨more, rfl⟩ := List.head?_eq_some_iff.mp (hreturn rfl)
    exact hnone _ _ .carriageReturn ⟨more, rfl⟩
  have hdigit : ¬ c.isDigit = true := fun hc =>
    hfirst _ (follows_digit hc (.inl ⟨List.forall_mem_nil _, rfl⟩))
  have hword : ¬ isWordStart c = true := fun hc =>
    hfirst _ (follows_word hc (List.forall_mem_nil _))
  unfold lexeme
  rw [if_neg (mt beq_iff_eq.mp hfeed), if_neg (mt beq_iff_eq.mp hret),
    if_neg (mt beq_iff_eq.mp hquote), if_neg hdigit, if_neg hword]
  unfold readSymbol
  cases hfront : Symbol.atFront? (c :: cs) with
  | none => rfl
  | some s => exact absurd (prefix_of_atFront? hfront) (hnone _ _ (.symbol s))

/-! ## The fault of the scanner -/

theorem lexeme_blames (h : lexeme c cs = .error (cause, ahead)) : Blames (c :: cs) cause ahead := by
  unfold lexeme at h
  split at h
  · exact nomatch h
  case isFalse hfeed =>
  split at h
  · exact nomatch h
  case isFalse hreturn =>
  split at h
  case isTrue hc =>
    rw [beq_iff_eq.mp hc]
    exact readString_blames h
  case isFalse hquote =>
  split at h
  case isTrue hc => exact readNumber_blames hc h
  case isFalse hdigit =>
  split at h
  · exact nomatch h
  case isFalse hword =>
    rw [beq_iff_eq] at hfeed hreturn hquote
    refine readSymbol_blames hquote (fun t k hf => ?_) h
    rw [Follows, if_neg hfeed, if_neg hreturn, if_neg hquote, if_neg hdigit, if_neg hword] at hf
    obtain ⟨s, hchars, -⟩ := hf
    exact ⟨s, hchars⟩

theorem Blames.lexeme_eq_error {text : List Char} (h : Blames text cause ahead)
    (htext : text = c :: cs) (hreturn : c = '\r' → cs.head? = some '\n') :
    Scan.lexeme c cs = .error (cause, ahead) := by
  cases h with
  | unexpectedCharacter hquote hnone =>
    obtain ⟨rfl, rfl⟩ := List.cons.inj htext
    exact lexeme_of_no_lexeme hquote hreturn hnone
  | integerOverflow hdigits hrest hpoint hhuge =>
    obtain ⟨c', t, hcut, hc, hread⟩ := readNumber_integerOverflow hdigits hrest hpoint hhuge
    obtain ⟨rfl, rfl⟩ := List.cons.inj (hcut.symm.trans htext)
    exact (lexeme_digit hc t).1.trans hread
  | floatOverflow hwhole hplaces hrest hinfinite =>
    obtain ⟨c', t, hcut, hc, hread⟩ := readNumber_floatOverflow hwhole hplaces hrest hinfinite
    obtain ⟨rfl, rfl⟩ := List.cons.inj (hcut.symm.trans htext)
    exact (lexeme_digit hc t).1.trans hread
  | unterminatedString hclosed hescaped =>
    obtain ⟨rfl, rfl⟩ := List.cons.inj htext
    show readString _ = _
    rw [readString, readBody_eq_unterminated_iff.mpr ⟨hclosed, hescaped⟩]
  | @invalidEscape body text more letter hbody hletter =>
    obtain ⟨rfl, rfl⟩ := List.cons.inj htext
    show readString (body ++ '\\' :: letter :: more) = _
    rw [readString, hbody.readBody_invalid hletter]

/-- **A text is read with a fault exactly if the fault is to blame**, wherever no gap is left. -/
theorem lexeme_eq_error_iff (hreturn : c = '\r' → cs.head? = some '\n') :
    lexeme c cs = .error (cause, ahead) ↔ Blames (c :: cs) cause ahead :=
  ⟨lexeme_blames, fun h => h.lexeme_eq_error rfl hreturn⟩

/-! ## Cutting a text short -/

/-- A text that is cut short begins the same way, or is empty. -/
theorem mem_head?_cut {short long : List Char} (h : short <+: long)
    (hc : c ∈ short.head?) : c ∈ long.head? := by
  obtain ⟨tail, htail⟩ := List.head?_eq_some_iff.mp hc
  obtain ⟨more, rfl⟩ := h
  rw [htail]
  rfl

/-- A gap looks at most one character ahead, and the end of the text suits it. -/
theorem Gap.cut (h : Gap gap rest) (hcut : front <+: rest) : Gap gap front := by
  induction h with
  | nil => exact .nil
  | blank hc _ ih => exact .blank hc (ih hcut)
  | carriageReturn hnext _ ih =>
    refine .carriageReturn (fun hfeed => hnext ?_) (ih hcut)
    exact mem_head?_cut ((List.prefix_append_right_inj _).mpr hcut) hfeed
  | comment htext hend _ ih =>
    refine .comment htext (fun c hc => hend c ?_) (ih hcut)
    exact mem_head?_cut ((List.prefix_append_right_inj _).mpr hcut) hc

/-- A gap that ends at a lexeme still ends there when the text is cut short behind the lexeme. -/
theorem LongestGap.cut (h : LongestGap gap (l ++ rest)) (hl : Lexeme l k)
    (hcut : front <+: rest) : LongestGap gap (l ++ front) := by
  obtain ⟨hgap, hstop⟩ := longestGap_iff.mp h
  refine longestGap_iff.mpr ⟨hgap.cut ((List.prefix_append_right_inj l).mpr hcut), ?_⟩
  exact hl.splitGap_append hstop (mem_head?_cut hcut)

theorem LongestLexeme.cut (h : LongestLexeme l k (l ++ rest)) (hcut : front <+: rest) :
    LongestLexeme l k (l ++ front) := by
  obtain ⟨hl, -, hlongest⟩ := h
  refine ⟨hl, List.prefix_append .., fun l' k' hl' hstart => hlongest l' k' hl' ?_⟩
  exact hstart.trans ((List.prefix_append_right_inj l).mpr hcut)

/-! ## The scanner -/

/-- **What stands before a failure has tokens**, and the failure is where they end. -/
theorem account_of_scanFrom_error (span : Span) (source : List Char) : ∀ before e,
    span = .afterText before → scanFrom span source = .error e →
      ∃ front rest tokens ahead, source = front ++ rest ∧ Account before front tokens ∧
        e.span = .afterText (before ++ front ++ rest.take ahead) ∧
        ∀ cause ahead', Blames rest cause ahead' ↔ cause = e.cause ∧ ahead' = ahead := by
  fun_induction scanFrom span source with
  | case1 =>
    intro before e _ herror
    cases herror
  | case2 span source start c cs hsplit cause ahead hread =>
    -- the gap in front is all that has tokens
    rintro before e rfl herror
    obtain ⟨hsource, hgap, hreturn⟩ := longestGap_of_splitGap hsplit
    have hend : LongestGap (splitGap false source).1 [] :=
      longestGap_iff.mpr ⟨hgap.1.cut (List.nil_prefix ..), rfl⟩
    refine ⟨(splitGap false source).1, c :: cs, _, ahead, hsource, .done hend, ?_, ?_⟩
    · rw [← Except.error.inj herror, Span.afterText_append, Span.afterText_append]
    · intro cause' ahead'
      rw [← lexeme_eq_error_iff hreturn, hread, ← Except.error.inj herror]
      simp only [Except.error.injEq, Prod.mk.injEq, eq_comm]
  | case3 span source start c cs hsplit kind extra hread taken e' hothers ih =>
    -- one gap and one lexeme, both as long as they were, stand before the rest of the tokens
    rintro before e rfl herror
    obtain ⟨hsource, hgap, hreturn⟩ := longestGap_of_splitGap hsplit
    have hlexeme : Reads (c :: cs) (Scan.lexeme c cs) := lexeme_reads hreturn
    rw [hread] at hlexeme
    have hlexeme : LongestLexeme taken (some kind) (c :: cs) := hlexeme
    have hnext : start.after taken = .afterText (before ++ (splitGap false source).1 ++ taken) := by
      rw [Span.afterText_append, Span.afterText_append]
    obtain ⟨front, rest, tokens, ahead, hfront, haccount, hspan, hblames⟩ := ih _ _ hnext hothers
    have hcut : c :: cs = taken ++ (front ++ rest) := by
      rw [← hfront]
      simp [taken]
    rw [hcut] at hgap hlexeme hsource
    have hmore := Account.more (hgap.cut hlexeme.1 (List.prefix_append ..))
      (hlexeme.cut (List.prefix_append ..)) haccount
    rw [← Except.error.inj herror]
    refine ⟨_, rest, _, ahead, hsource.trans ?_, hmore, ?_, hblames⟩
    · simp only [List.append_assoc]
    · rw [hspan]
      simp only [List.append_assoc]
  | case4 =>
    intro before e _ herror
    cases herror

/-- A byte order mark in front of a text belongs to what stands before the rest. -/
theorem exists_of_dropMark_eq {source : List Char} (h : dropMark source = front ++ rest) :
    ∃ front', source = front' ++ rest ∧ dropMark front' = front := by
  unfold dropMark at h
  split at h
  · exact ⟨'\uFEFF' :: front, congrArg ('\uFEFF' :: ·) h, rfl⟩
  case h_2 hmark =>
    refine ⟨front, h, ?_⟩
    unfold dropMark
    split
    · exact absurd h (hmark _)
    · rfl

/-- A point, or an `&` or `|` that is not doubled, starts no token. -/
theorem blames_unexpected (h : c = '.' ∨ (c = '&' ∨ c = '|') ∧ cs.head? ≠ some c) :
    Blames (c :: cs) (.unexpectedCharacter c) 0 := by
  refine lexeme_blames ?_
  rcases h with rfl | ⟨hc, hnext⟩
  · rfl
  · cases cs with
    | nil => rcases hc with rfl | rfl <;> rfl
    | cons d cs =>
      have hd : (c == d) = false := beq_false_of_ne fun heq => hnext (heq ▸ rfl)
      rcases hc with rfl | rfl
      all_goals
        show readSymbol _ _ = _
        simp [readSymbol, Symbol.atFront?, Symbol.all, Symbol.chars, List.isPrefixOf, hd]

end Scan

/-- **Failures are localised.**  A source that has no tokens is a text that has tokens, followed by
    a text at whose front none can be read; the error is reported there — an unknown escape at its
    backslash — and it is the one fault that is to blame. -/
theorem scan_error_localised {source : String} {e : LexError} (h : scan source = .error e) :
    ∃ (front rest : String) (ahead : Nat), source = front ++ rest ∧
      (∃ tokens, scan front = .ok tokens) ∧
      e.span = .afterText (Scan.dropMark front.toList ++ rest.toList.take ahead) ∧
      (∀ cause ahead', Scan.Blames rest.toList cause ahead' ↔ cause = e.cause ∧ ahead' = ahead) ∧
      ∀ c cs, rest.toList = c :: cs → (c = '.' ∨ (c = '&' ∨ c = '|') ∧ cs.head? ≠ some c) →
        e.cause = .unexpectedCharacter c := by
  obtain ⟨front, rest, tokens, ahead, hsource, haccount, hspan, hblames⟩ :=
    Scan.account_of_scanFrom_error .first _ [] e rfl h
  obtain ⟨front', hfront', hmark⟩ := Scan.exists_of_dropMark_eq hsource
  refine ⟨.ofList front', .ofList rest, ahead, ?_, ⟨tokens, ?_⟩, ?_, ?_, ?_⟩
  · rw [← String.toList_inj, String.toList_append, String.toList_ofList, String.toList_ofList]
    exact hfront'
  · rw [scan, String.toList_ofList, hmark]
    -- the front has the tokens that were found
    exact haccount.scanFrom_eq_ok
  · rw [String.toList_ofList, String.toList_ofList, hmark]
    -- the place is that of the error
    exact hspan
  · rw [String.toList_ofList]
    exact hblames
  · -- a character that starts no lexeme is to blame itself
    rw [String.toList_ofList]
    rintro c cs rfl hc
    exact ((hblames _ _).mp (Scan.blames_unexpected hc)).1.symm

/-- The escape is unknown; the text before the string has tokens of its own. -/
theorem scan_error_localised_unknownEscape :
    ∃ e, scan "x = \"a\\q\"" = .error e ∧ e.cause = .invalidEscape 'q' ∧ e.span = ⟨1, 7⟩ ∧
      ∃ (front rest : String) (ahead : Nat), "x = \"a\\q\"" = front ++ rest ∧
        (∃ tokens, scan front = .ok tokens) ∧
        e.span = .afterText (Scan.dropMark front.toList ++ rest.toList.take ahead) ∧
        (∀ cause ahead', Scan.Blames rest.toList cause ahead' ↔ cause = e.cause ∧ ahead' = ahead) ∧
        ∀ c cs, rest.toList = c :: cs → (c = '.' ∨ (c = '&' ∨ c = '|') ∧ cs.head? ≠ some c) →
          e.cause = .unexpectedCharacter c := by
  have herror : scan "x = \"a\\q\"" = .error ⟨.invalidEscape 'q', ⟨1, 7⟩⟩ := by
    with_unfolding_all rfl
  exact ⟨_, herror, rfl, rfl, scan_error_localised herror⟩

end Scriptlet
