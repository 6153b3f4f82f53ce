/-
  Scanning known texts.

  1. **Words of a text** — `Scans cs ws`: wherever the text `cs` stands, it has tokens, and their
     words are `ws`.
  2. **One lexeme at a time** — each kind of lexeme in front of a text adds its word, provided the
     text after it does not continue the lexeme: a word or a number ends before a `Stop`, a symbol
     before anything but `=` and `/`.
  3. **Names** — `isName x`: `x` is a word and no keyword, so it is read as an identifier.
-/
import Scriptlet.Proofs.Grammar.Walk
import Scriptlet.Proofs.Number.ReadBack
import Scriptlet.Token.Scan

namespace Scriptlet

/-! ## Words of the grammar -/

namespace Word

/-- The word of a symbol. -/
def ofSymbol (x : Symbol) : Word := ⟨.symbol x, x.text⟩

/-- The word of a keyword. -/
def ofKeyword (k : Keyword) : Word := ⟨.keyword k, k.text⟩

/-- The word of a name. -/
def ofName (x : String) : Word := ⟨.identifier, x⟩

/-- A line end. -/
def lineEnd : Word := ⟨.newline, "\n"⟩

end Word

namespace Scan

variable {c : Char} {cs rest : List Char} {ws : List Word}

/-! ## Texts and their words -/

/-- The text has tokens, with these words. -/
def Scans (cs : List Char) (ws : List Word) : Prop :=
  ∀ span, ∃ tokens, scanFrom span cs = .ok tokens ∧ Token.words tokens = ws

/-- A text begins with a gap, or with a lexeme, or it is empty. -/
theorem scanFrom_eq (span : Span) (source : List Char) : scanFrom span source =
    match (splitGap false source).2 with
    | [] => .ok [⟨.eof, "", span.after (splitGap false source).1⟩]
    | c :: cs =>
      match lexeme c cs with
      | .error (cause, ahead) =>
        .error ⟨cause, (span.after (splitGap false source).1).after ((c :: cs).take ahead)⟩
      | .ok (kind, extra) =>
        match scanFrom ((span.after (splitGap false source).1).after (c :: cs.take extra))
          (cs.drop extra) with
        | .error e => .error e
        | .ok tokens => .ok (⟨kind, tokenText kind (c :: cs.take extra),
            span.after (splitGap false source).1⟩ :: tokens) := by
  rw [scanFrom]
  split
  case h_1 h => rw [h]
  case h_2 h =>
    rewrite [h]
    rfl

theorem scans_nil : Scans [] [] := by
  intro span
  refine ⟨[⟨.eof, "", span⟩], ?_, rfl⟩
  rw [scanFrom_eq]
  rfl

/-- A blank in front changes the places only. -/
theorem Scans.blank (h : Scans cs ws) : Scans (' ' :: cs) ws := by
  intro span
  obtain ⟨tokens, htokens, hwords⟩ := h (span.step ' ')
  refine ⟨tokens, ?_, hwords⟩
  rw [← htokens, scanFrom_eq, scanFrom_eq]
  rfl

theorem Scans.blanks (h : Scans cs ws) (n : Nat) : Scans (List.replicate n ' ' ++ cs) ws := by
  induction n with
  | zero => exact h
  | succ n ih => exact ih.blank

/-- A character that starts no gap. -/
theorem splitGap_cons (hblank : isBlank c = false) (hreturn : c ≠ '\r')
    (hslash : c ≠ '/' ∨ cs.head? ≠ some '/') : splitGap false (c :: cs) = ([], c :: cs) := by
  unfold splitGap
  have hr : (c == '\r' && cs.head? != some '\n') = false := by
    rw [beq_false_of_ne hreturn, Bool.false_and]
  have hs : (c == '/' && cs.head? == some '/') = false := by
    rcases hslash with h | h
    · rw [beq_false_of_ne h, Bool.false_and]
    · rw [beq_false_of_ne h, Bool.and_false]
  simp only [Bool.false_and, Bool.false_eq_true, if_false, hblank, hr, hs, Bool.or_self]

/-- **A lexeme in front** adds its word. -/
theorem Scans.lexeme {kind : TokenKind} {t : List Char}
    (hgap : splitGap false (c :: t ++ rest) = ([], c :: t ++ rest))
    (hlex : Scan.lexeme c (t ++ rest) = .ok (kind, t.length)) (hkind : kind ≠ .eof)
    (h : Scans rest ws) : Scans (c :: t ++ rest) (⟨kind, tokenText kind (c :: t)⟩ :: ws) := by
  intro span
  obtain ⟨tokens, htokens, hwords⟩ := h (span.after (c :: t))
  refine ⟨⟨kind, tokenText kind (c :: t), span⟩ :: tokens, ?_, ?_⟩
  · rw [scanFrom_eq, hgap]
    show (match Scan.lexeme c (t ++ rest) with
      | .error (cause, ahead) => .error ⟨cause, span.after ((c :: (t ++ rest)).take ahead)⟩
      | .ok (kind, extra) =>
        match scanFrom (span.after (c :: (t ++ rest).take extra)) ((t ++ rest).drop extra) with
        | .error e => .error e
        | .ok tokens => .ok (⟨kind, tokenText kind (c :: (t ++ rest).take extra), span⟩ :: tokens)
      : Except LexError (List Token)) = _
    rw [hlex]
    simp only [List.take_left, List.drop_left, htokens]
  · rw [Token.words_cons, if_neg hkind, hwords]
    rfl

/-! ## What ends a word or a number -/

/-- Characters after which a new lexeme starts, whatever stood before. -/
def isStop (c : Char) : Bool := c == ' ' || c == '\n' || c == '(' || c == ')' || c == ','

/-- The text is empty or starts with a stop. -/
def Stops (rest : List Char) : Prop := ∀ c ∈ rest.head?, isStop c = true

theorem isStop_cases (h : isStop c = true) :
    c = ' ' ∨ c = '\n' ∨ c = '(' ∨ c = ')' ∨ c = ',' := by
  simpa [isStop, or_assoc] using h

theorem stops_cons (h : isStop c = true) : Stops (c :: rest) := by
  intro x hx
  rw [List.head?_cons, Option.mem_some_iff] at hx
  rw [← hx]
  exact h

/-- A stop has no property that none of the five stops has. -/
theorem Stops.not {p : Char → Bool} (hp : [' ', '\n', '(', ')', ','].all (fun c => !p c) = true)
    (h : Stops rest) : ∀ c ∈ rest.head?, p c = false := by
  intro c hc
  have hmem : c ∈ [' ', '\n', '(', ')', ','] := by
    rcases isStop_cases (h c hc) with rfl | rfl | rfl | rfl | rfl <;> decide
  have := List.all_eq_true.mp hp c hmem
  rwa [Bool.not_eq_true'] at this

theorem takeWhile_append_of_head {p : Char → Bool} {t : List Char} (ht : ∀ c ∈ t, p c = true)
    (hrest : ∀ c ∈ rest.head?, p c = false) : (t ++ rest).takeWhile p = t := by
  rw [List.takeWhile_append_of_pos ht]
  cases rest with
  | nil => simp
  | cons c rest =>
    rw [List.takeWhile_cons, hrest c rfl]
    simp

/-! ## Lexemes -/

/-- Nothing that starts a word is a digit. -/
theorem isWordStart_of_isDigit (h : c.isDigit = true) : isWordStart c = false := by
  have hrange : 48 ≤ c.toNat ∧ c.toNat ≤ 57 := by
    simp only [Char.isDigit, Bool.and_eq_true, decide_eq_true_eq, ge_iff_le,
      UInt32.le_iff_toNat_le] at h
    exact h
  have hascii : Text.isAscii c = true := decide_eq_true (show c.toNat < 128 by omega)
  have halpha : c.isAlpha = false := by
    refine eq_false_of_ne_true fun hal => ?_
    have hal : (decide (c.val ≥ 'A'.val ∧ c.val ≤ 'Z'.val) ||
      (decide (c.val ≥ 'a'.val) && decide (c.val ≤ 'z'.val))) = true := hal
    simp only [Bool.or_eq_true, Bool.and_eq_true, decide_eq_true_eq, ge_iff_le,
      UInt32.le_iff_toNat_le] at hal
    have hal : (65 ≤ c.toNat ∧ c.toNat ≤ 90) ∨ (97 ≤ c.toNat ∧ c.toNat ≤ 122) := hal
    omega
  have hunder : (c == '_') = false := by
    refine beq_false_of_ne ?_
    rintro rfl
    exact absurd h (by decide)
  rw [isWordStart, hunder, Text.isLetter, hascii, if_pos rfl, halpha]
  rfl

/-- A word, which ends before a stop. -/
theorem Scans.word {t : List Char} (hc : isWordStart c = true) (ht : ∀ x ∈ t, isWordPart x = true)
    (hrest : Stops rest) (h : Scans rest ws) :
    Scans (c :: t ++ rest) (⟨wordKind (c :: t), String.ofList (c :: t)⟩ :: ws) := by
  -- no other kind of lexeme, and no gap, starts like a word
  have hne : ∀ x, isWordStart x = false → c ≠ x := by
    rintro x hx rfl
    rw [hc] at hx
    exact absurd hx (by simp)
  have hblank : isBlank c = false := by
    unfold isBlank
    rw [beq_false_of_ne (hne ' ' (by decide)), beq_false_of_ne (hne '\t' (by decide)),
      beq_false_of_ne (hne '\x0c' (by decide))]
    rfl
  have hdigit : c.isDigit = false := by
    refine eq_false_of_ne_true fun hd => ?_
    rw [isWordStart_of_isDigit hd] at hc
    exact absurd hc (by simp)
  have htail : (t ++ rest).takeWhile isWordPart = t :=
    takeWhile_append_of_head ht (hrest.not (by decide))
  have hlex : Scan.lexeme c (t ++ rest) = .ok (wordKind (c :: t), t.length) := by
    unfold Scan.lexeme readWord
    rw [beq_false_of_ne (hne '\n' (by decide)), beq_false_of_ne (hne '\r' (by decide)),
      beq_false_of_ne (hne '"' (by decide)), hdigit, hc, htail]
    rfl
  have hkind : wordKind (c :: t) ≠ .eof ∧
      tokenText (wordKind (c :: t)) (c :: t) = String.ofList (c :: t) := by
    unfold wordKind
    cases Keyword.ofChars? (c :: t) with
    | none => exact ⟨by simp, rfl⟩
    | some k => exact ⟨by simp, rfl⟩
  rw [← hkind.2]
  exact h.lexeme (splitGap_cons hblank (hne '\r' (by decide)) (Or.inl (hne '/' (by decide))))
    hlex hkind.1

theorem Scans.keyword (k : Keyword) (hrest : Stops rest) (h : Scans rest ws) :
    Scans (k.chars ++ rest) (.ofKeyword k :: ws) := by
  cases k <;> exact h.word (by decide) (List.all_eq_true.mp (by decide)) hrest

theorem Symbol.atFront?_append (x : Symbol) (hrest : ∀ c ∈ rest.head?, c ≠ '=') :
    Symbol.atFront? (x.chars ++ rest) = some x := by
  cases rest with
  | nil => cases x <;> rfl
  | cons d rest =>
    have hd : ('=' == d) = false := beq_false_of_ne (hrest d rfl).symm
    cases x <;> simp [Symbol.atFront?, Symbol.all, Symbol.chars, List.isPrefixOf, hd]

/-- A symbol is tried after all other lexemes. -/
theorem lexeme_symbol (x : Symbol) : ∃ c t, x.chars = c :: t ∧ isBlank c = false ∧ c ≠ '\r' ∧
    (c = '/' → t = []) ∧ ∀ rest, Scan.lexeme c (t ++ rest) = readSymbol c (t ++ rest) := by
  cases x <;> exact ⟨_, _, rfl, by decide, by decide, by decide, fun rest => rfl⟩

/-- A symbol, which ends before anything but `=` and `/`. -/
theorem Scans.symbol (x : Symbol) (hrest : ∀ c ∈ rest.head?, c ≠ '=' ∧ c ≠ '/')
    (h : Scans rest ws) : Scans (x.chars ++ rest) (.ofSymbol x :: ws) := by
  have hfront := Symbol.atFront?_append x fun c hc => (hrest c hc).1
  obtain ⟨c, t, hx, hblank, hreturn, hslash, hlex⟩ := lexeme_symbol x
  have hread : readSymbol c (t ++ rest) = .ok (.symbol x, t.length) := by
    have hlen : x.chars.length - 1 = t.length := by rw [hx]; rfl
    rw [hx] at hfront
    rw [readSymbol, ← List.cons_append, hfront, ← hlen]
  have htext : x.text = tokenText (.symbol x) (c :: t) := by
    rw [Symbol.text, hx]
    rfl
  rw [Word.ofSymbol, htext, hx]
  refine h.lexeme (splitGap_cons hblank hreturn ?_) ((hlex rest).trans hread) (by simp)
  by_cases hc : c = '/'
  · refine Or.inr ?_
    rw [hslash hc]
    exact fun hhead => (hrest '/' hhead).2 rfl
  · exact Or.inl hc

/-- A line end. -/
theorem Scans.lineEnd (h : Scans cs ws) : Scans ('\n' :: cs) (.lineEnd :: ws) :=
  h.lexeme (t := []) (splitGap_cons (by decide) (by decide) (Or.inl (by decide))) rfl (by simp)

/-! ## Literals -/

/-- Digits are read as a number. -/
theorem lexeme_digit (h : c.isDigit = true) (cs : List Char) :
    Scan.lexeme c cs = readNumber c cs ∧ ∀ rest, splitGap false (c :: rest) = ([], c :: rest) := by
  have hne : ∀ x : Char, x.isDigit = false → c ≠ x := by
    rintro x hx rfl
    rw [h] at hx
    exact absurd hx (by simp)
  constructor
  · unfold Scan.lexeme
    rw [beq_false_of_ne (hne '\n' (by decide)), beq_false_of_ne (hne '\r' (by decide)),
      beq_false_of_ne (hne '"' (by decide)), h]
    rfl
  · intro rest
    refine splitGap_cons ?_ (hne '\r' (by decide)) (Or.inl (hne '/' (by decide)))
    unfold isBlank
    rw [beq_false_of_ne (hne ' ' (by decide)), beq_false_of_ne (hne '\t' (by decide)),
      beq_false_of_ne (hne '\x0c' (by decide))]
    rfl

theorem fraction_of_stops (h : Stops rest) : fraction rest = [] := by
  cases rest with
  | nil => rfl
  | cons c rest =>
    rcases isStop_cases (h c rfl) with rfl | rfl | rfl | rfl | rfl <;> rfl

/-- The digits of an integer. -/
theorem Scans.integer {digits : List Char} {n : Int64} (hne : digits ≠ [])
    (hdigits : ∀ c ∈ digits, c.isDigit = true)
    (hn : Integer.fit? (Decimal.natOfDigits digits) = some n) (hrest : Stops rest)
    (h : Scans rest ws) :
    Scans (digits ++ rest) (⟨.integer n, String.ofList digits⟩ :: ws) := by
  obtain ⟨c, t, rfl⟩ := List.exists_cons_of_ne_nil hne
  have hc := hdigits c (List.mem_cons_self ..)
  have ht : (t ++ rest).takeWhile Char.isDigit = t :=
    takeWhile_append_of_head (fun x hx => hdigits x (List.mem_cons_of_mem c hx))
      (hrest.not (by decide))
  obtain ⟨hlex, hgap⟩ := lexeme_digit hc (t ++ rest)
  refine h.lexeme (hgap _) ?_ (by simp)
  rw [hlex, readNumber]
  simp only [ht, List.drop_left, fraction_of_stops hrest, hn]

/-- The digits of a float, with a point between them. -/
theorem Scans.float {text : List Char} {x : Binary64} (htext : Decimal.IsFloatLiteral text x)
    (hfin : x.isFinite = true) (hrest : Stops rest) (h : Scans rest ws) :
    Scans (text ++ rest) (⟨.float x, String.ofList text⟩ :: ws) := by
  obtain ⟨whole, places, rfl, hne, hwhole, hne', hplaces, hx⟩ := htext
  obtain ⟨c, t, rfl⟩ := List.exists_cons_of_ne_nil hne
  obtain ⟨d, u, rfl⟩ := List.exists_cons_of_ne_nil hne'
  have hc := hwhole c (List.mem_cons_self ..)
  have ht : (t ++ ('.' :: d :: u ++ rest)).takeWhile Char.isDigit = t :=
    takeWhile_append_of_head (fun x hx => hwhole x (List.mem_cons_of_mem c hx)) (by simp)
  have hu : (d :: u ++ rest).takeWhile Char.isDigit = d :: u :=
    takeWhile_append_of_head hplaces (hrest.not (by decide))
  have hfrac : fraction ('.' :: d :: u ++ rest) = d :: u := hu
  obtain ⟨hlex, hgap⟩ := lexeme_digit hc (t ++ ('.' :: d :: u ++ rest))
  have hassoc : t ++ '.' :: d :: u ++ rest = t ++ ('.' :: d :: u ++ rest) := by
    rw [List.append_assoc]
  refine h.lexeme (t := t ++ '.' :: d :: u) (hgap _) ?_ (by simp)
  rw [hassoc, hlex, readNumber]
  simp only [ht, List.drop_left, hfrac, hx, hfin, if_true]
  congr 2
  simp only [List.length_append, List.length_cons]
  omega

/-- An escaped text up to its closing quote denotes the text. -/
theorem readBody_escape (text : List Char) :
    Text.readBody (text.flatMap Text.escape ++ '"' :: rest)
      = .closed text ((text.flatMap Text.escape).length + 1) := by
  induction text with
  | nil => rfl
  | cons c text ih =>
    rw [List.flatMap_cons, List.append_assoc]
    have hclosed : ∀ (w : Nat),
        (Text.readBody (text.flatMap Text.escape ++ '"' :: rest)).after c w
          = .closed (c :: text) ((text.flatMap Text.escape).length + 1 + w) := by
      intro w
      rw [ih]
      rfl
    have hlen : ∀ l : List Char, (l ++ text.flatMap Text.escape).length + 1
        = (text.flatMap Text.escape).length + 1 + l.length := by
      intro l
      rw [List.length_append]
      omega
    rw [hlen]
    unfold Text.escape Text.escapeLetter?
    split
    · -- an escape: two characters for one
      rename_i letter hletter
      split at hletter <;> cases hletter <;> exact hclosed 2
    · rename_i hletter
      split at hletter
      case h_7 h1 h2 h3 h4 h5 h6 =>
        show Text.readBody (c :: (text.flatMap Text.escape ++ '"' :: rest)) = _
        rw [Text.readBody]
        · exact hclosed 1
        · exact h5
        · exact fun h => absurd h h6
        · exact fun _ _ h => absurd h h6
      all_goals exact absurd hletter (by simp)

/-- A quoted text. -/
theorem Scans.str (text : String) (h : Scans rest ws) :
    Scans (Text.quote text.toList ++ rest)
      (⟨.str text, String.ofList (Text.quote text.toList)⟩ :: ws) := by
  have hlex : Scan.lexeme '"' ((text.toList.flatMap Text.escape ++ ['"']) ++ rest)
      = .ok (.str text, (text.toList.flatMap Text.escape ++ ['"']).length) := by
    rw [List.append_assoc]
    show readString (text.toList.flatMap Text.escape ++ '"' :: rest) = _
    rw [readString, readBody_escape, List.length_append]
    simp only [String.ofList_toList]
    rfl
  exact h.lexeme (splitGap_cons (by decide) (by decide) (Or.inl (by decide))) hlex (by simp)

/-! ## Names -/

/-- Whether `x` is a word and no keyword. -/
def isName (x : String) : Bool :=
  match x.toList with
  | [] => false
  | c :: cs => isWordStart c && cs.all isWordPart && (Keyword.ofChars? (c :: cs)).isNone

theorem isName_cases {x : String} (h : isName x = true) :
    ∃ c cs, x.toList = c :: cs ∧ isWordStart c = true ∧ (∀ d ∈ cs, isWordPart d = true) ∧
      wordKind (c :: cs) = .identifier := by
  unfold isName at h
  cases hx : x.toList with
  | nil => rw [hx] at h; exact absurd h (by simp)
  | cons c cs =>
    rw [hx] at h
    simp only [Bool.and_eq_true, List.all_eq_true, Option.isNone_iff_eq_none] at h
    obtain ⟨⟨hc, hcs⟩, hk⟩ := h
    exact ⟨c, cs, rfl, hc, hcs, by rw [wordKind, hk]⟩

/-- A name. -/
theorem Scans.name {x : String} (hx : isName x = true) (hrest : Stops rest) (h : Scans rest ws) :
    Scans (x.toList ++ rest) (.ofName x :: ws) := by
  obtain ⟨c, cs, hchars, hc, hcs, hkind⟩ := isName_cases hx
  have hword := h.word hc hcs hrest
  rw [hkind, ← hchars, String.ofList_toList] at hword
  exact hword

end Scan

end Scriptlet
