/-
  Spacing: the texts of all tokens, one space apart, are the same tokens again.

  1. **Program** (`Token.spaced`) — whatever stood between two tokens becomes one space.
  2. **Lexemes** (`LongestLexeme.spaced`) — a lexeme that is the longest in front of some text is
     the longest in front of a space: only a string goes on over a space, and a string is closed by
     the first quote that is not escaped.  A line end becomes a line feed, which nothing makes
     longer.
  3. **The crux (`Account.spaced`)** — so the new text is accounted for by gaps of one space and the
     old lexemes.  A space behind a slash is no second slash, so no comment begins.
-/
import Scriptlet.Proofs.Grammar.Derivation
import Scriptlet.Proofs.Token.Account

namespace Scriptlet

/-! ## The text -/

/-- The texts of the tokens with single spaces between them. -/
def Token.spaced (tokens : List Token) : String := " ".intercalate (tokens.map Token.text)

theorem Token.spaced_cons (t : Token) {tokens : List Token} (h : tokens ≠ []) :
    Token.spaced (t :: tokens) = t.text ++ " " ++ Token.spaced tokens :=
  String.intercalate_cons_of_ne_nil (mt List.map_eq_nil_iff.mp h)

namespace Scan

variable {c : Char} {rest rest' before gap l : List Char} {k : Option TokenKind} {kind : TokenKind}
  {tokens : List Token} {text : List Char}

/-! ## Lexemes in front of a space -/

/-- Only a string has a space inside. -/
theorem Lexeme.quote_of_space (h : Lexeme l k) (hspace : ' ' ∈ l) : ∃ t, l = '"' :: t := by
  -- no digit is a space
  have hdigits : ∀ {digits}, Digits digits → ' ' ∉ digits := by
    intro digits hd hmem
    exact absurd (hd.2 ' ' hmem) (by decide)
  -- and neither is a point
  have hfraction : ∀ {whole places}, Digits whole → Digits places →
      ' ' ∉ whole ++ '.' :: places := by
    intro whole places hwhole hplaces hmem
    rcases List.mem_append.mp hmem with hmem | hmem
    · exact hdigits hwhole hmem
    · rcases List.mem_cons.mp hmem with hpoint | hmem
      · exact absurd hpoint (by decide)
      · exact hdigits hplaces hmem
  -- every other lexeme is made of other characters
  cases h with
  | str h => exact ⟨_, rfl⟩
  | lineFeed => exact absurd hspace (by decide)
  | carriageReturn => exact absurd hspace (by decide)
  | integer h hn => exact absurd hspace (hdigits h)
  | hugeInteger h hn => exact absurd hspace (hdigits h)
  | float hwhole hplaces hfinite => exact absurd hspace (hfraction hwhole hplaces)
  | hugeFloat hwhole hplaces hinfinite => exact absurd hspace (hfraction hwhole hplaces)
  | keyword k => cases k <;> exact absurd hspace (by decide)
  | identifier hc htail hname =>
    rcases List.mem_cons.mp hspace with hstart | hmem
    · rw [← hstart] at hc
      exact absurd hc (by decide)
    · exact absurd (htail ' ' hmem) (by decide)
  | symbol s => cases s <;> exact absurd hspace (by decide)

/-- No two strings stand in one place: the first quote that is not escaped closes both. -/
theorem Lexeme.string_unique {t t' text : List Char} {k' : Option TokenKind}
    (h : Lexeme ('"' :: t) k) (h' : Lexeme ('"' :: t') k') (ht : t <+: text) (ht' : t' <+: text) :
    t' = t ∧ k' = k := by
  obtain ⟨body, inside, rfl, hbody, rfl⟩ := lexeme_cons_iff.mp h
  obtain ⟨body', inside', rfl, hbody', rfl⟩ := lexeme_cons_iff.mp h'
  obtain ⟨more, rfl⟩ := ht
  obtain ⟨more', hmore⟩ := ht'
  have hread := hbody.readBody more
  have hread' := hbody'.readBody more'
  simp only [List.append_assoc, List.singleton_append] at hmore
  rw [hmore, hread] at hread'
  simp only [Text.QuotedBody.closed.injEq, Nat.add_right_cancel_iff] at hread'
  obtain ⟨rfl, hlength⟩ := hread'
  obtain ⟨rfl, -⟩ := List.append_inj hmore hlength.symm
  exact ⟨rfl, rfl⟩

/-- **A space ends every lexeme**, wherever else it ended before. -/
theorem LongestLexeme.before_space (h : LongestLexeme l k (l ++ rest)) :
    LongestLexeme l k (l ++ ' ' :: rest') := by
  obtain ⟨hl, -, hlongest⟩ := h
  refine ⟨hl, List.prefix_append .., fun l' k' hl' hstart => ?_⟩
  rcases Nat.lt_or_ge l.length l'.length with hlt | hge
  · -- a longer lexeme goes on over the space, so both are strings
    have hspace : l ++ [' '] <+: l ++ ' ' :: rest' := ⟨rest', by simp⟩
    have hover : l ++ [' '] <+: l' := by
      refine List.prefix_of_prefix_length_le hspace hstart ?_
      rw [List.length_append]
      exact hlt
    obtain ⟨t', rfl⟩ := hl'.quote_of_space (hover.subset (by simp))
    obtain ⟨c, t, rfl, -⟩ := hl.exists_follows
    obtain ⟨rfl, ht⟩ := List.cons_prefix_cons.mp hover
    obtain ⟨-, ht'⟩ := List.cons_prefix_cons.mp hstart
    obtain ⟨rfl, rfl⟩ := hl.string_unique hl' (List.prefix_append ..) ht'
    exact .inl ⟨rfl, rfl⟩
  · have hinside : l' <+: l :=
      List.prefix_of_prefix_length_le hstart (List.prefix_append ..) hge
    exact hlongest l' k' hl' (hinside.trans (List.prefix_append ..))

/-- Nothing makes a line feed longer. -/
theorem longestLexeme_lineFeed (rest : List Char) :
    LongestLexeme ['\n'] (some .newline) ('\n' :: rest) := by
  refine ⟨.lineFeed, ⟨rest, rfl⟩, fun l' k' hl' hstart => .inl ?_⟩
  obtain ⟨c, t, rfl, -⟩ := hl'.exists_follows
  obtain ⟨rfl, -⟩ := List.cons_prefix_cons.mp hstart
  obtain ⟨rfl, rfl⟩ := lexeme_cons_iff.mp hl'
  exact ⟨rfl, rfl⟩

/-- The text of a token is a lexeme of its kind, and the longest one in front of a space. -/
theorem LongestLexeme.spaced (h : LongestLexeme l (some kind) (l ++ rest))
    (hstop : (splitGap false (l ++ rest)).1 = []) (rest' : List Char) :
    ∃ l', String.ofList l' = (if kind = .newline then "\n" else String.ofList l) ∧
      LongestLexeme l' (some kind) (l' ++ ' ' :: rest') ∧
      (splitGap false (l' ++ ' ' :: rest')).1 = [] := by
  by_cases hkind : kind = .newline
  · subst hkind
    exact ⟨['\n'], rfl, longestLexeme_lineFeed (' ' :: rest'), rfl⟩
  · refine ⟨l, (if_neg hkind).symm, h.before_space, h.1.splitGap_append hstop fun hslash => ?_⟩
    exact absurd (Option.some.inj hslash) (by decide)

/-! ## The whole text -/

theorem gap_of_spaces (hgap : ∀ c ∈ gap, c = ' ') : Gap gap rest := by
  induction gap with
  | nil => exact .nil
  | cons c gap ih =>
    obtain ⟨hc, hgap⟩ := List.forall_mem_cons.mp hgap
    exact .blank (.inl hc) (ih hgap)

theorem Account.ne_nil (h : Account before text tokens) : tokens ≠ [] := by
  obtain ⟨body, rfl, -⟩ := h.ends
  exact List.append_ne_nil_of_right_ne_nil body (List.cons_ne_nil _ _)

/-- **The texts of the tokens of a text, one space apart, have the same tokens**, wherever they
    stand and however many spaces are in front. -/
theorem Account.spaced (h : Account before text tokens) : ∀ gap before', (∀ c ∈ gap, c = ' ') →
    ∃ tokens', Account before' (gap ++ (Token.spaced tokens).toList) tokens' ∧
      tokens'.map Token.word = tokens.map Token.word := by
  induction h with
  | @done before gap₀ hgap₀ =>
    intro gap before' hspaces
    -- only `eof` is left, whose text is empty
    have hempty : (Token.spaced [⟨.eof, "", .afterText (before ++ gap₀)⟩]).toList = [] := by
      simp [Token.spaced]
    rw [hempty, List.append_nil]
    exact ⟨_, .done (longestGap_iff.mpr ⟨gap_of_spaces hspaces, rfl⟩), rfl⟩
  | @more before gap₀ lexeme rest kind tokens hgap₀ hlexeme hrest ih =>
    intro gap before' hspaces
    -- the text of the token is its own lexeme, which ends at a space
    obtain ⟨l, htext, hl, hstop⟩ :=
      hlexeme.spaced hgap₀.splitGap_rest (Token.spaced tokens).toList
    obtain ⟨tokens', haccount, hwords⟩ := ih [' '] (before' ++ gap ++ l) (by simp)
    have hmore := Account.more (longestGap_iff.mpr ⟨gap_of_spaces hspaces, hstop⟩) hl haccount
    -- a line end is written as a line feed
    have hkept : (if kind = .newline then "\n" else String.ofList l) = String.ofList l := by
      rw [htext]
      split <;> rfl
    have hjoined : gap ++ (Token.spaced (⟨kind, if kind = .newline then "\n" else
        String.ofList lexeme, .afterText (before ++ gap₀)⟩ :: tokens)).toList
          = gap ++ l ++ ([' '] ++ (Token.spaced tokens).toList) := by
      rw [Token.spaced_cons _ hrest.ne_nil, String.toList_append, String.toList_append, ← htext,
        String.toList_ofList]
      simp
    rw [hjoined]
    refine ⟨_, hmore, ?_⟩
    rw [List.map_cons, List.map_cons, hwords, hkept, htext]
    rfl

/-- No lexeme begins with a byte order mark. -/
theorem Account.dropMark_eq (h : Account before text tokens) : dropMark text = text := by
  unfold dropMark
  split
  case h_1 cs =>
    have hok := h.scanFrom_eq_ok
    have hgap : splitGap false ('\uFEFF' :: cs) = ([], '\uFEFF' :: cs) :=
      splitGap_cons (by decide) (by decide) (.inl (by decide))
    have hword : isWordStart '\uFEFF' = false := by decide +kernel
    have hread : Scan.lexeme '\uFEFF' cs = .error (.unexpectedCharacter '\uFEFF', 0) := by
      unfold Scan.lexeme
      rw [hword]
      rfl
    rw [scanFrom_eq, hgap] at hok
    simp only [hread] at hok
    exact nomatch hok
  · rfl

end Scan

/-- **The gaps of a text say nothing**: its tokens written one space apart have the same kinds,
    values and texts. -/
theorem exists_scan_spaced {source : String} {tokens : List Token} (h : scan source = .ok tokens) :
    ∃ tokens', scan (Token.spaced tokens) = .ok tokens' ∧
      tokens'.map Token.word = tokens.map Token.word := by
  have haccount := Scan.account_of_scanFrom .first _ [] tokens rfl h
  obtain ⟨tokens', hspaced, hwords⟩ := haccount.spaced [] [] (List.forall_mem_nil _)
  refine ⟨tokens', ?_, hwords⟩
  rw [List.nil_append] at hspaced
  rw [scan, hspaced.dropMark_eq]
  exact hspaced.scanFrom_eq_ok

end Scriptlet
