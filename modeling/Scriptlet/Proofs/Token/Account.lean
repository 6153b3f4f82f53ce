/-
  Tokens account for the whole text.

  1. **Spec** (`Account before text tokens`) — the text, which stands after `before`, is an
     alternation of gaps and lexemes, each as long as possible, and `tokens` are the lexemes in
     order, with their kinds, texts and places; the last one is `eof`.
  2. **Places** (`Span.afterText`) — counted from the characters before, not walked to: one more
     than the line feeds, and one more than the characters since the last of them.
  3. **The crux** — scanning is the same relation (`account_of_scanFrom`, `Account.scanFrom_eq_ok`):
     one step of the scanner takes one gap and one lexeme.
-/
import Scriptlet.Proofs.Token.Gap
import Scriptlet.Proofs.Token.Lexeme

namespace Scriptlet

/-! ## Places -/

namespace Span

/-- The place behind the characters `before`, counted. -/
def afterText (before : List Char) : Span :=
  ⟨1 + before.count '\n', 1 + (before.reverse.takeWhile (· ≠ '\n')).length⟩

/-- An earlier line, or an earlier column of the same line. -/
def Before (a b : Span) : Prop := a.line < b.line ∨ a.line = b.line ∧ a.column < b.column

theorem Before.trans {a b c : Span} (h : a.Before b) (h' : b.Before c) : a.Before c := by
  unfold Before at *
  omega

/-- Walking from the first place counts. -/
theorem first_after (before : List Char) : first.after before = afterText before := by
  -- a character at the end moves both by one step, so the induction is on the text reversed
  suffices h : ∀ r : List Char, first.after r.reverse = afterText r.reverse by
    simpa using h before.reverse
  intro r
  induction r with
  | nil => rfl
  | cons c r ih =>
    rw [List.reverse_cons, after_append, ih]
    show (afterText r.reverse).step c = _
    unfold step afterText
    by_cases hc : c = '\n'
    · subst hc
      simp [Nat.add_assoc]
    · simp [hc, Nat.add_comm]

theorem afterText_append (before text : List Char) :
    afterText (before ++ text) = (afterText before).after text := by
  rw [← first_after, ← first_after, after_append]

theorem before_step (s : Span) (c : Char) : s.Before (s.step c) := by
  unfold step Before
  split
  · exact .inl (Nat.lt_succ_self _)
  · exact .inr ⟨rfl, Nat.lt_succ_self _⟩

/-- A place lies before every place that characters separate from it. -/
theorem before_after (s : Span) (c : Char) (cs : List Char) : s.Before (s.after (c :: cs)) := by
  induction cs generalizing s c with
  | nil => exact before_step s c
  | cons d cs ih => exact (before_step s c).trans (ih (s.step c) d)

end Span

namespace Scan

/-! ## The relation -/

/-- The tokens of a text that stands after `before`. -/
inductive Account : List Char → List Char → List Token → Prop
  | done {before gap : List Char} (hgap : LongestGap gap []) :
      Account before gap [⟨.eof, "", .afterText (before ++ gap)⟩]
  | more {before gap lexeme rest : List Char} {kind : TokenKind} {tokens : List Token}
      (hgap : LongestGap gap (lexeme ++ rest))
      (hlexeme : LongestLexeme lexeme (some kind) (lexeme ++ rest))
      (hrest : Account (before ++ gap ++ lexeme) rest tokens) :
      Account before (gap ++ lexeme ++ rest)
        (⟨kind, if kind = .newline then "\n" else String.ofList lexeme,
          .afterText (before ++ gap)⟩ :: tokens)

variable {before text : List Char} {tokens : List Token}

theorem tokenText_eq (kind : TokenKind) (lexeme : List Char) :
    tokenText kind lexeme = if kind = .newline then "\n" else String.ofList lexeme := by
  cases kind <;> rfl

theorem Lexeme.kind_ne_eof {l : List Char} {kind : TokenKind} (h : Lexeme l (some kind)) :
    kind ≠ .eof := by
  cases h <;> simp

/-! ## The text behind a lexeme -/

theorem Lexeme.lineFeed_of_return {t : List Char} {k : Option TokenKind}
    (h : Lexeme ('\r' :: t) k) : t = ['\n'] := by
  obtain ⟨ht, -⟩ := lexeme_cons_iff.mp h
  exact ht

/-- Whether a gap begins with a lexeme is up to the lexeme, but for a second slash behind it. -/
theorem Lexeme.splitGap_append {l rest rest' : List Char} {k : Option TokenKind} (hl : Lexeme l k)
    (h : (splitGap false (l ++ rest)).1 = []) (hnext : '/' ∈ rest'.head? → '/' ∈ rest.head?) :
    (splitGap false (l ++ rest')).1 = [] := by
  obtain ⟨c, t, rfl, -⟩ := hl.exists_follows
  obtain ⟨hblank, hslash⟩ := splitGap_fst_eq_nil_iff.mp h
  refine splitGap_fst_eq_nil_iff.mpr ⟨?_, ?_⟩
  · rintro (hc | ⟨rfl, hfeed⟩)
    · exact hblank (.inl hc)
    · -- the line feed behind a carriage return belongs to the lexeme
      rw [hl.lineFeed_of_return] at hfeed
      exact hfeed rfl
  · rintro ⟨rfl, hhead⟩
    cases t with
    | nil => exact hslash ⟨rfl, hnext hhead⟩
    | cons d t => exact hslash ⟨rfl, hhead⟩

/-! ## What follows from it -/

/-- Every token starts somewhere in the text. -/
theorem Account.starts (h : Account before text tokens) :
    ∀ t ∈ tokens, ∃ passed, passed <+: text ∧ t.span = .afterText (before ++ passed) := by
  induction h with
  | @done before gap hgap =>
    exact List.forall_mem_singleton.mpr ⟨gap, List.prefix_rfl, rfl⟩
  | @more before gap lexeme rest kind tokens hgap hlexeme _ ih =>
    refine List.forall_mem_cons.mpr ⟨⟨gap, ?_, rfl⟩, fun t ht => ?_⟩
    · rw [List.append_assoc]
      exact List.prefix_append ..
    · obtain ⟨passed, hprefix, hpassed⟩ := ih t ht
      refine ⟨gap ++ lexeme ++ passed, (List.prefix_append_right_inj _).mpr hprefix, ?_⟩
      rw [hpassed]
      simp only [List.append_assoc]

/-- **Places increase**, because no lexeme is empty. -/
theorem Account.pairwise (h : Account before text tokens) :
    tokens.Pairwise fun a b => a.span.Before b.span := by
  induction h with
  | done => exact List.pairwise_singleton ..
  | @more before gap lexeme rest kind tokens hgap hlexeme hrest ih =>
    refine List.pairwise_cons.mpr ⟨fun t ht => ?_, ih⟩
    obtain ⟨passed, -, hpassed⟩ := hrest.starts t ht
    obtain ⟨c, lexeme, rfl, -⟩ := hlexeme.1.exists_follows
    rw [hpassed, List.append_assoc, Span.afterText_append (before ++ gap)]
    exact Span.before_after _ c (lexeme ++ passed)

/-- **The only `eof` is the last token**, at the end of the text. -/
theorem Account.ends (h : Account before text tokens) :
    ∃ body, tokens = body ++ [⟨.eof, "", .afterText (before ++ text)⟩] ∧
      ∀ t ∈ body, t.kind ≠ .eof := by
  induction h with
  | done => exact ⟨[], rfl, fun _ ht => nomatch ht⟩
  | @more before gap lexeme rest kind tokens hgap hlexeme _ ih =>
    obtain ⟨body, rfl, hbody⟩ := ih
    have hend : before ++ (gap ++ lexeme ++ rest) = before ++ gap ++ lexeme ++ rest := by
      simp only [List.append_assoc]
    rw [hend]
    refine ⟨_ :: body, rfl, fun t ht => ?_⟩
    rcases List.mem_cons.mp ht with rfl | ht
    · exact hlexeme.1.kind_ne_eof
    · exact hbody t ht

/-! ## The scanner -/

theorem account_of_scanFrom (span : Span) (source : List Char) : ∀ before tokens,
    span = .afterText before → scanFrom span source = .ok tokens →
      Account before source tokens := by
  fun_induction scanFrom span source with
  | case1 span source start hsplit =>
    rintro before tokens rfl hok
    have hgap := splitGap_longest source
    have hsource := splitGap_append false source
    rw [hsplit] at hgap hsource
    rw [List.append_nil] at hsource
    -- no lexeme is left: `eof` stands behind the whole gap
    have hstart : start = .afterText (before ++ source) := by
      rw [Span.afterText_append]
      exact congrArg _ hsource
    rw [hsource] at hgap
    rw [← Except.ok.inj hok, hstart]
    exact .done hgap
  | case2 => exact fun _ _ _ hok => nomatch hok
  | case3 => exact fun _ _ _ hok => nomatch hok
  | case4 span source start c cs hsplit kind extra hread taken others hothers ih =>
    rintro before tokens rfl hok
    obtain ⟨hsource, hgap, hreturn⟩ := longestGap_of_splitGap hsplit
    have hlexeme : Reads (c :: cs) (Scan.lexeme c cs) := lexeme_reads hreturn
    rw [hread] at hlexeme
    -- the lexeme stands where the gap ends
    have hstart : start = .afterText (before ++ (splitGap false source).1) :=
      (Span.afterText_append ..).symm
    -- and the rest stands where the lexeme ends
    have hnext : start.after taken = .afterText (before ++ (splitGap false source).1 ++ taken) := by
      rw [Span.afterText_append, ← hstart]
    have hrest := ih _ _ hnext hothers
    -- what is taken are the characters of the lexeme
    have hcut : c :: cs = taken ++ cs.drop extra := by simp [taken]
    have hlexeme : LongestLexeme taken (some kind) (c :: cs) := hlexeme
    rw [hcut] at hgap hlexeme hsource
    have haccount := Account.more hgap hlexeme hrest
    rw [List.append_assoc, ← hsource] at haccount
    rw [← Except.ok.inj hok, tokenText_eq, hstart]
    exact haccount

theorem Account.scanFrom_eq_ok (h : Account before text tokens) :
    scanFrom (.afterText before) text = .ok tokens := by
  induction h with
  | @done before gap hgap =>
    have hsplit := hgap.splitGap_eq
    rw [List.append_nil] at hsplit
    rw [scanFrom_eq, hsplit, Span.afterText_append]
  | @more before gap lexeme rest kind tokens hgap hlexeme _ ih =>
    obtain ⟨c, t, rfl, -⟩ := hlexeme.1.exists_follows
    have hreads : Reads (c :: (t ++ rest)) (Scan.lexeme c (t ++ rest)) :=
      lexeme_reads fun hc => (hc ▸ hgap).lineFeed_of_return
    rw [List.append_assoc, scanFrom_eq, hgap.splitGap_eq]
    simp only [List.cons_append]
    cases hlex : Scan.lexeme c (t ++ rest) with
    | error fault =>
      rw [hlex] at hreads
      exact absurd (hreads _ _ hlexeme) (by simp)
    | ok reading =>
      obtain ⟨kind', extra⟩ := reading
      rw [hlex] at hreads
      -- two longest lexemes in one place are the same
      obtain ⟨htake, hkind⟩ := hlexeme.unique hreads
      have htake : (t ++ rest).take extra = t := (List.cons.inj htake).2
      have hdrop : (t ++ rest).drop extra = rest := by
        have hcut := List.take_append_drop extra (t ++ rest)
        rw [htake] at hcut
        exact List.append_cancel_left hcut
      have hstart : (Span.afterText before).after gap = .afterText (before ++ gap) :=
        (Span.afterText_append ..).symm
      rw [Span.afterText_append] at ih
      simp only [htake, hdrop, hstart, ih, Option.some.inj hkind, tokenText_eq]

end Scan

/-- **Tokens account for the whole text.**  A source has these tokens exactly when its text, less a
    byte order mark, is an alternation of longest gaps and longest lexemes of which they are the
    lexemes; and then their places increase strictly and the one `eof` among them is the last, at
    the end of the text. -/
theorem scan_eq_ok_iff_account (source : String) (tokens : List Token) :
    scan source = .ok tokens ↔
      Scan.Account [] (Scan.dropMark source.toList) tokens ∧
      tokens.Pairwise (fun a b => a.span.Before b.span) ∧
      ∃ body, tokens = body ++ [⟨.eof, "", .afterText (Scan.dropMark source.toList)⟩] ∧
        ∀ t ∈ body, t.kind ≠ .eof := by
  constructor
  · intro h
    have haccount := Scan.account_of_scanFrom .first _ [] tokens rfl h
    exact ⟨haccount, haccount.pairwise, haccount.ends⟩
  · rintro ⟨haccount, -⟩
    exact haccount.scanFrom_eq_ok

-- An escape is one character of the value; the comment is in the gap before the line end, whose two
-- characters are one token; the second line starts behind both.
example :
    Scan.Account [] "s = \"\\t\" // tab\r\n t".toList
      [⟨.identifier, "s", ⟨1, 1⟩⟩, ⟨.symbol .assign, "=", ⟨1, 3⟩⟩,
        ⟨.str "\t", "\"\\t\"", ⟨1, 5⟩⟩, ⟨.newline, "\n", ⟨1, 16⟩⟩,
        ⟨.identifier, "t", ⟨2, 2⟩⟩, ⟨.eof, "", ⟨2, 3⟩⟩] :=
  Scan.account_of_scanFrom .first _ [] _ rfl (by cbv)

end Scriptlet
