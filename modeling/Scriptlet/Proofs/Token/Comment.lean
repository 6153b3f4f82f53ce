/-
  Comments: two slashes hide the text behind them, up to the first line feed or carriage return.

  1. **Spec** (`OpensComment front rest`) — the two slashes between `front` and `rest` open a
     comment: before them stand gaps and lexemes that end there, so the slashes are inside no
     string and inside no other comment.
  2. **Program** (`scanFrom`) — reads on behind a comment as if the text began there
     (`scanFrom_of_gap`), whatever the comment holds.
  3. **Lines** — the hidden text ends at a line feed, at a carriage return or with the whole text.
     A line feed, alone or behind a carriage return, ends the line too (`Account.kinds_of_line`).  A
     carriage return alone does not: what follows it is read again, on the line of the comment.
-/
import Scriptlet.Proofs.Token.Account

namespace Scriptlet

namespace Scan

/-! ## Where comments are -/

/-- In the text of `front`, two slashes and `rest`, the slashes open a comment. -/
inductive OpensComment : List Char → List Char → Prop
  | inGap {gap rest : List Char} (hgap : Gap gap ('/' :: '/' :: rest)) : OpensComment gap rest
  | behind {gap lexeme front rest : List Char} {kind : TokenKind}
      (hgap : LongestGap gap (lexeme ++ (front ++ '/' :: '/' :: rest)))
      (hlexeme : LongestLexeme lexeme (some kind) (lexeme ++ (front ++ '/' :: '/' :: rest)))
      (more : OpensComment front rest) : OpensComment (gap ++ lexeme ++ front) rest

/-- The text of a comment, of what stands behind its slashes. -/
def commentText (rest : List Char) : List Char := rest.takeWhile fun c => !isLineEnd c

/-- What follows a comment, of what stands behind its slashes. -/
def afterComment (rest : List Char) : List Char := rest.dropWhile fun c => !isLineEnd c

/-- A carriage return without a line feed comes next. -/
def LoneReturn (cs : List Char) : Prop := ∃ more, cs = '\r' :: more ∧ more.head? ≠ some '\n'

variable {before gap lexeme front rest text : List Char} {kind : TokenKind} {tokens : List Token}

theorem commentText_append (rest : List Char) : commentText rest ++ afterComment rest = rest :=
  List.takeWhile_append_dropWhile

theorem lineFeed_notMem_commentText (rest : List Char) : '\n' ∉ commentText rest := by
  intro h
  have hline := List.all_eq_true.mp (List.all_takeWhile (l := rest)) '\n' h
  exact absurd hline (by decide)

theorem isLineEnd_head?_afterComment (rest : List Char) :
    ∀ c ∈ (afterComment rest).head?, isLineEnd c = true := by
  intro c hc
  have hline := List.head?_dropWhile_not (fun c => !isLineEnd c) rest
  rw [show (rest.dropWhile fun c => !isLineEnd c).head? = some c from hc] at hline
  simpa using hline

/-- A whole comment is a gap. -/
theorem gap_comment (rest : List Char) :
    Gap ('/' :: '/' :: commentText rest) (afterComment rest) := by
  have hend : ∀ c ∈ ([] ++ afterComment rest).head?, c = '\n' ∨ c = '\r' :=
    fun c hc => isLineEnd_iff.mp (isLineEnd_head?_afterComment rest c hc)
  have htext : ∀ c ∈ commentText rest, c ≠ '\n' ∧ c ≠ '\r' := by
    intro c hc
    have hline := List.all_eq_true.mp (List.all_takeWhile (l := rest)) c hc
    simpa [isLineEnd] using hline
  have h := Gap.comment htext hend .nil
  rwa [List.append_nil] at h

/-! ## Reading on -/

/-- Scanning goes on behind a gap as at the front of a text. -/
theorem scanFrom_of_gap (span : Span) (h : Gap gap rest) :
    scanFrom span (gap ++ rest) = scanFrom (span.after gap) rest := by
  rw [scanFrom_eq, scanFrom_eq (span.after gap), h.splitGap_append]
  simp only [Span.after_append]

theorem Account.of_gap (h : Account before (gap ++ rest) tokens) (hgap : Gap gap rest) :
    Account (before ++ gap) rest tokens := by
  have hok := h.scanFrom_eq_ok
  rw [scanFrom_of_gap _ hgap, ← Span.afterText_append] at hok
  exact account_of_scanFrom _ _ _ _ rfl hok

/-- The first token of a text is that of its first gap and lexeme. -/
theorem Account.of_lexeme (h : Account before (gap ++ (lexeme ++ rest)) tokens)
    (hgap : LongestGap gap (lexeme ++ rest))
    (hlexeme : LongestLexeme lexeme (some kind) (lexeme ++ rest)) :
    ∃ first others, tokens = first :: others ∧ first.kind = kind ∧
      first.span = .afterText (before ++ gap) ∧ Account (before ++ gap ++ lexeme) rest others := by
  obtain ⟨c, t, rfl, -⟩ := hlexeme.1.exists_follows
  generalize htext : gap ++ (c :: t ++ rest) = text at h
  cases h with
  | done hgap' =>
    -- no gap reaches over a lexeme
    have hsplit := hgap'.splitGap_eq
    rw [List.append_nil, ← htext, hgap.splitGap_eq] at hsplit
    exact nomatch (Prod.mk.inj hsplit).2
  | @more _ gap' lexeme' rest' kind' others hgap' hlexeme' hrest =>
    have hsplit := hgap'.splitGap_eq
    rw [← List.append_assoc, ← htext, hgap.splitGap_eq] at hsplit
    obtain ⟨rfl, hsame⟩ := Prod.mk.inj hsplit
    rw [← hsame] at hlexeme'
    obtain ⟨rfl, hkind⟩ := hlexeme.unique hlexeme'
    rw [← List.append_cancel_left hsame] at hrest
    exact ⟨_, others, rfl, Option.some.inj hkind, rfl, hrest⟩

/-- **A comment splits the tokens**: some start before its slashes, and the others are those of the
    text that follows it. -/
theorem Account.comment (hopens : OpensComment front rest)
    (h : Account before (front ++ '/' :: '/' :: rest) tokens) :
    ∃ earlier later, tokens = earlier ++ later ∧
      (∀ t ∈ earlier, t.span.Before (.afterText (before ++ front))) ∧
      Account (before ++ front ++ '/' :: '/' :: commentText rest) (afterComment rest) later := by
  induction hopens generalizing before tokens with
  | @inGap gap rest hgap =>
    -- the slashes stand behind a gap, so no token starts before them
    have hslashes := h.of_gap hgap
    rw [← commentText_append rest] at hslashes
    exact ⟨[], tokens, rfl, List.forall_mem_nil _, hslashes.of_gap (gap_comment rest)⟩
  | @behind gap lexeme front rest kind hgap hlexeme _ ih =>
    -- a token stands before them, and the others are those of the rest
    rw [List.append_assoc, List.append_assoc] at h
    obtain ⟨first, others, rfl, -, hspan, hothers⟩ := h.of_lexeme hgap hlexeme
    obtain ⟨earlier, later, rfl, hearlier, hlater⟩ := ih hothers
    have hjoined : before ++ gap ++ lexeme ++ front = before ++ (gap ++ lexeme ++ front) := by
      simp only [List.append_assoc]
    rw [hjoined] at hearlier hlater
    refine ⟨first :: earlier, later, rfl, List.forall_mem_cons.mpr ⟨?_, hearlier⟩, hlater⟩
    -- it starts where its first character stands
    obtain ⟨c, t, rfl, -⟩ := hlexeme.1.exists_follows
    rw [hspan, ← hjoined, List.append_assoc (before ++ gap), Span.afterText_append (before ++ gap)]
    exact Span.before_after _ c (t ++ front)

/-! ## Lines -/

/-- A token that starts behind a line feed is on a later line. -/
theorem Account.line_lt (h : Account before text tokens) (earlier : List Char)
    (hfeed : (Span.afterText earlier).line < (Span.afterText before).line) :
    ∀ t ∈ tokens, (Span.afterText earlier).line < t.span.line := by
  intro t ht
  obtain ⟨passed, -, hpassed⟩ := h.starts t ht
  have hcount : (before ++ passed).count '\n' = before.count '\n' + passed.count '\n' :=
    List.count_append
  rw [hpassed]
  show _ < 1 + (before ++ passed).count '\n'
  have hfeed : _ < 1 + before.count '\n' := hfeed
  omega

/-- Where a line ends, its only tokens are the line end or the end of the text. -/
theorem Account.kinds_of_line (h : Account before text tokens)
    (hend : ∀ c ∈ text.head?, isLineEnd c = true) (hreturn : ¬ LoneReturn text) :
    ∀ t ∈ tokens, t.span.line = (Span.afterText before).line →
      t.kind = .newline ∨ t.kind = .eof := by
  cases text with
  | nil =>
    generalize htext : ([] : List Char) = text at h
    cases h with
    | done => exact List.forall_mem_singleton.mpr fun _ => .inr rfl
    | more _ hlexeme _ =>
      obtain ⟨c, t, rfl, -⟩ := hlexeme.1.exists_follows
      simp at htext
  | cons c more =>
    have hnext : c = '\r' → more.head? = some '\n' := fun hc =>
      Decidable.byContradiction fun hne => hreturn ⟨more, hc ▸ rfl, hne⟩
    -- the line end is a lexeme, with its line feed last
    have hread : ∃ returns rest, c :: more = returns ++ '\n' :: rest ∧
        LongestLexeme (returns ++ ['\n']) (some .newline) (returns ++ ['\n'] ++ rest) := by
      have hreads := lexeme_reads hnext
      rcases isLineEnd_iff.mp (hend c rfl) with rfl | rfl
      · exact ⟨[], more, rfl, hreads⟩
      · obtain ⟨rest, rfl⟩ := List.head?_eq_some_iff.mp (hnext rfl)
        exact ⟨['\r'], rest, rfl, hreads⟩
    obtain ⟨returns, rest, htext, hlexeme⟩ := hread
    have hgap : LongestGap [] (returns ++ ['\n'] ++ rest) := by
      rw [List.append_assoc, List.singleton_append, ← htext]
      refine longestGap_iff.mpr ⟨.nil, splitGap_fst_eq_nil_iff.mpr ⟨?_, ?_⟩⟩
      · rintro (hblank | ⟨rfl, hne⟩)
        · rcases isLineEnd_iff.mp (hend c rfl) with rfl | rfl
          all_goals exact absurd hblank (by decide)
        · exact hne (hnext rfl)
      · rintro ⟨rfl, -⟩
        exact absurd (hend '/' rfl) (by decide)
    rw [htext] at h
    have h : Account before ([] ++ (returns ++ ['\n'] ++ rest)) tokens := by
      rwa [List.nil_append, List.append_assoc, List.singleton_append]
    obtain ⟨first, others, rfl, hkind, -, hothers⟩ := h.of_lexeme hgap hlexeme
    refine List.forall_mem_cons.mpr ⟨fun _ => .inl hkind, fun t ht hline => ?_⟩
    have hlt := hothers.line_lt before (by simp [Span.afterText]) t ht
    omega

/-- The place behind a comment is on its line. -/
theorem line_afterText_comment (front rest : List Char) :
    (Span.afterText (front ++ '/' :: '/' :: commentText rest)).line
      = (Span.afterText front).line := by
  have hnone := List.count_eq_zero.mpr (lineFeed_notMem_commentText rest)
  simp [Span.afterText, hnone]

end Scan

open Scan

/-- **Comments hide text.**  Of the tokens of a source, some start before the slashes that open a
    comment, and the others are those of the text behind it, which begins with the first line feed
    or carriage return after the slashes.  Unless that is a carriage return without a line feed, no
    token but the line end or the end of the source starts behind the slashes on their line. -/
theorem scan_comment {source : String} {tokens : List Token} {front rest : List Char}
    (h : scan source = .ok tokens)
    (hsource : dropMark source.toList = front ++ '/' :: '/' :: rest)
    (hopens : OpensComment front rest) :
    (∃ earlier later, tokens = earlier ++ later ∧
      (∀ t ∈ earlier, t.span.Before (.afterText front)) ∧
      Account (front ++ '/' :: '/' :: commentText rest) (afterComment rest) later) ∧
    (¬ LoneReturn (afterComment rest) → ∀ t ∈ tokens,
      t.span.line = (Span.afterText front).line → (Span.afterText front).column < t.span.column →
        t.kind = .newline ∨ t.kind = .eof) := by
  have haccount := account_of_scanFrom .first _ [] tokens rfl h
  rw [hsource] at haccount
  obtain ⟨earlier, later, rfl, hearlier, hlater⟩ := haccount.comment hopens
  refine ⟨⟨earlier, later, rfl, hearlier, hlater⟩, fun hreturn t ht hline hcolumn => ?_⟩
  -- before the slashes, or behind the comment
  rcases List.mem_append.mp ht with ht | ht
  · have hbefore : t.span.Before (.afterText front) := hearlier t ht
    unfold Span.Before at hbefore
    omega
  · have hplace := line_afterText_comment front rest
    exact hlater.kinds_of_line (isLineEnd_head?_afterComment rest) hreturn t ht
      (hline.trans hplace.symm)

/-- A comment behind a word, with slashes of its own, before the two characters of a line end. -/
theorem scan_comment_behindWord :
    let source := "x // a // b\r\ny"
    let rest := [' ', 'a', ' ', '/', '/', ' ', 'b', '\r', '\n', 'y']
    OpensComment ['x', ' '] rest ∧ ∃ tokens, scan source = .ok tokens ∧
      tokens.map Token.span = [⟨1, 1⟩, ⟨1, 12⟩, ⟨2, 1⟩, ⟨2, 2⟩] ∧
      ∀ t ∈ tokens, t.span.line = 1 → 3 < t.span.column → t.kind = .newline ∨ t.kind = .eof := by
  intro source rest
  -- a word, and the gap that holds the slashes
  have hread : lexeme 'x' (' ' :: '/' :: '/' :: rest) = .ok (.identifier, 0) := by
    with_unfolding_all rfl
  have hlexeme : Reads ('x' :: ' ' :: '/' :: '/' :: rest) (lexeme 'x' _) := lexeme_reads nofun
  rw [hread] at hlexeme
  have hopens : OpensComment ['x', ' '] rest := by
    have hnoGap : LongestGap [] (['x'] ++ ([' '] ++ '/' :: '/' :: rest)) :=
      longestGap_iff.mpr ⟨.nil, rfl⟩
    exact .behind hnoGap hlexeme (.inGap (.blank (.inl rfl) .nil))
  -- the source, evaluated: four tokens
  have hscan : (scan source).toOption = some [⟨.identifier, "x", ⟨1, 1⟩⟩, ⟨.newline, "\n", ⟨1, 12⟩⟩,
      ⟨.identifier, "y", ⟨2, 1⟩⟩, ⟨.eof, "", ⟨2, 2⟩⟩] := by
    decide +kernel
  cases hrun : scan source with
  | error e => rw [hrun] at hscan; exact nomatch hscan
  | ok tokens =>
    rw [hrun] at hscan
    obtain rfl := Option.some.inj hscan
    have hsource : dropMark source.toList = 'x' :: ' ' :: '/' :: '/' :: rest := by decide +kernel
    refine ⟨hopens, _, rfl, rfl, (scan_comment hrun hsource hopens).2 ?_⟩
    -- behind the comment stands a line feed, so the carriage return is not alone
    rintro ⟨more, hmore, hnext⟩
    have hcut : afterComment rest = '\r' :: '\n' :: ['y'] := rfl
    rw [hcut] at hmore
    cases hmore
    exact hnext rfl

/-- **A carriage return alone ends a comment, but not its line**: the name behind it is a token on
    the line of the comment. -/
theorem scan_comment_loneReturn :
    OpensComment [] " a\rb".toList ∧ (Span.afterText []).line = 1 ∧
      ∃ tokens, scan "// a\rb" = .ok tokens ∧
        ∃ t ∈ tokens, t.span.line = 1 ∧ (Span.afterText []).column < t.span.column ∧
          t.kind = .identifier ∧ t.text = "b" := by
  have hscan : scan "// a\rb" = .ok [⟨.identifier, "b", ⟨1, 6⟩⟩, ⟨.eof, "", ⟨1, 7⟩⟩] := by
    with_unfolding_all rfl
  exact ⟨.inGap .nil, rfl, _, hscan, _, List.mem_cons_self .., rfl, by decide, rfl, rfl⟩

end Scriptlet
