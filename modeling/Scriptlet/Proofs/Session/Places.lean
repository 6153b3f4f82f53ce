/-
  Places: where the errors of a source text are reported.

  1. **Reading tokens** (`scan_error_within`, `scan_token_within`) — the scanner counts the characters
     it passes, so errors and tokens stand at a character of the text or at its end.
  2. **Trees that fit** (`Stmt.Fits.inside`) — the place of every node, however deep, is that of a
     token in its range.
  3. **The result (`errors_located`)** — an error of any stage is reported at a place of the source;
     one of parsing at a token, and one of running at a token of some node of the program.
-/
import Scriptlet.Proofs.Eval.Sites
import Scriptlet.Proofs.Grammar.Ranges
import Scriptlet.Proofs.Layout.Stability
import Scriptlet.Proofs.Token.Account
import Scriptlet.Session

namespace Scriptlet

/-! ## Reading tokens -/

/-- The place of a character of the text, or that of its end. -/
def Span.Within (text : List Char) (s : Span) : Prop :=
  ∃ before, before <+: text ∧ s = .afterText before

/-- The scanner stops at an error at some place of the text. -/
theorem Scan.scanFrom_error (span : Span) (source : List Char) : ∀ e,
    scanFrom span source = .error e →
      ∃ passed, passed <+: source ∧ e.span = span.after passed := by
  fun_induction scanFrom span source with
  | case1 =>
    -- nothing but a gap is left, which is no error
    intro e h
    cases h
  | case2 span source start c cs hsplit cause ahead hread =>
    intro e h
    -- the error lies in the lexeme behind the gap
    have hsource := splitGap_append false source
    rw [hsplit] at hsource
    refine ⟨(splitGap false source).1 ++ (c :: cs).take ahead, ?_, ?_⟩
    · conv => rhs; rw [← hsource]
      exact (List.prefix_append_right_inj _).mpr (List.take_prefix ..)
    · rw [← Except.error.inj h, Span.after_append]
  | case3 span source start c cs hsplit kind extra hread taken e' hothers ih =>
    intro e h
    obtain ⟨passed, hpassed, hspan⟩ := ih e' hothers
    -- the error lies behind the gap and the lexeme
    have hsource := splitGap_append false source
    have hcut : c :: cs = taken ++ cs.drop extra := by simp [taken]
    rw [hsplit, hcut] at hsource
    refine ⟨(splitGap false source).1 ++ (taken ++ passed), ?_, ?_⟩
    · conv => rhs; rw [← hsource]
      exact (List.prefix_append_right_inj _).mpr ((List.prefix_append_right_inj _).mpr hpassed)
    · rw [← Except.error.inj h, hspan, Span.after_append, Span.after_append]
  | case4 =>
    intro e h
    cases h

/-- An error of scanning is reported at a character of the text or at its end. -/
theorem scan_error_within {source : String} {e : LexError} (h : scan source = .error e) :
    e.span.Within (Scan.dropMark source.toList) := by
  obtain ⟨passed, hpassed, hspan⟩ := Scan.scanFrom_error .first _ e h
  exact ⟨passed, hpassed, hspan.trans (Span.first_after passed)⟩

/-- A token stands at a character of the text or at its end. -/
theorem scan_token_within {source : String} {tokens : List Token} (h : scan source = .ok tokens) :
    ∀ t ∈ tokens, t.span.Within (Scan.dropMark source.toList) :=
  (scan_eq_ok_iff_account source tokens).mp h |>.1.starts

/-- There is always an `eof`. -/
theorem scan_ne_nil {source : String} {tokens : List Token} (h : scan source = .ok tokens) :
    tokens ≠ [] := by
  obtain ⟨-, -, body, rfl, -⟩ := (scan_eq_ok_iff_account source tokens).mp h
  exact List.append_ne_nil_of_right_ne_nil _ (List.cons_ne_nil _ _)

/-! ## Trees that fit -/

/-- The place is that of a token in the range. -/
def Origin.Inside (tokens : List Token) (o : Origin) : Prop :=
  ∃ i t, o.start ≤ i ∧ i < o.stop ∧ tokens[i]? = some t ∧ t.span = o.span

section Fits

variable {tokens : List Token} {lo hi i : Nat} {o : Origin}

/-- A node that sits in the list is inside its own range. -/
theorem Origin.Sits.inside (h : o.Sits tokens lo hi i) : o.Inside tokens := by
  obtain ⟨t, ht, hspan⟩ := Option.map_eq_some_iff.mp h.span
  exact ⟨i, t, h.start_le, h.lt_stop, ht, hspan⟩

mutual

/-- In an expression that fits, every node is inside its range, by induction. -/
theorem Expr.Fits.inside {lo hi : Nat} (e : Expr Origin) (h : e.Fits tokens lo hi) :
    ∀ o ∈ e.notes, o.Inside tokens := by
  cases e with
  | literal o v => exact List.forall_mem_singleton.mpr h.1.inside
  | name o x => exact List.forall_mem_singleton.mpr h.1.inside
  | unary o op e => exact List.forall_mem_cons.mpr ⟨h.1.inside, Expr.Fits.inside e h.2⟩
  | operation o op l r =>
    obtain ⟨i, hsits, hl, hr⟩ := h
    -- the operands are inside the node
    refine List.forall_mem_cons.mpr ⟨hsits.inside, List.forall_mem_append.mpr ⟨?_, ?_⟩⟩
    · exact Expr.Fits.inside l hl
    · exact Expr.Fits.inside r hr
  | assign o x e =>
    obtain ⟨i, hsits, he⟩ := h
    exact List.forall_mem_cons.mpr ⟨hsits.inside, Expr.Fits.inside e he⟩
  | call o f args =>
    obtain ⟨i, hsits, hf, hargs⟩ := h
    -- the callee and the arguments are
    refine List.forall_mem_cons.mpr ⟨hsits.inside, List.forall_mem_append.mpr ⟨?_, ?_⟩⟩
    · exact Expr.Fits.inside f hf
    · exact Expr.AllFit.inside args hargs

theorem Expr.AllFit.inside {lo hi : Nat} (es : List (Expr Origin))
    (h : Expr.AllFit tokens lo hi es) : ∀ o ∈ Expr.allNotes es, o.Inside tokens := by
  cases es with
  | nil => exact List.forall_mem_nil _
  | cons e es =>
    obtain ⟨mid, he, hes⟩ := h
    exact List.forall_mem_append.mpr ⟨Expr.Fits.inside e he, Expr.AllFit.inside es hes⟩

end

/-- An expression that may be missing. -/
theorem Expr.Fits?.inside {e : Option (Expr Origin)} (h : Expr.Fits? tokens lo hi e) :
    ∀ o ∈ Expr.notes? e, o.Inside tokens := by
  cases e with
  | none => exact List.forall_mem_nil _
  | some e => exact Expr.Fits.inside e h

mutual

/-- **The place of every node is that of a token in its range.** -/
theorem Stmt.Fits.inside {lo hi : Nat} (s : Stmt Origin) (h : s.Fits tokens lo hi) :
    ∀ o ∈ s.notes, o.Inside tokens := by
  match s with
  | .expr o e => exact List.forall_mem_cons.mpr ⟨h.1.inside, Expr.Fits.inside e h.2⟩
  | .declare o x e => exact List.forall_mem_cons.mpr ⟨h.1.inside, Expr.Fits?.inside h.2⟩
  | .ret o e => exact List.forall_mem_cons.mpr ⟨h.1.inside, Expr.Fits?.inside h.2⟩
  | .print o args => exact List.forall_mem_cons.mpr ⟨h.1.inside, Expr.AllFit.inside args h.2⟩
  | .block o body => exact List.forall_mem_cons.mpr ⟨h.1.inside, Stmt.AllFit.inside body h.2⟩
  -- a conditional has one block or two, or another conditional behind `else`
  | .cond o c t none =>
    obtain ⟨hsits, mid, hc, ht⟩ := h
    refine List.forall_mem_cons.mpr ⟨hsits.inside, List.forall_mem_append.mpr ⟨?_, ?_⟩⟩
    · exact Expr.Fits.inside c hc
    · exact Stmt.AllFit.inside t ht
  | .cond o c t (some branch) =>
    obtain ⟨hsits, mid, mid', hc, ht, hbranch⟩ := h
    refine List.forall_mem_cons.mpr ⟨hsits.inside, List.forall_mem_append.mpr
      ⟨List.forall_mem_append.mpr ⟨?_, ?_⟩, ?_⟩⟩
    · exact Expr.Fits.inside c hc
    · exact Stmt.AllFit.inside t ht
    · exact Stmt.Fits.inside branch hbranch
  | .loop o c body =>
    obtain ⟨hsits, mid, hc, hbody⟩ := h
    refine List.forall_mem_cons.mpr ⟨hsits.inside, List.forall_mem_append.mpr ⟨?_, ?_⟩⟩
    · exact Expr.Fits.inside c hc
    · exact Stmt.AllFit.inside body hbody
  | .function o f params body =>
    exact List.forall_mem_cons.mpr ⟨h.1.inside, Stmt.AllFit.inside body h.2⟩
  | .breakLoop o => exact List.forall_mem_singleton.mpr (Origin.Sits.inside h)
  | .continueLoop o => exact List.forall_mem_singleton.mpr (Origin.Sits.inside h)

theorem Stmt.AllFit.inside {lo hi : Nat} (body : List (Stmt Origin))
    (h : Stmt.AllFit tokens lo hi body) : ∀ o ∈ Stmt.allNotes body, o.Inside tokens := by
  match body with
  | [] => exact List.forall_mem_nil _
  | s :: rest =>
    obtain ⟨mid, hs, hrest⟩ := h
    exact List.forall_mem_append.mpr ⟨Stmt.Fits.inside s hs, Stmt.AllFit.inside rest hrest⟩

end

end Fits

/-! ## The result -/

/-- An error of a source text is that of one of the stages, and reported where that stage may. -/
def Error.LocatedIn (source : String) (e : Error) : Prop :=
  e.span.Within (Scan.dropMark source.toList) ∧
    match e with
    | .lex e => scan source = .error e
    | .parse e => ∃ tokens, scan source = .ok tokens ∧ ∃ t ∈ tokens, t.span = e.span
    | .runtime e => ∃ tokens p, scan source = .ok tokens ∧ Scriptlet.parse tokens = .ok p ∧
        e.site ∈ p.notes ∧ e.site.Inside tokens

variable {source : String}

/-- An error of parsing is reported at a token, which stands in the text. -/
theorem locatedIn_parse {tokens : List Token} {e : ParseError} (hscan : scan source = .ok tokens)
    (h : parse tokens = .error e) : (Error.parse e).LocatedIn source := by
  have htold := parse_told (scan_ne_nil hscan)
  rw [h] at htold
  obtain ⟨t, ht, hspan⟩ := htold
  refine ⟨?_, tokens, hscan, t, ht, hspan⟩
  show e.span.Within _
  rw [← hspan]
  exact scan_token_within hscan t ht

/-- An error of running is reported at a node, whose place is that of a token. -/
theorem locatedIn_runtime {tokens : List Token} {p : Program Origin} {e : RuntimeError Origin}
    (hscan : scan source = .ok tokens) (hparse : parse tokens = .ok p) (h : e.site ∈ p.notes) :
    (Error.runtime e).LocatedIn source := by
  have hfits := parse_told (scan_ne_nil hscan)
  rw [hparse] at hfits
  have hinside : e.site.Inside tokens := Stmt.AllFit.inside p.statements hfits e.site h
  refine ⟨?_, tokens, p, hscan, hparse, h, hinside⟩
  obtain ⟨i, t, -, -, ht, hspan⟩ := hinside
  show e.site.span.Within _
  rw [← hspan]
  exact scan_token_within hscan t (List.mem_of_getElem? ht)

/-- The errors before running, of either stage. -/
theorem locatedIn_of_parseSource {e : Error} (h : parseSource source = .error e) :
    e.LocatedIn source := by
  unfold parseSource at h
  -- the text has no tokens
  cases hscan : scan source with
  | error e' =>
    rw [hscan] at h
    cases h
    exact ⟨scan_error_within hscan, hscan⟩
  -- it has tokens, but no tree
  | ok tokens =>
    rw [hscan] at h
    dsimp only at h
    cases hparse : parse tokens with
    | error e' =>
      rw [hparse] at h
      cases h
      exact locatedIn_parse hscan hparse
    | ok p =>
      rw [hparse] at h
      exact nomatch h

/-- Whatever happened in a session before, an error of a run is located in its source. -/
theorem Session.run_located {fuel : Nat} {s s' : Session} {e : Error}
    (h : s.run fuel = some (some e, s')) : e.LocatedIn s.source := by
  unfold run at h
  -- before the run
  cases hsource : parseSource s.source with
  | error e' =>
    rw [hsource] at h
    obtain ⟨he, -⟩ := Prod.mk.inj (Option.some.inj h)
    rw [← Option.some.inj he]
    exact locatedIn_of_parseSource hsource
  -- during the run, at a node of the tree
  | ok p =>
    rw [hsource] at h
    dsimp only at h
    obtain ⟨tokens, hscan, hparse⟩ := parseSource_eq_ok.mp hsource
    cases hrun : Machine.run { limits := s.limits } fuel p Machine.initial with
    | mk outcome m =>
      rw [hrun] at h
      cases outcome with
      | value v => exact nomatch (Prod.mk.inj (Option.some.inj h)).1
      | outOfFuel => exact nomatch h
      | fault e' =>
        obtain ⟨he, -⟩ := Prod.mk.inj (Option.some.inj h)
        rw [← Option.some.inj he]
        exact locatedIn_runtime hscan hparse (Machine.site_mem_notes hrun)

/-- **Every error is located in the source**, whether a text is run by itself or in a session, under
    any limits. -/
theorem errors_located (source : String) :
    (∀ fuel output e, runSource fuel source = some (output, some e) → e.LocatedIn source) ∧
    ∀ fuel (s s' : Session) e, s.source = source → s.run fuel = some (some e, s') →
      e.LocatedIn source := by
  constructor
  · intro fuel output e h
    obtain ⟨⟨e', s'⟩, hrun, hpair⟩ := Option.map_eq_some_iff.mp h
    obtain ⟨-, rfl⟩ := Prod.mk.inj hpair
    exact Session.run_located hrun
  · rintro fuel s s' e rfl h
    exact Session.run_located h

/-- A function that divides by its parameter, and a call of it on the next line. -/
def divides : String := "fn half(n) \x7b return 1 / n \x7d\nprint(half(0))"

/-- The division fails at its sign, on the first line; with no calls allowed, the call fails at its
    parenthesis, on the second. -/
theorem errors_located_divides :
    (∃ e, runSource 20 divides = some ("", some e) ∧ e.span = ⟨1, 23⟩ ∧ e.LocatedIn divides) ∧
    ∃ e s', ((Session.new divides).withLimits { calls := 0 }).run 20 = some (some e, s') ∧
      e.span = ⟨2, 11⟩ ∧ e.LocatedIn divides := by
  constructor
  · have hrun : runSource 20 divides =
        some ("", some (.runtime ⟨.divisionByZero, ⟨⟨1, 23⟩, 7, 10⟩⟩)) := by
      decide +kernel
    exact ⟨_, hrun, rfl, (errors_located divides).1 _ _ _ hrun⟩
  · have hfirst : (((Session.new divides).withLimits { calls := 0 }).run 20).map (·.1) =
        some (some (.runtime ⟨.callDepthExceeded 0, ⟨⟨2, 11⟩, 14, 18⟩⟩)) := by
      decide +kernel
    obtain ⟨⟨e, s'⟩, hrun, rfl⟩ := Option.map_eq_some_iff.mp hfirst
    exact ⟨_, s', hrun, rfl, (errors_located divides).2 _ _ _ _ rfl hrun⟩

end Scriptlet
