/-
  Gaps: what may stand between lexemes, said without the scanner.

  1. **Spec** (`Gap gap rest`) — whether a carriage return belongs to a gap, and where a comment
     ends, depends on the next character; so a gap is described together with the text after it.
  2. **Program** (`splitGap`) — one pass over the text that remembers whether it is in a comment.
  3. **The crux** — a gap in front is taken whole (`Gap.splitGap_append`), and what is taken is a
     gap (`gap_splitGap`); so the scanner takes the longest gap, and it is the only longest one
     (`splitGap_longest`, `LongestGap.splitGap_eq`).
-/
import Scriptlet.Token.Scan

namespace Scriptlet

namespace Scan

/-! ## Gaps -/

/-- Text that may stand before `rest` without being part of a lexeme: spaces, tabs, form feeds,
    carriage returns that no line feed follows, and comments, each up to a line end or the end of
    the text. -/
inductive Gap : List Char → List Char → Prop
  | nil {rest} : Gap [] rest
  | blank {c gap rest} (hc : c = ' ' ∨ c = '\t' ∨ c = '\x0c') (more : Gap gap rest) :
      Gap (c :: gap) rest
  | carriageReturn {gap rest} (hnext : (gap ++ rest).head? ≠ some '\n') (more : Gap gap rest) :
      Gap ('\r' :: gap) rest
  | comment {text gap rest} (htext : ∀ c ∈ text, c ≠ '\n' ∧ c ≠ '\r')
      (hend : ∀ c ∈ (gap ++ rest).head?, c = '\n' ∨ c = '\r') (more : Gap gap rest) :
      Gap ('/' :: '/' :: text ++ gap) rest

/-- A gap before `rest` that cannot be longer. -/
def LongestGap (gap rest : List Char) : Prop :=
  Gap gap rest ∧ ∀ gap' rest', gap' ++ rest' = gap ++ rest → Gap gap' rest' →
    gap'.length ≤ gap.length

variable {c : Char} {cs gap rest : List Char}

theorem isLineEnd_iff : isLineEnd c = true ↔ c = '\n' ∨ c = '\r' := by
  simp [isLineEnd]

theorem isBlank_iff : isBlank c = true ↔ c = ' ' ∨ c = '\t' ∨ c = '\x0c' := by
  simp [isBlank, or_assoc]

theorem splitGap_blank (h : isBlank c = true ∨ c = '\r' ∧ cs.head? ≠ some '\n') :
    splitGap false (c :: cs) = (c :: (splitGap false cs).1, (splitGap false cs).2) := by
  have hcond : (isBlank c || (c == '\r' && cs.head? != some '\n')) = true := by
    simpa using h
  rw [splitGap]
  simp only [Bool.false_and, Bool.false_eq_true, if_false, hcond, if_true]

theorem splitGap_slashes :
    splitGap false ('/' :: '/' :: cs) =
      ('/' :: '/' :: (splitGap true cs).1, (splitGap true cs).2) :=
  rfl

/-- What is neither blank nor a comment begins no gap. -/
theorem splitGap_stop (hblank : ¬ (isBlank c = true ∨ c = '\r' ∧ cs.head? ≠ some '\n'))
    (hslash : ¬ (c = '/' ∧ cs.head? = some '/')) : splitGap false (c :: cs) = ([], c :: cs) := by
  have hcond : (isBlank c || (c == '\r' && cs.head? != some '\n')) = false := by
    rw [Bool.eq_false_iff]
    simpa using hblank
  have hsl : (c == '/' && cs.head? == some '/') = false := by
    rw [Bool.eq_false_iff]
    simpa using hslash
  rw [splitGap]
  simp only [Bool.false_and, Bool.false_eq_true, if_false, hcond, hsl]

theorem splitGap_inside (h : isLineEnd c = false) :
    splitGap true (c :: cs) = (c :: (splitGap true cs).1, (splitGap true cs).2) := by
  rw [splitGap]
  simp only [h, Bool.not_false, Bool.and_self, if_true]

/-- A comment ends at a line end. -/
theorem splitGap_leave (h : ∀ c ∈ cs.head?, isLineEnd c = true) :
    splitGap true cs = splitGap false cs := by
  cases cs with
  | nil => rfl
  | cons c cs =>
    have hc : isLineEnd c = true := h c rfl
    rw [splitGap, splitGap]
    simp only [hc, Bool.not_true, Bool.and_false, Bool.false_eq_true, if_false]

theorem splitGap_comment {text : List Char} (h : ∀ c ∈ text, isLineEnd c = false) :
    splitGap true (text ++ cs) = (text ++ (splitGap true cs).1, (splitGap true cs).2) := by
  induction text with
  | nil => rfl
  | cons c text ih =>
    rw [List.cons_append, splitGap_inside (h c (List.mem_cons_self ..)),
      ih fun d hd => h d (List.mem_cons_of_mem c hd)]
    rfl

/-- A gap in front is taken whole, and whatever else belongs to it after that. -/
theorem Gap.splitGap_append (h : Gap gap rest) :
    splitGap false (gap ++ rest) = (gap ++ (splitGap false rest).1, (splitGap false rest).2) := by
  induction h with
  | nil => rfl
  | blank hc _ ih =>
    rw [List.cons_append, splitGap_blank (.inl (isBlank_iff.mpr hc)), ih]
    rfl
  | carriageReturn hnext _ ih =>
    rw [List.cons_append, splitGap_blank (.inr ⟨rfl, hnext⟩), ih]
    rfl
  | @comment text gap rest htext hend _ ih =>
    -- the text of a comment holds no line end
    have hinside : ∀ c ∈ text, isLineEnd c = false := by
      intro c hc
      refine eq_false_of_ne_true fun hline => ?_
      rcases isLineEnd_iff.mp hline with heq | heq
      · exact (htext c hc).1 heq
      · exact (htext c hc).2 heq
    have hleave := @splitGap_leave (gap ++ rest) fun c hc => isLineEnd_iff.mpr (hend c hc)
    simp only [List.cons_append, List.append_assoc]
    rw [splitGap_slashes, splitGap_comment hinside, hleave, ih]

/-- What is taken inside a comment: the rest of its text, and a gap that a line end begins. -/
def InComment (taken rest : List Char) : Prop :=
  ∃ text gap, taken = text ++ gap ∧ (∀ c ∈ text, c ≠ '\n' ∧ c ≠ '\r') ∧
    (∀ c ∈ (gap ++ rest).head?, c = '\n' ∨ c = '\r') ∧ Gap gap rest

/-- The second slash is the first character of the comment's text. -/
theorem gap_of_slashes (h : InComment (splitGap true ('/' :: cs)).1 (splitGap true ('/' :: cs)).2) :
    Gap (splitGap false ('/' :: '/' :: cs)).1 (splitGap false ('/' :: '/' :: cs)).2 := by
  obtain ⟨text, gap, hsplit, htext, hend, hmore⟩ := h
  have hwhole : text ++ (gap ++ (splitGap true ('/' :: cs)).2) = '/' :: cs := by
    rw [← List.append_assoc, ← hsplit, splitGap_append]
  cases text with
  | nil =>
    rw [List.nil_append] at hwhole
    rw [hwhole] at hend
    exact absurd (hend '/' rfl) (by decide)
  | cons d text =>
    obtain ⟨rfl, -⟩ := List.cons.inj hwhole
    have hinside := @splitGap_inside '/' cs (by decide)
    rw [hinside] at hsplit hend hmore
    obtain ⟨-, hsplit⟩ := List.cons.inj hsplit
    rw [splitGap_slashes, hsplit]
    exact .comment (fun c hc => htext c (List.mem_cons_of_mem _ hc)) hend hmore

/-- What `splitGap` takes is a gap, or the rest of a comment and a gap. -/
theorem gap_splitGap (cs : List Char) : Gap (splitGap false cs).1 (splitGap false cs).2 ∧
    InComment (splitGap true cs).1 (splitGap true cs).2 := by
  induction cs with
  | nil => exact ⟨.nil, [], [], rfl, by simp, by simp [splitGap], .nil⟩
  | cons c cs ih =>
    obtain ⟨hgap, hcomment⟩ := ih
    have hfalse : Gap (splitGap false (c :: cs)).1 (splitGap false (c :: cs)).2 := by
      -- a blank, or a carriage return without a line feed
      by_cases hblank : isBlank c = true ∨ c = '\r' ∧ cs.head? ≠ some '\n'
      · rw [splitGap_blank hblank]
        rcases hblank with hc | ⟨rfl, hnext⟩
        · exact .blank (isBlank_iff.mp hc) hgap
        · refine .carriageReturn ?_ hgap
          rwa [splitGap_append]
      · -- two slashes open a comment
        by_cases hslash : c = '/' ∧ cs.head? = some '/'
        · obtain ⟨rfl, hnext⟩ := hslash
          obtain ⟨tail, rfl⟩ := List.head?_eq_some_iff.mp hnext
          exact gap_of_slashes hcomment
        · -- anything else ends the gap
          rw [splitGap_stop hblank hslash]
          exact .nil
    refine ⟨hfalse, ?_⟩
    -- a line end leaves the comment
    by_cases hline : isLineEnd c = true
    · have hleave : splitGap true (c :: cs) = splitGap false (c :: cs) := by
        refine splitGap_leave fun d hd => ?_
        rw [← Option.some.inj hd]
        exact hline
      rw [hleave]
      refine ⟨[], _, rfl, by simp, fun d hd => ?_, hfalse⟩
      rw [splitGap_append] at hd
      rw [← Option.some.inj hd]
      exact isLineEnd_iff.mp hline
    · -- any other character is part of it
      rw [Bool.not_eq_true] at hline
      obtain ⟨text, gap, hsplit, htext, hend, hmore⟩ := hcomment
      rw [splitGap_inside hline]
      refine ⟨c :: text, gap, by rw [hsplit]; rfl, fun d hd => ?_, hend, hmore⟩
      rcases List.mem_cons.mp hd with rfl | hd
      · constructor
        all_goals
          rintro rfl
          exact absurd hline (by decide)
      · exact htext d hd

/-- **The scanner takes the longest gap.** -/
theorem splitGap_longest (cs : List Char) :
    LongestGap (splitGap false cs).1 (splitGap false cs).2 := by
  refine ⟨(gap_splitGap cs).1, fun gap' rest' happend hgap' => ?_⟩
  rw [splitGap_append] at happend
  rw [← happend, hgap'.splitGap_append, List.length_append]
  exact Nat.le_add_right _ _

/-- Nothing of a gap is left after the longest one. -/
theorem LongestGap.splitGap_rest (h : LongestGap gap rest) : (splitGap false rest).1 = [] := by
  obtain ⟨hgap, hlongest⟩ := h
  have hle := hlongest _ _ (splitGap_append false (gap ++ rest)) (gap_splitGap (gap ++ rest)).1
  rw [hgap.splitGap_append, List.length_append] at hle
  exact List.length_eq_zero_iff.mp (by omega)

theorem LongestGap.splitGap_eq (h : LongestGap gap rest) :
    splitGap false (gap ++ rest) = (gap, rest) := by
  have hrest := splitGap_append false rest
  rw [h.1.splitGap_append, h.splitGap_rest, List.append_nil]
  rw [h.splitGap_rest, List.nil_append] at hrest
  rw [hrest]

theorem longestGap_iff : LongestGap gap rest ↔ Gap gap rest ∧ (splitGap false rest).1 = [] := by
  constructor
  · intro h
    exact ⟨h.1, h.splitGap_rest⟩
  · rintro ⟨hgap, hrest⟩
    have hlongest := splitGap_longest (gap ++ rest)
    have hsnd := splitGap_append false rest
    rw [hrest, List.nil_append] at hsnd
    rw [hgap.splitGap_append, hrest, List.append_nil, hsnd] at hlongest
    exact hlongest

/-- No gap begins with a character exactly if it is neither blank nor the start of a comment. -/
theorem splitGap_fst_eq_nil_iff : (splitGap false (c :: cs)).1 = [] ↔
    ¬ (isBlank c = true ∨ c = '\r' ∧ cs.head? ≠ some '\n') ∧
      ¬ (c = '/' ∧ cs.head? = some '/') := by
  constructor
  · intro h
    constructor
    · intro hblank
      rw [splitGap_blank hblank] at h
      exact nomatch h
    · rintro ⟨rfl, hslash⟩
      obtain ⟨tail, rfl⟩ := List.head?_eq_some_iff.mp hslash
      rw [splitGap_slashes] at h
      exact nomatch h
  · rintro ⟨hblank, hslash⟩
    rw [splitGap_stop hblank hslash]

/-- A carriage return that is no part of the gap stands before a line feed. -/
theorem LongestGap.lineFeed_of_return (h : LongestGap gap ('\r' :: cs)) : cs.head? = some '\n' := by
  refine Decidable.byContradiction fun hnext => ?_
  have hrest := h.splitGap_rest
  rw [splitGap_blank (.inr ⟨rfl, hnext⟩)] at hrest
  exact nomatch hrest

/-- What is left of a text behind its first gap. -/
theorem longestGap_of_splitGap {source : List Char}
    (h : (splitGap false source).2 = c :: cs) :
    source = (splitGap false source).1 ++ c :: cs ∧
      LongestGap (splitGap false source).1 (c :: cs) ∧ (c = '\r' → cs.head? = some '\n') := by
  have hgap := splitGap_longest source
  have hsource := splitGap_append false source
  rw [h] at hgap hsource
  exact ⟨hsource.symm, hgap, fun hc => (hc ▸ hgap).lineFeed_of_return⟩

end Scan

end Scriptlet
