/-
  The words of a layout.

  1. **Well-formed trees** — names are words and no keywords, numbers have no sign and are finite,
     and an `else` is followed by a block or a conditional.  These are the trees whose layout is
     meant as source; `Program.wellFormed` is a Boolean and adds the context conditions.
  2. **Words** — `Expr.words` and `Stmt.words` follow the layout and give the words in it, line ends
     included.
  3. **The crux (`Stmt.scans_lines`)** — the layout of a well-formed tree is scanned as its words:
     no lexeme runs into the next one.
-/
import Scriptlet.Proofs.Layout.Scanning

namespace Scriptlet

open Scan (isName Scans Stops)

variable {α : Type}

/-! ## Well-formed trees -/

/-- Whether a literal can be written: a number only without a sign, and finite. -/
def Literal.isWritable : Literal → Bool
  | .integer n => decide (0 ≤ n.toInt)
  | .float x => x.isFinite && !x.isNegative
  | _ => true

mutual

/-- Whether all names and literals of an expression can be written. -/
def Expr.wellFormed : Expr α → Bool
  | .literal _ v => v.isWritable
  | .name _ x => isName x
  | .unary _ _ e => e.wellFormed
  | .operation _ _ l r => l.wellFormed && r.wellFormed
  | .assign _ x e => isName x && e.wellFormed
  | .call _ f args => f.wellFormed && Expr.allWellFormed args

/-- `Expr.wellFormed` for every expression of a list. -/
def Expr.allWellFormed : List (Expr α) → Bool
  | [] => true
  | e :: es => e.wellFormed && Expr.allWellFormed es

end

/-- `Expr.wellFormed` for an expression that may be missing. -/
def Expr.wellFormed? : Option (Expr α) → Bool
  | none => true
  | some e => e.wellFormed

mutual

/-- Whether all names and literals of a statement can be written, and every `else` is followed by a
    block or a conditional. -/
def Stmt.wellFormed : Stmt α → Bool
  | .expr _ e => e.wellFormed
  | .declare _ x e => isName x && Expr.wellFormed? e
  | .print _ args => Expr.allWellFormed args
  | .block _ body => Stmt.allWellFormed body
  | .cond _ c t none => c.wellFormed && Stmt.allWellFormed t
  | .cond _ c t (some branch) =>
    c.wellFormed && Stmt.allWellFormed t && branch.isBranch && branch.wellFormed
  | .loop _ c body => c.wellFormed && Stmt.allWellFormed body
  | .function _ f params body => isName f && params.all isName && Stmt.allWellFormed body
  | .ret _ e => Expr.wellFormed? e
  | .breakLoop _ | .continueLoop _ => true

/-- `Stmt.wellFormed` for every statement of a list. -/
def Stmt.allWellFormed : List (Stmt α) → Bool
  | [] => true
  | s :: rest => s.wellFormed && Stmt.allWellFormed rest

end

/-- Whether a program can be written, and satisfies the context conditions. -/
def Program.wellFormed (p : Program α) : Bool := p.wellPlaced && Stmt.allWellFormed p.statements

/-! ## Words -/

/-- The word of a literal. -/
def Word.ofLiteral : Literal → Word
  | .nil => .ofKeyword .nilKw
  | .bool true => .ofKeyword .trueKw
  | .bool false => .ofKeyword .falseKw
  | .integer n => ⟨.integer n, Integer.text n⟩
  | .float x => ⟨.float x, Decimal.floatText x⟩
  | .str s => ⟨.str s, String.ofList (Text.quote s.toList)⟩

/-- The words between parentheses if `needed`, else the words themselves. -/
def parenthesizedWords (needed : Bool) (ws : List Word) : List Word :=
  if needed then .ofSymbol .leftParen :: ws ++ [.ofSymbol .rightParen] else ws

/-- Words with commas between them. -/
def commaWords (items : List (List Word)) : List Word := [Word.ofSymbol .comma].intercalate items

/-- What stands between two parentheses, and the closing one. -/
def closedWords (items : List (List Word)) : List Word :=
  commaWords items ++ [.ofSymbol .rightParen]

mutual

/-- The words of an expression. -/
def Expr.words : Expr α → List Word
  | .literal _ v => [.ofLiteral v]
  | .name _ x => [.ofName x]
  | .unary _ op e => .ofSymbol op.symbol :: parenthesizedWords (e.precedence < .unary) e.words
  | .operation _ op l r =>
    parenthesizedWords (l.precedence < op.precedence) l.words
      ++ .ofSymbol op.symbol :: parenthesizedWords (r.precedence ≤ op.precedence) r.words
  | .assign _ x e => .ofName x :: .ofSymbol .assign :: e.words
  | .call _ f args =>
    parenthesizedWords (f.precedence < .call) f.words
      ++ .ofSymbol .leftParen :: closedWords (Expr.listWords args)

/-- The words of several expressions. -/
def Expr.listWords : List (Expr α) → List (List Word)
  | [] => []
  | e :: es => e.words :: Expr.listWords es

end

/-- The words of a value that may be missing, after the words that announce it. -/
def Expr.words? (lead : List Word) : Option (Expr α) → List Word
  | none => []
  | some e => lead ++ e.words

/-- Braces around lines. -/
def bracedWords (lines : List Word) : List Word :=
  .ofSymbol .leftBrace :: .lineEnd :: lines ++ [.ofSymbol .rightBrace]

mutual

/-- The words of a statement. -/
def Stmt.words : Stmt α → List Word
  | .expr _ e => e.words
  | .declare _ x e => .ofKeyword .letKw :: .ofName x :: Expr.words? [.ofSymbol .assign] e
  | .print _ args =>
    .ofKeyword .printKw :: .ofSymbol .leftParen :: closedWords (Expr.listWords args)
  | .block _ body => bracedWords (Stmt.lineWords body)
  | .cond _ c t none => .ofKeyword .ifKw :: c.words ++ bracedWords (Stmt.lineWords t)
  | .cond _ c t (some branch) =>
    .ofKeyword .ifKw :: c.words ++ bracedWords (Stmt.lineWords t)
      ++ .ofKeyword .elseKw :: branch.words
  | .loop _ c body => .ofKeyword .whileKw :: c.words ++ bracedWords (Stmt.lineWords body)
  | .function _ f params body =>
    .ofKeyword .fnKw :: .ofName f :: .ofSymbol .leftParen
      :: closedWords (params.map fun x => [.ofName x]) ++ bracedWords (Stmt.lineWords body)
  | .ret _ e => .ofKeyword .returnKw :: Expr.words? [] e
  | .breakLoop _ => [.ofKeyword .breakKw]
  | .continueLoop _ => [.ofKeyword .continueKw]

/-- The words of statements, each on a line of its own. -/
def Stmt.lineWords : List (Stmt α) → List Word
  | [] => []
  | s :: rest => s.words ++ .lineEnd :: Stmt.lineWords rest

end

/-- The words of a program. -/
def Program.words (p : Program α) : List Word := Stmt.lineWords p.statements

/-! ## How layouts begin -/

/-- Characters that the layout of a statement may start with, keywords and names aside. -/
def isLead (c : Char) : Bool :=
  Scan.isWordStart c || c.isDigit || c == '"' || c == '(' || c == '-' || c == '!' || c == '\x7b'

/-- The text starts with such a character. -/
def Leads (text : List Char) : Prop := ∃ c cs, text = c :: cs ∧ isLead c = true

/-- No symbol continues into this text, and it starts no comment. -/
def Clear (text : List Char) : Prop := ∀ c ∈ text.head?, c ≠ '=' ∧ c ≠ '/'

/-- How a text begins does not depend on what is behind its first character. -/
theorem Leads.append {text : List Char} (h : Leads text) (more : List Char) :
    Leads (text ++ more) := by
  obtain ⟨c, cs, rfl, hc⟩ := h
  exact ⟨c, cs ++ more, rfl, hc⟩

/-- What a layout starts with neither continues a symbol nor starts a comment. -/
theorem Leads.clear {text : List Char} (h : Leads text) : Clear text := by
  obtain ⟨c, cs, rfl, hc⟩ := h
  intro d hd
  rw [List.head?_cons, Option.mem_some_iff] at hd
  rw [← hd]
  refine ⟨?_, ?_⟩ <;> rintro rfl <;> exact absurd hc (by decide)

/-- The first character alone decides whether a text is clear. -/
theorem clear_cons {c : Char} (h : c ≠ '=' ∧ c ≠ '/') (rest : List Char) : Clear (c :: rest) := by
  intro d hd
  rw [List.head?_cons, Option.mem_some_iff] at hd
  rw [← hd]
  exact h

/-- A stop neither continues a symbol nor starts a comment. -/
theorem Scan.Stops.clear {rest : List Char} (h : Stops rest) : Clear rest := by
  intro c hc
  rcases Scan.isStop_cases (h c hc) with rfl | rfl | rfl | rfl | rfl <;> decide

theorem leads_wordStart {c : Char} {cs : List Char} (h : Scan.isWordStart c = true) :
    Leads (c :: cs) :=
  ⟨c, cs, rfl, by simp [isLead, h]⟩

/-- The layout of a name starts with its first letter. -/
theorem leads_name {x : String} (h : isName x = true) : Leads x.toList := by
  obtain ⟨c, cs, hx, hc, -⟩ := Scan.isName_cases h
  rw [hx]
  exact leads_wordStart hc

theorem leads_digits {digits : List Char} (hne : digits ≠ [])
    (h : ∀ c ∈ digits, c.isDigit = true) : Leads digits := by
  obtain ⟨c, cs, rfl⟩ := List.exists_cons_of_ne_nil hne
  exact ⟨c, cs, rfl, by simp [isLead, h c (List.mem_cons_self ..)]⟩

/-- The layout of a writable literal starts with a digit, a letter or a quotation mark. -/
theorem leads_literal {v : Literal} (h : v.isWritable = true) : Leads v.text.toList := by
  match v with
  | .nil => exact leads_wordStart (by decide)
  | .bool true => exact leads_wordStart (by decide)
  | .bool false => exact leads_wordStart (by decide)
  | .integer n =>
    obtain ⟨htext, -⟩ := Integer.text_literal (of_decide_eq_true h)
    show Leads (Integer.text n).toList
    rw [htext]
    exact leads_digits (Decimal.digitsOfNat_ne_nil _) fun c => Decimal.isDigit_of_mem_digitsOfNat
  | .float x =>
    obtain ⟨hfin, hneg⟩ := (Bool.and_eq_true _ _).mp h
    obtain ⟨whole, places, htext, hne, hwhole, -⟩ :=
      Decimal.floatText_isFloatLiteral hfin ((Bool.not_eq_true' _).mp hneg)
    show Leads (Decimal.floatText x).toList
    rw [htext]
    exact (leads_digits hne hwhole).append _
  | .str s =>
    show Leads (String.ofList (Text.quote s.toList)).toList
    rw [String.toList_ofList]
    exact ⟨'"', _, rfl, by decide⟩

/-- With parentheses or without them, a layout starts as one. -/
theorem Leads.parenthesize {text : List Char} (h : Leads text) (needed : Bool) :
    Leads (Scriptlet.parenthesize needed text) := by
  cases needed with
  | true => exact ⟨'(', _, rfl, by decide⟩
  | false => exact h

/-- **How the layout of a well-formed expression begins.** -/
theorem Expr.leads_layout (e : Expr α) (h : e.wellFormed = true) : Leads e.layout := by
  match e with
  | .literal _ v => rw [Expr.layout]; exact leads_literal h
  | .name _ x => rw [Expr.layout]; exact leads_name h
  | .unary _ op e => rw [Expr.layout]; cases op <;> exact ⟨_, _, rfl, by decide⟩
  | .operation _ op l r =>
    rw [Expr.layout, List.append_assoc]
    exact ((Expr.leads_layout l ((Bool.and_eq_true _ _).mp h).1).parenthesize _).append _
  | .assign _ x e =>
    rw [Expr.layout]
    exact (leads_name ((Bool.and_eq_true _ _).mp h).1).append _
  | .call _ f args =>
    rw [Expr.layout, List.append_assoc]
    exact ((Expr.leads_layout f ((Bool.and_eq_true _ _).mp h).1).parenthesize _).append _

/-! ## Scanning expressions -/

/-- A stretch of text that is scanned as these words wherever a stop follows. -/
def Chunk (text : List Char) (words : List Word) : Prop :=
  ∀ rest ws, Stops rest → Scans rest ws → Scans (text ++ rest) (words ++ ws)

/-- **A writable literal is scanned as one word.** -/
theorem chunk_literal {v : Literal} (h : v.isWritable = true) :
    Chunk v.text.toList [.ofLiteral v] := by
  intro rest ws hrest hscan
  match v with
  | .nil => exact hscan.keyword .nilKw hrest
  | .bool true => exact hscan.keyword .trueKw hrest
  | .bool false => exact hscan.keyword .falseKw hrest
  | .integer n =>
    obtain ⟨htext, hfit⟩ := Integer.text_literal (of_decide_eq_true h)
    have hword := hscan.integer (Decimal.digitsOfNat_ne_nil _)
      (fun c => Decimal.isDigit_of_mem_digitsOfNat) hfit hrest
    rw [← htext, String.ofList_toList] at hword
    exact hword
  | .float x =>
    obtain ⟨hfin, hneg⟩ := (Bool.and_eq_true _ _).mp h
    have hliteral := Decimal.floatText_isFloatLiteral hfin ((Bool.not_eq_true' _).mp hneg)
    have hword := hscan.float hliteral hfin hrest
    rw [String.ofList_toList] at hword
    exact hword
  | .str s =>
    show Scans ((String.ofList (Text.quote s.toList)).toList ++ rest) _
    rw [String.toList_ofList]
    exact hscan.str s

/-- An operand is scanned with the parentheses that it needs. -/
theorem Chunk.parenthesize {text : List Char} {words : List Word} (h : Chunk text words)
    (hlead : Leads text) (needed : Bool) :
    Chunk (Scriptlet.parenthesize needed text) (parenthesizedWords needed words) := by
  cases needed with
  | false => exact h
  | true =>
    intro rest ws hrest hscan
    have hclose := hscan.symbol .rightParen hrest.clear
    have hinner := h (')' :: rest) _ (Scan.stops_cons (by decide)) hclose
    have hopen := hinner.symbol .leftParen (hlead.append _).clear
    have htext : Scriptlet.parenthesize true text ++ rest = '(' :: (text ++ ')' :: rest) := by
      simp only [Scriptlet.parenthesize, if_true, List.append_assoc, List.cons_append,
        List.nil_append]
    have hwords : parenthesizedWords true words ++ ws
        = .ofSymbol .leftParen :: (words ++ .ofSymbol .rightParen :: ws) := by
      simp only [parenthesizedWords, if_true, List.append_assoc, List.cons_append, List.nil_append]
    rw [htext, hwords]
    exact hopen

/-- An infix operator with a blank on either side. -/
theorem Chunk.infixed {left right : List Char} {lwords rwords : List Word} (hl : Chunk left lwords)
    (hr : Chunk right rwords) (x : Symbol) :
    Chunk (left ++ ' ' :: x.chars ++ ' ' :: right) (lwords ++ .ofSymbol x :: rwords) := by
  intro rest ws hrest hscan
  have hright := (hr rest ws hrest hscan).blank
  have hop := (hright.symbol x (clear_cons (by decide) _)).blank
  have hleft := hl _ _ (Scan.stops_cons (by decide)) hop
  simpa only [List.append_assoc, List.cons_append] using hleft

/-- Between two items stand a comma and a space. -/
theorem commaSeparated_cons (text : List Char) (texts : List (List Char)) (h : texts ≠ []) :
    commaSeparated (text :: texts) = text ++ ',' :: ' ' :: commaSeparated texts := by
  obtain ⟨t, ts, rfl⟩ := List.exists_cons_of_ne_nil h
  simp [commaSeparated, List.intercalate]

/-- Between the words of two items stands a comma. -/
theorem commaWords_cons (ws : List Word) (items : List (List Word)) (h : items ≠ []) :
    commaWords (ws :: items) = ws ++ .ofSymbol .comma :: commaWords items := by
  obtain ⟨v, vs, rfl⟩ := List.exists_cons_of_ne_nil h
  simp [commaWords, List.intercalate]

/-- One more item in front of others, up to the closing parenthesis. -/
theorem scans_item {text : List Char} {texts : List (List Char)} {words : List Word}
    {items : List (List Word)} {rest : List Char} {ws : List Word} (h : Chunk text words)
    (hnil : texts = [] ↔ items = []) (hrest : Clear rest) (hscan : Scans rest ws)
    (hothers : texts ≠ [] → Scans (commaSeparated texts ++ ')' :: rest) (closedWords items ++ ws)) :
    Scans (commaSeparated (text :: texts) ++ ')' :: rest) (closedWords (words :: items) ++ ws) := by
  by_cases htexts : texts = []
  · have hitems := hnil.mp htexts
    subst htexts hitems
    have hclose := hscan.symbol .rightParen hrest
    have hitem := h (')' :: rest) _ (Scan.stops_cons (by decide)) hclose
    simpa [commaSeparated, closedWords, commaWords, List.intercalate] using hitem
  · have hitems : items ≠ [] := fun hi => htexts (hnil.mpr hi)
    have hcomma : Scans (',' :: ' ' :: (commaSeparated texts ++ ')' :: rest))
        (.ofSymbol .comma :: (closedWords items ++ ws)) :=
      (hothers htexts).blank.symbol .comma (clear_cons (by decide) _)
    have hitem := h _ _ (Scan.stops_cons (by decide)) hcomma
    rw [commaSeparated_cons _ _ htexts, closedWords, commaWords_cons _ _ hitems]
    simpa only [closedWords, List.append_assoc, List.cons_append] using hitem

/-- The words of several expressions are those of each of them. -/
theorem Expr.listWords_eq_map (es : List (Expr α)) : Expr.listWords es = es.map Expr.words := by
  induction es with
  | nil => rfl
  | cons e es ih => rw [Expr.listWords, ih, List.map_cons]

/-- An empty list in parentheses is scanned as the closing one. -/
theorem scans_noItems {rest : List Char} {ws : List Word} (hrest : Clear rest)
    (hscan : Scans rest ws) : Scans (commaSeparated [] ++ ')' :: rest) (closedWords [] ++ ws) :=
  hscan.symbol .rightParen hrest

/-- A list of arguments starts with its first one, or with the parenthesis that closes it. -/
theorem Expr.clear_arguments (es : List (Expr α)) (h : Expr.allWellFormed es = true)
    (rest : List Char) : Clear (commaSeparated (Expr.layouts es) ++ ')' :: rest) := by
  cases es with
  | nil => exact clear_cons (by decide) rest
  | cons e es =>
    have hlead := Expr.leads_layout e ((Bool.and_eq_true _ _).mp h).1
    cases es with
    | nil => simpa [Expr.layouts, commaSeparated, List.intercalate] using (hlead.append _).clear
    | cons e' es =>
      rw [Expr.layouts, commaSeparated_cons _ _ (by simp [Expr.layouts]), List.append_assoc]
      exact (hlead.append _).clear

mutual

/-- **The layout of an expression is scanned as its words.** -/
theorem Expr.chunk_layout (e : Expr α) (h : e.wellFormed = true) : Chunk e.layout e.words := by
  match e with
  | .literal _ v => rw [Expr.layout, Expr.words]; exact chunk_literal h
  | .name _ x =>
    rw [Expr.layout, Expr.words]
    exact fun rest ws hrest hscan => hscan.name h hrest
  | .unary _ op e =>
    rw [Expr.layout, Expr.words]
    intro rest ws hrest hscan
    -- an operand never starts with `=`, so `!` does not run into it
    have hlead := (Expr.leads_layout e h).parenthesize (e.precedence < .unary)
    have hoperand := (Expr.chunk_layout e h).parenthesize (Expr.leads_layout e h)
      (e.precedence < .unary) rest ws hrest hscan
    have hop := hoperand.symbol op.symbol (hlead.append rest).clear
    rwa [← List.append_assoc] at hop
  | .operation _ op l r =>
    obtain ⟨hl, hr⟩ := (Bool.and_eq_true _ _).mp h
    rw [Expr.layout, Expr.words]
    exact ((Expr.chunk_layout l hl).parenthesize (Expr.leads_layout l hl) _).infixed
      ((Expr.chunk_layout r hr).parenthesize (Expr.leads_layout r hr) _) op.symbol
  | .assign _ x e =>
    obtain ⟨hx, he⟩ := (Bool.and_eq_true _ _).mp h
    rw [Expr.layout, Expr.words]
    have hname : Chunk x.toList [.ofName x] := fun rest ws hrest hscan => hscan.name hx hrest
    have hassign := hname.infixed (Expr.chunk_layout e he) .assign
    simpa only [List.append_assoc, List.cons_append, List.nil_append, Symbol.chars] using hassign
  | .call _ f args =>
    obtain ⟨hf, hargs⟩ := (Bool.and_eq_true _ _).mp h
    rw [Expr.layout, Expr.words]
    intro rest ws hrest hscan
    have harguments := Expr.scans_arguments args hargs rest ws hrest.clear hscan
    have hopen : Scans ('(' :: (commaSeparated (Expr.layouts args) ++ ')' :: rest))
        (.ofSymbol .leftParen :: (closedWords (Expr.listWords args) ++ ws)) :=
      harguments.symbol .leftParen (Expr.clear_arguments args hargs rest)
    have hcallee := (Expr.chunk_layout f hf).parenthesize (Expr.leads_layout f hf)
      (f.precedence < .call) _ _ (Scan.stops_cons (by decide)) hopen
    simpa only [List.append_assoc, List.cons_append, List.nil_append] using hcallee

/-- **A list of arguments is scanned item by item.** -/
theorem Expr.scans_arguments (es : List (Expr α)) (h : Expr.allWellFormed es = true)
    (rest : List Char) (ws : List Word) (hrest : Clear rest) (hscan : Scans rest ws) :
    Scans (commaSeparated (Expr.layouts es) ++ ')' :: rest)
      (closedWords (Expr.listWords es) ++ ws) := by
  match es with
  | [] => exact scans_noItems hrest hscan
  | e :: es =>
    obtain ⟨he, hes⟩ := (Bool.and_eq_true _ _).mp h
    refine scans_item (Expr.chunk_layout e he) ?_ hrest hscan
      fun _ => Expr.scans_arguments es hes rest ws hrest hscan
    rw [Expr.layouts_eq_map, Expr.listWords_eq_map, List.map_eq_nil_iff, List.map_eq_nil_iff]

end

/-! ## Scanning statements -/

/-- Lines of text that are scanned as these words wherever they stand. -/
def Lines (text : List Char) (words : List Word) : Prop :=
  ∀ rest ws, Scans rest ws → Scans (text ++ rest) (words ++ ws)

/-- A keyword is scanned as itself. -/
theorem chunk_keyword (k : Keyword) : Chunk k.chars [.ofKeyword k] :=
  fun _ _ hrest hscan => hscan.keyword k hrest

/-- A name is scanned as itself: it is no keyword. -/
theorem chunk_name {x : String} (h : isName x = true) : Chunk x.toList [.ofName x] :=
  fun _ _ hrest hscan => hscan.name h hrest

/-- Two chunks with a blank between them. -/
theorem Chunk.spaced {text text' : List Char} {words words' : List Word} (h : Chunk text words)
    (h' : Chunk text' words') : Chunk (text ++ ' ' :: text') (words ++ words') := by
  intro rest ws hrest hscan
  have hsecond := (h' rest ws hrest hscan).blank
  have hfirst := h _ _ (Scan.stops_cons (by decide)) hsecond
  simpa only [List.append_assoc, List.cons_append] using hfirst

/-- A keyword and a space in front of a text are one word more. -/
theorem Chunk.lead {text : List Char} {words : List Word} (h : Chunk text words) (k : Keyword) :
    Chunk (k.lead ++ text) (.ofKeyword k :: words) := by
  have hspaced := (chunk_keyword k).spaced h
  rwa [Keyword.lead, List.append_assoc]

/-- Braces around lines. -/
theorem Lines.braces {lines : List Char} {words : List Word} (h : Lines lines words) (depth : Nat) :
    Chunk (Scriptlet.braces depth lines) (bracedWords words) := by
  intro rest ws hrest hscan
  have hclose : Scans ('\x7d' :: rest) (.ofSymbol .rightBrace :: ws) :=
    hscan.symbol .rightBrace hrest.clear
  have hlines := (h _ _ (hclose.blanks (4 * depth))).lineEnd
  have hopen : Scans ('\x7b' :: '\n' :: (lines ++ (indentation depth ++ '\x7d' :: rest)))
      (.ofSymbol .leftBrace :: .lineEnd :: (words ++ .ofSymbol .rightBrace :: ws)) :=
    hlines.symbol .leftBrace (clear_cons (by decide) _)
  simpa only [Scriptlet.braces, bracedWords, List.append_assoc, List.cons_append,
    List.nil_append] using hopen

/-- One more line in front. -/
theorem Lines.cons {text lines : List Char} {words words' : List Word} (h : Chunk text words)
    (h' : Lines lines words') (depth : Nat) :
    Lines (lineAt depth text ++ lines) (words ++ .lineEnd :: words') := by
  intro rest ws hscan
  have hnext := (h' rest ws hscan).lineEnd
  have hline := (h _ _ (Scan.stops_cons (by decide)) hnext).blanks (4 * depth)
  simpa only [lineAt, indentation, List.append_assoc, List.cons_append, List.nil_append] using hline

/-- A parameter list. -/
theorem scans_parameters {params : List String} (h : params.all isName = true) {rest : List Char}
    {ws : List Word} (hrest : Clear rest) (hscan : Scans rest ws) :
    Scans (commaSeparated (params.map String.toList) ++ ')' :: rest)
        (closedWords (params.map fun x => [.ofName x]) ++ ws) ∧
      Clear (commaSeparated (params.map String.toList) ++ ')' :: rest) := by
  induction params with
  | nil => exact ⟨scans_noItems hrest hscan, clear_cons (by decide) rest⟩
  | cons x params ih =>
    obtain ⟨hx, hparams⟩ := (Bool.and_eq_true _ _).mp h
    refine ⟨?_, ?_⟩
    · refine scans_item (chunk_name hx) ?_ hrest hscan fun _ => (ih hparams).1
      rw [List.map_eq_nil_iff, List.map_eq_nil_iff]
    · cases params with
      | nil => simpa [commaSeparated, List.intercalate] using ((leads_name hx).append _).clear
      | cons y params =>
        rw [List.map_cons, commaSeparated_cons _ _ (by simp), List.append_assoc]
        exact ((leads_name hx).append _).clear

/-- A function up to its body. -/
theorem Chunk.function {f : String} {params : List String} {text : List Char} {words : List Word}
    (hf : isName f = true) (hparams : params.all isName = true) (h : Chunk text words) :
    Chunk (f.toList ++ '(' :: commaSeparated (params.map String.toList) ++ ')' :: ' ' :: text)
      (.ofName f :: .ofSymbol .leftParen :: closedWords (params.map fun x => [.ofName x])
        ++ words) := by
  intro rest ws hrest hscan
  obtain ⟨hscans, hclear⟩ := scans_parameters hparams (clear_cons (c := ' ') (by decide) _)
    (h rest ws hrest hscan).blank
  have hopen : Scans ('(' :: (commaSeparated (params.map String.toList)
      ++ ')' :: ' ' :: (text ++ rest)))
      (.ofSymbol .leftParen :: (closedWords (params.map fun x => [.ofName x]) ++ (words ++ ws))) :=
    hscans.symbol .leftParen hclear
  have hname := hopen.name hf (Scan.stops_cons (by decide))
  simpa only [List.append_assoc, List.cons_append, List.nil_append] using hname

/-- Arguments in parentheses after a keyword. -/
theorem chunk_print {args : List (Expr α)} (h : Expr.allWellFormed args = true) :
    Chunk (Keyword.printKw.chars ++ argumentList args)
      (.ofKeyword .printKw :: .ofSymbol .leftParen :: closedWords (Expr.listWords args)) := by
  intro rest ws hrest hscan
  have harguments := Expr.scans_arguments args h rest ws hrest.clear hscan
  have hopen : Scans ('(' :: (commaSeparated (Expr.layouts args) ++ ')' :: rest))
      (.ofSymbol .leftParen :: (closedWords (Expr.listWords args) ++ ws)) :=
    harguments.symbol .leftParen (Expr.clear_arguments args h rest)
  have hprint := hopen.keyword .printKw (Scan.stops_cons (by decide))
  simpa only [argumentList, List.append_assoc, List.cons_append, List.nil_append] using hprint

/-- A declaration is scanned with its initial value, if there is one. -/
theorem chunk_declare {x : String} {e : Option (Expr α)} (hx : isName x = true)
    (he : Expr.wellFormed? e = true) :
    Chunk (Keyword.letKw.lead ++ x.toList ++ initializer e)
      (.ofKeyword .letKw :: .ofName x :: Expr.words? [.ofSymbol .assign] e) := by
  rw [List.append_assoc]
  cases e with
  | none =>
    rw [initializer, List.append_nil]
    exact (chunk_name hx).lead .letKw
  | some e =>
    have hassign := ((chunk_name hx).infixed (Expr.chunk_layout e he) .assign).lead .letKw
    simpa only [initializer, Expr.words?, Symbol.chars, List.append_assoc, List.cons_append,
      List.nil_append] using hassign

/-- A return statement is scanned with its value, if there is one. -/
theorem chunk_return {e : Option (Expr α)} (he : Expr.wellFormed? e = true) :
    Chunk (Keyword.returnKw.chars ++ returnValue e)
      (.ofKeyword .returnKw :: Expr.words? [] e) := by
  cases e with
  | none =>
    rw [returnValue, List.append_nil]
    exact chunk_keyword .returnKw
  | some e => exact (chunk_keyword .returnKw).spaced (Expr.chunk_layout e he)

mutual

/-- **The layout of a statement is scanned as its words.** -/
theorem Stmt.chunk_layout (depth : Nat) (s : Stmt α) (h : s.wellFormed = true) :
    Chunk (s.layout depth) s.words := by
  match s with
  | .expr _ e => rw [Stmt.layout, Stmt.words]; exact Expr.chunk_layout e h
  | .declare _ x e =>
    obtain ⟨hx, he⟩ := (Bool.and_eq_true _ _).mp h
    rw [Stmt.layout, Stmt.words]
    exact chunk_declare hx he
  | .print _ args => rw [Stmt.layout, Stmt.words]; exact chunk_print h
  | .block _ body =>
    rw [Stmt.layout, Stmt.words]
    exact (Stmt.scans_lines (depth + 1) body h).braces depth
  | .cond _ c t none =>
    obtain ⟨hc, ht⟩ := (Bool.and_eq_true _ _).mp h
    rw [Stmt.layout, Stmt.words, List.append_assoc]
    exact ((Expr.chunk_layout c hc).spaced
      ((Stmt.scans_lines (depth + 1) t ht).braces depth)).lead .ifKw
  | .cond _ c t (some branch) =>
    obtain ⟨⟨⟨hc, ht⟩, hbranch⟩, hb⟩ : ((c.wellFormed = true ∧ Stmt.allWellFormed t = true) ∧
        branch.isBranch = true) ∧ branch.wellFormed = true := by
      simpa only [Stmt.wellFormed, Bool.and_eq_true] using h
    rw [Stmt.layout, Stmt.words, hbranch, if_pos rfl]
    -- the brace that closes the first block and `else` stand on one line
    have helse := (Stmt.chunk_layout depth branch hb).lead .elseKw
    have hif := ((Expr.chunk_layout c hc).spaced
      ((Stmt.scans_lines (depth + 1) t ht).braces depth)).lead .ifKw
    have hall := hif.spaced helse
    simpa only [List.append_assoc, List.cons_append] using hall
  | .loop _ c body =>
    obtain ⟨hc, hbody⟩ := (Bool.and_eq_true _ _).mp h
    rw [Stmt.layout, Stmt.words, List.append_assoc]
    exact ((Expr.chunk_layout c hc).spaced
      ((Stmt.scans_lines (depth + 1) body hbody).braces depth)).lead .whileKw
  | .function _ f params body =>
    obtain ⟨⟨hf, hparams⟩, hbody⟩ : (isName f = true ∧ params.all isName = true) ∧
        Stmt.allWellFormed body = true := by
      simpa only [Stmt.wellFormed, Bool.and_eq_true] using h
    rw [Stmt.layout, Stmt.words]
    have hfun := (Chunk.function hf hparams
      ((Stmt.scans_lines (depth + 1) body hbody).braces depth)).lead .fnKw
    simpa only [List.append_assoc, List.cons_append] using hfun
  | .ret _ e => rw [Stmt.layout, Stmt.words]; exact chunk_return h
  | .breakLoop _ => rw [Stmt.layout, Stmt.words]; exact chunk_keyword .breakKw
  | .continueLoop _ => rw [Stmt.layout, Stmt.words]; exact chunk_keyword .continueKw

/-- **Statements are scanned line by line**, whatever the depth they are indented to. -/
theorem Stmt.scans_lines (depth : Nat) (body : List (Stmt α))
    (h : Stmt.allWellFormed body = true) :
    Lines (Stmt.lines depth body) (Stmt.lineWords body) := by
  match body with
  | [] => exact fun rest ws hscan => hscan
  | s :: rest =>
    obtain ⟨hs, hrest⟩ := (Bool.and_eq_true _ _).mp h
    rw [Stmt.lines, Stmt.lineWords]
    exact Lines.cons (Stmt.chunk_layout depth s hs) (Stmt.scans_lines depth rest hrest) depth

end

end Scriptlet
