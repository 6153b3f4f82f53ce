/-
  Shape: a tree without its notes.

  1. **Erasing** — `Expr.shape`, `Stmt.shape` and `Program.shape` replace every note by `()`.  Two
     trees have the same shape iff they differ in their notes only.
  2. **Context conditions** — `Stmt.wellPlaced` says that every `return` stands inside a function,
     every `break` and `continue` inside a loop of the same function, and that the parameters of
     each function are distinct.  It is a Boolean, so it can be run on a tree.
  3. **The crux (`Stmt.layout_shape`)** — how a tree is laid out depends on its shape alone.
-/
import Scriptlet.Tree.Layout

namespace Scriptlet

variable {α : Type}

/-! ## Erasing the notes -/

mutual

/-- The expression without its notes. -/
def Expr.shape : Expr α → Expr Unit
  | .literal _ v => .literal () v
  | .name _ x => .name () x
  | .unary _ op e => .unary () op e.shape
  | .operation _ op l r => .operation () op l.shape r.shape
  | .assign _ x e => .assign () x e.shape
  | .call _ f args => .call () f.shape (Expr.shapes args)

/-- Several expressions without their notes. -/
def Expr.shapes : List (Expr α) → List (Expr Unit)
  | [] => []
  | e :: es => e.shape :: Expr.shapes es

end

/-- An optional expression without its notes. -/
def Expr.shape? : Option (Expr α) → Option (Expr Unit)
  | none => none
  | some e => some e.shape

mutual

/-- The statement without its notes. -/
def Stmt.shape : Stmt α → Stmt Unit
  | .expr _ e => .expr () e.shape
  | .declare _ x e => .declare () x (Expr.shape? e)
  | .print _ args => .print () (Expr.shapes args)
  | .block _ body => .block () (Stmt.shapes body)
  | .cond _ c t none => .cond () c.shape (Stmt.shapes t) none
  | .cond _ c t (some branch) => .cond () c.shape (Stmt.shapes t) (some branch.shape)
  | .loop _ c body => .loop () c.shape (Stmt.shapes body)
  | .function _ f params body => .function () f params (Stmt.shapes body)
  | .ret _ e => .ret () (Expr.shape? e)
  | .breakLoop _ => .breakLoop ()
  | .continueLoop _ => .continueLoop ()

/-- Several statements without their notes. -/
def Stmt.shapes : List (Stmt α) → List (Stmt Unit)
  | [] => []
  | s :: rest => s.shape :: Stmt.shapes rest

end

/-- The program without its notes. -/
def Program.shape (p : Program α) : Program Unit := ⟨Stmt.shapes p.statements⟩

/-- Shapes of a list, one by one. -/
theorem Expr.shapes_eq_map (es : List (Expr α)) : Expr.shapes es = es.map Expr.shape := by
  induction es with
  | nil => rfl
  | cons e es ih => rw [Expr.shapes, ih, List.map_cons]

/-! ## Context conditions -/

mutual

/-- Whether `return`, `break` and `continue` stand where they may in a statement that is inside a
    function or not, and inside a loop of that function or not; and whether all parameters of a
    function are distinct. -/
def Stmt.wellPlaced (inFunction inLoop : Bool) : Stmt α → Bool
  | .expr _ _ | .declare _ _ _ | .print _ _ => true
  | .block _ body => Stmt.allWellPlaced inFunction inLoop body
  | .cond _ _ t none => Stmt.allWellPlaced inFunction inLoop t
  | .cond _ _ t (some branch) =>
    Stmt.allWellPlaced inFunction inLoop t && branch.wellPlaced inFunction inLoop
  | .loop _ _ body => Stmt.allWellPlaced inFunction true body
  -- a function body is inside no loop yet
  | .function _ _ params body => decide params.Nodup && Stmt.allWellPlaced true false body
  | .ret _ _ => inFunction
  | .breakLoop _ | .continueLoop _ => inLoop

/-- `Stmt.wellPlaced` for every statement of a list. -/
def Stmt.allWellPlaced (inFunction inLoop : Bool) : List (Stmt α) → Bool
  | [] => true
  | s :: rest => s.wellPlaced inFunction inLoop && Stmt.allWellPlaced inFunction inLoop rest

end

/-- Whether the context conditions hold throughout a program. -/
def Program.wellPlaced (p : Program α) : Bool := Stmt.allWellPlaced false false p.statements

mutual

/-- The context conditions do not see the notes. -/
theorem Stmt.wellPlaced_shape (f l : Bool) (s : Stmt α) :
    s.shape.wellPlaced f l = s.wellPlaced f l := by
  match s with
  | .expr _ _ | .declare _ _ _ | .print _ _ | .ret _ _ | .breakLoop _ | .continueLoop _ =>
    simp only [Stmt.shape, Stmt.wellPlaced]
  | .block _ body =>
    simp only [Stmt.shape, Stmt.wellPlaced]
    exact Stmt.allWellPlaced_shapes f l body
  | .cond _ _ t none =>
    simp only [Stmt.shape, Stmt.wellPlaced]
    exact Stmt.allWellPlaced_shapes f l t
  | .cond _ _ t (some branch) =>
    simp only [Stmt.shape, Stmt.wellPlaced]
    rw [Stmt.allWellPlaced_shapes f l t, Stmt.wellPlaced_shape f l branch]
  | .loop _ _ body =>
    simp only [Stmt.shape, Stmt.wellPlaced]
    -- inside of a loop a jump may stand, with notes or without
    exact Stmt.allWellPlaced_shapes f true body
  | .function _ _ params body =>
    -- a body starts outside of every loop
    simp only [Stmt.shape, Stmt.wellPlaced]
    rw [Stmt.allWellPlaced_shapes true false body]

/-- Whether jumps are placed is up to the shape. -/
theorem Stmt.allWellPlaced_shapes (f l : Bool) (body : List (Stmt α)) :
    Stmt.allWellPlaced f l (Stmt.shapes body) = Stmt.allWellPlaced f l body := by
  match body with
  | [] => rfl
  | s :: rest =>
    rw [Stmt.shapes, Stmt.allWellPlaced, Stmt.allWellPlaced, Stmt.wellPlaced_shape f l s,
      Stmt.allWellPlaced_shapes f l rest]

end

/-- So it is for a program. -/
theorem Program.wellPlaced_shape (p : Program α) : p.shape.wellPlaced = p.wellPlaced :=
  Stmt.allWellPlaced_shapes false false p.statements

/-! ## The layout of a shape -/

/-- How tightly an expression binds is up to its shape. -/
theorem Expr.precedence_shape (e : Expr α) : e.shape.precedence = e.precedence := by
  cases e <;> rfl

mutual

/-- An expression is laid out like its shape. -/
theorem Expr.layout_shape (e : Expr α) : e.shape.layout = e.layout := by
  match e with
  | .literal _ _ | .name _ _ => simp only [Expr.shape, Expr.layout]
  | .unary _ op e =>
    simp only [Expr.shape, Expr.layout, Expr.precedence_shape]
    rw [Expr.layout_shape e]
  | .operation _ op l r =>
    simp only [Expr.shape, Expr.layout, Expr.precedence_shape]
    rw [Expr.layout_shape l, Expr.layout_shape r]
  | .assign _ x e =>
    simp only [Expr.shape, Expr.layout]
    rw [Expr.layout_shape e]
  | .call _ f args =>
    simp only [Expr.shape, Expr.layout, Expr.precedence_shape]
    rw [Expr.layout_shape f, Expr.layouts_shapes args]

/-- The layouts of a list, one by one. -/
theorem Expr.layouts_shapes (es : List (Expr α)) :
    Expr.layouts (Expr.shapes es) = Expr.layouts es := by
  match es with
  | [] => rfl
  | e :: es => rw [Expr.shapes, Expr.layouts, Expr.layouts, Expr.layout_shape e,
      Expr.layouts_shapes es]

end

/-- The value of a declaration is laid out by its shape. -/
theorem initializer_shape (e : Option (Expr α)) : initializer (Expr.shape? e) = initializer e := by
  cases e with
  | none => rfl
  | some e => simp only [Expr.shape?, initializer, Expr.layout_shape]

/-- So is the value of a `return`. -/
theorem returnValue_shape (e : Option (Expr α)) : returnValue (Expr.shape? e) = returnValue e := by
  cases e with
  | none => rfl
  | some e => simp only [Expr.shape?, returnValue, Expr.layout_shape]

/-- What may stand after `else` is up to the shape. -/
theorem Stmt.isBranch_shape (s : Stmt α) : s.shape.isBranch = s.isBranch := by
  match s with
  | .cond _ _ _ none | .cond _ _ _ (some _) => simp only [Stmt.shape, Stmt.isBranch]
  | .expr _ _ | .declare _ _ _ | .print _ _ | .block _ _ | .loop _ _ _ | .function _ _ _ _
  | .ret _ _ | .breakLoop _ | .continueLoop _ => simp only [Stmt.shape, Stmt.isBranch]

mutual

/-- **The layout sees the shape only.** -/
theorem Stmt.layout_shape (depth : Nat) (s : Stmt α) :
    s.shape.layout depth = s.layout depth := by
  match s with
  | .expr _ e => simp only [Stmt.shape, Stmt.layout, Expr.layout_shape]
  | .declare _ x e => simp only [Stmt.shape, Stmt.layout, initializer_shape]
  | .print _ args => simp only [Stmt.shape, Stmt.layout, argumentList, Expr.layouts_shapes]
  | .block _ body =>
    simp only [Stmt.shape, Stmt.layout]
    rw [Stmt.lines_shapes (depth + 1) body]
  | .cond _ c t none =>
    simp only [Stmt.shape, Stmt.layout, Expr.layout_shape]
    rw [Stmt.lines_shapes (depth + 1) t]
  | .cond _ c t (some branch) =>
    simp only [Stmt.shape, Stmt.layout, Expr.layout_shape, Stmt.isBranch_shape]
    -- a branch is laid out in one of two ways, and both are up to the shape
    rw [Stmt.lines_shapes (depth + 1) t, Stmt.layout_shape depth branch,
      Stmt.layout_shape (depth + 1) branch]
  | .loop _ c body =>
    simp only [Stmt.shape, Stmt.layout, Expr.layout_shape]
    rw [Stmt.lines_shapes (depth + 1) body]
  | .function _ f params body =>
    simp only [Stmt.shape, Stmt.layout]
    rw [Stmt.lines_shapes (depth + 1) body]
  | .ret _ e => simp only [Stmt.shape, Stmt.layout, returnValue_shape]
  | .breakLoop _ | .continueLoop _ => simp only [Stmt.shape, Stmt.layout]

/-- The lines of a body, statement by statement. -/
theorem Stmt.lines_shapes (depth : Nat) (body : List (Stmt α)) :
    Stmt.lines depth (Stmt.shapes body) = Stmt.lines depth body := by
  match body with
  | [] => rfl
  | s :: rest =>
    rw [Stmt.shapes, Stmt.lines, Stmt.lines, Stmt.layout_shape depth s,
      Stmt.lines_shapes depth rest]

end

/-- A program is formatted like its shape. -/
theorem Program.format_shape (p : Program α) : p.shape.format = p.format := by
  rw [Program.format, Program.format]
  exact congrArg String.ofList (Stmt.lines_shapes 0 p.statements)

end Scriptlet
