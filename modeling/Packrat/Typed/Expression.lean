/-
# Expressions and statements

The parts of operators, blocks, conditionals, loops and records.  The value of a block is
the expression that stands right below it or, failing that, a last statement that has no
semicolon.
-/

import Packrat.Typed.Name

namespace Packrat

/-- The form of a literal. -/
inductive LiteralForm where
  | int | float | string | rawString | byteString | rawByteString | char | byte
  | bool (value : Bool)
  deriving DecidableEq, Repr

namespace LiteralForm

/-- The form that a kind of token stands for. -/
def ofKind? : Kind → Option LiteralForm
  | .intNumber => some int
  | .floatNumber => some float
  | .string => some string
  | .rawString => some rawString
  | .byteString => some byteString
  | .rawByteString => some rawByteString
  | .char => some char
  | .byte => some byte
  | .trueKw => some (bool true)
  | .falseKw => some (bool false)
  | _ => none

/-- The name of a form. -/
def tag : LiteralForm → String
  | int => "Int"
  | float => "Float"
  | string => "String"
  | rawString => "RawString"
  | byteString => "ByteString"
  | rawByteString => "RawByteString"
  | char => "Char"
  | byte => "Byte"
  | bool true => "Bool(true)"
  | bool false => "Bool(false)"

end LiteralForm

namespace Literal

/-- The token of a literal. -/
def token? (l : Literal) : Option Located := l.node.firstToken?

/-- The form of a literal. -/
def form? (l : Literal) : Option LiteralForm := l.token?.bind fun t => LiteralForm.ofKind? t.kind

end Literal

/-- What an operator with two operands does. -/
inductive BinaryOp where
  | add | sub | mul | div | rem | bitAnd | bitOr | bitXor | shl | shr | and | or
  | eq | ne | lt | le | gt | ge
  | assign | addAssign | subAssign | mulAssign | divAssign | remAssign
  | bitAndAssign | bitOrAssign | bitXorAssign | shlAssign | shrAssign
  deriving DecidableEq, Repr

namespace BinaryOp

/-- The name of an operator. -/
def tag : BinaryOp → String
  | add => "Add"
  | sub => "Sub"
  | mul => "Mul"
  | div => "Div"
  | rem => "Rem"
  | bitAnd => "BitAnd"
  | bitOr => "BitOr"
  | bitXor => "BitXor"
  | shl => "Shl"
  | shr => "Shr"
  | and => "And"
  | or => "Or"
  | eq => "Eq"
  | ne => "Ne"
  | lt => "Lt"
  | le => "Le"
  | gt => "Gt"
  | ge => "Ge"
  | assign => "Assign"
  | addAssign => "AddAssign"
  | subAssign => "SubAssign"
  | mulAssign => "MulAssign"
  | divAssign => "DivAssign"
  | remAssign => "RemAssign"
  | bitAndAssign => "BitAndAssign"
  | bitOrAssign => "BitOrAssign"
  | bitXorAssign => "BitXorAssign"
  | shlAssign => "ShlAssign"
  | shrAssign => "ShrAssign"

/-- The operator that a token stands for. -/
def ofKind? : Kind → Option BinaryOp
  | .plus => some add
  | .minus => some sub
  | .star => some mul
  | .slash => some div
  | .percent => some rem
  | .amp => some bitAnd
  | .pipe => some bitOr
  | .caret => some bitXor
  | .shl => some shl
  | .shr => some shr
  | .ampAmp => some and
  | .pipePipe => some or
  | .eqEq => some eq
  | .bangEq => some ne
  | .lt => some lt
  | .ltEq => some le
  | .gt => some gt
  | .gtEq => some ge
  | .eq => some assign
  | .plusEq => some addAssign
  | .minusEq => some subAssign
  | .starEq => some mulAssign
  | .slashEq => some divAssign
  | .percentEq => some remAssign
  | .ampEq => some bitAndAssign
  | .pipeEq => some bitOrAssign
  | .caretEq => some bitXorAssign
  | .shlEq => some shlAssign
  | .shrEq => some shrAssign
  | _ => none

/-- The operator changes its left operand. -/
def isAssignment : BinaryOp → Bool
  | assign | addAssign | subAssign | mulAssign | divAssign | remAssign
  | bitAndAssign | bitOrAssign | bitXorAssign | shlAssign | shrAssign => true
  | _ => false

/-- The operator compares its operands. -/
def isComparison : BinaryOp → Bool
  | eq | ne | lt | le | gt | ge => true
  | _ => false

end BinaryOp

/-- What an operator with one operand does, borrows apart. -/
inductive UnaryOp where
  | neg | not | deref
  deriving DecidableEq, Repr

namespace UnaryOp

/-- The name of an operator. -/
def tag : UnaryOp → String
  | neg => "Neg"
  | not => "Not"
  | deref => "Deref"

/-- The operator that a token stands for. -/
def ofKind? : Kind → Option UnaryOp
  | .minus => some neg
  | .bang => some not
  | .star => some deref
  | _ => none

end UnaryOp

namespace BinExpr

/-- The left operand. -/
def lhs? (e : BinExpr) : Option Expr := e.expr?

/-- The right operand. -/
def rhs? (e : BinExpr) : Option Expr := e.secondExpr?

/-- The token between the operands. -/
def opToken? (e : BinExpr) : Option Located := e.node.firstToken?

/-- The operator. -/
def op? (e : BinExpr) : Option BinaryOp :=
  e.node.tokens.findSome? fun t => BinaryOp.ofKind? t.kind

end BinExpr

namespace PrefixExpr

/-- The operator. -/
def op? (e : PrefixExpr) : Option UnaryOp :=
  e.node.tokens.findSome? fun t => UnaryOp.ofKind? t.kind

end PrefixExpr

namespace RefExpr

/-- The borrow gives a pointer. -/
def isRaw (e : RefExpr) : Bool := e.node.tokens.any fun t => t.kind == .ident && t.text == "raw"

end RefExpr

namespace CastExpr

/-- The type behind `as`. -/
def target? (e : CastExpr) : Option Ty := e.node.viewAfter? .asKw

end CastExpr

namespace RangeExpr

/-- Where the range begins. -/
def start? (e : RangeExpr) : Option Expr :=
  match e.kind with
  | .rangeExpr | .rangeFromExpr => e.expr?
  | _ => none

/-- Where the range ends. -/
def stop? (e : RangeExpr) : Option Expr :=
  match e.kind with
  | .rangeExpr => e.secondExpr?
  | .rangeToExpr => e.expr?
  | _ => none

/-- The end belongs to the range. -/
def isInclusive (e : RangeExpr) : Bool := e.node.has .dotDotEq

end RangeExpr

namespace ArrayExpr

/-- One element is repeated. -/
def isRepeat (e : ArrayExpr) : Bool := e.node.has .semicolon

end ArrayExpr

namespace RecordExpr

/-- The fields in braces. -/
def fieldList? (e : RecordExpr) : Option RecordExprFieldList := e.node.view?

end RecordExpr

namespace RecordExprFieldList

/-- The fields that are given. -/
def fields (l : RecordExprFieldList) : List RecordExprField := l.node.views

/-- The record that gives the other fields. -/
def spread? (l : RecordExprFieldList) : Option Expr := if l.node.has .dotDot then l.expr? else none

end RecordExprFieldList

namespace ClosureExpr

/-- The closure takes its variables along. -/
def isMove (e : ClosureExpr) : Bool := e.node.has .moveKw

end ClosureExpr

namespace ExprStmt

/-- A semicolon ends the statement. -/
def hasSemicolon (s : ExprStmt) : Bool := s.node.has .semicolon

end ExprStmt

namespace BlockExpr

/-- The statements of the block. -/
def statements (b : BlockExpr) : List Stmt := b.node.views

/-- The value of the block. -/
def tail? (b : BlockExpr) : Option Expr :=
  match b.expr? with
  | some e => some e
  | none => do
    let last ← b.statements.getLast?
    let s : ExprStmt ← last.node.as?
    if s.hasSemicolon then none else s.expr?

end BlockExpr

namespace IfExpr

/-- The branch that is taken when the condition holds. -/
def thenBranch? (e : IfExpr) : Option BlockExpr := e.secondExpr?.bind fun b => b.node.as?

/-- The branch that is taken when the condition fails: a block or another conditional. -/
def elseBranch? (e : IfExpr) : Option Expr := e.node.viewAfter? .elseKw

end IfExpr

namespace WhileExpr

/-- The body of the loop. -/
def body? (e : WhileExpr) : Option BlockExpr := e.node.lastView?

end WhileExpr

namespace ForExpr

/-- The sequence that is run through. -/
def iterable? (e : ForExpr) : Option Expr := e.node.viewAfter? .inKw

/-- The body of the loop. -/
def body? (e : ForExpr) : Option BlockExpr := e.node.lastView?

end ForExpr

namespace MatchArmList

/-- The arms. -/
def arms (l : MatchArmList) : List MatchArm := l.node.views

end MatchArmList

namespace MatchExpr

/-- The arms in braces. -/
def armList? (e : MatchExpr) : Option MatchArmList := e.node.view?

/-- The arms. -/
def arms (e : MatchExpr) : List MatchArm := e.armList?.elim [] (·.arms)

end MatchExpr

namespace MatchArm

/-- The condition of the arm. -/
def guard? (a : MatchArm) : Option MatchGuard := a.node.view?

/-- The value of the arm. -/
def value? (a : MatchArm) : Option Expr := a.node.viewAfter? .fatArrow

end MatchArm

namespace LetStmt

/-- What is done when the pattern does not match. -/
def letElse? (s : LetStmt) : Option LetElse := s.node.view?

end LetStmt

namespace Expr

/-- The expression ends in a block and needs no semicolon as a statement. -/
def isBlockLike (e : Expr) : Bool :=
  match e.kind with
  | .blockExpr | .ifExpr | .matchExpr | .loopExpr | .whileExpr | .forExpr => true
  | _ => false

end Expr
end Packrat
