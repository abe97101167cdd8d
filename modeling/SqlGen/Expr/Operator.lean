/-!
# Operators and how tightly they bind

A node that is printed as an operand has a precedence.  The looser of two
neighbouring nodes needs parentheses.  Operators of one level read from left to
right.
-/

namespace SqlGen

/-! ## Levels -/

namespace Precedence

/-- A select, which only stands in parentheses. -/
def subquery : Nat := 0

def or : Nat := 1

def and : Nat := 2

def not : Nat := 3

/-- Equality and the tests for NULL. -/
def equality : Nat := 4

def comparison : Nat := 5

def additive : Nat := 7

def multiplicative : Nat := 8

def concat : Nat := 9

def negate : Nat := 10

/-- Everything that needs no parentheses anywhere. -/
def atom : Nat := 255

end Precedence

/-! ## Binary operators -/

inductive BinaryOp where
  | add
  | subtract
  | multiply
  | divide
  | modulo
  | concat
  | equal
  | notEqual
  | less
  | lessOrEqual
  | greater
  | greaterOrEqual
  | and
  | or
deriving DecidableEq, Hashable, Repr

namespace BinaryOp

def symbol : BinaryOp → String
  | .add => "+"
  | .subtract => "-"
  | .multiply => "*"
  | .divide => "/"
  | .modulo => "%"
  | .concat => "||"
  | .equal => "="
  | .notEqual => "<>"
  | .less => "<"
  | .lessOrEqual => "<="
  | .greater => ">"
  | .greaterOrEqual => ">="
  | .and => "AND"
  | .or => "OR"

def all : List BinaryOp :=
  [.add, .subtract, .multiply, .divide, .modulo, .concat, .equal, .notEqual, .less,
    .lessOrEqual, .greater, .greaterOrEqual, .and, .or]

/-- The operator of a text. -/
def ofSymbol? (text : String) : Option BinaryOp := all.find? fun op => op.symbol == text

/-- Symbols tell operators apart. -/
theorem ofSymbol?_symbol (op : BinaryOp) : ofSymbol? op.symbol = some op := by
  cases op <;> decide

def precedence : BinaryOp → Nat
  | .or => Precedence.or
  | .and => Precedence.and
  | .equal | .notEqual => Precedence.equality
  | .less | .lessOrEqual | .greater | .greaterOrEqual => Precedence.comparison
  | .add | .subtract => Precedence.additive
  | .multiply | .divide | .modulo => Precedence.multiplicative
  | .concat => Precedence.concat

/-- The grouping of a chain of this operator does not matter. -/
def isAssociative : BinaryOp → Bool
  | .add | .multiply | .concat | .and | .or => true
  | _ => false

/-- The operator compares its operands. -/
def isComparison : BinaryOp → Bool
  | .equal | .notEqual | .less | .lessOrEqual | .greater | .greaterOrEqual => true
  | _ => false

/-- The operator joins truth values. -/
def isLogical : BinaryOp → Bool
  | .and | .or => true
  | _ => false

/-- The result is a truth value. -/
def isPredicate (op : BinaryOp) : Bool := op.isComparison || op.isLogical

end BinaryOp

/-! ## Unary operators -/

inductive UnaryOp where
  | not
  | negate
  | isNull
  | isNotNull
deriving DecidableEq, Hashable, Repr

def UnaryOp.precedence : UnaryOp → Nat
  | .not => Precedence.not
  | .negate => Precedence.negate
  | .isNull | .isNotNull => Precedence.equality

/-! ## Joins and set operations -/

/-- A join that compares rows. -/
inductive JoinKind where
  | inner
  | left
deriving DecidableEq, Hashable, Repr

/-- The words in front of the joined table. -/
def JoinKind.keyword : JoinKind → String
  | .inner => "INNER JOIN "
  | .left => "LEFT JOIN "

/-- A combination of the rows of two selects. -/
inductive SetOp where
  | except
  | union
  | intersect
deriving DecidableEq, Hashable, Repr

/-- The word between the two selects. -/
def SetOp.keyword : SetOp → String
  | .except => "EXCEPT"
  | .union => "UNION"
  | .intersect => "INTERSECT"

end SqlGen
