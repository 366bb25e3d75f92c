import Haklang.Value.Operator

/-!
# Expressions and conditions

The trees that expressions and conditions are read into. Text that is no expression is kept as it
is (`Expr.unresolved`) and fails only when it is evaluated.

Each binary operator has one keyword and a rank. Operators of a lower rank bind looser: an
expression is divided at its operator of lowest rank first (see `Expr.ofChars`).
-/

namespace Haklang

/-- Expressions. -/
inductive Expr where
  /-- The opposite of an expression. -/
  | negate (e : Expr)
  /-- An operator between two expressions. -/
  | binary (op : BinaryOperator) (left right : Expr)
  /-- The value of a variable. -/
  | var (name : String)
  /-- An integer. -/
  | int (n : Integer)
  /-- A decimal. -/
  | decimal (d : Decimal)
  /-- Text. -/
  | text (s : String)
  /-- A truth value. -/
  | bool (b : Bool)
  /-- The value that a function returns. -/
  | call (name : String) (args : List Expr)
  /-- Text that is no expression. -/
  | unresolved (s : String)

/-- Conditions. -/
inductive Cond where
  /-- A truth value. -/
  | literal (b : Bool)
  /-- Either of two conditions. -/
  | or (left right : Cond)
  /-- Both of two conditions. -/
  | and (left right : Cond)
  /-- A relation between two expressions. -/
  | compare (r : Relation) (left right : Expr)
  /-- An expression whose value holds. -/
  | holds (e : Expr)

namespace BinaryOperator

/-- The keyword of an operator. -/
def keyword : BinaryOperator → String
  | join => "와구와구"
  | max => "더큰거"
  | power => "비이만하악범"
  | multiply => "학범비만"
  | divide => "비만학범"
  | add => "하악범"
  | subtract => "하악버엄"

/-- All operators by rank, the loosest first. -/
def ranked : List BinaryOperator := [join, max, power, multiply, divide, add, subtract]

/-- The rank of an operator; a lower one binds looser. -/
def rank (op : BinaryOperator) : Nat := ranked.idxOf op

theorem mem_ranked (op : BinaryOperator) : op ∈ ranked := by cases op <;> decide

theorem keyword_ne_nil (op : BinaryOperator) : op.keyword.toList ≠ [] := by cases op <;> decide

end BinaryOperator

/-- The keyword before an expression that is to be negated. -/
def Expr.negateWord : String := "반대로"

namespace Cond

/-- The keyword between two conditions of which one has to hold. -/
def orWord : String := "아니면 말고"

/-- The keyword between two conditions that have to hold both. -/
def andWord : String := "그리고 또"

end Cond

/-- The keywords of the relations, in the order in which they are looked for: a keyword stands
before those that it starts with. -/
def Relation.keywords : List (String × Relation) :=
  [("비만정상", le), ("홀쭉정상", ge), ("정상정상", eq), ("정상", eq), ("비만", lt), ("홀쭉", gt)]

end Haklang
