/-!
# Operators of expressions
-/

namespace Unbox

/-- How a member is reached from the expression before it. -/
inductive MemberOperator where
  /-- `x.member` -/
  | plain
  /-- `x?.member` -/
  | safe
  /-- `xs*.member` -/
  | spread
deriving DecidableEq

inductive UnaryOperator where
  | positive
  | negative
  | not
  | preIncrement
  | preDecrement
  | postIncrement
  | postDecrement
deriving DecidableEq

namespace UnaryOperator

def all : List UnaryOperator :=
  [positive, negative, not, preIncrement, preDecrement, postIncrement, postDecrement]

/-- The name of an operator in listings. -/
def name : UnaryOperator → String
  | positive => "Positive"
  | negative => "Negative"
  | not => "Not"
  | preIncrement => "PrefixIncrement"
  | preDecrement => "PrefixDecrement"
  | postIncrement => "PostfixIncrement"
  | postDecrement => "PostfixDecrement"

def ofName? (name : String) : Option UnaryOperator := all.find? fun o => o.name == name

/-- The result has the representation of the operand. -/
def keepsOperand : UnaryOperator → Bool
  | not => false
  | _ => true

/-- Plus and minus in front of a number. -/
def isSign : UnaryOperator → Bool
  | positive | negative => true
  | _ => false

end UnaryOperator

inductive BinaryOperator where
  | sum
  | difference
  | product
  | quotient
  | remainder
  | power
  | sumAssign
  | differenceAssign
  | productAssign
  | quotientAssign
  | remainderAssign
  | and
  | or
  | andAssign
  | orAssign
  | equal
  | notEqual
  | identical
  | smaller
  | larger
  | smallAs
  | largeAs
  | compare
  | within
  | range
  | segment
  | entry
  | union
  | intersection
  | complement
  | unionAssign
  | intersectionAssign
  | complementAssign
  | andThen
  | orElse
deriving DecidableEq

namespace BinaryOperator

def all : List BinaryOperator :=
  [sum, difference, product, quotient, remainder, power, sumAssign, differenceAssign,
    productAssign, quotientAssign, remainderAssign, and, or, andAssign, orAssign, equal, notEqual,
    identical, smaller, larger, smallAs, largeAs, compare, within, range, segment, entry, union,
    intersection, complement, unionAssign, intersectionAssign, complementAssign, andThen, orElse]

/-- The name of an operator in listings. -/
def name : BinaryOperator → String
  | sum => "Sum"
  | difference => "Difference"
  | product => "Product"
  | quotient => "Quotient"
  | remainder => "Remainder"
  | power => "Power"
  | sumAssign => "SumAssign"
  | differenceAssign => "DifferenceAssign"
  | productAssign => "ProductAssign"
  | quotientAssign => "QuotientAssign"
  | remainderAssign => "RemainderAssign"
  | and => "And"
  | or => "Or"
  | andAssign => "AndAssign"
  | orAssign => "OrAssign"
  | equal => "Equal"
  | notEqual => "NotEqual"
  | identical => "Identical"
  | smaller => "Smaller"
  | larger => "Larger"
  | smallAs => "SmallAs"
  | largeAs => "LargeAs"
  | compare => "Compare"
  | within => "In"
  | range => "Range"
  | segment => "Segment"
  | entry => "Entry"
  | union => "Union"
  | intersection => "Intersection"
  | complement => "Complement"
  | unionAssign => "UnionAssign"
  | intersectionAssign => "IntersectionAssign"
  | complementAssign => "ComplementAssign"
  | andThen => "Then"
  | orElse => "Else"

def ofName? (name : String) : Option BinaryOperator := all.find? fun o => o.name == name

def isArithmetic : BinaryOperator → Bool
  | sum | difference | product | quotient | remainder => true
  | _ => false

def isArithmeticAssign : BinaryOperator → Bool
  | sumAssign | differenceAssign | productAssign | quotientAssign | remainderAssign => true
  | _ => false

/-- The result is always a truth value. -/
def yieldsTruth : BinaryOperator → Bool
  | and | or | andAssign | orAssign | equal | notEqual | identical | smaller | larger | smallAs
  | largeAs | within => true
  | _ => false

end BinaryOperator

end Unbox
