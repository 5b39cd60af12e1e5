/-!
Operators and the special methods they become. Conversions become initializers.
-/

namespace StubTree.Stub

def initializer : String := "__init__"

def operatorSlots : List (String × String) :=
  [("op_Addition", "__add__"),
    ("op_Subtraction", "__sub__"),
    ("op_Multiply", "__mul__"),
    ("op_Division", "__truediv__"),
    ("op_Modulus", "__mod__"),
    ("op_Equality", "__eq__"),
    ("op_Inequality", "__ne__"),
    ("op_LessThan", "__lt__"),
    ("op_GreaterThan", "__gt__"),
    ("op_LessThanOrEqual", "__le__"),
    ("op_GreaterThanOrEqual", "__ge__"),
    ("op_UnaryNegation", "__neg__"),
    ("op_UnaryPlus", "__pos__"),
    ("op_LogicalNot", "__invert__"),
    ("op_BitwiseAnd", "__and__"),
    ("op_BitwiseOr", "__or__"),
    ("op_ExclusiveOr", "__xor__"),
    ("op_LeftShift", "__lshift__"),
    ("op_RightShift", "__rshift__"),
    ("op_Implicit", initializer),
    ("op_Explicit", initializer)]

def operatorSlot? (symbol : String) : Option String := operatorSlots.lookup symbol

end StubTree.Stub
