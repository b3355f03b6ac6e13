import Nondet.Distinct

/-!
# Grammar — Rule

The rules of the grammar, in the order in which the grammar gives them, and what a reader of an
error message is told when one of them was expected.  Many rules stand for one notion: which
literal or which operator was tried makes no difference to the message.
-/

namespace Nondet.Grammar

/-- The rules of the grammar.  The end of the text counts as the first. -/
inductive Rule where
  | endOfInput
  | whitespace
  | comment
  | main
  | statement
  | block
  | functionDeclaration
  | params
  | variableDeclaration
  | returnStatement
  | ifStatement
  | expressionStatement
  | expression
  | arrowFunction
  | assignment
  | conditional
  | binary
  | prefixOp
  | neg
  | not
  | postfixOp
  | call
  | infixOp
  | strictEq
  | strictNe
  | le
  | ge
  | lt
  | gt
  | add
  | sub
  | mul
  | div
  | rem
  | and
  | or
  | primary
  | number
  | string
  | doubleQuoted
  | singleQuoted
  | escape
  | boolean
  | null
  | undefined
  | kwFunction
  | kwReturn
  | kwIf
  | kwElse
  | declarationKind
  | keyword
  | identChar
  | ident
  deriving DecidableEq, Repr, Inhabited

namespace Rule

/-- Every rule under the name the grammar gives it, in the grammar's order. -/
def named : List (String × Rule) :=
  [("EOI", endOfInput), ("WHITESPACE", whitespace), ("COMMENT", comment), ("main", main),
    ("statement", statement), ("block", block), ("function_declaration", functionDeclaration),
    ("params", params), ("variable_declaration", variableDeclaration),
    ("return_statement", returnStatement), ("if_statement", ifStatement),
    ("expression_statement", expressionStatement), ("expression", expression),
    ("arrow_function", arrowFunction), ("assignment", assignment),
    ("conditional", conditional), ("binary", binary), ("prefix", prefixOp), ("neg", neg),
    ("not", not), ("postfix", postfixOp), ("call", call), ("infix", infixOp),
    ("strict_eq", strictEq), ("strict_neq", strictNe), ("le", le), ("ge", ge), ("lt", lt),
    ("gt", gt), ("add", add), ("sub", sub), ("mul", mul), ("div", div), ("rem", rem),
    ("and", and), ("or", or), ("primary", primary), ("number", number), ("string", string),
    ("double_quoted", doubleQuoted), ("single_quoted", singleQuoted), ("escape", escape),
    ("boolean", boolean), ("null", null), ("undefined", undefined),
    ("kw_function", kwFunction), ("kw_return", kwReturn), ("kw_if", kwIf), ("kw_else", kwElse),
    ("declaration_kind", declarationKind), ("keyword", keyword), ("ident_char", identChar),
    ("ident", ident)]

/-- Every rule, in the grammar's order. -/
def all : List Rule := named.map Prod.snd

def ofName? (name : String) : Option Rule := named.lookup name

/-- What a message says was expected. -/
def concept : Rule → String
  | number | string | boolean | null | undefined => "literal"
  | ident      => "identifier"
  | endOfInput => "end of input"
  | block      => "block"
  | params     => "parameter list"
  | strictEq | strictNe | le | ge | lt | gt | add | sub | mul | div | rem | and | or => "operator"
  | call       => "argument list"
  | _          => "expression"

theorem mem_all (r : Rule) : r ∈ all := by cases r <;> decide

end Rule

/-- Some words as an enumeration: commas between them and an `or` before the last. -/
def enumerate : List String → String
  | []        => "something else"
  | [a]       => a
  | [a, b]    => a ++ " or " ++ b
  | a :: rest => a ++ ", " ++ enumerate rest

/-- The notions that some expected rules stand for, each named once. -/
def describe (expected : List Rule) : String :=
  enumerate (distinct (expected.map Rule.concept))

end Nondet.Grammar
