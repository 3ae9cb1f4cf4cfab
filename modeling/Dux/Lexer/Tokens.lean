import Dux.Logic.CText

/-!
# Tokens

The tokens that `src/lexer/dux.l` returns, and the texts of those that have a fixed one.
-/

namespace Dux.Lexer

open Logic (ascii)

abbrev Text := List UInt8

inductive Keyword
  | kwNamespace | kwImport | kwFrom | kwAs | kwClass | kwInterface | kwEnum
  | kwPublic | kwPrivate | kwProtected
  | kwNew | kwDelete | kwThis | kwSuper | kwNull
  | kwReturn | kwBreak | kwContinue
  | kwIf | kwElse | kwFor | kwWhile | kwDo
  | kwSwitch | kwCase | kwDefault | kwMatch
  | kwTry | kwCatch | kwIn
  | kwConst | kwStatic | kwThreadLocal
  | kwGet | kwSet | kwAssert | kwDefer | kwThrow
  | kwFn | kwAuto | kwAnd | kwOr | kwNot
  | kwUnsafe | kwExtern | kwAsync | kwAwait
  | kwVoid | kwInt | kwLong | kwReal | kwDouble | kwStr
  | kwBool | kwList | kwDict | kwTuple | kwObject | kwPtr
  deriving DecidableEq

inductive Punct
  | semi | comma | colon | dcolon | dot | ellipsis | rangeExcl | rangeIncl
  | assign | plusAssign | minusAssign | starAssign | slashAssign | percentAssign
  | eqeq | neq | lt | gt | leq | geq | ampamp | pipepipe
  | plus | minus | star | slash | percent | plusplus | minusminus | bang | tilde
  | arrow | fatArrow | lparen | rparen | lbrace | rbrace | lbracket | rbracket | at | amp
  deriving DecidableEq

/-- A token, with the values of literals in some type of floating-point numbers. -/
inductive Token (δ : Type)
  | keyword (k : Keyword)
  | punct (p : Punct)
  | boolLit (value : Bool)
  | intLit (value : Int)
  | longLit (value : Int)
  | floatLit (value : δ)
  | realLit (value : δ)
  | string (value : Text)
  | ident (name : Text)
  | fstrBegin
  | fstrInterpBegin (chunk : Text)
  | fstrInterpEnd
  | fstrFinish (chunk : Text)
  | eof
  deriving DecidableEq

section Tables

variable {δ : Type}

/-- The words that are no identifiers, and whether a newline behind one ends a statement. -/
def keywords : List (Text × Token δ × Bool) :=
  [(ascii "namespace", .keyword .kwNamespace, false), (ascii "import", .keyword .kwImport, false),
    (ascii "from", .keyword .kwFrom, false), (ascii "as", .keyword .kwAs, false),
    (ascii "class", .keyword .kwClass, false), (ascii "interface", .keyword .kwInterface, false),
    (ascii "enum", .keyword .kwEnum, false), (ascii "public", .keyword .kwPublic, false),
    (ascii "private", .keyword .kwPrivate, false),
    (ascii "protected", .keyword .kwProtected, false), (ascii "new", .keyword .kwNew, false),
    (ascii "delete", .keyword .kwDelete, false), (ascii "this", .keyword .kwThis, true),
    (ascii "super", .keyword .kwSuper, true), (ascii "return", .keyword .kwReturn, true),
    (ascii "break", .keyword .kwBreak, true), (ascii "continue", .keyword .kwContinue, true),
    (ascii "if", .keyword .kwIf, false), (ascii "else", .keyword .kwElse, false),
    (ascii "for", .keyword .kwFor, false), (ascii "while", .keyword .kwWhile, false),
    (ascii "do", .keyword .kwDo, false), (ascii "switch", .keyword .kwSwitch, false),
    (ascii "match", .keyword .kwMatch, false), (ascii "case", .keyword .kwCase, false),
    (ascii "default", .keyword .kwDefault, false), (ascii "try", .keyword .kwTry, false),
    (ascii "catch", .keyword .kwCatch, false), (ascii "in", .keyword .kwIn, false),
    (ascii "const", .keyword .kwConst, false), (ascii "static", .keyword .kwStatic, false),
    (ascii "thread_local", .keyword .kwThreadLocal, false),
    (ascii "__get__", .keyword .kwGet, false), (ascii "__set__", .keyword .kwSet, false),
    (ascii "assert", .keyword .kwAssert, false), (ascii "fn", .keyword .kwFn, false),
    (ascii "auto", .keyword .kwAuto, false), (ascii "defer", .keyword .kwDefer, false),
    (ascii "throw", .keyword .kwThrow, false), (ascii "unsafe", .keyword .kwUnsafe, false),
    (ascii "extern", .keyword .kwExtern, false), (ascii "async", .keyword .kwAsync, false),
    (ascii "await", .keyword .kwAwait, true), (ascii "and", .keyword .kwAnd, false),
    (ascii "or", .keyword .kwOr, false), (ascii "not", .keyword .kwNot, false),
    (ascii "true", .boolLit true, true), (ascii "false", .boolLit false, true),
    (ascii "null", .keyword .kwNull, true), (ascii "void", .keyword .kwVoid, false),
    (ascii "int", .keyword .kwInt, false), (ascii "long", .keyword .kwLong, false),
    (ascii "real", .keyword .kwReal, false), (ascii "double", .keyword .kwDouble, false),
    (ascii "str", .keyword .kwStr, true), (ascii "bool", .keyword .kwBool, false),
    (ascii "list", .keyword .kwList, true), (ascii "dict", .keyword .kwDict, true),
    (ascii "tuple", .keyword .kwTuple, false), (ascii "object", .keyword .kwObject, false),
    (ascii "ptr", .keyword .kwPtr, false)]

/-- An operator or a bracket other than a brace: its text, whether a newline behind it ends a
statement, and by how much it changes the nesting. -/
structure Operator where
  text : Text
  punct : Punct
  needSemi : Bool
  nesting : Int

/-- The operators, those with a longer text first. -/
def operators : List Operator :=
  [⟨ascii "...", .ellipsis, false, 0⟩, ⟨ascii "..<", .rangeExcl, false, 0⟩,
    ⟨ascii "..=", .rangeIncl, false, 0⟩, ⟨ascii "::", .dcolon, false, 0⟩,
    ⟨ascii "->", .arrow, false, 0⟩, ⟨ascii "=>", .fatArrow, false, 0⟩,
    ⟨ascii "++", .plusplus, true, 0⟩, ⟨ascii "--", .minusminus, true, 0⟩,
    ⟨ascii "==", .eqeq, false, 0⟩, ⟨ascii "!=", .neq, false, 0⟩, ⟨ascii "<=", .leq, false, 0⟩,
    ⟨ascii ">=", .geq, false, 0⟩, ⟨ascii "&&", .ampamp, false, 0⟩,
    ⟨ascii "||", .pipepipe, false, 0⟩, ⟨ascii "+=", .plusAssign, false, 0⟩,
    ⟨ascii "-=", .minusAssign, false, 0⟩, ⟨ascii "*=", .starAssign, false, 0⟩,
    ⟨ascii "/=", .slashAssign, false, 0⟩, ⟨ascii "%=", .percentAssign, false, 0⟩,
    ⟨ascii "+", .plus, false, 0⟩, ⟨ascii "-", .minus, false, 0⟩, ⟨ascii "*", .star, false, 0⟩,
    ⟨ascii "/", .slash, false, 0⟩, ⟨ascii "%", .percent, false, 0⟩, ⟨ascii "<", .lt, false, 0⟩,
    ⟨ascii ">", .gt, false, 0⟩, ⟨ascii "=", .assign, false, 0⟩, ⟨ascii "!", .bang, false, 0⟩,
    ⟨ascii "~", .tilde, false, 0⟩, ⟨ascii "@", .at, false, 0⟩, ⟨ascii "&", .amp, false, 0⟩,
    ⟨ascii ".", .dot, false, 0⟩, ⟨ascii ",", .comma, false, 0⟩, ⟨ascii ";", .semi, false, 0⟩,
    ⟨ascii ":", .colon, false, 0⟩, ⟨ascii "(", .lparen, false, 1⟩, ⟨ascii ")", .rparen, true, -1⟩,
    ⟨ascii "[", .lbracket, false, 1⟩, ⟨ascii "]", .rbracket, true, -1⟩]

end Tables

/-- What a call of `yylex` comes to: a token, a `syntax_error`, or another exception, which nobody
catches. -/
inductive Result (δ : Type)
  | token (t : Token δ)
  | error (message : Text)
  | fault
  deriving DecidableEq

end Dux.Lexer
