import Dux.Runtime.StrBuild
import Dux.Stdlib.Path

/-!
# Tokens of the second stage

The tokens of `bootstrap/dux_stage2.dux`, and what its classes `Lexer` and `Parser` hold: the source
with a position, which is an `int` of 32 bits, the current token and the one behind it, and what has
been printed.  Methods and loops are procedures; a loop has the variables that its turns change as
arguments.
-/

namespace Dux.Bootstrap

open Dux.Logic (ascii)
open Dux.Runtime (Bytes)
open Dux.Runtime.Text (DuxStr)
open Dux.Stdlib.Path (duxrtStrIndex)

/-! ## Tokens -/

inductive TokenType
  | eof | kwVoid | kwInt | kwLong | kwStr | kwBool | kwDouble | kwFloat | kwReal | kwObject | kwPtr
  | kwList | kwReturn | kwIf | kwElse | kwWhile | kwFor | kwIn | kwDo | kwClass | kwNew | kwThis
  | kwSuper | kwInterface | kwImport | kwNamespace | kwEnum | kwExtern | kwFrom | kwAs | kwTrue
  | kwFalse | kwNull | kwConst | kwStatic | kwUnsafe | kwDefer | kwThrow | kwTry | kwCatch
  | kwPublic | kwPrivate | kwProtected | kwMatch | kwAsync | kwAwait | kwFn | kwAuto | kwDelete
  | kwAssert | kwBreak | kwContinue | kwSwitch | kwCase | kwDefault | kwThreadLocal | kwRange
  | ident | longLit | intLit | realLit | floatLit | strLit
  | lparen | rparen | lbrace | rbrace | lbracket | rbracket | comma | semi
  | dotdotlt | dotdoteq | dotdot | dot | coloncolon | colon | at | tilde
  | plusAssign | plusplus | plus | minusAssign | minusminus | arrow | minus
  | starAssign | star | slashAssign | slash | percentAssign | percent
  | eq | fatArrow | assign | neq | bang | lte | shl | lt | gte | shr | gt
  | and | amp | or | pipe | caret | unknown
  deriving DecidableEq

/-- The words of `_kw_or_ident`. -/
def keywords : List (String × TokenType) :=
  [ ("void", .kwVoid), ("int", .kwInt), ("long", .kwLong), ("str", .kwStr), ("bool", .kwBool),
    ("double", .kwDouble), ("float", .kwFloat), ("real", .kwReal), ("object", .kwObject),
    ("ptr", .kwPtr), ("list", .kwList), ("return", .kwReturn), ("if", .kwIf), ("else", .kwElse),
    ("while", .kwWhile), ("for", .kwFor), ("in", .kwIn), ("do", .kwDo), ("class", .kwClass),
    ("new", .kwNew), ("this", .kwThis), ("super", .kwSuper), ("interface", .kwInterface),
    ("import", .kwImport), ("namespace", .kwNamespace), ("enum", .kwEnum), ("extern", .kwExtern),
    ("from", .kwFrom), ("as", .kwAs), ("true", .kwTrue), ("false", .kwFalse), ("null", .kwNull),
    ("const", .kwConst), ("static", .kwStatic), ("unsafe", .kwUnsafe), ("defer", .kwDefer),
    ("throw", .kwThrow), ("try", .kwTry), ("catch", .kwCatch), ("public", .kwPublic),
    ("private", .kwPrivate), ("protected", .kwProtected), ("match", .kwMatch),
    ("async", .kwAsync), ("await", .kwAwait), ("fn", .kwFn), ("auto", .kwAuto),
    ("delete", .kwDelete), ("assert", .kwAssert), ("break", .kwBreak), ("continue", .kwContinue),
    ("switch", .kwSwitch), ("case", .kwCase), ("default", .kwDefault),
    ("thread_local", .kwThreadLocal), ("range", .kwRange) ]

/-- The tokens of other characters, in the order of the tests: of those that begin alike, the
longer ones first. -/
def symbols : List (String × TokenType) :=
  [ ("(", .lparen), (")", .rparen), ("\x7b", .lbrace), ("\x7d", .rbrace), ("[", .lbracket),
    ("]", .rbracket), (",", .comma), (";", .semi),
    ("..<", .dotdotlt), ("..=", .dotdoteq), ("..", .dotdot), (".", .dot),
    ("::", .coloncolon), (":", .colon), ("@", .at), ("~", .tilde),
    ("+=", .plusAssign), ("++", .plusplus), ("+", .plus),
    ("-=", .minusAssign), ("--", .minusminus), ("->", .arrow), ("-", .minus),
    ("*=", .starAssign), ("*", .star), ("/=", .slashAssign), ("/", .slash),
    ("%=", .percentAssign), ("%", .percent), ("==", .eq), ("=>", .fatArrow), ("=", .assign),
    ("!=", .neq), ("!", .bang), ("<=", .lte), ("<<", .shl), ("<", .lt),
    (">=", .gte), (">>", .shr), (">", .gt), ("&&", .and), ("&", .amp), ("||", .or),
    ("|", .pipe), ("^", .caret) ]

def kwOrIdent (word : Bytes) : TokenType :=
  ((keywords.find? fun kw => ascii kw.1 = word).map Prod.snd).getD .ident

/-! ## Characters -/

def ord (c : Bytes) : Nat := (c.head?.map UInt8.toNat).getD 0

def isDigit (c : Bytes) : Bool := 48 ≤ ord c && ord c ≤ 57

def isAlpha (c : Bytes) : Bool :=
  (97 ≤ ord c && ord c ≤ 122) || (65 ≤ ord c && ord c ≤ 90)

def isAlnumUnder (c : Bytes) : Bool := isAlpha c || isDigit c || c = ascii "_"

/-! ## The state -/

structure Lexer where
  src : DuxStr
  pos : Int
  curTt : TokenType
  curTv : Bytes
  pekTt : TokenType
  pekTv : Bytes

/-- The parser, with the lines that it has printed. -/
structure Parser where
  lx : Lexer
  out : List Bytes

def int32 (x : Int) : Int := x.bmod (2 ^ 32)

namespace Lexer

/-- `len(this.src)`. -/
def len (lx : Lexer) : Int := lx.src.len

/-- `this.pos + k`. -/
def ahead (lx : Lexer) (k : Int) : Int := int32 (lx.pos + k)

/-- `this.src[this.pos + k]`. -/
def peek (lx : Lexer) (k : Int) : Bytes := duxrtStrIndex lx.src.chars (lx.ahead k)

/-- `this.src[this.pos]`. -/
def char (lx : Lexer) : Bytes := duxrtStrIndex lx.src.chars lx.pos

/-- `this.pos + k < len(this.src) && this.src[this.pos + k] == c`. -/
def follows (lx : Lexer) (k : Int) (c : String) : Bool := lx.ahead k < lx.len && lx.peek k = ascii c

/-- Whether the characters of a token stand at the position; the first one is not checked to be
inside. -/
def startsWith (lx : Lexer) (symbol : String) : Bool :=
  match symbol.toList with
  | [] => false
  | [a] => lx.char = ascii a.toString
  | [a, b] => lx.char = ascii a.toString && lx.follows 1 b.toString
  | a :: b :: c :: _ =>
      lx.char = ascii a.toString && lx.follows 1 b.toString && lx.follows 2 c.toString

end Lexer

/-! ## Procedures -/

/-- The methods and loops of the lexer. -/
inductive ScanCall
  | lexOneInto (isPeek : Bool)
  | skipWsAndComments
  | skipLoop (going : Bool)
  | wsLoop (wsGoing : Bool)
  | lineLoop
  | blockLoop (foundEnd : Bool)
  | tripleLoop (foundTq : Bool)
  | readIdent
  | identLoop
  | digitsLoop
  | readStringContent (quote : Bytes)
  | stringLoop (quote result : Bytes) (done : Bool)

/-- The methods and loops of the parser. -/
inductive ParseCall
  | parseType
  | parseParams
  | paramsLoop (result : Bytes) (first : Bool)
  | parseExpr
  | parseAssign
  | parseOr
  | orLoop (left : Bytes)
  | parseAnd
  | andLoop (left : Bytes)
  | parseCmp
  | parseAdd
  | addLoop (left : Bytes)
  | parseMul
  | mulLoop (left : Bytes)
  | parseUnary
  | parsePostfix
  | postfixLoop (base : Bytes) (going : Bool)
  | parseArgList
  | argLoop (result : Bytes) (first : Bool)
  | parsePrimary
  | elemsLoop (elems : Bytes) (first : Bool)
  | pairsLoop (pairs : Bytes) (first : Bool)
  | parseBlockBody (d : Nat)
  | parseBlockHeader (header : Bytes) (d : Nat)
  | parseBlock (d : Nat)
  | stmtsLoop (d : Nat)
  | parseStmt (d : Nat)
  | declsLoop (decls : Bytes)
  | parseAssignRest (left : Bytes)
  | parseIfBody (d : Nat)
  | parseIfStmt (d : Nat)
  | parseWhileStmt (d : Nat)
  | parseDoWhileStmt (d : Nat)
  | parseForStmt (d : Nat)
  | parseSwitchStmt (d : Nat)
  | switchLoop (d1 d2 : Nat)
  | caseLoop (d : Nat)
  | parseMatchStmt (d : Nat)
  | matchLoop (d1 d2 : Nat)
  | parseTryCatch (d : Nat)
  | parseImport (d : Nat)
  | symsLoop (syms : Bytes) (first : Bool)
  | parseDottedPath
  | pathLoop (path : Bytes)
  | parseFuncDecl (retType name : Bytes) (d : Nat)
  | tparamsLoop (stops : List TokenType) (tparams : Bytes) (first : Bool)
  | parseDtorDecl (className : Bytes) (d : Nat)
  | parseClassDecl (d : Nat)
  | basesLoop (bases : Bytes) (first : Bool)
  | membersLoop (className : Bytes) (d : Nat)
  | parseClassMember (className : Bytes) (d : Nat)
  | parseMemberAfterType (memberType className : Bytes) (d : Nat)
  | parseInterfaceDecl (d : Nat)
  | parseNamespaceDecl (d : Nat)
  | topLoop (d : Nat)
  | parseEnumDecl (d : Nat)
  | enumLoop (d : Nat)
  | payloadLoop (payload : Bytes) (first : Bool)
  | parseExternDecl (d : Nat)
  | parseTopDeclAt (d : Nat)
  | parseTopDecl
  | parseProgram
  | programLoop

/-- All procedures. -/
inductive Call
  | scan (c : ScanCall)
  | advance
  | parse (c : ParseCall)

end Dux.Bootstrap
