import Dux.Bootstrap.Lexer

/-!
# The parser of the second stage

The methods of the class `Parser` of `bootstrap/dux_stage2.dux`.  Expressions are returned as text,
statements and declarations are printed.  The parser reads the tokens of its lexer and moves on by
`advance` only.
-/

namespace Dux.Bootstrap

open Dux.Logic (ascii Prog)
open Dux.Runtime (Bytes)

/-! ## Pieces of methods -/

/-- The lexer is left alone. -/
def SameLexer (s s' : Parser) : Prop := s'.lx = s.lx

/-- What the parser calls. -/
def IsParse : Call → Prop
  | .scan _ => False
  | .advance | .parse _ => True

/-- A piece of a method of the parser: it prints, looks at the lexer and calls. -/
def Parsing (α : Type) := { p : Prog Parser Call Bytes α // p.Keeps SameLexer IsParse }

instance : Monad Parsing where
  pure a := ⟨.ret a, trivial⟩
  bind p f := ⟨p.1.bind fun a => (f a).1, p.2.bind fun a => (f a).2⟩

namespace Parsing

/-- `this.lx`. -/
def lexer : Parsing Lexer := ⟨.look fun s => .ret s.lx, fun _ => trivial⟩

def print (line : Bytes) : Parsing Unit :=
  ⟨.update (fun s => { s with out := s.out ++ [line] }) (.ret ()), fun _ => rfl, trivial⟩

def advance : Parsing Unit := ⟨.call .advance fun _ => .ret (), trivial, fun _ => trivial⟩

/-- A call within the parser. -/
def parse (c : ParseCall) : Parsing Bytes := ⟨.call (.parse c) .ret, trivial, fun _ => trivial⟩

def tt : Parsing TokenType := return (← lexer).curTt

def tv : Parsing Bytes := return (← lexer).curTv

def peekTt : Parsing TokenType := return (← lexer).pekTt

def check (t : TokenType) : Parsing Bool := return (← tt) = t

/-- `if this.check(t) { this.lx.advance() }`. -/
def skipIf (t : TokenType) : Parsing Unit := do
  if ← check t then advance

/-- `tv()` and `advance()`. -/
def take : Parsing Bytes := do
  let v ← tv
  advance
  return v

/-- The text of a type of token, which the source has for the type itself. -/
def nameOf : TokenType → String
  | .lparen => "LPAREN" | .rparen => "RPAREN" | .lbrace => "LBRACE" | .rbrace => "RBRACE"
  | .lbracket => "LBRACKET" | .rbracket => "RBRACKET" | .comma => "COMMA" | .semi => "SEMI"
  | .dotdotlt => "DOTDOTLT" | .dotdoteq => "DOTDOTEQ" | .dotdot => "DOTDOT" | .dot => "DOT"
  | .coloncolon => "COLONCOLON" | .colon => "COLON" | .at => "AT" | .tilde => "TILDE"
  | .plusAssign => "PLUS_ASSIGN" | .plusplus => "PLUSPLUS" | .plus => "PLUS"
  | .minusAssign => "MINUS_ASSIGN" | .minusminus => "MINUSMINUS" | .arrow => "ARROW"
  | .minus => "MINUS" | .starAssign => "STAR_ASSIGN" | .star => "STAR"
  | .slashAssign => "SLASH_ASSIGN" | .slash => "SLASH" | .percentAssign => "PERCENT_ASSIGN"
  | .percent => "PERCENT" | .eq => "EQ" | .fatArrow => "FAT_ARROW" | .assign => "ASSIGN"
  | .neq => "NEQ" | .bang => "BANG" | .lte => "LTE" | .shl => "SHL" | .lt => "LT" | .gte => "GTE"
  | .shr => "SHR" | .gt => "GT" | .and => "AND" | .amp => "AMP" | .or => "OR" | .pipe => "PIPE"
  | .caret => "CARET" | .unknown => "UNKNOWN" | .eof => "EOF" | .ident => "IDENT"
  | .longLit => "LONG_LIT" | .intLit => "INT_LIT" | .realLit => "REAL_LIT"
  | .floatLit => "FLOAT_LIT" | .strLit => "STR_LIT"
  | .kwVoid => "KW_VOID" | .kwInt => "KW_INT" | .kwLong => "KW_LONG" | .kwStr => "KW_STR"
  | .kwBool => "KW_BOOL" | .kwDouble => "KW_DOUBLE" | .kwFloat => "KW_FLOAT"
  | .kwReal => "KW_REAL" | .kwObject => "KW_OBJECT" | .kwPtr => "KW_PTR" | .kwList => "KW_LIST"
  | .kwReturn => "KW_RETURN" | .kwIf => "KW_IF" | .kwElse => "KW_ELSE" | .kwWhile => "KW_WHILE"
  | .kwFor => "KW_FOR" | .kwIn => "KW_IN" | .kwDo => "KW_DO" | .kwClass => "KW_CLASS"
  | .kwNew => "KW_NEW" | .kwThis => "KW_THIS" | .kwSuper => "KW_SUPER"
  | .kwInterface => "KW_INTERFACE" | .kwImport => "KW_IMPORT" | .kwNamespace => "KW_NAMESPACE"
  | .kwEnum => "KW_ENUM" | .kwExtern => "KW_EXTERN" | .kwFrom => "KW_FROM" | .kwAs => "KW_AS"
  | .kwTrue => "KW_TRUE" | .kwFalse => "KW_FALSE" | .kwNull => "KW_NULL"
  | .kwConst => "KW_CONST" | .kwStatic => "KW_STATIC" | .kwUnsafe => "KW_UNSAFE"
  | .kwDefer => "KW_DEFER" | .kwThrow => "KW_THROW" | .kwTry => "KW_TRY" | .kwCatch => "KW_CATCH"
  | .kwPublic => "KW_PUBLIC" | .kwPrivate => "KW_PRIVATE" | .kwProtected => "KW_PROTECTED"
  | .kwMatch => "KW_MATCH" | .kwAsync => "KW_ASYNC" | .kwAwait => "KW_AWAIT" | .kwFn => "KW_FN"
  | .kwAuto => "KW_AUTO" | .kwDelete => "KW_DELETE" | .kwAssert => "KW_ASSERT"
  | .kwBreak => "KW_BREAK" | .kwContinue => "KW_CONTINUE" | .kwSwitch => "KW_SWITCH"
  | .kwCase => "KW_CASE" | .kwDefault => "KW_DEFAULT" | .kwThreadLocal => "KW_THREAD_LOCAL"
  | .kwRange => "KW_RANGE"

def expect (t : TokenType) : Parsing Unit := do
  let lx ← lexer
  if lx.curTt = t then advance
  else
    print (ascii "parse error: expected " ++ ascii (nameOf t) ++ ascii " got " ++
      ascii (nameOf lx.curTt) ++ ascii " (" ++ lx.curTv ++ ascii ")")
    advance

/-- `!this.check(..)` for all of these types of tokens: what the loops go on with. -/
def noneOf (stops : List TokenType) : Parsing Bool := return (← tt) ∉ stops

/-- The text so far, with a comma behind it unless it is the first turn. -/
def listed (text : Bytes) (first : Bool) : Bytes := if first then text else text ++ ascii ", "

def padStr (d : Nat) : Bytes := (List.replicate d (ascii "  ")).flatten

/-! ## Types -/

def typeText (t : TokenType) (v : Bytes) : Bytes :=
  match t with
  | .kwVoid => ascii "void" | .kwInt => ascii "int" | .kwLong => ascii "long"
  | .kwStr => ascii "str" | .kwBool => ascii "bool" | .kwDouble => ascii "double"
  | .kwFloat => ascii "float" | .kwReal => ascii "real" | .kwObject => ascii "object"
  | .kwPtr => ascii "ptr" | .kwList => ascii "list" | .kwAuto => ascii "__auto"
  | _ => v

def parseType : Parsing Bytes := do
  let base := typeText (← tt) (← tv)
  advance
  if ← check .lt then
    advance
    let inner ← parse .parseType
    if ← check .gt then advance
    else if ← check .shr then advance
    return base ++ ascii "<" ++ inner ++ ascii ">"
  else return base

def isTypeStart (t : TokenType) : Bool :=
  t ∈ [.kwVoid, .kwInt, .kwLong, .kwStr, .kwBool, .kwDouble, .kwFloat, .kwReal, .kwObject, .kwPtr,
    .kwList, .kwAuto, .kwConst, .kwStatic]

/-- The identifier that may follow; a missing one is empty. -/
def takeName : Parsing Bytes := do
  if ← check .ident then take else return []

def paramsLoop (result : Bytes) (first : Bool) : Parsing Bytes := do
  if ← noneOf [.rparen, .eof] then
    let ptype ← parse .parseType
    let pname ← takeName
    skipIf .comma
    parse (.paramsLoop (listed result first ++ ptype ++ ascii " " ++ pname) false)
  else return result

def parseParams : Parsing Bytes := do
  expect .lparen
  let result ← parse (.paramsLoop [] true)
  expect .rparen
  return result

/-! ## Expressions -/

/-- A binary expression. -/
def infixed (left op right : Bytes) : Bytes :=
  ascii "(" ++ left ++ ascii " " ++ op ++ ascii " " ++ right ++ ascii ")"

/-- The operators of assignments. -/
def assignOps : List TokenType :=
  [.assign, .plusAssign, .minusAssign, .starAssign, .slashAssign, .percentAssign]

def parseExpr : Parsing Bytes := parse .parseAssign

def parseAssign : Parsing Bytes := do
  let left ← parse .parseOr
  if (← tt) ∈ assignOps then
    let op ← take
    let right ← parse .parseAssign
    return left ++ ascii " " ++ op ++ ascii " " ++ right
  else return left

/-- A loop over operators of one level, with the procedure for an operand. -/
def operatorLoop (ops : List TokenType) (operand : ParseCall) (again : Bytes → ParseCall)
    (left : Bytes) : Parsing Bytes := do
  if (← tt) ∈ ops then
    let op ← take
    let right ← parse operand
    parse (again (infixed left op right))
  else return left

def orLoop (left : Bytes) : Parsing Bytes := operatorLoop [.or] .parseAnd .orLoop left

def parseOr : Parsing Bytes := do
  let left ← parse .parseAnd
  parse (.orLoop left)

def andLoop (left : Bytes) : Parsing Bytes := operatorLoop [.and] .parseCmp .andLoop left

def parseAnd : Parsing Bytes := do
  let left ← parse .parseCmp
  parse (.andLoop left)

def parseCmp : Parsing Bytes := do
  let left ← parse .parseAdd
  if (← tt) ∈ [TokenType.eq, .neq, .lt, .gt, .lte, .gte] then
    let op ← take
    let right ← parse .parseAdd
    return infixed left op right
  else return left

def addLoop (left : Bytes) : Parsing Bytes := operatorLoop [.plus, .minus] .parseMul .addLoop left

def parseAdd : Parsing Bytes := do
  let left ← parse .parseMul
  parse (.addLoop left)

def mulLoop (left : Bytes) : Parsing Bytes :=
  operatorLoop [.star, .slash, .percent] .parseUnary .mulLoop left

def parseMul : Parsing Bytes := do
  let left ← parse .parseUnary
  parse (.mulLoop left)

/-- A prefix operator in front of its operand. -/
def parsePrefix (op : String) : Parsing Bytes := do
  advance
  let operand ← parse .parseUnary
  return ascii op ++ operand

def parseUnary : Parsing Bytes := do
  if ← check .bang then parsePrefix "!"
  else if ← check .minus then parsePrefix "-"
  else if ← check .tilde then parsePrefix "~"
  else if ← check .kwAwait then parsePrefix "await "
  else parse .parsePostfix

def postfixLoop (base : Bytes) (going : Bool) : Parsing Bytes := do
  if going then
    if ← check .dot then
      advance
      let member ← take
      if ← check .lparen then
        let args ← parse .parseArgList
        parse (.postfixLoop
          (base ++ ascii "." ++ member ++ ascii "(" ++ args ++ ascii ")") true)
      else parse (.postfixLoop (base ++ ascii "." ++ member) true)
    else if ← check .lparen then
      let args ← parse .parseArgList
      parse (.postfixLoop (base ++ ascii "(" ++ args ++ ascii ")") true)
    else if ← check .lbracket then
      advance
      let idx ← parse .parseExpr
      expect .rbracket
      parse (.postfixLoop (base ++ ascii "[" ++ idx ++ ascii "]") true)
    else if ← check .plusplus then
      advance
      parse (.postfixLoop (base ++ ascii "++") true)
    else if ← check .minusminus then
      advance
      parse (.postfixLoop (base ++ ascii "--") true)
    else parse (.postfixLoop base false)
  else return base

def parsePostfix : Parsing Bytes := do
  let base ← parse .parsePrimary
  parse (.postfixLoop base true)

def argLoop (result : Bytes) (first : Bool) : Parsing Bytes := do
  if ← noneOf [.rparen, .eof] then
    let e ← parse .parseExpr
    skipIf .comma
    parse (.argLoop (listed result first ++ e) false)
  else return result

def parseArgList : Parsing Bytes := do
  expect .lparen
  let result ← parse (.argLoop [] true)
  expect .rparen
  return result

def elemsLoop (elems : Bytes) (first : Bool) : Parsing Bytes := do
  if ← noneOf [.rbracket, .eof] then
    let e ← parse .parseExpr
    skipIf .comma
    parse (.elemsLoop (listed elems first ++ e) false)
  else return elems

def pairsLoop (pairs : Bytes) (first : Bool) : Parsing Bytes := do
  if ← noneOf [.rbrace, .eof] then
    let key ← parse .parseExpr
    expect .colon
    let val ← parse .parseExpr
    skipIf .comma
    parse (.pairsLoop (listed pairs first ++ key ++ ascii ": " ++ val) false)
  else return pairs

/-- `norm_float`: the zeros at the end go, and the point if nothing else is behind it. -/
def normFloat (s : Bytes) : Bytes :=
  if 0x2e ∈ s then
    let stripped := (s.reverse.dropWhile (· = 0x30)).reverse
    if stripped.getLast? = some 0x2e then stripped.dropLast else stripped
  else s

def parsePrimary : Parsing Bytes := do
  let t ← tt
  let v ← tv
  advance
  match t with
  | .longLit => return v ++ ascii "l"
  | .floatLit => return normFloat v
  | .realLit => return normFloat v ++ ascii "f"
  | .strLit => return ascii "\"" ++ v ++ ascii "\""
  | .kwTrue => return ascii "true"
  | .kwFalse => return ascii "false"
  | .kwNull => return ascii "null"
  | .kwThis => return ascii "this"
  | .kwSuper => return ascii "super"
  | .kwNew =>
      let typeName ← parse .parseType
      let nargs ← parse .parseArgList
      return ascii "new " ++ typeName ++ ascii "(" ++ nargs ++ ascii ")"
  | .kwFn =>
      let params ← parse .parseParams
      skipIf .fatArrow
      let body ← parse .parseExpr
      return ascii "fn(" ++ params ++ ascii ") => " ++ body
  | .lparen =>
      let inner ← parse .parseExpr
      expect .rparen
      return inner
  | .lbracket =>
      let elems ← parse (.elemsLoop [] true)
      expect .rbracket
      return ascii "[" ++ elems ++ ascii "]"
  | .lbrace =>
      let pairs ← parse (.pairsLoop [] true)
      expect .rbrace
      return ascii "\x7b" ++ pairs ++ ascii "\x7d"
  | .kwRange =>
      let rargs ← parse .parseArgList
      return ascii "range(" ++ rargs ++ ascii ")"
  | _ => return v

/-! ## Statements -/

/-- A line at a depth. -/
def printAt (d : Nat) (line : Bytes) : Parsing Unit := print (padStr d ++ line)

/-- `print(pad_str(d) + "}")`. -/
def printEnd (d : Nat) : Parsing Unit := printAt d (ascii "\x7d")

/-- `while !this.check("RBRACE") && !this.check("EOF") { this.parse_stmt(d) }`. -/
def stmtsLoop (d : Nat) : Parsing Bytes := do
  if ← noneOf [.rbrace, .eof] then
    let _ ← parse (.parseStmt d)
    parse (.stmtsLoop d)
  else return []

/-- The statements between two braces. -/
def braced (d : Nat) : Parsing Unit := do
  expect .lbrace
  let _ ← parse (.stmtsLoop d)
  expect .rbrace

def parseBlockBody (d : Nat) : Parsing Bytes := do
  braced (d + 1)
  printEnd d
  return []

def parseBlockHeader (header : Bytes) (d : Nat) : Parsing Bytes := do
  print (header ++ ascii " \x7b")
  parse (.parseBlockBody d)

def parseBlock (d : Nat) : Parsing Bytes := do
  expect .lbrace
  printAt d (ascii "\x7b")
  let _ ← parse (.stmtsLoop (d + 1))
  expect .rbrace
  printEnd d
  return []

def blockOrStmt (header : Bytes) (d : Nat) : Parsing Unit := do
  if ← check .lbrace then
    let _ ← parse (.parseBlockHeader (padStr d ++ header) d)
  else
    printAt d header
    let _ ← parse (.parseStmt (d + 1))

/-- The condition of a statement, between parentheses or not. -/
def condition : Parsing Bytes := do
  let hadParen ← check .lparen
  skipIf .lparen
  let cond ← parse .parseExpr
  if hadParen then expect .rparen
  return cond

/-- A declaration behind `const`. -/
def constDecl (d : Nat) : Parsing Bytes := do
  advance
  let ctype ← parse .parseType
  let cname ← take
  if ← check .assign then
    advance
    let cinit ← parse .parseExpr
    skipIf .semi
    printAt d (ascii "const " ++ ctype ++ ascii " " ++ cname ++ ascii " = " ++ cinit)
  else
    skipIf .semi
    printAt d (ascii "const " ++ ctype ++ ascii " " ++ cname)
  return []

/-- The loop over the further names of a declaration. -/
def declsLoop (decls : Bytes) : Parsing Bytes := do
  if ← check .comma then
    advance
    let n2 ← take
    if ← check .assign then
      advance
      let i2 ← parse .parseExpr
      parse (.declsLoop (decls ++ ascii ", " ++ n2 ++ ascii " = " ++ i2))
    else parse (.declsLoop (decls ++ ascii ", " ++ n2))
  else return decls

/-- A statement that begins with a type. -/
def varDecl (d : Nat) : Parsing Bytes := do
  let typeStr ← parse .parseType
  if ← check .ident then
    let name ← take
    if ← check .assign then
      advance
      let init ← parse .parseExpr
      skipIf .semi
      printAt d (typeStr ++ ascii " " ++ name ++ ascii " = " ++ init)
    else if ← check .comma then
      let decls ← parse (.declsLoop (ascii " " ++ name))
      skipIf .semi
      printAt d (typeStr ++ decls)
    else
      skipIf .semi
      printAt d (typeStr ++ ascii " " ++ name)
  else
    let rest ← parse (.parseAssignRest typeStr)
    skipIf .semi
    printAt d rest
  return []

/-- A statement of a word and an expression. -/
def wordStmt (word : String) (d : Nat) : Parsing Bytes := do
  advance
  let e ← parse .parseExpr
  skipIf .semi
  printAt d (ascii word ++ ascii " " ++ e)
  return []

/-- A statement of a word alone. -/
def bareStmt (word : String) (d : Nat) : Parsing Bytes := do
  advance
  skipIf .semi
  printAt d (ascii word)
  return []

def returnStmt (d : Nat) : Parsing Bytes := do
  advance
  if ← noneOf [.rbrace, .eof, .semi] then
    let val ← parse .parseExpr
    skipIf .semi
    printAt d (ascii "return " ++ val)
  else
    skipIf .semi
    printAt d (ascii "return")
  return []

def assertStmt (d : Nat) : Parsing Bytes := do
  advance
  expect .lparen
  let aexpr ← parse .parseExpr
  expect .rparen
  skipIf .semi
  printAt d (ascii "assert(" ++ aexpr ++ ascii ")")
  return []

def deferStmt (d : Nat) : Parsing Bytes := do
  advance
  printAt d (ascii "defer \x7b")
  if ← check .lbrace then
    advance
    let _ ← parse (.stmtsLoop (d + 1))
    expect .rbrace
  else
    let _ ← parse (.parseStmt (d + 1))
  printEnd d
  return []

def unsafeStmt (d : Nat) : Parsing Bytes := do
  advance
  printAt d (ascii "unsafe \x7b")
  braced (d + 1)
  printEnd d
  return []

def exprStmt (d : Nat) : Parsing Bytes := do
  let e ← parse .parseExpr
  skipIf .semi
  printAt d e
  return []

def parseStmt (d : Nat) : Parsing Bytes := do
  let lx ← lexer
  match lx.curTt with
  | .semi => do
      advance
      return []
  | .kwReturn => returnStmt d
  | .kwIf => parse (.parseIfStmt d)
  | .kwWhile => parse (.parseWhileStmt d)
  | .kwDo => parse (.parseDoWhileStmt d)
  | .kwFor => parse (.parseForStmt d)
  | .kwSwitch => parse (.parseSwitchStmt d)
  | .kwMatch => parse (.parseMatchStmt d)
  | .kwBreak => bareStmt "break" d
  | .kwContinue => bareStmt "continue" d
  | .kwDelete => wordStmt "delete" d
  | .kwThrow => wordStmt "throw" d
  | .kwAssert => assertStmt d
  | .kwDefer => deferStmt d
  | .kwTry => parse (.parseTryCatch d)
  | .kwUnsafe => unsafeStmt d
  | .lbrace => parse (.parseBlock d)
  | .kwConst => constDecl d
  | t =>
      if isTypeStart t then varDecl d
      else if t = .ident ∧ (lx.pekTt = .ident ∨ lx.pekTt = .lt) then varDecl d
      else exprStmt d

def parseAssignRest (left : Bytes) : Parsing Bytes := do
  if (← tt) ∈ assignOps then
    let op ← take
    let right ← parse .parseExpr
    return left ++ ascii " " ++ op ++ ascii " " ++ right
  else return left

def parseIfBody (d : Nat) : Parsing Bytes := do
  braced (d + 1)
  if ← check .kwElse then
    advance
    if ← check .kwIf then
      advance
      let cond2 ← condition
      printAt d (ascii "\x7d else if " ++ cond2 ++ ascii " \x7b")
      parse (.parseIfBody d)
    else
      printAt d (ascii "\x7d else \x7b")
      if ← check .lbrace then braced (d + 1)
      else
        let _ ← parse (.parseStmt (d + 1))
      printEnd d
      return []
  else
    printEnd d
    return []

def parseIfStmt (d : Nat) : Parsing Bytes := do
  expect .kwIf
  let cond ← condition
  printAt d (ascii "if " ++ cond ++ ascii " \x7b")
  if ← check .lbrace then parse (.parseIfBody d)
  else
    let _ ← parse (.parseStmt (d + 1))
    printEnd d
    return []

def parseWhileStmt (d : Nat) : Parsing Bytes := do
  expect .kwWhile
  let cond ← condition
  blockOrStmt (ascii "while " ++ cond) d
  return []

def parseDoWhileStmt (d : Nat) : Parsing Bytes := do
  expect .kwDo
  blockOrStmt (ascii "do") d
  expect .kwWhile
  let cond ← condition
  skipIf .semi
  printAt d (ascii "while " ++ cond)
  return []

def rangeEnd (iter : Bytes) (op : String) : Parsing Bytes := do
  advance
  let endE ← parse .parseExpr
  return infixed iter (ascii op) endE

/-- What is iterated: an expression or a range. -/
def iterated : Parsing Bytes := do
  let iter ← parse .parseExpr
  if ← check .dotdotlt then rangeEnd iter "..<"
  else if ← check .dotdoteq then rangeEnd iter "..="
  else if ← check .dotdot then rangeEnd iter ".."
  else return iter

def parseForStmt (d : Nat) : Parsing Bytes := do
  expect .kwFor
  let varType ← parse .parseType
  let varName ← take
  if ← check .kwIn then
    advance
    let iter ← iterated
    blockOrStmt (ascii "for " ++ varType ++ ascii " " ++ varName ++ ascii " in " ++ iter) d
  else
    expect .assign
    let initE ← parse .parseExpr
    expect .comma
    let condE ← parse .parseExpr
    expect .comma
    let incrE ← parse .parseExpr
    blockOrStmt (ascii "for " ++ varType ++ ascii " " ++ varName ++ ascii " = " ++ initE ++
      ascii ", " ++ condE ++ ascii ", " ++ incrE) d
  return []

/-- The loop over the statements of a case. -/
def caseLoop (d : Nat) : Parsing Bytes := do
  if ← noneOf [.kwCase, .kwDefault, .rbrace, .eof] then
    let _ ← parse (.parseStmt d)
    parse (.caseLoop d)
  else return []

def switchLoop (d1 d2 : Nat) : Parsing Bytes := do
  if ← noneOf [.rbrace, .eof] then
    if ← check .kwCase then
      advance
      let cv ← parse .parseExpr
      expect .colon
      printAt d1 (ascii "case " ++ cv ++ ascii ":")
      let _ ← parse (.caseLoop d2)
    else if ← check .kwDefault then
      advance
      expect .colon
      printAt d1 (ascii "default:")
      let _ ← parse (.caseLoop d2)
    else
      let _ ← parse (.parseStmt d1)
    parse (.switchLoop d1 d2)
  else return []

def parseSwitchStmt (d : Nat) : Parsing Bytes := do
  expect .kwSwitch
  expect .lparen
  let e ← parse .parseExpr
  expect .rparen
  printAt d (ascii "switch (" ++ e ++ ascii ") \x7b")
  expect .lbrace
  let _ ← parse (.switchLoop (d + 1) (d + 2))
  expect .rbrace
  printEnd d
  return []

def pattern : Parsing Bytes := do
  let t ← tt
  let v ← take
  match t with
  | .ident =>
      if ← check .dot then
        advance
        let member ← take
        return v ++ ascii "." ++ member
      else return v
  | .kwTrue => return ascii "true"
  | .kwFalse => return ascii "false"
  | .intLit => return v
  | .strLit => return ascii "\"" ++ v ++ ascii "\""
  | _ => return ascii "_"

def matchLoop (d1 d2 : Nat) : Parsing Bytes := do
  if ← noneOf [.rbrace, .eof] then
    if ← check .semi then advance
    else
      let pat ← pattern
      expect .fatArrow
      printAt d1 (pat ++ ascii " => \x7b")
      braced d2
      skipIf .semi
      printEnd d1
    parse (.matchLoop d1 d2)
  else return []

def parseMatchStmt (d : Nat) : Parsing Bytes := do
  expect .kwMatch
  let mxpr ← parse .parseExpr
  printAt d (ascii "match " ++ mxpr ++ ascii " \x7b")
  expect .lbrace
  let _ ← parse (.matchLoop (d + 1) (d + 2))
  expect .rbrace
  printEnd d
  return []

/-- The variable of a `catch`, behind a blank; a missing one is empty. -/
def catchVar : Parsing Bytes := do
  if ← check .ident then
    let name ← take
    return ascii " " ++ name
  else return []

def catchHeader : Parsing Bytes := do
  if ← check .lparen then
    advance
    let ctype ← parse .parseType
    let cvar ← catchVar
    skipIf .rparen
    return ascii "catch (" ++ ctype ++ cvar ++ ascii ")"
  else return ascii "catch"

def parseTryCatch (d : Nat) : Parsing Bytes := do
  expect .kwTry
  blockOrStmt (ascii "try") d
  if ← check .kwCatch then
    advance
    let catchHdr ← catchHeader
    blockOrStmt catchHdr d
  return []

/-! ## Declarations -/

def pathLoop (path : Bytes) : Parsing Bytes := do
  if ← check .dot then
    advance
    let v ← take
    parse (.pathLoop (path ++ ascii "." ++ v))
  else return path

def parseDottedPath : Parsing Bytes := do
  let path ← take
  parse (.pathLoop path)

def symsLoop (syms : Bytes) (first : Bool) : Parsing Bytes := do
  if ← noneOf [.rbrace, .eof] then
    let v ← take
    skipIf .comma
    parse (.symsLoop (listed syms first ++ v) false)
  else return syms

/-- The alias of an import with `as` in front of it; an empty one is left out. -/
def importAlias : Parsing Bytes := do
  if ← check .kwAs then
    advance
    let v ← take
    return if v = [] then [] else ascii " as " ++ v
  else return []

def parseImport (d : Nat) : Parsing Bytes := do
  expect .kwImport
  if ← check .lbrace then
    advance
    let syms ← parse (.symsLoop [] true)
    expect .rbrace
    expect .kwFrom
    let path ← parse .parseDottedPath
    printAt d (ascii "import \x7b " ++ syms ++ ascii " \x7d from " ++ path)
  else
    let path ← parse .parseDottedPath
    if ← check .coloncolon then
      advance
      if ← check .star then
        advance
        let alias2 ← importAlias
        printAt d (ascii "import " ++ path ++ ascii "::*" ++ alias2)
      else
        expect .lbrace
        let syms2 ← parse (.symsLoop [] true)
        expect .rbrace
        let alias3 ← importAlias
        printAt d (ascii "import " ++ path ++ ascii "::\x7b" ++ syms2 ++ ascii "\x7d" ++ alias3)
    else
      let alias1 ← importAlias
      printAt d (ascii "import " ++ path ++ alias1)
  return []

/-- The bound of a type parameter, behind a colon; a missing one is empty. -/
def tparamBound : Parsing Bytes := do
  if ← check .colon then
    advance
    let v ← take
    return ascii ": " ++ v
  else return []

def tparamsLoop (stops : List TokenType) (tparams : Bytes) (first : Bool) : Parsing Bytes := do
  if ← noneOf (.eof :: stops) then
    let tp ← take
    let bound ← tparamBound
    skipIf .comma
    parse (.tparamsLoop stops (listed tparams first ++ tp ++ bound) false)
  else return tparams

/-- The type parameters of a declaration; they end at one of these types of tokens. -/
def typeParams (stops : List TokenType) : Parsing Bytes := do
  if ← check .lt then
    advance
    let tparams ← parse (.tparamsLoop stops (ascii "<") true)
    if ← check .gt then advance
    else if ← check .shr then advance
    return tparams ++ ascii ">"
  else return []

def parseFuncDecl (retType name : Bytes) (d : Nat) : Parsing Bytes := do
  let tparams ← typeParams [.gt, .shr, .lbrace]
  let params ← parse .parseParams
  let modifier ← catchVar
  let named := name ++ tparams ++ ascii "(" ++ params ++ ascii ")" ++ modifier
  let header := if retType = [] then named else retType ++ ascii " " ++ named
  if ← check .lbrace then parse (.parseBlockHeader (padStr d ++ header) d)
  else
    printAt d header
    return []

def parseDtorDecl (_className : Bytes) (d : Nat) : Parsing Bytes := do
  expect .tilde
  let name ← take
  let params ← parse .parseParams
  let header := ascii "~" ++ name ++ ascii "(" ++ params ++ ascii ")"
  if ← check .lbrace then parse (.parseBlockHeader (padStr d ++ header) d)
  else
    printAt d header
    return []

/-- The access in front of a base class. -/
def baseAccess : Parsing Bytes := do
  if ← check .kwPublic then
    advance
    return ascii "public "
  else if ← check .kwPrivate then
    advance
    return ascii "private "
  else if ← check .kwProtected then
    advance
    return ascii "protected "
  else return []

def basesLoop (bases : Bytes) (first : Bool) : Parsing Bytes := do
  if ← noneOf [.rparen, .eof] then
    let acc ← baseAccess
    let baseName ← take
    skipIf .comma
    parse (.basesLoop (listed bases first ++ acc ++ baseName) false)
  else return bases

/-- The base classes of a class, between parentheses. -/
def baseList : Parsing Bytes := do
  if ← check .lparen then
    advance
    let bases ← parse (.basesLoop [] true)
    expect .rparen
    return bases
  else return []

def membersLoop (className : Bytes) (d : Nat) : Parsing Bytes := do
  if ← noneOf [.rbrace, .eof] then
    let _ ← parse (.parseClassMember className d)
    parse (.membersLoop className d)
  else return []

def parseClassDecl (d : Nat) : Parsing Bytes := do
  expect .kwClass
  let name ← take
  let tparams ← typeParams [.gt, .shr, .lparen, .lbrace]
  let bases ← baseList
  let header := ascii "class " ++ name ++ tparams
  printAt d (if bases = [] then header ++ ascii " \x7b"
    else header ++ ascii "(" ++ bases ++ ascii ") \x7b")
  expect .lbrace
  let _ ← parse (.membersLoop name (d + 1))
  expect .rbrace
  printEnd d
  return []

/-- What follows a name: an initial value or the end of the declaration. -/
def initialised (decl : Bytes) (d : Nat) : Parsing Bytes := do
  if ← check .assign then
    advance
    let init ← parse .parseExpr
    skipIf .semi
    printAt d (decl ++ ascii " = " ++ init)
  else
    skipIf .semi
    printAt d decl
  return []

def parseMemberAfterType (memberType _className : Bytes) (d : Nat) : Parsing Bytes := do
  if ← check .ident then
    let mname ← take
    if ← check .lparen then parse (.parseFuncDecl memberType mname d)
    else initialised (memberType ++ ascii " " ++ mname) d
  else return []

/-- A member behind a word for its access, or that word as a label. -/
def accessMember (word : String) (className : Bytes) (d : Nat) : Parsing Bytes := do
  advance
  if ← check .colon then
    advance
    printAt d (ascii word ++ ascii ":")
    return []
  else
    let mt ← parse .parseType
    parse (.parseMemberAfterType mt className d)

/-- A member that begins with a type, or with `static` or `const`. -/
def typedMember (className : Bytes) (d : Nat) : Parsing Bytes := do
  let ct ← tt
  skipIf .kwStatic
  if ct = .kwConst then advance
  let memberType ← parse .parseType
  let memberType := if ct = .kwStatic then ascii "static " ++ memberType else memberType
  let memberType := if ct = .kwConst then ascii "const " ++ memberType else memberType
  parse (.parseMemberAfterType memberType className d)

/-- A member that begins with an identifier. -/
def namedMember (className : Bytes) (d : Nat) : Parsing Bytes := do
  let iname ← take
  let t ← tt
  if t = .lparen ∨ t = .lt then parse (.parseFuncDecl [] iname d)
  else if t = .ident then parse (.parseMemberAfterType iname className d)
  else initialised iname d

def parseClassMember (className : Bytes) (d : Nat) : Parsing Bytes := do
  let lx ← lexer
  match lx.curTt with
  | .kwPublic => accessMember "public" className d
  | .kwPrivate => accessMember "private" className d
  | .kwProtected => accessMember "protected" className d
  | .tilde => parse (.parseDtorDecl className d)
  | t =>
      if t = .ident ∧ lx.curTv = className ∧ lx.pekTt = .lparen then do
        let ctorName ← take
        parse (.parseFuncDecl [] ctorName d)
      else if isTypeStart t then typedMember className d
      else if t = .ident then namedMember className d
      else do
        advance
        return []

def parseInterfaceDecl (d : Nat) : Parsing Bytes := do
  expect .kwInterface
  let name ← take
  printAt d (ascii "interface " ++ name ++ ascii " \x7b")
  expect .lbrace
  let _ ← parse (.membersLoop name (d + 1))
  expect .rbrace
  printEnd d
  return []

def topLoop (d : Nat) : Parsing Bytes := do
  if ← noneOf [.rbrace, .eof] then
    let _ ← parse (.parseTopDeclAt d)
    parse (.topLoop d)
  else return []

def parseNamespaceDecl (d : Nat) : Parsing Bytes := do
  expect .kwNamespace
  let name ← parse .parseDottedPath
  if ← check .lbrace then
    printAt d (ascii "namespace " ++ name ++ ascii " \x7b")
    advance
    let _ ← parse (.topLoop (d + 1))
    expect .rbrace
    printEnd d
  else printAt d (ascii "namespace " ++ name)
  return []

def payloadLoop (payload : Bytes) (first : Bool) : Parsing Bytes := do
  if ← noneOf [.rparen, .eof] then
    let type ← parse .parseType
    let name ← catchVar
    skipIf .comma
    parse (.payloadLoop (listed payload first ++ type ++ name) false)
  else return payload

/-- The payload of a variant, between parentheses. -/
def variantPayload : Parsing Bytes := do
  if ← check .lparen then
    advance
    let payload ← parse (.payloadLoop [] true)
    expect .rparen
    return ascii "(" ++ payload ++ ascii ")"
  else return []

def enumLoop (d : Nat) : Parsing Bytes := do
  if ← noneOf [.rbrace, .eof] then
    if ← check .ident then
      let vname ← take
      let payload ← variantPayload
      printAt d (vname ++ payload ++ ascii ",")
      skipIf .comma
      skipIf .semi
    else advance
    parse (.enumLoop d)
  else return []

def parseEnumDecl (d : Nat) : Parsing Bytes := do
  expect .kwEnum
  let name ← take
  printAt d (ascii "enum " ++ name ++ ascii " \x7b")
  expect .lbrace
  let _ ← parse (.enumLoop (d + 1))
  expect .rbrace
  printEnd d
  return []

/-- The language of an external declaration. -/
def abi : Parsing Bytes := do
  if ← check .strLit then take else return ascii "C"

def parseExternDecl (d : Nat) : Parsing Bytes := do
  expect .kwExtern
  let language ← abi
  let retType ← parse .parseType
  let fname ← take
  let params ← parse .parseParams
  skipIf .semi
  printAt d (ascii "extern \"" ++ language ++ ascii "\" " ++ retType ++ ascii " " ++ fname ++
    ascii "(" ++ params ++ ascii ")")
  return []

def typedDecl (d : Nat) : Parsing Bytes := do
  let retType ← parse .parseType
  if ← check .ident then
    let fname ← take
    let t ← tt
    if t = .lparen ∨ t = .lt then parse (.parseFuncDecl retType fname d)
    else initialised (retType ++ ascii " " ++ fname) d
  else return []

/-- A declaration that begins with an identifier; a semicolon is left when nothing else follows. -/
def namedDecl (d : Nat) : Parsing Bytes := do
  let iname ← take
  let t ← tt
  if t = .lparen ∨ t = .lt then parse (.parseFuncDecl [] iname d)
  else if t = .assign then initialised iname d
  else
    printAt d iname
    return []

def parseTopDeclAt (d : Nat) : Parsing Bytes := do
  match ← tt with
  | .kwImport => parse (.parseImport d)
  | .kwClass => parse (.parseClassDecl d)
  | .kwInterface => parse (.parseInterfaceDecl d)
  | .kwNamespace => parse (.parseNamespaceDecl d)
  | .kwEnum => parse (.parseEnumDecl d)
  | .kwExtern => parse (.parseExternDecl d)
  | .semi => do
      advance
      return []
  | .kwConst => constDecl d
  | .tilde => parse (.parseDtorDecl [] d)
  | t =>
      if isTypeStart t then typedDecl d
      else if t = .ident then namedDecl d
      else do
        advance
        return []

def parseTopDecl : Parsing Bytes := parse (.parseTopDeclAt 0)

def programLoop : Parsing Bytes := do
  if ← noneOf [.eof] then
    let _ ← parse .parseTopDecl
    parse .programLoop
  else return []

def parseProgram : Parsing Bytes := parse .programLoop

end Parsing

def ParseCall.body : ParseCall → Parsing Bytes
  | parseType => Parsing.parseType
  | parseParams => Parsing.parseParams
  | paramsLoop result first => Parsing.paramsLoop result first
  | parseExpr => Parsing.parseExpr
  | parseAssign => Parsing.parseAssign
  | parseOr => Parsing.parseOr
  | orLoop left => Parsing.orLoop left
  | parseAnd => Parsing.parseAnd
  | andLoop left => Parsing.andLoop left
  | parseCmp => Parsing.parseCmp
  | parseAdd => Parsing.parseAdd
  | addLoop left => Parsing.addLoop left
  | parseMul => Parsing.parseMul
  | mulLoop left => Parsing.mulLoop left
  | parseUnary => Parsing.parseUnary
  | parsePostfix => Parsing.parsePostfix
  | postfixLoop base going => Parsing.postfixLoop base going
  | parseArgList => Parsing.parseArgList
  | argLoop result first => Parsing.argLoop result first
  | parsePrimary => Parsing.parsePrimary
  | elemsLoop elems first => Parsing.elemsLoop elems first
  | pairsLoop pairs first => Parsing.pairsLoop pairs first
  | parseBlockBody d => Parsing.parseBlockBody d
  | parseBlockHeader header d => Parsing.parseBlockHeader header d
  | parseBlock d => Parsing.parseBlock d
  | stmtsLoop d => Parsing.stmtsLoop d
  | parseStmt d => Parsing.parseStmt d
  | declsLoop decls => Parsing.declsLoop decls
  | parseAssignRest left => Parsing.parseAssignRest left
  | parseIfBody d => Parsing.parseIfBody d
  | parseIfStmt d => Parsing.parseIfStmt d
  | parseWhileStmt d => Parsing.parseWhileStmt d
  | parseDoWhileStmt d => Parsing.parseDoWhileStmt d
  | parseForStmt d => Parsing.parseForStmt d
  | parseSwitchStmt d => Parsing.parseSwitchStmt d
  | switchLoop d1 d2 => Parsing.switchLoop d1 d2
  | caseLoop d => Parsing.caseLoop d
  | parseMatchStmt d => Parsing.parseMatchStmt d
  | matchLoop d1 d2 => Parsing.matchLoop d1 d2
  | parseTryCatch d => Parsing.parseTryCatch d
  | parseImport d => Parsing.parseImport d
  | symsLoop syms first => Parsing.symsLoop syms first
  | parseDottedPath => Parsing.parseDottedPath
  | pathLoop path => Parsing.pathLoop path
  | parseFuncDecl retType name d => Parsing.parseFuncDecl retType name d
  | tparamsLoop stops tparams first => Parsing.tparamsLoop stops tparams first
  | parseDtorDecl className d => Parsing.parseDtorDecl className d
  | parseClassDecl d => Parsing.parseClassDecl d
  | basesLoop bases first => Parsing.basesLoop bases first
  | membersLoop className d => Parsing.membersLoop className d
  | parseClassMember className d => Parsing.parseClassMember className d
  | parseMemberAfterType memberType className d =>
      Parsing.parseMemberAfterType memberType className d
  | parseInterfaceDecl d => Parsing.parseInterfaceDecl d
  | parseNamespaceDecl d => Parsing.parseNamespaceDecl d
  | topLoop d => Parsing.topLoop d
  | parseEnumDecl d => Parsing.parseEnumDecl d
  | enumLoop d => Parsing.enumLoop d
  | payloadLoop payload first => Parsing.payloadLoop payload first
  | parseExternDecl d => Parsing.parseExternDecl d
  | parseTopDeclAt d => Parsing.parseTopDeclAt d
  | parseTopDecl => Parsing.parseTopDecl
  | parseProgram => Parsing.parseProgram
  | programLoop => Parsing.programLoop

def Call.body : Call → Prog Parser Call Bytes Bytes
  | scan c => c.body
  | advance => Scanning.advance
  | parse c => c.body.1

/-- `new Lexer(src)`, up to the first two tokens. -/
def Parser.start (src : Dux.Runtime.Text.DuxStr) : Parser where
  lx := { src := src, pos := 0, curTt := .eof, curTv := [], pekTt := .eof, pekTv := [] }
  out := []

/-- `--dump-ast`: the lexer, which reads two tokens, and the parser. -/
def dumpAst : Prog Parser Call Bytes Bytes := do
  let _ ← Scanning.scan (.lexOneInto false)
  let _ ← Scanning.scan (.lexOneInto true)
  Prog.call (.parse .parseProgram) .ret

end Dux.Bootstrap
