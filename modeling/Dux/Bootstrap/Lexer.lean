import Dux.Bootstrap.Tokens
import Dux.Logic.Procedures

/-!
# The lexer of the second stage

The methods of the class `Lexer` of `bootstrap/dux_stage2.dux`.
-/

namespace Dux.Bootstrap

open Dux.Logic (ascii Prog)
open Dux.Runtime (Bytes)
open Dux.Stdlib.Path (duxrtStrSlice)

/-- A piece of a method. -/
abbrev Scanning := Prog Parser Call Bytes

namespace Scanning

/-- `this`. -/
def lexer : Scanning Lexer := .look fun s => .ret s.lx

/-- `this.pos = this.pos + n`. -/
def skip (n : Int) : Scanning Unit :=
  .update (fun s => { s with lx := { s.lx with pos := s.lx.ahead n } }) (.ret ())

/-- The token at the end of `_lex_one_into`. -/
def store (isPeek : Bool) (tt : TokenType) (tv : Bytes) : Scanning Unit :=
  .update (fun s => { s with
    lx := if isPeek then { s.lx with pekTt := tt, pekTv := tv }
      else { s.lx with curTt := tt, curTv := tv } }) (.ret ())

/-- A call within the lexer. -/
def scan (c : ScanCall) : Scanning Bytes := .call (.scan c) .ret

/-- `while ws_going == 1 && this.pos < len(this.src)`. -/
def wsLoop (wsGoing : Bool) : Scanning Bytes := do
  let lx ← lexer
  if wsGoing ∧ lx.pos < lx.len then
    let c := lx.char
    if c = ascii " " ∨ c = ascii "\t" ∨ c = ascii "\r" ∨ c = ascii "\n" then
      skip 1
      scan (.wsLoop true)
    else scan (.wsLoop false)
  else return []

/-- `while this.pos < len(this.src) && this.src[this.pos] != "\n"`. -/
def lineLoop : Scanning Bytes := do
  let lx ← lexer
  if lx.pos < lx.len ∧ lx.char ≠ ascii "\n" then
    skip 1
    scan .lineLoop
  else return []

/-- `while this.pos + 1 < len(this.src) && found_end == 0`. -/
def blockLoop (foundEnd : Bool) : Scanning Bytes := do
  let lx ← lexer
  if lx.ahead 1 < lx.len ∧ !foundEnd then
    if lx.char = ascii "*" ∧ lx.peek 1 = ascii "/" then
      skip 2
      scan (.blockLoop true)
    else
      skip 1
      scan (.blockLoop false)
  else return []

/-- `while this.pos + 2 < len(this.src) && found_tq == 0`. -/
def tripleLoop (foundTq : Bool) : Scanning Bytes := do
  let lx ← lexer
  if lx.ahead 2 < lx.len ∧ !foundTq then
    if lx.char = ascii "\"" ∧ lx.peek 1 = ascii "\"" ∧ lx.peek 2 = ascii "\"" then
      skip 3
      scan (.tripleLoop true)
    else
      skip 1
      scan (.tripleLoop false)
  else return []

/-- The second half of a turn of `_skip_ws_and_comments`: whether there was something to skip. -/
def skipComment : Scanning Bool := do
  let lx ← lexer
  if lx.pos < lx.len then
    let c2 := lx.char
    if c2 = ascii "#" then
      let _ ← scan .lineLoop
      return true
    else if c2 = ascii "/" ∧ lx.follows 1 "/" then
      let _ ← scan .lineLoop
      return true
    else if c2 = ascii "/" ∧ lx.follows 1 "*" then
      skip 2
      let _ ← scan (.blockLoop false)
      return true
    else if lx.ahead 2 < lx.len ∧ lx.char = ascii "\"" ∧ lx.peek 1 = ascii "\"" ∧
        lx.peek 2 = ascii "\"" then
      skip 3
      let _ ← scan (.tripleLoop false)
      return true
    else return false
  else return false

/-- `while going == 1`. -/
def skipLoop (going : Bool) : Scanning Bytes := do
  if going then
    let _ ← scan (.wsLoop true)
    let going ← skipComment
    scan (.skipLoop going)
  else return []

def skipWsAndComments : Scanning Bytes := scan (.skipLoop true)

def identLoop : Scanning Bytes := do
  let lx ← lexer
  if lx.pos < lx.len ∧ isAlnumUnder lx.char then
    skip 1
    scan .identLoop
  else return []

def readIdent : Scanning Bytes := do
  let start := (← lexer).pos
  let _ ← scan .identLoop
  let lx ← lexer
  return duxrtStrSlice lx.src.chars start lx.pos

/-- What the character behind a backslash stands for. -/
def unescape (nc : Bytes) : Bytes :=
  if nc = ascii "n" then ascii "\n"
  else if nc = ascii "t" then ascii "\t"
  else if nc = ascii "r" then ascii "\r"
  else if nc = ascii "\\" then ascii "\\"
  else if nc = ascii "\"" then ascii "\""
  else if nc = ascii "'" then ascii "'"
  else ascii "\\" ++ nc

def stringLoop (quote result : Bytes) (done : Bool) : Scanning Bytes := do
  let lx ← lexer
  if lx.pos < lx.len ∧ !done then
    let c := lx.char
    if c = quote then
      skip 1
      scan (.stringLoop quote result true)
    else if c = ascii "\\" ∧ lx.ahead 1 < lx.len then
      let nc := lx.peek 1
      skip 2
      scan (.stringLoop quote (result ++ unescape nc) false)
    else
      skip 1
      scan (.stringLoop quote (result ++ c) false)
  else return result

def readStringContent (quote : Bytes) : Scanning Bytes := scan (.stringLoop quote [] false)

def digitsLoop : Scanning Bytes := do
  let lx ← lexer
  if lx.pos < lx.len ∧ isDigit lx.char then
    skip 1
    scan .digitsLoop
  else return []

/-- The fraction of a number, if there is one. -/
def lexFraction : Scanning Bool := do
  let lx ← lexer
  if lx.pos < lx.len ∧ lx.char = ascii "." then
    if lx.ahead 1 < lx.len ∧ isDigit (lx.peek 1) then
      skip 1
      let _ ← scan .digitsLoop
      return true
    else return false
  else return false

/-- The letter behind a number, and the token. -/
def lexSuffix (isFloat : Bool) : Scanning TokenType := do
  let lx ← lexer
  if lx.pos < lx.len ∧ lx.char = ascii "l" then
    skip 1
    return .longLit
  else if lx.pos < lx.len ∧ lx.char = ascii "i" then
    skip 1
    return .intLit
  else if lx.pos < lx.len ∧ lx.char = ascii "f" then
    skip 1
    return .realLit
  else if lx.pos < lx.len ∧ lx.char = ascii "d" then
    skip 1
    return .floatLit
  else return if isFloat then .floatLit else .intLit

/-- The token that begins at a digit. -/
def lexNumber : Scanning (TokenType × Bytes) := do
  let start := (← lexer).pos
  let _ ← scan .digitsLoop
  let isFloat ← lexFraction
  let lx ← lexer
  let num := duxrtStrSlice lx.src.chars start lx.pos
  let tt ← lexSuffix isFloat
  return (tt, num)

/-- The token at a position inside the source. -/
def lexToken : Scanning (TokenType × Bytes) := do
  let lx ← lexer
  let c := lx.char
  if isAlpha c ∨ c = ascii "_" then
    let tv ← scan .readIdent
    return (kwOrIdent tv, tv)
  else if isDigit c then lexNumber
  else if c = ascii "\"" then
    skip 1
    let tv ← scan (.readStringContent (ascii "\""))
    return (.strLit, tv)
  else if c = ascii "'" then
    skip 1
    let tv ← scan (.readStringContent (ascii "'"))
    return (.strLit, tv)
  else
    match symbols.find? fun symbol => lx.startsWith symbol.1 with
    | some (symbol, tt) =>
        skip symbol.length
        return (tt, ascii symbol)
    | none =>
        skip 1
        return (.unknown, c)

def lexOneInto (isPeek : Bool) : Scanning Bytes := do
  let _ ← scan .skipWsAndComments
  let lx ← lexer
  if lx.len ≤ lx.pos then
    store isPeek .eof []
    return []
  else
    let token ← lexToken
    store isPeek token.1 token.2
    return []

def advance : Scanning Bytes :=
  .update (fun s => { s with lx := { s.lx with curTt := s.lx.pekTt, curTv := s.lx.pekTv } })
    (scan (.lexOneInto true))

end Scanning

def ScanCall.body : ScanCall → Scanning Bytes
  | lexOneInto isPeek => Scanning.lexOneInto isPeek
  | skipWsAndComments => Scanning.skipWsAndComments
  | skipLoop going => Scanning.skipLoop going
  | wsLoop wsGoing => Scanning.wsLoop wsGoing
  | lineLoop => Scanning.lineLoop
  | blockLoop foundEnd => Scanning.blockLoop foundEnd
  | tripleLoop foundTq => Scanning.tripleLoop foundTq
  | readIdent => Scanning.readIdent
  | identLoop => Scanning.identLoop
  | digitsLoop => Scanning.digitsLoop
  | readStringContent quote => Scanning.readStringContent quote
  | stringLoop quote result done => Scanning.stringLoop quote result done

end Dux.Bootstrap
