import Dux.Logic.CText
import Dux.Runtime.Str

/-!
# HTTP responses

`duxrt_http_format_response` prints a response into a buffer of fixed size, and
`parse_response` reads one (`src/runtime/net_http.c`).  Printing at a place outside the
buffer, or reading there, has no result.
-/

namespace Dux.Runtime.Http

open Logic (cText isSpace strstr strchr ascii printInt scanInt decimal)

def HTTP_BUF_SIZE : Nat := 64 * 1024

def crlf : Bytes := [0x0d, 0x0a]

/-- An empty line behind another line. -/
def blankLine : Bytes := [0x0d, 0x0a, 0x0d, 0x0a]

/-! ## Printing -/

/-- A buffer after `snprintf` at the end of what it holds, read up to where the text would
end.  A text that just does not fit loses its last byte to the terminator. -/
def printTo (size : Nat) (buf text : Bytes) : Option Bytes :=
  if buf.length + text.length < size then some (buf ++ text)
  else if buf.length < size ∧ buf.length + text.length = size then
    some (buf ++ text.dropLast ++ [0])
  else none

def intLength (n : Nat) : Int := (n : Int).bmod (2 ^ 32)

/-- The text up to the end of the headers. -/
def responseHead (status : Int32) (statusText : Bytes) (bodyLen : Int) : Bytes :=
  ascii "HTTP/1.1 " ++ printInt status.toInt ++ ascii " " ++ statusText ++ crlf ++
    (ascii "Content-Length: " ++ printInt bodyLen ++ crlf ++ (ascii "Connection: close" ++ crlf))

/-- Add a body to what a buffer holds, if it fits.  An `int` that overflows has no result. -/
def appendBody (size : Nat) (buf body : Bytes) : Option Bytes :=
  let bodyLen := intLength body.length
  if bodyLen ≤ 0 then some buf
  else if 2 ^ 31 ≤ buf.length + bodyLen then none
  else if buf.length + bodyLen < size then some (buf ++ body.take bodyLen.toNat)
  else some buf

/-- `duxrt_http_format_response`, for strings that may be null. -/
def duxrtHttpFormatResponse (status : Int32) (statusText body : Option Bytes) : Option Bytes :=
  let st := (statusText.map cText).getD (ascii "OK")
  let body := body.getD []
  (printTo HTTP_BUF_SIZE [] (responseHead status st (intLength body.length))).bind fun head =>
    (printTo HTTP_BUF_SIZE head crlf).bind fun buf => appendBody HTTP_BUF_SIZE buf body

/-! ## Reading -/

/-- The first line of a text without its end, and what follows. -/
def firstLine (p : Bytes) : Option (Bytes × Bytes) :=
  match strstr crlf p with
  | some (line, rest) => some (line, rest.drop 2)
  | none => (strchr 0x0a p).map fun r => (r.1, r.2.drop 1)

/-- Name and value of a header line. -/
def headerOf (line : Bytes) : Option (Bytes × Bytes) :=
  (strchr 0x3a line).map fun r =>
    let value := (r.2.drop 1).dropWhile (· = 0x20)
    (r.1, if value.getLast? = some 0x0d then value.dropLast else value)

theorem length_firstLine_lt {p line rest : Bytes} (isLine : firstLine p = some (line, rest)) :
    rest.length < p.length := by
  unfold firstLine at isLine
  split at isLine
  · next line' rest' found =>
    cases isLine
    obtain ⟨rfl, isPrefix⟩ := Logic.strstr_some found
    have atLeast := isPrefix.length_le
    simp only [crlf, List.length_cons, List.length_nil] at atLeast
    simp only [List.length_append, List.length_drop]
    omega
  · obtain ⟨⟨line', rest'⟩, found, result⟩ := Option.map_eq_some_iff.1 isLine
    cases result
    obtain ⟨rfl, isPrefix⟩ := Logic.strstr_some found
    have atLeast := isPrefix.length_le
    simp only [List.length_cons, List.length_nil] at atLeast
    simp only [List.length_append, List.length_drop]
    omega

/-- The loop over the header lines: the names and values that are set, in order. -/
def parseHeaders (p : Bytes) : List (Bytes × Bytes) :=
  if p = [] ∨ crlf <+: p ∨ p.head? = some 0x0a then []
  else
    match _line : firstLine p with
    | none => []
    | some (line, rest) => (headerOf line).toList ++ parseHeaders rest
termination_by p.length
decreasing_by exact length_firstLine_lt _line

/-- What follows the first empty line. -/
def findBody (raw : Bytes) : Bytes :=
  match strstr blankLine raw with
  | some (_, rest) => rest.drop 4
  | none =>
      match strstr [0x0a, 0x0a] raw with
      | some (_, rest) => rest.drop 2
      | none => []

/-- `sscanf` of the status line with `"HTTP/%*s %d %63[^\\r\\n]"`. -/
def scanStatus (raw : Bytes) : Int32 × Bytes :=
  if ascii "HTTP/" <+: raw then
    let p := (raw.drop 5).dropWhile isSpace
    if p.takeWhile (!isSpace ·) = [] then (0, [])
    else
      match scanInt (p.dropWhile (!isSpace ·)) with
      | none => (0, [])
      | some (n, rest) =>
          (Int32.ofInt n,
            ((rest.dropWhile isSpace).takeWhile fun b => b ≠ 0x0d ∧ b ≠ 0x0a).take 63)
  else (0, [])

/-- `DuxHttpResp`; the headers are given by the names and values that are set. -/
structure DuxHttpResp where
  status : Int32
  statusText : Bytes
  headers : List (Bytes × Bytes) := []
  body : Bytes

def parseResponse (raw : Bytes) : DuxHttpResp :=
  match firstLine raw with
  | none => { status := 0, statusText := ascii "Bad Response", body := raw }
  | some (_, rest) =>
      { status := (scanStatus raw).1, statusText := (scanStatus raw).2
        headers := parseHeaders rest, body := findBody raw }

/-- `duxrt_http_resp_header`: the value that was set last. -/
def DuxHttpResp.header (r : DuxHttpResp) (name : Bytes) : Option Bytes :=
  r.headers.reverse.lookup name

/-- The bytes of a message behind its first empty line. -/
def bodyBytes (msg : Bytes) : Bytes :=
  ((strstr blankLine msg).map fun r => r.2.drop 4).getD []

/-- A message is read with a status and a body, and announces the length of what it
carries. -/
def ReadsAs (status : Int32) (body msg : Bytes) : Prop :=
  (parseResponse (cText msg)).status = status ∧ (parseResponse (cText msg)).body = body ∧
    (parseResponse (cText msg)).header (ascii "Content-Length") =
      some (decimal (bodyBytes msg).length)

/-- A response is read as it was meant, and its length is announced. -/
def ResponseSurvives (status : Int32) (statusText body : Bytes) : Prop :=
  ∃ msg, duxrtHttpFormatResponse status (some statusText) (some body) = some msg ∧
    ReadsAs status body msg

/-! ## Lines -/

/-- A text without line breaks. -/
def NoBreak (line : Bytes) : Prop := 0x0d ∉ line ∧ 0x0a ∉ line

instance instDecidableNoBreak (line : Bytes) : Decidable (NoBreak line) :=
  inferInstanceAs (Decidable (_ ∧ _))

theorem NoBreak.append {left right : Bytes} (first : NoBreak left) (second : NoBreak right) :
    NoBreak (left ++ right) := by
  constructor
  · exact fun member => (List.mem_append.1 member).elim first.1 second.1
  · exact fun member => (List.mem_append.1 member).elim first.2 second.2

theorem mem_printInt {n : Int} {b : UInt8} (member : b ∈ printInt n) :
    Logic.isDigit b = true ∨ b = 0x2d := by
  unfold printInt at member
  split at member
  · rcases List.mem_cons.1 member with rfl | digit
    · exact .inr rfl
    · exact .inl (Logic.isDigit_decimal digit)
  · exact .inl (Logic.isDigit_decimal member)

theorem notMem_printInt {b : UInt8} (noDigit : Logic.isDigit b = false) (noSign : b ≠ 0x2d)
    (n : Int) : b ∉ printInt n := by
  intro member
  rcases mem_printInt member with digit | sign
  · rw [digit] at noDigit
    cases noDigit
  · exact noSign sign

theorem noBreak_printInt (n : Int) : NoBreak (printInt n) :=
  ⟨notMem_printInt rfl (by decide) n, notMem_printInt rfl (by decide) n⟩

section Lines

variable {line : Bytes}

theorem firstLine_append (noBreak : NoBreak line) (rest : Bytes) :
    firstLine (line ++ (crlf ++ rest)) = some (line, rest) := by
  have found : strstr crlf (line ++ (crlf ++ rest)) = some (line, crlf ++ rest) := by
    rw [crlf, Logic.strstr_append_of_notMem noBreak.1, ← crlf,
      Logic.strstr_of_isPrefix (List.prefix_append _ _)]
    simp
  rw [firstLine, found]
  rfl

theorem strstr_line {pat : Bytes} {c : UInt8} (noBreak : NoBreak line)
    (visible : c ≠ 0x0d ∧ c ≠ 0x0a) (isPat : pat = blankLine ∨ pat = [0x0a, 0x0a]) (rest : Bytes) :
    (strstr pat (line ++ (crlf ++ c :: rest))).map (·.2) = (strstr pat (c :: rest)).map (·.2) := by
  have atBreak (first : UInt8) (more : Bytes) (isFirst : pat = first :: more)
      (absent : first ∉ line) (notCr : ¬pat <+: 0x0d :: 0x0a :: c :: rest)
      (notLf : ¬pat <+: 0x0a :: c :: rest) :
      (strstr pat (line ++ (crlf ++ c :: rest))).map (·.2) =
        (strstr pat (c :: rest)).map (·.2) := by
    subst isFirst
    rw [Logic.strstr_append_of_notMem absent, crlf, List.cons_append, List.cons_append,
      List.nil_append, Logic.strstr_cons_of_not_isPrefix notCr,
      Logic.strstr_cons_of_not_isPrefix notLf]
    simp only [Option.map_map]
    rfl
  rcases isPat with rfl | rfl
  · apply atBreak 0x0d [0x0a, 0x0d, 0x0a] rfl noBreak.1
    · simp [blankLine, Ne.symm visible.1]
    · simp [blankLine]
  · apply atBreak 0x0a [0x0a] rfl noBreak.2
    · simp
    · simp [Ne.symm visible.2]

theorem strstr_blankLine (noBreak : NoBreak line) (body : Bytes) :
    (strstr blankLine (line ++ (crlf ++ (crlf ++ body)))).map (·.2) =
      some (crlf ++ (crlf ++ body)) := by
  have found : blankLine <+: crlf ++ (crlf ++ body) := ⟨body, rfl⟩
  rw [blankLine, Logic.strstr_append_of_notMem noBreak.1, ← blankLine,
    Logic.strstr_of_isPrefix found]
  rfl

theorem parseHeaders_line {b : UInt8} (noBreak : NoBreak (b :: line)) (rest : Bytes) :
    parseHeaders (b :: line ++ (crlf ++ rest)) =
      (headerOf (b :: line)).toList ++ parseHeaders rest := by
  have goesOn : ¬(b :: line ++ (crlf ++ rest) = [] ∨ crlf <+: b :: line ++ (crlf ++ rest) ∨
      (b :: line ++ (crlf ++ rest)).head? = some 0x0a) := by
    rintro (isNil | isBreak | isBreak)
    · cases isNil
    · rw [crlf, List.cons_append, List.cons_prefix_cons] at isBreak
      exact noBreak.1 (isBreak.1 ▸ List.mem_cons_self)
    · simp only [List.cons_append, List.head?_cons, Option.some.injEq] at isBreak
      exact noBreak.2 (isBreak ▸ List.mem_cons_self)
  rw [parseHeaders, if_neg goesOn]
  split
  · next none =>
    rw [firstLine_append noBreak] at none
    cases none
  · next line' rest' isLine =>
    rw [firstLine_append noBreak] at isLine
    cases isLine
    rfl

end Lines

/-! ## Reading what was printed -/

/-- The lines of a response. -/
def statusLine (status : Int32) (statusText : Bytes) : Bytes :=
  ascii "HTTP/1.1 " ++ printInt status.toInt ++ ascii " " ++ statusText

def lengthLine (n : Int) : Bytes := ascii "Content-Length: " ++ printInt n

def closeLine : Bytes := ascii "Connection: close"

theorem responseHead_append (status : Int32) (statusText : Bytes) (n : Int) (tail : Bytes) :
    responseHead status statusText n ++ tail =
      statusLine status statusText ++
        (crlf ++ (lengthLine n ++ (crlf ++ (closeLine ++ (crlf ++ tail))))) := by
  simp only [responseHead, statusLine, lengthLine, closeLine, List.append_assoc]

theorem noBreak_lengthLine (n : Int) : NoBreak (lengthLine n) :=
  NoBreak.append (by decide) (noBreak_printInt n)

theorem noBreak_closeLine : NoBreak closeLine := by decide

section Read

variable {status : Int32} {statusText : Bytes} {n : Int} (noBreak : NoBreak statusText)
  (tail : Bytes)

theorem noBreak_statusLine (status : Int32) (noBreak : NoBreak statusText) :
    NoBreak (statusLine status statusText) :=
  (NoBreak.append (NoBreak.append (by decide) (noBreak_printInt _)) (by decide)).append noBreak

theorem scanStatus_head : (scanStatus (responseHead status statusText n ++ tail)).1 = status := by
  obtain ⟨more, isRaw⟩ : ∃ more, responseHead status statusText n ++ tail = ascii "HTTP/" ++
      (ascii "1.1" ++ (0x20 :: (printInt status.toInt ++ (0x20 :: more)))) := by
    have front : ascii "HTTP/1.1 " = ascii "HTTP/" ++ (ascii "1.1" ++ [0x20]) := by decide
    have space : ascii " " = [0x20] := by decide
    refine ⟨statusText ++ (crlf ++ (lengthLine n ++ (crlf ++ (closeLine ++ (crlf ++ tail))))), ?_⟩
    rw [responseHead_append, statusLine, front, space]
    simp only [List.append_assoc, List.cons_append, List.nil_append]
  have version : (ascii "1.1" ++ (0x20 :: (printInt status.toInt ++ (0x20 :: more)))).takeWhile
      (!isSpace ·) = ascii "1.1" := by
    rw [List.takeWhile_append_of_pos (by decide +kernel)]
    rfl
  have behind : (ascii "1.1" ++ (0x20 :: (printInt status.toInt ++ (0x20 :: more)))).dropWhile
      (!isSpace ·) = 0x20 :: (printInt status.toInt ++ (0x20 :: more)) := by
    rw [List.dropWhile_append_of_pos (by decide +kernel)]
    rfl
  have number : scanInt (0x20 :: (printInt status.toInt ++ (0x20 :: more))) =
      some (status.toInt, 0x20 :: more) := by
    apply Logic.scanInt_printInt
    rintro b ⟨rfl⟩
    rfl
  have shown : ((ascii "HTTP/" ++ (ascii "1.1" ++
      (0x20 :: (printInt status.toInt ++ (0x20 :: more))))).drop 5).dropWhile isSpace =
        ascii "1.1" ++ (0x20 :: (printInt status.toInt ++ (0x20 :: more))) := rfl
  rw [isRaw, scanStatus, if_pos (List.prefix_append _ _)]
  simp only [shown, version, behind, number, Int32.ofInt_toInt]
  rfl

theorem headers_head (ends : parseHeaders tail = []) :
    parseHeaders (lengthLine n ++ (crlf ++ (closeLine ++ (crlf ++ tail)))) =
      [(ascii "Content-Length", printInt n), (ascii "Connection", ascii "close")] := by
  have length : headerOf (lengthLine n) = some (ascii "Content-Length", printInt n) := by
    have isLine : lengthLine n = ascii "Content-Length" ++ (0x3a :: 0x20 :: printInt n) := by
      have front : ascii "Content-Length: " = ascii "Content-Length" ++ [0x3a, 0x20] := by decide
      rw [lengthLine, front]
      simp only [List.append_assoc, List.cons_append, List.nil_append]
    have value : (0x20 :: printInt n).dropWhile (· = 0x20) = printInt n := by
      rw [List.dropWhile_cons_of_pos (by decide), List.dropWhile_eq_self_iff]
      intro positive
      have space := notMem_printInt (b := 0x20) rfl (by decide) n
      simp only [decide_eq_true_eq]
      intro isSpace
      exact space (isSpace ▸ List.getElem_mem positive)
    have noReturn : (printInt n).getLast? ≠ some 0x0d :=
      fun last => (noBreak_printInt n).1 (List.mem_of_getLast? last)
    have colon : [0x3a] <+: 0x3a :: 0x20 :: printInt n := ⟨0x20 :: printInt n, rfl⟩
    rw [headerOf, isLine, strchr, Logic.strstr_append_of_notMem (by decide),
      Logic.strstr_of_isPrefix colon]
    simp only [Option.map_some, List.append_nil, List.drop_succ_cons, List.drop_zero, value,
      if_neg noReturn]
  have close : headerOf closeLine = some (ascii "Connection", ascii "close") := by
    decide +kernel
  have first : lengthLine n = 0x43 :: (lengthLine n).tail := rfl
  have second : closeLine = 0x43 :: closeLine.tail := rfl
  rw [first, parseHeaders_line (first ▸ noBreak_lengthLine n), ← first, length, second,
    parseHeaders_line (second ▸ noBreak_closeLine), ← second, close, ends]
  rfl

include noBreak

theorem strstr_head (body : Bytes) :
    (strstr blankLine (responseHead status statusText n ++ (crlf ++ body))).map (·.2) =
      some (crlf ++ (crlf ++ body)) := by
  have first : lengthLine n = 0x43 :: (lengthLine n).tail := rfl
  have second : closeLine = 0x43 :: closeLine.tail := rfl
  rw [responseHead_append, first, List.cons_append,
    strstr_line (noBreak_statusLine status noBreak) (by decide) (.inl rfl), ← List.cons_append,
    ← first, second, List.cons_append, strstr_line (noBreak_lengthLine n) (by decide) (.inl rfl),
    ← List.cons_append, ← second, strstr_blankLine noBreak_closeLine]

theorem findBody_head (body : Bytes) :
    findBody (responseHead status statusText n ++ (crlf ++ body)) = body := by
  obtain ⟨⟨before, rest⟩, isFound, rfl⟩ := Option.map_eq_some_iff.1 (strstr_head noBreak body)
  rw [findBody, isFound]
  rfl

theorem bodyBytes_head (body : Bytes) :
    bodyBytes (responseHead status statusText n ++ (crlf ++ body)) = body := by
  obtain ⟨⟨before, rest⟩, isFound, rfl⟩ := Option.map_eq_some_iff.1 (strstr_head noBreak body)
  rw [bodyBytes, isFound]
  rfl

theorem strstr_head_eq_none {pat : Bytes} (isPat : pat = blankLine ∨ pat = [0x0a, 0x0a])
    (atEnd : strstr pat (closeLine ++ (crlf ++ tail)) = none) :
    strstr pat (responseHead status statusText n ++ tail) = none := by
  have first : lengthLine n = 0x43 :: (lengthLine n).tail := rfl
  have second : closeLine = 0x43 :: closeLine.tail := rfl
  rw [responseHead_append, ← Option.map_eq_none_iff (f := fun r : Bytes × Bytes => r.2), first,
    List.cons_append, strstr_line (noBreak_statusLine status noBreak) (by decide) isPat,
    ← List.cons_append, ← first, second, List.cons_append,
    strstr_line (noBreak_lengthLine n) (by decide) isPat, ← List.cons_append, ← second, atEnd]
  rfl

theorem findBody_cut : findBody (responseHead status statusText n ++ [0x0d]) = [] := by
  rw [findBody, strstr_head_eq_none noBreak _ (.inl rfl) (by decide +kernel)]
  simp only [strstr_head_eq_none noBreak [0x0d] (.inr rfl) (by decide +kernel)]

omit noBreak in
theorem parseResponse_head (status : Int32) (n : Int) (noBreak : NoBreak statusText)
    (ends : parseHeaders tail = []) :
    (parseResponse (responseHead status statusText n ++ tail)).status = status ∧
      (parseResponse (responseHead status statusText n ++ tail)).body =
        findBody (responseHead status statusText n ++ tail) ∧
      (parseResponse (responseHead status statusText n ++ tail)).header (ascii "Content-Length") =
        some (printInt n) := by
  have isLine : firstLine (responseHead status statusText n ++ tail) =
      some (statusLine status statusText,
        lengthLine n ++ (crlf ++ (closeLine ++ (crlf ++ tail)))) := by
    rw [responseHead_append]
    exact firstLine_append (noBreak_statusLine status noBreak) _
  have headers := headers_head (n := n) tail ends
  constructor
  · rw [parseResponse, isLine]
    exact scanStatus_head tail
  · constructor
    · rw [parseResponse, isLine]
    · rw [parseResponse, isLine, DuxHttpResp.header]
      simp only [headers]
      have other : (ascii "Content-Length" == ascii "Connection") = false := by decide
      simp [List.lookup_cons, other]

end Read

/-! ## Responses that survive -/

/-- What is in the buffer before the body: the head and an empty line, or half of it if it
just does not fit. -/
theorem printHead_eq (head : Bytes) :
    ((printTo HTTP_BUF_SIZE [] head).bind fun head => printTo HTTP_BUF_SIZE head crlf) =
      if head.length + 2 < HTTP_BUF_SIZE then some (head ++ crlf)
      else if head.length + 2 = HTTP_BUF_SIZE then some (head ++ [0x0d, 0])
      else none := by
  have positive : 0 < HTTP_BUF_SIZE := by decide
  have two : crlf.length = 2 := rfl
  unfold printTo
  simp only [List.length_nil, Nat.zero_add, List.nil_append]
  by_cases fits : head.length < HTTP_BUF_SIZE
  · rw [if_pos fits, Option.bind_some, two]
    simp only [fits, true_and]
    split
    · rfl
    · split
      · simp [crlf]
      · rfl
  · have far : ¬head.length + 2 < HTTP_BUF_SIZE ∧ ¬head.length + 2 = HTTP_BUF_SIZE := by omega
    rw [if_neg fits, if_neg far.1, if_neg far.2]
    split
    · next exact' =>
      have full : (head.dropLast ++ [0]).length = HTTP_BUF_SIZE := by
        simp only [List.length_append, List.length_dropLast, List.length_singleton]
        omega
      rw [Option.bind_some, full, two, if_neg (by omega), if_neg (by omega)]
    · rfl

/-- The body is empty and the head just fits, or the body has no terminator and all fits. -/
def ResponseFits (status : Int32) (statusText body : Bytes) : Prop :=
  (body = [] ∧
      (responseHead status (cText statusText) (intLength body.length)).length + 2 ≤ HTTP_BUF_SIZE) ∨
    (body ≠ [] ∧ 0 ∉ body ∧
      (responseHead status (cText statusText) (intLength body.length)).length + 2 + body.length <
        HTTP_BUF_SIZE)

@[simp] theorem intLength_zero : intLength 0 = 0 := Int.zero_bmod

theorem intLength_of_lt {n : Nat} (small : n < HTTP_BUF_SIZE) : intLength n = n := by
  have size : HTTP_BUF_SIZE = 65536 := rfl
  apply Int.bmod_eq_of_le <;> omega

theorem exists_of_appendBody {size : Nat} {buf body msg : Bytes}
    (appended : appendBody size buf body = some msg) : ∃ added, msg = buf ++ added := by
  unfold appendBody at appended
  simp only at appended
  split at appended
  · exact ⟨[], by simpa using appended.symm⟩
  · split at appended
    · cases appended
    · split at appended
      · exact ⟨_, (Option.some.inj appended).symm⟩
      · exact ⟨[], by simpa using appended.symm⟩

theorem appendBody_full {size : Nat} {buf body msg : Bytes} (full : buf.length = size)
    (appended : appendBody size buf body = some msg) : msg = buf := by
  unfold appendBody at appended
  simp only at appended
  split at appended
  · exact (Option.some.inj appended).symm
  · split at appended
    · cases appended
    · rw [if_neg (by omega)] at appended
      exact (Option.some.inj appended).symm

/-- A body is appended as a whole, to be read up to its first terminator, exactly if it has
none and fits. -/
theorem appendBody_whole_iff (buf body : Bytes) :
    (∃ added, appendBody HTTP_BUF_SIZE buf body = some (buf ++ added) ∧ cText added = body ∧
        intLength body.length = added.length) ↔
      0 ∉ body ∧ (body = [] ∨ buf.length + body.length < HTTP_BUF_SIZE) := by
  have size : HTTP_BUF_SIZE = 65536 := rfl
  unfold appendBody
  simp only
  constructor
  · rintro ⟨added, appended, isBody, isLength⟩
    split at appended
    · have empty : added = [] := List.self_eq_append_right.1 (Option.some.inj appended)
      subst empty
      subst isBody
      exact ⟨List.not_mem_nil, .inl rfl⟩
    · split at appended
      · cases appended
      · split at appended
        · next fits =>
          rw [Option.some.injEq, List.append_cancel_left_eq] at appended
          have atMost : (cText added).length ≤ added.length := (List.takeWhile_sublist _).length_le
          have whole : added = body := by
            rw [isBody, ← appended, List.length_take] at atMost
            rw [← appended, List.take_of_length_le (by omega)]
          rw [whole] at isBody isLength
          exact ⟨Logic.cText_eq_self_iff.1 isBody, .inr (by omega)⟩
        · have empty : added = [] := List.self_eq_append_right.1 (Option.some.inj appended)
          subst empty
          subst isBody
          exact ⟨List.not_mem_nil, .inl rfl⟩
  · rintro ⟨noNul, rfl | fits⟩
    · refine ⟨[], ?_, rfl, intLength_zero⟩
      rw [List.length_nil, intLength_zero, if_pos le_rfl, List.append_nil]
    · have isLength := intLength_of_lt (n := body.length) (by omega)
      refine ⟨body, ?_, Logic.cText_eq_self_iff.2 noNul, isLength⟩
      rw [isLength]
      split
      · have empty : body = [] := List.length_eq_zero_iff.1 (by omega)
        rw [empty, List.append_nil]
      · rw [if_neg (by omega), if_pos (by omega), Int.toNat_natCast, List.take_length]

theorem printInt_eq_decimal_iff {n : Int} {k : Nat} : printInt n = decimal k ↔ n = k := by
  unfold printInt
  constructor
  · intro same
    split at same
    · have digit : Logic.isDigit 0x2d = true :=
        Logic.isDigit_decimal (n := k) (same ▸ List.mem_cons_self)
      cases digit
    · have value : n.natAbs = k := by
        rw [← Logic.digitsValue_decimal n.natAbs, same, Logic.digitsValue_decimal]
      omega
  · rintro rfl
    rw [if_neg (by omega), Int.natAbs_natCast]

theorem noNul_responseHead (status : Int32) (statusText : Bytes) (n : Int) :
    0 ∉ responseHead status (cText statusText) n := by
  have noNul (n : Int) : 0 ∉ printInt n := notMem_printInt rfl (by decide) n
  have text := Logic.cText_noNul statusText
  have front : 0 ∉ ascii "HTTP/1.1 " ∧ 0 ∉ ascii " " ∧ 0 ∉ crlf ∧ 0 ∉ ascii "Content-Length: " ∧
      0 ∉ ascii "Connection: close" := by decide
  simp only [responseHead, List.mem_append, noNul, text, front, or_self, not_false_eq_true]

theorem NoBreak.cText {text : Bytes} (noBreak : NoBreak text) : NoBreak (cText text) :=
  ⟨fun member => noBreak.1 ((List.takeWhile_sublist _).subset member),
    fun member => noBreak.2 ((List.takeWhile_sublist _).subset member)⟩

section Survive

variable {status : Int32} {statusText : Bytes}

theorem survives_complete_iff (noBreak : NoBreak statusText) (n : Int) (added body : Bytes) :
    ReadsAs status body (responseHead status (cText statusText) n ++ (crlf ++ added)) ↔
      cText added = body ∧ n = added.length := by
  have isText : cText (responseHead status (cText statusText) n ++ (crlf ++ added)) =
      responseHead status (cText statusText) n ++ (crlf ++ cText added) := by
    rw [Logic.cText_append_of_noNul (noNul_responseHead _ _ _),
      Logic.cText_append_of_noNul (by decide)]
  have ends : parseHeaders (crlf ++ cText added) = [] := by
    rw [parseHeaders, if_pos (.inr (.inl (List.prefix_append _ _)))]
  obtain ⟨sameStatus, sameBody, announced⟩ :=
    parseResponse_head _ status n noBreak.cText ends
  rw [ReadsAs, isText, sameStatus, sameBody, announced, findBody_head noBreak.cText,
    bodyBytes_head noBreak.cText, Option.some.injEq, printInt_eq_decimal_iff]
  simp

theorem survives_cut_iff (noBreak : NoBreak statusText) (n : Int) (body : Bytes) :
    ReadsAs status body (responseHead status (cText statusText) n ++ [0x0d, 0]) ↔
      body = [] ∧ n = 0 := by
  have isText : cText (responseHead status (cText statusText) n ++ [0x0d, 0]) =
      responseHead status (cText statusText) n ++ [0x0d] := by
    rw [Logic.cText_append_of_noNul (noNul_responseHead _ _ _)]
    rfl
  have ends : parseHeaders [0x0d] = [] := by
    rw [parseHeaders, if_neg (by decide)]
    rfl
  obtain ⟨sameStatus, sameBody, announced⟩ :=
    parseResponse_head _ status n noBreak.cText ends
  have noBody : bodyBytes (responseHead status (cText statusText) n ++ [0x0d, 0]) = [] := by
    rw [bodyBytes, strstr_head_eq_none noBreak.cText _ (.inl rfl) (by decide +kernel)]
    rfl
  rw [ReadsAs, isText, sameStatus, sameBody, announced, findBody_cut noBreak.cText, noBody,
    Option.some.injEq, printInt_eq_decimal_iff]
  simp [eq_comm]

/-- A response survives exactly if it fits. -/
theorem responseSurvives_iff (status : Int32) {statusText : Bytes} (noBreak : NoBreak statusText)
    (body : Bytes) :
    ResponseSurvives status statusText body ↔ ResponseFits status statusText body := by
  unfold ResponseSurvives ResponseFits duxrtHttpFormatResponse
  simp only [Option.map_some, Option.getD_some]
  rw [← Option.bind_assoc, printHead_eq]
  have size : HTTP_BUF_SIZE = 65536 := rfl
  set head := responseHead status (cText statusText) (intLength body.length) with isHead
  by_cases fits : head.length + 2 < HTTP_BUF_SIZE
  · have complete : (∃ msg, appendBody HTTP_BUF_SIZE (head ++ crlf) body = some msg ∧
        ReadsAs status body msg) ↔
        ∃ added, appendBody HTTP_BUF_SIZE (head ++ crlf) body = some (head ++ crlf ++ added) ∧
          cText added = body ∧ intLength body.length = added.length := by
      constructor
      · rintro ⟨msg, appended, survives⟩
        obtain ⟨added, rfl⟩ := exists_of_appendBody appended
        refine ⟨added, appended, ?_⟩
        rw [List.append_assoc] at survives
        exact (survives_complete_iff noBreak _ added body).1 survives
      · rintro ⟨added, appended, survives⟩
        refine ⟨_, appended, ?_⟩
        rw [List.append_assoc]
        exact (survives_complete_iff noBreak _ added body).2 survives
    have two : (head ++ crlf).length = head.length + 2 := List.length_append
    rw [if_pos fits, Option.bind_some, complete, appendBody_whole_iff, two]
    constructor
    · rintro ⟨noNul, rfl | whole⟩
      · exact .inl ⟨rfl, Nat.le_of_lt fits⟩
      · by_cases empty : body = []
        · exact .inl ⟨empty, Nat.le_of_lt fits⟩
        · exact .inr ⟨empty, noNul, whole⟩
    · rintro (⟨rfl, -⟩ | ⟨-, noNul, whole⟩)
      · exact ⟨List.not_mem_nil, .inl rfl⟩
      · exact ⟨noNul, .inr whole⟩
  · rw [if_neg fits]
    by_cases cut : head.length + 2 = HTTP_BUF_SIZE
    · have full : (head ++ [0x0d, 0]).length = HTTP_BUF_SIZE := by
        rw [List.length_append]
        exact cut
      rw [if_pos cut, Option.bind_some]
      constructor
      · rintro ⟨msg, appended, survives⟩
        rcases appendBody_full full appended with rfl
        exact .inl ⟨((survives_cut_iff noBreak _ body).1 survives).1, Nat.le_of_eq cut⟩
      · rintro (⟨rfl, -⟩ | ⟨-, -, whole⟩)
        · refine ⟨head ++ [0x0d, 0], ?_,
            (survives_cut_iff noBreak _ []).2 ⟨rfl, intLength_zero⟩⟩
          unfold appendBody
          simp only [List.length_nil, intLength_zero, le_refl, if_true]
        · omega
    · rw [if_neg cut, Option.bind_none]
      constructor
      · rintro ⟨msg, none, -⟩
        cases none
      · rintro (⟨-, bound⟩ | ⟨-, -, bound⟩) <;> omega

end Survive

/-- A short response survives. -/
theorem responseSurvives_hi : ResponseSurvives 200 (ascii "OK") (ascii "hi") :=
  (responseSurvives_iff 200 (by decide) (ascii "hi")).2
    (.inr ⟨by decide, by decide, by decide +kernel⟩)

/-- A body that is larger than the buffer is not sent, but its length is. -/
theorem not_responseSurvives :
    ¬ResponseSurvives 200 (ascii "OK") (List.replicate 65536 0x61) := by
  rintro ⟨msg, printed, survives⟩
  have large : intLength 65536 = 65536 := by decide
  have dropped (buf : Bytes) : appendBody HTTP_BUF_SIZE buf (List.replicate 65536 0x61) = some buf ∨
      appendBody HTTP_BUF_SIZE buf (List.replicate 65536 0x61) = none := by
    have size : HTTP_BUF_SIZE = 65536 := rfl
    unfold appendBody
    simp only [List.length_replicate, large]
    rw [if_neg (by decide)]
    split
    · exact .inr rfl
    · rw [if_neg (by omega)]
      exact .inl rfl
  unfold duxrtHttpFormatResponse at printed
  simp only [Option.map_some, Option.getD_some, List.length_replicate, large] at printed
  rw [← Option.bind_assoc, printHead_eq, if_pos (by decide +kernel), Option.bind_some] at printed
  rcases dropped (responseHead 200 (cText (ascii "OK")) 65536 ++ crlf) with kept | failed
  · rw [kept, Option.some.injEq] at printed
    subst printed
    rw [← List.append_nil crlf] at survives
    have empty := ((survives_complete_iff (by decide) _ [] _).1 survives).1
    rw [List.replicate_succ] at empty
    cases empty
  · rw [failed] at printed
    cases printed

end Dux.Runtime.Http
