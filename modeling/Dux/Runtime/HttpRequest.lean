import Dux.Runtime.HttpResponse

/-!
# HTTP requests

`url_parse` splits a URL, `duxrt_http_request` prints a request for it, and the server reads
that with `duxrt_http_parse_request` (`src/runtime/net_http.c`).
-/

namespace Dux.Runtime.Http

open Logic (cText isSpace strstr strchr ascii printInt scanInt decimal)

/-! ## URLs -/

structure DuxUrl where
  scheme : Bytes
  host : Bytes
  port : Int32
  path : Bytes
  deriving DecidableEq

def atoi (text : Bytes) : Int32 := ((scanInt text).map fun r => Int32.ofInt r.1).getD 0

/-- The text behind the scheme. -/
def afterScheme (url : Bytes) : Bytes :=
  ((strstr (ascii "://") url).map fun r => r.2.drop 3).getD []

/-- The text before the first slash. -/
def authority (p : Bytes) : Bytes := ((strchr 0x2f p).map fun r => r.1).getD p

def urlTarget (url : Bytes) : Bytes :=
  ((strchr 0x2f (afterScheme url)).map fun r => r.2).getD [0x2f]

def urlParse (url : Bytes) : Option DuxUrl :=
  match strstr (ascii "://") url with
  | none => none
  | some (scheme, _) =>
      if 16 ≤ scheme.length then none
      else
        let p := afterScheme url
        match strchr 0x3a (authority p) with
        | some (host, _) =>
            if 256 ≤ host.length then none
            else
              some { scheme, host, port := atoi (p.drop (host.length + 1))
                     path := (urlTarget url).take 4095 }
        | none =>
            if 256 ≤ (authority p).length then none
            else
              some { scheme, host := authority p
                     port := if scheme = ascii "https" then 443 else 80
                     path := (urlTarget url).take 4095 }

/-! ## Printing -/

def requestLine (meth path : Bytes) : Bytes := meth ++ 0x20 :: (path ++ ascii " HTTP/1.1")

def hostLine (host : Bytes) : Bytes := ascii "Host: " ++ host

def requestHead (meth path host : Bytes) (bodyLen : Int) : Bytes :=
  requestLine meth path ++ (crlf ++ (hostLine host ++ (crlf ++ (closeLine ++ (crlf ++
    (lengthLine bodyLen ++ crlf))))))

/-- What `duxrt_http_request` prints. -/
def requestText (meth : Bytes) (u : DuxUrl) (body : Bytes) : Option Bytes :=
  (printTo HTTP_BUF_SIZE [] (requestHead meth u.path u.host (intLength body.length))).bind
    fun head => (printTo HTTP_BUF_SIZE head crlf).bind fun buf => appendBody HTTP_BUF_SIZE buf body

/-! ## Reading -/

/-- `%s` of `sscanf` with a width: a word behind white space, and the rest. -/
def scanWord (width : Nat) (text : Bytes) : Option (Bytes × Bytes) :=
  let p := text.dropWhile isSpace
  let word := (p.takeWhile (!isSpace ·)).take width
  if word = [] then none else some (word, p.drop word.length)

/-- Method and target, which are scanned with `"%15s %4095s %15s"`. -/
def scanRequestLine (line : Bytes) : Bytes × Bytes :=
  match scanWord 15 line with
  | none => ([], [0x2f])
  | some (meth, rest) =>
      match scanWord 4095 rest with
      | none => (meth, [0x2f])
      | some (target, _) => (meth, target)

/-- A target up to the first question mark, and what is behind it. -/
def splitQuery (target : Bytes) : Bytes × Bytes :=
  ((strchr 0x3f target).map fun r => (r.1, r.2.drop 1)).getD (target, [])

/-- `DuxHttpServerReq`; the headers are given by the names and values that are set. -/
structure DuxHttpServerReq where
  method : Bytes
  path : Bytes
  query : Bytes
  headers : List (Bytes × Bytes)
  body : Bytes
  deriving DecidableEq

/-- The request line in its buffer. -/
def lineBuffer (raw : Bytes) : Bytes := ((firstLine raw).map fun r => r.1.take 8191).getD []

def duxrtHttpParseRequest (raw : Bytes) : DuxHttpServerReq :=
  let r := cText raw
  let words := scanRequestLine (lineBuffer r)
  { method := words.1
    path := (splitQuery words.2).1
    query := (splitQuery words.2).2
    headers := parseHeaders (((firstLine r).map fun l => l.2).getD r)
    body := findBody r }

/-- A method is a word. -/
def IsToken (meth : Bytes) : Prop := meth ≠ [] ∧ ∀ b ∈ meth, b ≠ 0 ∧ isSpace b = false

instance instDecidableIsToken (meth : Bytes) : Decidable (IsToken meth) :=
  inferInstanceAs (Decidable (_ ∧ _))

/-- A request is read as it was meant. -/
def RequestSurvives (meth url : Bytes) (u : DuxUrl) (body : Bytes) : Prop :=
  ∃ msg, requestText meth u body = some msg ∧
    (duxrtHttpParseRequest msg).method = meth ∧
    ((duxrtHttpParseRequest msg).path, (duxrtHttpParseRequest msg).query) =
      splitQuery (urlTarget url) ∧
    (duxrtHttpParseRequest msg).body = body

/-- The length of a path with its query. -/
def targetLength (target : Bytes) : Nat :=
  (splitQuery target).1.length +
    if (splitQuery target).2 = [] then 0 else (splitQuery target).2.length + 1

/-- Nothing of a request is longer than its buffer or has a delimiter in it. -/
structure RequestFits (meth url : Bytes) (u : DuxUrl) (body : Bytes) : Prop where
  method : meth.length ≤ 15
  target : targetLength (urlTarget url) ≤ 4095
  noSpace : ∀ b ∈ urlTarget url, isSpace b = false
  host : strstr blankLine (u.host ++ crlf) = none
  noNul : 0 ∉ body
  size : body = [] ∨
    (requestHead meth u.path u.host (intLength body.length)).length + 2 + body.length <
      HTTP_BUF_SIZE

/-! ## Words -/

theorem takeWhile_append_stop {α : Type*} {p : α → Bool} {stop : α} (stops : p stop = false)
    (left rest : List α) : (left ++ stop :: rest).takeWhile p = left.takeWhile p := by
  rw [List.takeWhile_append]
  split
  · next whole =>
    have all : left.takeWhile p = left := (List.takeWhile_prefix p).eq_of_length whole
    rw [List.takeWhile_cons_of_neg (by simp [stops]), List.append_nil, all]
  · rfl

theorem scanWord_cons {width : Nat} {b : UInt8} (visible : isSpace b = false) (rest : Bytes) :
    scanWord (width + 1) (b :: rest) =
      some (((b :: rest).takeWhile (!isSpace ·)).take (width + 1),
        (b :: rest).drop (((b :: rest).takeWhile (!isSpace ·)).take (width + 1)).length) := by
  rw [scanWord, List.dropWhile_cons_of_neg (by simp [visible]), if_neg]
  rw [List.takeWhile_cons_of_pos (by simp [visible]), List.take_succ_cons]
  exact List.cons_ne_nil _ _

theorem scanWord_space (width : Nat) {b : UInt8} (space : isSpace b = true) (rest : Bytes) :
    scanWord width (b :: rest) = scanWord width rest := by
  rw [scanWord, scanWord, List.dropWhile_cons_of_pos space]

theorem length_scanWord_le {width : Nat} {text word rest : Bytes}
    (scanned : scanWord width text = some (word, rest)) : word.length ≤ width := by
  unfold scanWord at scanned
  simp only at scanned
  split at scanned
  · cases scanned
  · cases scanned
    exact List.length_take_le _ _

theorem length_scanRequestLine_le (line : Bytes) : (scanRequestLine line).1.length ≤ 15 := by
  unfold scanRequestLine
  split
  · exact Nat.zero_le _
  · next scanned =>
    split
    · exact length_scanWord_le scanned
    · exact length_scanWord_le scanned

theorem scanRequestLine_append {meth target : Bytes} (isToken : IsToken meth)
    (short : meth.length ≤ 15) (isPath : target.head? = some 0x2f)
    (fits : (target.takeWhile (!isSpace ·)).length ≤ 4095) :
    scanRequestLine (meth ++ 0x20 :: target) = (meth, target.takeWhile (!isSpace ·)) := by
  obtain ⟨b, word, rfl⟩ := List.exists_cons_of_ne_nil isToken.1
  obtain ⟨more, rfl⟩ : ∃ more, target = 0x2f :: more := by
    cases target with
    | nil => cases isPath
    | cons c more =>
      cases isPath
      exact ⟨more, rfl⟩
  have method :
      ((b :: word ++ 0x20 :: 0x2f :: more).takeWhile (!isSpace ·)).take 15 = b :: word := by
    rw [takeWhile_append_stop rfl, List.takeWhile_eq_self_iff.2, List.take_of_length_le short]
    intro c member
    simp [(isToken.2 c member).2]
  have first : scanWord 15 (b :: word ++ 0x20 :: 0x2f :: more) =
      some (b :: word, 0x20 :: 0x2f :: more) := by
    rw [List.cons_append, scanWord_cons (isToken.2 b List.mem_cons_self).2, ← List.cons_append,
      method, List.drop_left]
  have second : scanWord 4095 (0x20 :: 0x2f :: more) =
      some ((0x2f :: more).takeWhile (!isSpace ·),
        (0x2f :: more).drop ((0x2f :: more).takeWhile (!isSpace ·)).length) := by
    rw [scanWord_space 4095 rfl, scanWord_cons rfl, List.take_of_length_le fits]
  rw [scanRequestLine, first]
  simp only
  rw [second]

/-! ## The request line -/

theorem exists_strstr {pat text : Bytes} (inside : pat <:+: text) :
    ∃ before found, strstr pat text = some (before, found) := by
  induction text with
  | nil => exact ⟨[], [], Logic.strstr_of_isPrefix (List.infix_nil.1 inside ▸ List.nil_prefix)⟩
  | cons b text ih =>
    by_cases here : pat <+: b :: text
    · exact ⟨[], b :: text, Logic.strstr_of_isPrefix here⟩
    · obtain ⟨before, found, isFound⟩ := ih ((List.infix_cons_iff.1 inside).resolve_left here)
      refine ⟨b :: before, found, ?_⟩
      rw [Logic.strstr_cons_of_not_isPrefix here, isFound]
      rfl

theorem scanRequestLine_lineBuffer {meth path : Bytes} (isToken : IsToken meth)
    (short : meth.length ≤ 15) (isPath : path.head? = some 0x2f) (fits : path.length ≤ 4095)
    {more : Bytes} (hasLine : crlf <:+: more) :
    scanRequestLine (lineBuffer (meth ++ 0x20 :: (path ++ 0x20 :: more))) =
      (meth, path.takeWhile (!isSpace ·)) := by
  obtain ⟨line, found, isFound⟩ : ∃ line found,
      strstr crlf (path ++ 0x20 :: more) = some (line, found) := by
    apply exists_strstr
    exact hasLine.trans ((List.suffix_cons 0x20 more).trans (List.suffix_append path _)).isInfix
  obtain ⟨isLine, rest, rfl⟩ := Logic.strstr_some isFound
  -- the line ends behind the first word of the target
  have word : line.takeWhile (!isSpace ·) = path.takeWhile (!isSpace ·) := by
    have same : (path ++ 0x20 :: more).takeWhile (!isSpace ·) =
        (line ++ 0x0d :: 0x0a :: rest).takeWhile (!isSpace ·) := congrArg _ isLine
    rw [takeWhile_append_stop rfl, takeWhile_append_stop rfl] at same
    exact same.symm
  have atMost : (line.takeWhile (!isSpace ·)).length ≤ 4095 := by
    rw [word]
    exact (List.takeWhile_sublist _).length_le.trans fits
  have noReturn : 0x0d ∉ meth ++ [0x20] := by
    intro member
    rcases List.mem_append.1 member with inMeth | isSpace'
    · cases (isToken.2 _ inMeth).2
    · simp at isSpace'
  have isBuffer : lineBuffer (meth ++ 0x20 :: (path ++ 0x20 :: more)) =
      meth ++ 0x20 :: line.take (8190 - meth.length) := by
    have front : meth ++ 0x20 :: (path ++ 0x20 :: more) =
        meth ++ [0x20] ++ (path ++ 0x20 :: more) := by simp
    have searched : strstr crlf (meth ++ [0x20] ++ (path ++ 0x20 :: more)) =
        (strstr crlf (path ++ 0x20 :: more)).map fun r => (meth ++ [0x20] ++ r.1, r.2) :=
      Logic.strstr_append_of_notMem noReturn _
    rw [isFound, Option.map_some] at searched
    rw [lineBuffer, firstLine, front, searched]
    simp only [Option.map_some, Option.getD_some]
    rw [List.append_assoc, List.take_append, List.take_of_length_le (by omega)]
    rw [show 8191 - meth.length = (8190 - meth.length) + 1 by omega]
    rfl
  have taken : (line.take (8190 - meth.length)).takeWhile (!isSpace ·) =
      line.takeWhile (!isSpace ·) := by
    rw [← List.take_takeWhile, List.take_of_length_le (by omega)]
  rw [isBuffer, scanRequestLine_append isToken short, taken, word]
  · have starts : line.head? = some 0x2f := by
      have both := congrArg List.head? isLine
      rw [List.head?_append, isPath, List.head?_append] at both
      cases line with
      | nil => cases both
      | cons c line => exact both.symm
    rw [List.head?_take, if_neg (by omega), starts]
  · rw [taken]
    exact atMost

/-! ## The target -/

theorem splitQuery_of_notMem {target : Bytes} (absent : 0x3f ∉ target) :
    splitQuery target = (target, []) := by
  rw [splitQuery, strchr, Logic.strstr_eq_none_of_notMem absent]
  rfl

theorem splitQuery_append {path : Bytes} (absent : 0x3f ∉ path) (query : Bytes) :
    splitQuery (path ++ 0x3f :: query) = (path, query) := by
  have here : [0x3f] <+: 0x3f :: query := ⟨query, rfl⟩
  rw [splitQuery, strchr, Logic.strstr_append_of_notMem absent, Logic.strstr_of_isPrefix here]
  simp

theorem splitQuery_eq_iff (front more : Bytes) :
    splitQuery front = splitQuery (front ++ more) ↔
      more = [] ∨ more = [0x3f] ∧ 0x3f ∉ front := by
  by_cases inFront : 0x3f ∈ front
  · obtain ⟨path, query, rfl, absent⟩ := List.eq_append_cons_of_mem inFront
    rw [List.append_assoc, List.cons_append, splitQuery_append absent, splitQuery_append absent]
    simp
  · rw [splitQuery_of_notMem inFront]
    by_cases inMore : 0x3f ∈ more
    · obtain ⟨path, query, rfl, absent⟩ := List.eq_append_cons_of_mem inMore
      have notMem : 0x3f ∉ front ++ path :=
        fun member => (List.mem_append.1 member).elim inFront absent
      rw [← List.append_assoc, splitQuery_append notMem]
      constructor
      · intro same
        obtain ⟨samePath, sameQuery⟩ := Prod.mk.inj same
        right
        rw [List.self_eq_append_right.1 samePath, ← sameQuery]
        exact ⟨rfl, inFront⟩
      · rintro (isNil | ⟨isMark, -⟩)
        · simp at isNil
        · cases path with
          | nil =>
            cases isMark
            rw [List.append_nil]
          | cons b path => simp at isMark
    · have notMem : 0x3f ∉ front ++ more :=
        fun member => (List.mem_append.1 member).elim inFront inMore
      rw [splitQuery_of_notMem notMem]
      constructor
      · intro same
        exact .inl (List.self_eq_append_right.1 (Prod.mk.inj same).1)
      · rintro (rfl | ⟨rfl, -⟩)
        · rw [List.append_nil]
        · exact absurd (List.mem_singleton_self _) inMore

theorem targetLength_of_notMem {target : Bytes} (absent : 0x3f ∉ target) :
    targetLength target = target.length := by
  rw [targetLength, splitQuery_of_notMem absent, if_pos rfl, Nat.add_zero]

theorem targetLength_append {path : Bytes} (absent : 0x3f ∉ path) (query : Bytes) :
    targetLength (path ++ 0x3f :: query) =
      path.length + if query = [] then 0 else query.length + 1 := by
  rw [targetLength, splitQuery_append absent]

theorem targetLength_le (target : Bytes) : targetLength target ≤ target.length := by
  by_cases member : 0x3f ∈ target
  · obtain ⟨path, query, rfl, absent⟩ := List.eq_append_cons_of_mem member
    rw [targetLength_append absent, List.length_append, List.length_cons]
    split <;> omega
  · exact Nat.le_of_eq (targetLength_of_notMem member)

/-- Path and query survive exactly if they fit and there is no white space in them. -/
theorem splitQuery_scanned_iff (target : Bytes) :
    splitQuery ((target.take 4095).takeWhile (!isSpace ·)) = splitQuery target ↔
      targetLength target ≤ 4095 ∧ ∀ b ∈ target, isSpace b = false := by
  obtain ⟨more, isTarget⟩ : (target.take 4095).takeWhile (!isSpace ·) <+: target :=
    (List.takeWhile_prefix _).trans (List.take_prefix _ _)
  have visible : ∀ b ∈ (target.take 4095).takeWhile (!isSpace ·), isSpace b = false := by
    intro b member
    simpa using List.mem_takeWhile_imp member
  have short : ((target.take 4095).takeWhile (!isSpace ·)).length ≤ 4095 :=
    (List.takeWhile_sublist _).length_le.trans (List.length_take_le _ _)
  constructor
  · intro same
    have same' : splitQuery ((target.take 4095).takeWhile (!isSpace ·)) =
        splitQuery ((target.take 4095).takeWhile (!isSpace ·) ++ more) := by
      rw [isTarget]
      exact same
    rcases (splitQuery_eq_iff _ _).1 same' with rfl | ⟨rfl, absent⟩
    · rw [List.append_nil] at isTarget
      rw [isTarget] at visible short
      exact ⟨(targetLength_le target).trans short, visible⟩
    · constructor
      · rw [← isTarget, targetLength_append absent, if_pos rfl]
        exact short
      · rw [← isTarget]
        intro b member
        rcases List.mem_append.1 member with inFront | isMark
        · exact visible b inFront
        · rw [List.mem_singleton.1 isMark]
          rfl
  · rintro ⟨fits, noSpace⟩
    have whole : (target.take 4095).takeWhile (!isSpace ·) = target.take 4095 := by
      rw [List.takeWhile_eq_self_iff]
      intro b member
      rw [noSpace b (List.mem_of_mem_take member)]
      rfl
    rw [whole]
    by_cases small : target.length ≤ 4095
    · rw [List.take_of_length_le small]
    · by_cases member : 0x3f ∈ target
      · obtain ⟨path, query, rfl, absent⟩ := List.eq_append_cons_of_mem member
        rw [targetLength_append absent] at fits
        rw [List.length_append, List.length_cons] at small
        split at fits
        · next isNil =>
          subst isNil
          rw [List.length_nil] at small
          rw [List.take_append_of_le_length (by omega), List.take_of_length_le (by omega),
            splitQuery_of_notMem absent, splitQuery_append absent]
        · omega
      · rw [targetLength_of_notMem member] at fits
        exact absurd fits small

/-! ## The body -/

theorem strstr_append_of_some {pat left before found : Bytes}
    (isFound : strstr pat left = some (before, found)) (right : Bytes) :
    strstr pat (left ++ right) = some (before, found ++ right) := by
  induction left generalizing before with
  | nil =>
    rw [strstr] at isFound
    split at isFound
    · next isNil =>
      cases isFound
      rw [isNil]
      exact Logic.strstr_of_isPrefix List.nil_prefix
    · cases isFound
  | cons b left ih =>
    rw [strstr] at isFound
    split at isFound
    · next isPrefix =>
      cases isFound
      exact Logic.strstr_of_isPrefix (isPrefix.trans (List.prefix_append _ _))
    · next other =>
      obtain ⟨⟨before', found'⟩, inLeft, result⟩ := Option.map_eq_some_iff.1 isFound
      cases result
      -- a pattern that stands in `left` does not reach beyond it
      have here : ¬pat <+: b :: (left ++ right) := by
        intro here
        obtain ⟨rfl, isPrefix⟩ := Logic.strstr_some inLeft
        have short := isPrefix.length_le
        apply other
        apply List.prefix_of_prefix_length_le here (List.prefix_append (b :: _) right)
        simp only [List.length_cons, List.length_append]
        omega
      rw [List.cons_append, Logic.strstr_cons_of_not_isPrefix here, ih inLeft]
      rfl

theorem strstr_blankLine_of_none {line : Bytes} (none : strstr blankLine (line ++ crlf) = none)
    {c : UInt8} (visible : c ≠ 0x0d ∧ c ≠ 0x0a) (rest : Bytes) :
    (strstr blankLine (line ++ (crlf ++ c :: rest))).map (·.2) =
      (strstr blankLine (c :: rest)).map (·.2) := by
  induction line with
  | nil =>
    have noBreak : NoBreak [] := ⟨List.not_mem_nil, List.not_mem_nil⟩
    exact strstr_line noBreak visible (.inl rfl) rest
  | cons b line ih =>
    have other : ¬blankLine <+: b :: (line ++ crlf) := by
      intro here
      rw [List.cons_append, Logic.strstr_of_isPrefix here] at none
      cases none
    have notHere : ¬blankLine <+: b :: (line ++ (crlf ++ c :: rest)) := by
      intro here
      cases line with
      | nil => simp [blankLine, crlf] at here
      | cons b' line =>
        apply other
        apply List.prefix_of_prefix_length_le here
        · rw [← List.append_assoc]
          exact List.prefix_append (b :: (b' :: line ++ crlf)) (c :: rest)
        · simp only [blankLine, crlf, List.length_cons, List.length_append, List.length_nil]
          omega
    rw [List.cons_append, Logic.strstr_cons_of_not_isPrefix other, Option.map_eq_none_iff] at none
    rw [List.cons_append, Logic.strstr_cons_of_not_isPrefix notHere, Option.map_map, ← ih none]
    rfl

section Body

variable {meth path host : Bytes} (isToken : IsToken meth)
  (noSpace : ∀ b ∈ path, isSpace b = false) (n : Int) (body : Bytes)

theorem noBreak_of_noSpace {text : Bytes} (noSpace : ∀ b ∈ text, isSpace b = false) :
    NoBreak text := by
  constructor
  · exact fun member => absurd (noSpace _ member) (by decide)
  · exact fun member => absurd (noSpace _ member) (by decide)

theorem requestHead_append (meth path host : Bytes) (n : Int) (tail : Bytes) :
    requestHead meth path host n ++ tail =
      requestLine meth path ++ (crlf ++ (hostLine host ++ (crlf ++ (closeLine ++ (crlf ++
        (lengthLine n ++ (crlf ++ tail))))))) := by
  simp only [requestHead, List.append_assoc]

include isToken noSpace

theorem noBreak_requestLine : NoBreak (requestLine meth path) := by
  have meth' := noBreak_of_noSpace fun b member => (isToken.2 b member).2
  have space : NoBreak [0x20] := by decide
  rw [requestLine, ← List.singleton_append]
  exact meth'.append (space.append ((noBreak_of_noSpace noSpace).append (by decide)))

theorem strstr_request (host tail : Bytes) :
    (strstr blankLine (requestLine meth path ++ (crlf ++ (hostLine host ++ tail)))).map (·.2) =
      (strstr blankLine (host ++ tail)).map (·.2) := by
  have isHost : hostLine host ++ tail = 0x48 :: ((ascii "Host: ").tail ++ (host ++ tail)) := by
    rw [hostLine, List.append_assoc]
    rfl
  have noReturn : 0x0d ∉ ascii "Host: " := by decide
  rw [isHost, strstr_line (noBreak_requestLine isToken noSpace) (by decide) (.inl rfl), ← isHost,
    hostLine, List.append_assoc, blankLine, Logic.strstr_append_of_notMem noReturn, Option.map_map]
  rfl

theorem findBody_request (none : strstr blankLine (host ++ crlf) = none) :
    findBody (requestHead meth path host n ++ (crlf ++ body)) = body := by
  have first : closeLine = 0x43 :: closeLine.tail := rfl
  have second : lengthLine n = 0x43 :: (lengthLine n).tail := rfl
  have found : (strstr blankLine (requestHead meth path host n ++ (crlf ++ body))).map (·.2) =
      some (crlf ++ (crlf ++ body)) := by
    rw [requestHead_append, strstr_request isToken noSpace, first, List.cons_append,
      strstr_blankLine_of_none none (by decide), ← List.cons_append, ← first, second,
      List.cons_append, strstr_line noBreak_closeLine (by decide) (.inl rfl), ← List.cons_append,
      ← second, strstr_blankLine (noBreak_lengthLine n)]
  obtain ⟨⟨before, rest⟩, isFound, rfl⟩ := Option.map_eq_some_iff.1 found
  rw [findBody, isFound]
  rfl

theorem findBody_early {before found : Bytes}
    (early : strstr blankLine (host ++ crlf) = some (before, found)) :
    ∃ extra, findBody (requestHead meth path host n ++ (crlf ++ body)) = extra ++ body ∧
      0 < extra.length ∧ extra.length ≤ (requestHead meth path host n).length + 2 ∧
      (0 ∉ requestHead meth path host n → 0 ∉ extra) := by
  obtain ⟨isHost, isPrefix⟩ := Logic.strstr_some early
  have four : 4 ≤ found.length := isPrefix.length_le
  let tail := closeLine ++ (crlf ++ (lengthLine n ++ (crlf ++ crlf)))
  have found' : (strstr blankLine (requestHead meth path host n ++ (crlf ++ body))).map (·.2) =
      some (found ++ (tail ++ body)) := by
    have isTail : crlf ++ (closeLine ++ (crlf ++ (lengthLine n ++ (crlf ++ (crlf ++ body))))) =
        crlf ++ (tail ++ body) := by
      simp only [tail, List.append_assoc]
    rw [requestHead_append, strstr_request isToken noSpace, isTail, ← List.append_assoc,
      strstr_append_of_some early]
    rfl
  have lengths : found.length ≤ host.length + 2 := by
    have both := congrArg List.length isHost
    simp only [crlf, List.length_append, List.length_cons, List.length_nil] at both
    omega
  refine ⟨found.drop 4 ++ tail, ?_, ?_, ?_, ?_⟩
  · obtain ⟨⟨before', rest⟩, isFound, isRest⟩ := Option.map_eq_some_iff.1 found'
    simp only at isRest
    subst isRest
    rw [findBody, isFound]
    simp only
    rw [List.drop_append_of_le_length four]
    exact (List.append_assoc _ _ _).symm
  · simp only [tail, crlf, List.length_append, List.length_cons]
    omega
  · simp only [requestHead, hostLine, tail, crlf, List.length_append, List.length_cons,
      List.length_nil, List.length_drop]
    omega
  · intro noNul member
    have noNul' : 0 ∉ host ∧ 0 ∉ tail := by
      simp only [requestHead, hostLine, List.mem_append, not_or] at noNul
      simp only [tail, List.mem_append, not_or]
      obtain ⟨-, isCrlf, ⟨-, noHost⟩, -, close, -, length, -⟩ := noNul
      exact ⟨noHost, close, isCrlf, length, isCrlf, isCrlf⟩
    rcases List.mem_append.1 member with inFound | inTail
    · have inHost : 0 ∈ host ++ crlf := by
        rw [isHost]
        exact List.mem_append_right _ (List.mem_of_mem_drop inFound)
      exact (List.mem_append.1 inHost).elim noNul'.1 (by decide)
    · exact noNul'.2 inTail

end Body

/-! ## Requests that survive -/

theorem head_urlTarget (url : Bytes) : (urlTarget url).head? = some 0x2f := by
  unfold urlTarget
  cases isSlash : strchr 0x2f (afterScheme url) with
  | none => rfl
  | some r =>
    obtain ⟨-, rest, isFound⟩ := Logic.strstr_some isSlash
    simp only [Option.map_some, Option.getD_some, ← isFound]
    rfl

theorem afterScheme_sublist (url : Bytes) : (afterScheme url).Sublist url := by
  unfold afterScheme
  cases isScheme : strstr (ascii "://") url with
  | none => exact List.nil_sublist _
  | some r =>
    obtain ⟨rfl, -⟩ := Logic.strstr_some isScheme
    exact (List.drop_sublist 3 r.2).trans (List.sublist_append_right _ _)

theorem authority_sublist (p : Bytes) : (authority p).Sublist p := by
  unfold authority
  cases isSlash : strchr 0x2f p with
  | none => exact List.Sublist.refl _
  | some r =>
    obtain ⟨rfl, -⟩ := Logic.strstr_some isSlash
    exact List.sublist_append_left _ _

theorem urlParse_some {url : Bytes} {u : DuxUrl} (accepted : urlParse url = some u) :
    u.host.length < 256 ∧ u.path = (urlTarget url).take 4095 ∧ u.host.Sublist url := by
  have sub := (authority_sublist (afterScheme url)).trans (afterScheme_sublist url)
  unfold urlParse at accepted
  split at accepted
  · cases accepted
  · split at accepted
    · cases accepted
    · simp only at accepted
      split at accepted
      · next host rest isColon =>
        obtain ⟨isAuthority, -⟩ := Logic.strstr_some isColon
        split at accepted
        · cases accepted
        · next fits =>
          cases accepted
          constructor
          · exact Nat.not_le.1 fits
          · exact ⟨rfl, (isAuthority ▸ List.sublist_append_left host rest).trans sub⟩
      · split at accepted
        · cases accepted
        · next fits =>
          cases accepted
          constructor
          · exact Nat.not_le.1 fits
          · exact ⟨rfl, sub⟩

theorem length_printInt_le (n : Nat) : (printInt (intLength n)).length ≤ 11 := by
  have lower : -(2 ^ 31) ≤ intLength n := Int.le_bmod (by decide)
  have upper : intLength n < 2 ^ 31 := Int.bmod_lt (by decide)
  have digits : (decimal (intLength n).natAbs).length ≤ 10 :=
    Logic.length_decimal_le (by decide) (by omega)
  unfold printInt
  split
  · rw [List.length_cons]
    omega
  · omega

theorem appendBody_some {buf body msg : Bytes} (fits : buf.length < HTTP_BUF_SIZE)
    (appended : appendBody HTTP_BUF_SIZE buf body = some msg) :
    ∃ added, msg = buf ++ added ∧ buf.length + added.length < HTTP_BUF_SIZE ∧
      (body.length < HTTP_BUF_SIZE →
        added = body ∨ added = [] ∧ HTTP_BUF_SIZE ≤ buf.length + body.length) := by
  unfold appendBody at appended
  simp only at appended
  split at appended
  · next noBody =>
    cases appended
    refine ⟨[], by simp, fits, ?_⟩
    intro small
    rw [intLength_of_lt small] at noBody
    exact .inl (List.length_eq_zero_iff.1 (by omega)).symm
  · split at appended
    · cases appended
    · split at appended
      · next whole =>
        cases appended
        refine ⟨_, rfl, ?_, ?_⟩
        · rw [List.length_take]
          omega
        · intro small
          rw [intLength_of_lt small, Int.toNat_natCast, List.take_length]
          exact .inl rfl
      · next tooLong =>
        cases appended
        refine ⟨[], by simp, fits, ?_⟩
        intro small
        rw [intLength_of_lt small] at tooLong
        exact .inr ⟨rfl, by omega⟩

section Survive

variable {meth url : Bytes} {u : DuxUrl} (isToken : IsToken meth)
  (accepted : urlParse (cText url) = some u) (n : Nat)

include isToken accepted

theorem noNul_requestHead : 0 ∉ requestHead meth u.path u.host (intLength n) := by
  obtain ⟨-, isPath, host⟩ := urlParse_some accepted
  have noHost : 0 ∉ u.host := fun member => Logic.cText_noNul url (host.subset member)
  have noPath : 0 ∉ u.path := by
    rw [isPath]
    intro member
    have inTarget := List.mem_of_mem_take member
    unfold urlTarget at inTarget
    cases isSlash : strchr 0x2f (afterScheme (cText url)) with
    | none =>
      rw [isSlash] at inTarget
      exact absurd inTarget (by decide)
    | some r =>
      rw [isSlash] at inTarget
      obtain ⟨isAfter, -⟩ := Logic.strstr_some isSlash
      have inAfter : 0 ∈ afterScheme (cText url) := isAfter ▸ List.mem_append_right _ inTarget
      exact Logic.cText_noNul url ((afterScheme_sublist _).subset inAfter)
  have noMeth : 0 ∉ meth := fun member => (isToken.2 0 member).1 rfl
  have noNumber : 0 ∉ printInt (intLength n) := notMem_printInt rfl (by decide) _
  have front : 0 ∉ ascii " HTTP/1.1" ∧ 0 ∉ crlf ∧ 0 ∉ ascii "Host: " ∧ 0 ∉ closeLine ∧
      0 ∉ ascii "Content-Length: " ∧ (0 : UInt8) ≠ 0x20 := by decide
  simp only [requestHead, requestLine, hostLine, lengthLine, List.mem_append, List.mem_cons,
    noMeth, noPath, noHost, noNumber, front, or_self, not_false_eq_true]

omit isToken in
theorem length_requestHead_le (short : meth.length ≤ 15) :
    (requestHead meth u.path u.host (intLength n)).length ≤ 4500 := by
  obtain ⟨host, isPath, -⟩ := urlParse_some accepted
  have path : u.path.length ≤ 4095 := isPath ▸ List.length_take_le _ _
  have digits := length_printInt_le n
  have front : (ascii " HTTP/1.1").length = 9 ∧ (ascii "Host: ").length = 6 ∧
      closeLine.length = 17 ∧ (ascii "Content-Length: ").length = 16 := by decide
  simp only [requestHead, requestLine, hostLine, lengthLine, crlf, List.length_append,
    List.length_cons, List.length_nil, front]
  omega

theorem parseRequest_head (short : meth.length ≤ 15) (added : Bytes) :
    let req := duxrtHttpParseRequest
      (requestHead meth u.path u.host (intLength n) ++ (crlf ++ added))
    req.method = meth ∧
      (req.path, req.query) =
        splitQuery (((urlTarget (cText url)).take 4095).takeWhile (!isSpace ·)) ∧
      req.body = findBody
        (requestHead meth u.path u.host (intLength n) ++ (crlf ++ cText added)) := by
  intro req
  have isText : cText (requestHead meth u.path u.host (intLength n) ++ (crlf ++ added)) =
      requestHead meth u.path u.host (intLength n) ++ (crlf ++ cText added) := by
    rw [Logic.cText_append_of_noNul (noNul_requestHead isToken accepted n),
      Logic.cText_append_of_noNul (by decide)]
  have isPath := (urlParse_some accepted).2.1
  have isLine : scanRequestLine (lineBuffer
      (requestHead meth u.path u.host (intLength n) ++ (crlf ++ cText added))) =
        (meth, u.path.takeWhile (!isSpace ·)) := by
    have front : ascii " HTTP/1.1" = 0x20 :: ascii "HTTP/1.1" := by decide
    rw [requestHead_append, requestLine, front, List.append_assoc, List.cons_append,
      List.append_assoc, List.cons_append]
    apply scanRequestLine_lineBuffer isToken short
    · rw [isPath, List.head?_take, if_neg (by decide), head_urlTarget]
    · exact isPath ▸ List.length_take_le _ _
    · exact ⟨ascii "HTTP/1.1", _, List.append_assoc _ _ _⟩
  simp only [req, duxrtHttpParseRequest, isText, isLine, ← isPath, and_self]

/-- A request survives exactly if it fits. -/
theorem requestSurvives_iff (body : Bytes) :
    RequestSurvives meth (cText url) u body ↔ RequestFits meth (cText url) u body := by
  have size : HTTP_BUF_SIZE = 65536 := rfl
  have isPath := (urlParse_some accepted).2.1
  unfold RequestSurvives requestText
  rw [← Option.bind_assoc, printHead_eq]
  by_cases short : meth.length ≤ 15
  · have atMost := length_requestHead_le accepted body.length short
    have read := parseRequest_head isToken accepted body.length short
    set head := requestHead meth u.path u.host (intLength body.length) with isHead
    have two : (head ++ crlf).length = head.length + 2 := List.length_append
    rw [if_pos (by omega), Option.bind_some]
    constructor
    · rintro ⟨msg, appended, -, sameTarget, sameBody⟩
      obtain ⟨added, rfl, small, whole⟩ := appendBody_some (by omega) appended
      rw [List.append_assoc] at sameTarget sameBody
      rw [two] at small whole
      obtain ⟨-, isTarget, isBody⟩ := read added
      rw [isTarget, splitQuery_scanned_iff] at sameTarget
      rw [isBody] at sameBody
      have noSpace : ∀ b ∈ u.path, isSpace b = false :=
        fun b member => sameTarget.2 b (List.mem_of_mem_take (isPath ▸ member))
      have shorter : (cText added).length ≤ added.length := (List.takeWhile_sublist _).length_le
      have noNul : 0 ∉ cText added := Logic.cText_noNul added
      cases early : strstr blankLine (u.host ++ crlf) with
      | none =>
        rw [findBody_request isToken noSpace _ _ early] at sameBody
        rw [sameBody] at shorter noNul
        constructor
        · exact short
        · exact sameTarget.1
        · exact sameTarget.2
        · exact early
        · exact noNul
        · rcases whole (by omega) with rfl | ⟨rfl, -⟩
          · exact .inr small
          · exact .inl sameBody.symm
      | some r =>
        obtain ⟨extra, isFound, positive, bounded, noNul'⟩ :=
          findBody_early isToken noSpace (intLength body.length) (cText added) early
        rw [isFound] at sameBody
        rw [← isHead] at bounded
        have lengths := congrArg List.length sameBody
        rw [List.length_append] at lengths
        rcases whole (by omega) with rfl | ⟨rfl, tooLong⟩
        · have noNulBody : 0 ∉ added := by
            rw [← sameBody]
            intro member
            exact (List.mem_append.1 member).elim
              (noNul' (noNul_requestHead isToken accepted _)) noNul
          rw [Logic.cText_eq_self_iff.2 noNulBody] at lengths
          omega
        · rw [List.length_nil] at shorter
          omega
    · intro fits
      have room : body = [] ∨ (head ++ crlf).length + body.length < HTTP_BUF_SIZE := by
        rw [two]
        exact fits.size
      obtain ⟨added, appended, isBody, -⟩ :=
        (appendBody_whole_iff (head ++ crlf) body).2 ⟨fits.noNul, room⟩
      obtain ⟨isMethod, isTarget, isBody'⟩ := read added
      have noSpace : ∀ b ∈ u.path, isSpace b = false :=
        fun b member => fits.noSpace b (List.mem_of_mem_take (isPath ▸ member))
      refine ⟨_, appended, ?_⟩
      rw [List.append_assoc]
      constructor
      · exact isMethod
      · constructor
        · rw [isTarget, splitQuery_scanned_iff]
          exact ⟨fits.target, fits.noSpace⟩
        · rw [isBody', findBody_request isToken noSpace _ _ fits.host, isBody]
  · constructor
    · rintro ⟨msg, -, sameMethod, -⟩
      exact absurd (sameMethod ▸ length_scanRequestLine_le _) short
    · exact fun fits => absurd fits.method short

end Survive

/-- A short request survives. -/
theorem requestSurvives_get :
    RequestSurvives (ascii "GET") (cText (ascii "http://h:81/p?q=1"))
      { scheme := ascii "http", host := ascii "h", port := 81, path := ascii "/p?q=1" } [] :=
  (requestSurvives_iff (by decide +kernel) (by decide +kernel) []).2
    { method := by decide
      target := by decide +kernel
      noSpace := by decide +kernel
      host := by decide +kernel
      noNul := List.not_mem_nil
      size := .inl rfl }

/-- A path is cut at a space. -/
theorem not_requestSurvives :
    ¬∀ meth url u body, IsToken meth → urlParse (cText url) = some u →
      RequestSurvives meth (cText url) u body := by
  intro always
  have isToken : IsToken (ascii "GET") := by decide +kernel
  have accepted : urlParse (cText (ascii "http://h/a b")) =
      some { scheme := ascii "http", host := ascii "h", port := 80, path := ascii "/a b" } := by
    decide +kernel
  obtain ⟨msg, printed, -, sameTarget, -⟩ := always _ _ _ [] isToken accepted
  have atMost := length_requestHead_le accepted 0 (by decide : (ascii "GET").length ≤ 15)
  have size : HTTP_BUF_SIZE = 65536 := rfl
  unfold requestText at printed
  rw [← Option.bind_assoc, printHead_eq, List.length_nil, if_pos (by omega),
    Option.bind_some] at printed
  obtain ⟨added, rfl⟩ := exists_of_appendBody printed
  rw [List.append_assoc, (parseRequest_head isToken accepted 0 (by decide) added).2.1,
    splitQuery_scanned_iff] at sameTarget
  exact absurd (sameTarget.2 0x20) (by decide +kernel)

end Dux.Runtime.Http
