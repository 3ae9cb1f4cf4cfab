import Dux.Runtime.JsonMemory

/-!
# Texts that are read without a fault

The only way out of the text is a backslash that is its last character, inside of a string
that is being read: it is taken for an escape together with the terminator.  The texts of this
kind are given by a grammar.
-/

namespace Dux.Runtime.JsonMemory

open Logic

/-- The characters of a string up to its end, or to the end of the text. -/
inductive StringBody : Bytes → Prop
  | nil : StringBody []
  | plain {b : UInt8} {rest : Bytes} (noQuote : b ≠ 0x22) (noEscape : b ≠ 0x5c)
      (body : StringBody rest) : StringBody (b :: rest)
  | escape {c : UInt8} {rest : Bytes} (body : StringBody rest) : StringBody (0x5c :: c :: rest)

/-- A string that ends with the text in a backslash. -/
def Opened (p : Bytes) : Prop := ∃ body, StringBody body ∧ p = 0x22 :: (body ++ [0x5c])

/-- A string with both of its quotes. -/
def Closed (p : Bytes) : Prop := ∃ body, StringBody body ∧ p = 0x22 :: (body ++ [0x22])

/-- The words that are values. -/
def words : List Bytes := [wordTrue, wordFalse, wordNull]

/-- A value in front of a rest; a number goes as far as it can and may be empty. -/
inductive ValueText : Bytes → Bytes → Prop
  | string {front rest : Bytes} (closed : Closed front) : ValueText front rest
  | word {word rest : Bytes} (member : word ∈ words) : ValueText word rest
  | number {front rest : Bytes} (digits : ∀ b ∈ front, isNumberChar b = true)
      (ends : ∀ b ∈ rest.head?, isNumberChar b = false)
      (visible : ∀ b ∈ (front ++ rest).head?, isSpace b = false)
      (noQuote : (front ++ rest).head? ≠ some 0x22)
      (noWord : ∀ word ∈ words, ¬word <+: front ++ rest) : ValueText front rest

def Spaces (p : Bytes) : Prop := ∀ b ∈ p, isSpace b = true

/-- What follows an opening brace, where it runs into a string that ends in a backslash: the
string may be a key or a value, behind any number of entries and commas. -/
inductive Dangling : Bytes → Prop
  | space {b : UInt8} {p : Bytes} (space : isSpace b = true) (rest : Dangling p) : Dangling (b :: p)
  | comma {p : Bytes} (rest : Dangling p) : Dangling (0x2c :: p)
  | key {p : Bytes} (opened : Opened p) : Dangling p
  | value {key before after p : Bytes} (closed : Closed key) (spaces : Spaces before)
      (spaces' : Spaces after) (opened : Opened p) :
      Dangling (key ++ (before ++ 0x3a :: (after ++ p)))
  | entry {key before after value p : Bytes} (closed : Closed key) (spaces : Spaces before)
      (spaces' : Spaces after) (isValue : ValueText value p) (rest : Dangling p) :
      Dangling (key ++ (before ++ 0x3a :: (after ++ (value ++ p))))

/-- A text whose object is cut off behind a backslash in a string. -/
def EndsInEscape (input : Bytes) : Prop :=
  ∃ spaces p, Spaces spaces ∧ cText input = spaces ++ 0x7b :: p ∧ Dangling p

/-- Reading a text ends, with enough rounds of the main loop, and without a fault. -/
def Safe (input : Bytes) : Prop :=
  ∃ rounds pairs, ∀ more, rounds ≤ more → duxrtJsonParse more input = .ok pairs

/-! ## Strings -/

section Strings

variable {body rest p : Bytes}

theorem StringBody.scan_escape (isBody : StringBody body) :
    scanString (body ++ [0x5c]) = none := by
  induction isBody with
  | nil =>
    rw [List.nil_append, scanString.eq_def]
    rfl
  | plain noQuote noEscape _ ih =>
    rw [List.cons_append, scanString_other noQuote noEscape, ih]
    rfl
  | escape _ ih =>
    rw [List.cons_append, List.cons_append, scanString_escape, ih]
    rfl

theorem StringBody.scan_quote (isBody : StringBody body) (rest : Bytes) :
    ∃ chars, scanString (body ++ 0x22 :: rest) = some (chars, rest) := by
  induction isBody with
  | nil => exact ⟨[], scanString_quote rest⟩
  | plain noQuote noEscape _ ih =>
    obtain ⟨chars, scanned⟩ := ih
    rw [List.cons_append, scanString_other noQuote noEscape, scanned]
    exact ⟨_, rfl⟩
  | escape _ ih =>
    obtain ⟨chars, scanned⟩ := ih
    rw [List.cons_append, List.cons_append, scanString_escape, scanned]
    exact ⟨_, rfl⟩

theorem scan_cases (p : Bytes) :
    (∃ body, StringBody body ∧ p = body ++ [0x5c]) ∨
    (∃ chars next, scanString p = some (chars, next) ∧
      (next = [] ∨ ∃ body, StringBody body ∧ p = body ++ 0x22 :: next)) := by
  induction p using scanString.induct with
  | case1 => exact .inr ⟨[], [], rfl, .inl rfl⟩
  | case2 rest => exact .inr ⟨[], rest, scanString_quote rest, .inr ⟨[], .nil, rfl⟩⟩
  | case3 notQuote => exact .inl ⟨[], .nil, rfl⟩
  | case4 c rest notQuote ih =>
    rcases ih with ⟨body, isBody, rfl⟩ | ⟨chars, next, scanned, ends⟩
    · exact .inl ⟨_, isBody.escape, rfl⟩
    · refine .inr ⟨unescape c :: chars, next, by rw [scanString_escape, scanned]; rfl, ?_⟩
      refine ends.imp_right ?_
      rintro ⟨body, isBody, rfl⟩
      exact ⟨_, isBody.escape, rfl⟩
  | case5 b rest notQuote notEscape ih =>
    rcases ih with ⟨body, isBody, rfl⟩ | ⟨chars, next, scanned, ends⟩
    · exact .inl ⟨_, isBody.plain notQuote notEscape, rfl⟩
    · refine .inr ⟨b :: chars, next, by rw [scanString_other notQuote notEscape, scanned]; rfl, ?_⟩
      refine ends.imp_right ?_
      rintro ⟨body, isBody, rfl⟩
      exact ⟨_, isBody.plain notQuote notEscape, rfl⟩

theorem parseString_opened (opened : Opened p) (bufsz : Nat) :
    Runtime.parseString p bufsz = .fault := by
  obtain ⟨body, isBody, rfl⟩ := opened
  rw [Runtime.parseString, if_pos rfl, isBody.scan_escape]

theorem parseString_closed (closed : Closed p) (rest : Bytes) (bufsz : Nat) :
    ∃ chars, Runtime.parseString (p ++ rest) bufsz = .str chars rest := by
  obtain ⟨body, isBody, rfl⟩ := closed
  obtain ⟨chars, scanned⟩ := isBody.scan_quote rest
  rw [List.cons_append, List.append_assoc, List.singleton_append, Runtime.parseString, if_pos rfl,
    scanned]
  exact ⟨_, rfl⟩

theorem parseString_cases (p : Bytes) (bufsz : Nat) :
    (Runtime.parseString p bufsz = .null) ∨ (Opened p) ∨
      ∃ chars next, Runtime.parseString p bufsz = .str chars next ∧
        (next = [] ∨ ∃ front, Closed front ∧ p = front ++ next) := by
  cases p with
  | nil => exact .inl rfl
  | cons b rest =>
    rw [Runtime.parseString]
    by_cases opens : b = 0x22
    · rw [if_pos opens, opens]
      rcases scan_cases rest with ⟨body, isBody, rfl⟩ | ⟨chars, next, scanned, ends⟩
      · exact .inr (.inl ⟨body, isBody, rfl⟩)
      · rw [scanned]
        refine .inr (.inr ⟨_, next, rfl, ends.imp_right ?_⟩)
        rintro ⟨body, isBody, rfl⟩
        refine ⟨0x22 :: (body ++ [0x22]), ⟨body, isBody, rfl⟩, ?_⟩
        rw [List.cons_append, List.append_assoc, List.singleton_append]
    · rw [if_neg opens]
      exact .inl rfl

end Strings

/-! ## Values -/

section Values

variable {front rest p : Bytes}

theorem Opened.head (opened : Opened p) : p.head? = some 0x22 := by
  obtain ⟨body, -, rfl⟩ := opened
  rfl

theorem Closed.head (closed : Closed front) (rest : Bytes) :
    (front ++ rest).head? = some 0x22 := by
  obtain ⟨body, -, rfl⟩ := closed
  rfl

theorem parseValue_opened (opened : Opened p) : Runtime.parseValue p = .fault := by
  rw [Runtime.parseValue, if_pos opened.head, parseString_opened opened]

theorem parseValue_number (noQuote : p.head? ≠ some 0x22) (noWord : ∀ word ∈ words, ¬word <+: p) :
    Runtime.parseValue p = scanNumber p := by
  simp only [words, List.mem_cons, List.not_mem_nil, or_false, forall_eq_or_imp,
    forall_eq] at noWord
  rw [Runtime.parseValue, if_neg noQuote, if_neg noWord.1, if_neg noWord.2.1, if_neg noWord.2.2]

theorem parseValue_text (isValue : ValueText front rest) :
    ∃ chars, Runtime.parseValue (front ++ rest) = .str chars rest := by
  cases isValue with
  | string closed =>
    rw [Runtime.parseValue, if_pos (closed.head rest)]
    exact parseString_closed closed rest valSize
  | word member =>
    simp only [words, List.mem_cons, List.not_mem_nil, or_false] at member
    have drop (word : Bytes) : (word ++ rest).drop word.length = rest := List.drop_left
    rcases member with rfl | rfl | rfl
    · exact ⟨_, rfl⟩
    · exact ⟨_, rfl⟩
    · exact ⟨_, rfl⟩
  | number digits ends _ noQuote noWord =>
    rw [parseValue_number noQuote noWord, scanNumber, List.dropWhile_append_of_pos digits]
    cases rest with
    | nil => exact ⟨_, rfl⟩
    | cons b rest =>
      rw [List.dropWhile_cons_of_neg (by simp [ends b rfl])]
      exact ⟨_, rfl⟩

theorem parseValue_cases (visible : ∀ b ∈ p.head?, isSpace b = false) :
    Opened p ∨ ∃ chars next, Runtime.parseValue p = .str chars next ∧
      (next = [] ∨ ∃ front, ValueText front next ∧ p = front ++ next) := by
  by_cases quote : p.head? = some 0x22
  · rw [Runtime.parseValue, if_pos quote]
    rcases parseString_cases p valSize with isNull | opened | ⟨chars, next, parsed, ends⟩
    · cases p with
      | nil => cases quote
      | cons b rest =>
        rw [List.head?_cons, Option.some.injEq] at quote
        rw [Runtime.parseString, if_pos quote] at isNull
        cases scanned : scanString rest <;> rw [scanned] at isNull <;> cases isNull
    · exact .inl opened
    · refine .inr ⟨chars, next, parsed, ends.imp_right ?_⟩
      rintro ⟨front, closed, rfl⟩
      exact ⟨front, .string closed, rfl⟩
  · by_cases isWord : ∃ word ∈ words, word <+: p
    · obtain ⟨word, member, rest, rfl⟩ := isWord
      have isValue : ValueText word rest := .word member
      obtain ⟨chars, parsed⟩ := parseValue_text isValue
      exact .inr ⟨chars, rest, parsed, .inr ⟨word, isValue, rfl⟩⟩
    · have noWord : ∀ word ∈ words, ¬word <+: p := fun word member found =>
        isWord ⟨word, member, found⟩
      have whole : p.takeWhile isNumberChar ++ p.dropWhile isNumberChar = p :=
        List.takeWhile_append_dropWhile
      refine .inr ⟨_, _, parseValue_number quote noWord, .inr ⟨_, ?_, whole.symm⟩⟩
      rw [← whole] at visible quote noWord
      exact .number (fun b => List.mem_takeWhile_imp) (head_dropWhile _ p) visible quote noWord

end Values

/-! ## White space -/

section Spaces

variable {spaces rest p : Bytes}

theorem skipWs_spaces (isSpaces : Spaces spaces) (rest : Bytes) :
    Runtime.skipWs (spaces ++ rest) = Runtime.skipWs rest :=
  List.dropWhile_append_of_pos isSpaces

theorem skipWs_visible (visible : ∀ b ∈ p.head?, isSpace b = false) : Runtime.skipWs p = p := by
  cases p with
  | nil => rfl
  | cons b rest => exact skipWs_cons (visible b rfl) rest

theorem visible_skipWs (p : Bytes) : ∀ b ∈ (Runtime.skipWs p).head?, isSpace b = false :=
  head_dropWhile isSpace p

theorem exists_spaces (p : Bytes) : ∃ spaces, Spaces spaces ∧ p = spaces ++ Runtime.skipWs p :=
  ⟨p.takeWhile isSpace, fun _ => List.mem_takeWhile_imp, List.takeWhile_append_dropWhile.symm⟩

theorem visible_of_head {c : UInt8} (isHead : p.head? = some c) (visible : isSpace c = false) :
    ∀ b ∈ p.head?, isSpace b = false := by
  intro b isHead'
  rw [isHead, Option.mem_some] at isHead'
  rwa [← isHead']

theorem ValueText.visible {front : Bytes} (isValue : ValueText front rest) :
    ∀ b ∈ (front ++ rest).head?, isSpace b = false := by
  cases isValue with
  | string closed => exact visible_of_head (closed.head rest) (by decide)
  | word member =>
    simp only [words, List.mem_cons, List.not_mem_nil, or_false] at member
    rcases member with rfl | rfl | rfl <;> exact visible_of_head rfl (by decide)
  | number _ _ visible => exact visible

end Spaces

/-! ## Entries -/

section Entries

variable {key before after rest p next chars value : Bytes}

theorem parseAfterKey_fault (chars : Bytes) (spaces : Spaces before) (spaces' : Spaces after)
    (opened : Opened p) :
    Runtime.parseAfterKey chars (before ++ 0x3a :: (after ++ p)) = .fault := by
  rw [Runtime.parseAfterKey, skipWs_spaces spaces, skipWs_cons (by decide)]
  dsimp only
  rw [if_pos rfl, skipWs_spaces spaces', skipWs_visible (visible_of_head opened.head (by decide)),
    parseValue_opened opened]

theorem parseAfterKey_set (chars : Bytes) (spaces : Spaces before) (spaces' : Spaces after)
    (isValue : ValueText value p) : ∃ read,
      Runtime.parseAfterKey chars (before ++ 0x3a :: (after ++ (value ++ p))) =
        .set chars read p := by
  obtain ⟨read, parsed⟩ := parseValue_text isValue
  refine ⟨read, ?_⟩
  rw [Runtime.parseAfterKey, skipWs_spaces spaces, skipWs_cons (by decide)]
  dsimp only
  rw [if_pos rfl, skipWs_spaces spaces', skipWs_visible isValue.visible, parsed]

theorem parseAfterKey_cases (chars p : Bytes) :
    Runtime.parseAfterKey chars p = .done ∨
    ∃ before after rest, Spaces before ∧ Spaces after ∧ p = before ++ 0x3a :: (after ++ rest) ∧
      (Opened rest ∨ ∃ read next, Runtime.parseAfterKey chars p = .set chars read next ∧
        (next = [] ∨ ∃ value, ValueText value next ∧ rest = value ++ next)) := by
  obtain ⟨before, spaces, split⟩ := exists_spaces p
  rw [Runtime.parseAfterKey]
  cases left : Runtime.skipWs p with
  | nil => exact .inl rfl
  | cons b q =>
    dsimp only
    by_cases colon : b = 0x3a
    · obtain ⟨after, spaces', split'⟩ := exists_spaces q
      refine .inr ⟨before, after, Runtime.skipWs q, spaces, spaces', ?_, ?_⟩
      · rw [← split', ← colon, ← left, ← split]
      · refine (parseValue_cases (visible_skipWs q)).imp_right ?_
        rintro ⟨read, next, parsed, ends⟩
        refine ⟨read, next, ?_, ends⟩
        rw [if_pos colon, parsed]
    · rw [if_neg colon]
      exact .inl rfl

theorem jsonStep_quote (isHead : p.head? = some 0x22) : jsonStep p = parseEntry p := by
  rw [jsonStep, skipWs_visible (visible_of_head isHead (by decide))]
  cases p with
  | nil => cases isHead
  | cons b rest =>
    cases isHead
    rfl

theorem jsonStep_key (closed : Closed key) (rest : Bytes) :
    ∃ chars, jsonStep (key ++ rest) = Runtime.parseAfterKey chars rest := by
  obtain ⟨chars, parsed⟩ := parseString_closed closed rest keySize
  refine ⟨chars, ?_⟩
  rw [jsonStep_quote (closed.head rest), parseEntry, parsed]

theorem jsonStep_skipWs (p : Bytes) : jsonStep (Runtime.skipWs p) = jsonStep p := by
  rw [jsonStep, jsonStep, skipWs_visible (visible_skipWs p)]

theorem parseLoop_congr {p p' : Bytes} (same : jsonStep p = jsonStep p') :
    parseLoop p = parseLoop p' := by
  cases step : jsonStep p' with
  | done => rw [parseLoop_done step, parseLoop_done (same.trans step)]
  | fault => rw [parseLoop_fault step, parseLoop_fault (same.trans step)]
  | skip next => rw [parseLoop_skip step, parseLoop_skip (same.trans step)]
  | set key value next => rw [parseLoop_set step, parseLoop_set (same.trans step)]

theorem parseLoop_skipWs (p : Bytes) : parseLoop (Runtime.skipWs p) = parseLoop p :=
  parseLoop_congr (jsonStep_skipWs p)

end Entries

/-! ## The loop -/

section Loop

variable {p next chars value : Bytes}

theorem Dangling.parseLoop_eq_none (dangling : Dangling p) : parseLoop p = none := by
  induction dangling with
  | space isSpace _ ih =>
    rw [← parseLoop_skipWs, Runtime.skipWs, List.dropWhile_cons_of_pos isSpace, ← ih]
    exact parseLoop_skipWs _
  | comma _ ih =>
    rw [← ih]
    exact parseLoop_skip rfl
  | key opened =>
    apply parseLoop_fault
    rw [jsonStep_quote opened.head, parseEntry, parseString_opened opened]
  | value closed spaces spaces' opened =>
    obtain ⟨chars, step⟩ := jsonStep_key closed _
    apply parseLoop_fault
    rw [step, parseAfterKey_fault chars spaces spaces' opened]
  | entry closed spaces spaces' isValue _ ih =>
    obtain ⟨chars, step⟩ := jsonStep_key closed _
    obtain ⟨read, parsed⟩ := parseAfterKey_set chars spaces spaces' isValue
    rw [parseLoop_set (step.trans parsed), ih]
    rfl

theorem not_dangling_nil : ¬Dangling [] := by
  intro dangling
  have isNone := dangling.parseLoop_eq_none
  rw [parseLoop_done rfl] at isNone
  cases isNone

theorem dangling_of_skipWs (dangling : Dangling (Runtime.skipWs p)) : Dangling p := by
  induction p with
  | nil => exact dangling
  | cons b rest ih =>
    by_cases space : isSpace b = true
    · rw [Runtime.skipWs, List.dropWhile_cons_of_pos space] at dangling
      exact .space space (ih dangling)
    · rwa [skipWs_cons (by simpa using space)] at dangling

theorem dangling_of_entry (goesOn : parseEntry p = .fault ∨
    ∃ next, (parseEntry p).next = some next ∧ Dangling next) : Dangling p := by
  rcases parseString_cases p keySize with isNull | opened | ⟨chars, next, parsed, ends⟩
  · simp [parseEntry, isNull, JsonStep.next] at goesOn
  · exact .key opened
  · have entry : parseEntry p = Runtime.parseAfterKey chars next := by rw [parseEntry, parsed]
    rw [entry] at goesOn
    rcases parseAfterKey_cases chars next with isDone |
      ⟨before, after, rest, spaces, spaces', rfl, value⟩
    · simp [isDone, JsonStep.next] at goesOn
    · rcases ends with isNil | ⟨key, closed, rfl⟩
      · simp at isNil
      · rcases value with opened | ⟨read, left, afterKey, ends'⟩
        · exact .value closed spaces spaces' opened
        · rw [afterKey] at goesOn
          obtain ⟨_, isNext, dangling⟩ := goesOn.resolve_left (by simp)
          cases isNext
          rcases ends' with rfl | ⟨value, isValue, rfl⟩
          · exact absurd dangling not_dangling_nil
          · exact .entry closed spaces spaces' isValue dangling

theorem dangling_of_step (goesOn : jsonStep p = .fault ∨
    ∃ next, (jsonStep p).next = some next ∧ Dangling next) : Dangling p := by
  apply dangling_of_skipWs
  rw [jsonStep] at goesOn
  cases left : Runtime.skipWs p with
  | nil => simp [left, JsonStep.next] at goesOn
  | cons b rest =>
    simp only [left] at goesOn
    by_cases closes : b = 0x7d
    · simp [closes, JsonStep.next] at goesOn
    · rw [if_neg closes] at goesOn
      by_cases comma : b = 0x2c
      · rw [if_pos comma] at goesOn
        rcases goesOn with fault | ⟨next, isNext, dangling⟩
        · cases fault
        · cases isNext
          exact comma ▸ .comma dangling
      · rw [if_neg comma] at goesOn
        exact dangling_of_entry goesOn

theorem parseLoop_eq_none_iff (p : Bytes) : parseLoop p = none ↔ Dangling p := by
  refine ⟨fun isNone => ?_, Dangling.parseLoop_eq_none⟩
  induction p using parseLoop.induct with
  | case1 p step =>
    rw [parseLoop_done step] at isNone
    cases isNone
  | case2 p step => exact dangling_of_step (.inl step)
  | case3 p next step ih =>
    rw [parseLoop_skip step] at isNone
    exact dangling_of_step (.inr ⟨next, by rw [step]; rfl, ih isNone⟩)
  | case4 p key value next step ih =>
    rw [parseLoop_set step, Option.map_eq_none_iff] at isNone
    exact dangling_of_step (.inr ⟨next, by rw [step]; rfl, ih isNone⟩)

end Loop

/-! ## Whole texts -/

theorem parse_eq_parseLoop {input rest : Bytes}
    (isText : Runtime.skipWs (cText input) = 0x7b :: rest) :
    Json.duxrtJsonParse input = parseLoop rest := by
  rw [Json.duxrtJsonParse, isText]
  dsimp only
  rw [if_pos rfl]
  split
  · next closes =>
    rw [← parseLoop_skipWs]
    cases left : Runtime.skipWs rest with
    | nil =>
      rw [left] at closes
      cases closes
    | cons b body =>
      rw [left] at closes
      cases closes
      exact (parseLoop_done rfl).symm
  · exact parseLoop_skipWs rest

theorem duxrtJsonParse_eq_none_iff (input : Bytes) :
    Json.duxrtJsonParse input = none ↔ EndsInEscape input := by
  constructor
  · intro isNone
    obtain ⟨spaces, isSpaces, split⟩ := exists_spaces (cText input)
    cases isText : Runtime.skipWs (cText input) with
    | nil => simp [Json.duxrtJsonParse, isText] at isNone
    | cons b rest =>
      by_cases opens : b = 0x7b
      · rw [opens] at isText
        rw [parse_eq_parseLoop isText, parseLoop_eq_none_iff] at isNone
        exact ⟨spaces, rest, isSpaces, by rw [← isText, ← split], isNone⟩
      · simp [Json.duxrtJsonParse, isText, opens] at isNone
  · rintro ⟨spaces, rest, isSpaces, split, dangling⟩
    have isText : Runtime.skipWs (cText input) = 0x7b :: rest := by
      rw [split, skipWs_spaces isSpaces, skipWs_cons (by decide)]
    rw [parse_eq_parseLoop isText, dangling.parseLoop_eq_none]

/-- Reading stays inside of the text and of its buffers exactly if the text is not cut off
behind a backslash. -/
theorem safe_iff (input : Bytes) : Safe input ↔ ¬EndsInEscape input := by
  rw [← duxrtJsonParse_eq_none_iff]
  constructor
  · rintro ⟨rounds, pairs, runs⟩ isNone
    have run := runs (max rounds (input.length + 1)) (le_max_left _ _)
    rw [duxrtJsonParse_eq (lt_of_lt_of_le (Nat.lt_succ_self _) (le_max_right _ _)), isNone] at run
    cases run
  · intro isSome
    obtain ⟨pairs, parsed⟩ := Option.ne_none_iff_exists'.1 isSome
    refine ⟨input.length + 1, pairs.map fun e => (e.1.bytes, e.2), fun more enough => ?_⟩
    rw [duxrtJsonParse_eq (Nat.lt_of_succ_le enough), parsed]
    rfl

/-- The text `{"` with a backslash behind it is read past its terminator. -/
theorem not_safe_backslash :
    (∀ rounds > 3, duxrtJsonParse rounds [0x7b, 0x22, 0x5c] = .error .fault) ∧
      ¬∀ input, Safe input := by
  have isNone : Json.duxrtJsonParse [0x7b, 0x22, 0x5c] = none := by
    have isText : Runtime.skipWs (cText [0x7b, 0x22, 0x5c]) = 0x7b :: [0x22, 0x5c] := rfl
    rw [parse_eq_parseLoop isText]
    exact parseLoop_fault rfl
  have faults : ∀ rounds > 3, duxrtJsonParse rounds [0x7b, 0x22, 0x5c] = .error .fault := by
    intro rounds enough
    rw [duxrtJsonParse_eq enough, isNone]
    rfl
  refine ⟨faults, fun always => ?_⟩
  obtain ⟨rounds, pairs, runs⟩ := always [0x7b, 0x22, 0x5c]
  have run := runs (rounds + 4) (Nat.le_add_right rounds 4)
  rw [faults _ (by omega)] at run
  cases run

end Dux.Runtime.JsonMemory
