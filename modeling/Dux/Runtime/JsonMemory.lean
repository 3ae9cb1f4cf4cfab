import Dux.Logic.Blocks
import Dux.Runtime.Json

/-!
# The memory of the JSON reader

`duxrt_json_parse` of `src/runtime/json_rt.c` with its pointer and its two buffers.  The text
is a C string: its characters and the terminator behind them, and no byte after that may be
read.  A pointer is what is left of these bytes.  The buffers lie on the stack and are reused
by every entry.
-/

namespace Dux.Runtime.JsonMemory

open Logic

/-- The character at a pointer. -/
def deref : Bytes → Except Stop UInt8
  | [] => .error .fault
  | b :: _ => .ok b

def skipWs : Bytes → Except Stop Bytes
  | [] => .error .fault
  | b :: rest => if b ≠ 0 ∧ isSpace b then skipWs rest else .ok (b :: rest)

/-- `if (i < bufsz-1) buf[i++] = c`. -/
def putChar (buf : Block) (i bufsz : Nat) (c : UInt8) : Except Stop (Block × Nat) :=
  if i < bufsz - 1 then do
    let buf ← buf.write i [c]
    return (buf, i + 1)
  else .ok (buf, i)

/-- The loop of `parse_string`. -/
def scanLoop (bufsz : Nat) (buf : Block) (i : Nat) : Bytes → Except Stop (Block × Nat × Bytes)
  | [] => .error .fault
  | b :: rest =>
      if b = 0 ∨ b = 0x22 then .ok (buf, i, b :: rest)
      else if b = 0x5c then
        match rest with
        | [] => .error .fault
        | c :: rest => do
            let (buf, i) ← putChar buf i bufsz (unescape c)
            scanLoop bufsz buf i rest
      else do
        let (buf, i) ← putChar buf i bufsz b
        scanLoop bufsz buf i rest

/-- `parse_string`; `none` is a null pointer. -/
def parseString (p : Bytes) (buf : Block) (bufsz : Nat) : Except Stop (Option (Block × Bytes)) := do
  let b ← deref p
  if b ≠ 0x22 then return none
  else do
    let (buf, i, p) ← scanLoop bufsz buf 0 p.tail
    let buf ← buf.write i [0]
    let c ← deref p
    return some (buf, if c = 0x22 then p.tail else p)

/-- The C string in a buffer, up to its terminator. -/
def cstr : Block → Except Stop Bytes
  | [] => .error .fault
  | none :: _ => .error .fault
  | some b :: rest => if b = 0 then .ok [] else (b :: ·) <$> cstr rest

/-- `strncmp(p, word, strlen(word)) == 0`; it stops at a difference. -/
def strncmpIsZero : Bytes → Bytes → Except Stop Bool
  | [], _ => .ok true
  | _ :: _, [] => .error .fault
  | w :: word, b :: rest => if b = w then strncmpIsZero word rest else .ok false

/-- The characters of a number, and where the pointer stands then. -/
def numberLoop : Bytes → Except Stop (Bytes × Bytes)
  | [] => .error .fault
  | b :: rest =>
      if isNumberChar b then do
        let (chars, rest) ← numberLoop rest
        return (b :: chars, rest)
      else .ok ([], b :: rest)

/-- A value that has been read, the buffer, and the pointer. -/
structure Value where
  chars : Bytes
  buf : Block
  next : Bytes

/-- The number at a pointer, cut to the buffer. -/
def parseNumber (p : Bytes) (buf : Block) : Except Stop Value := do
  let (chars, next) ← numberLoop p
  let n := if valSize ≤ chars.length then valSize - 1 else chars.length
  let buf ← buf.memcpy 0 chars n
  let buf ← buf.write n [0]
  let value ← buf.read 0 n
  return ⟨value, buf, next⟩

/-- A word at a pointer, or a number. -/
def parseWord (p : Bytes) (buf : Block) : List Bytes → Except Stop Value
  | [] => parseNumber p buf
  | word :: words => do
      let found ← strncmpIsZero word p
      if found then return ⟨word, buf, p.drop word.length⟩
      else parseWord p buf words

/-- The value at a pointer; `none` where the loop is left. -/
def parseValue (p : Bytes) (buf : Block) : Except Stop (Option Value) := do
  let b ← deref p
  if b = 0x22 then do
    let parsed ← parseString p buf valSize
    match parsed with
    | none => return none
    | some (buf, next) => do
        let value ← cstr buf
        return some ⟨value, buf, next⟩
  else do
    let value ← parseWord p buf [wordTrue, wordFalse, wordNull]
    return some value

/-- What a round of the main loop comes to: the end of the loop, or the two buffers, the entry
that is set, and the pointer. -/
inductive Round
  | done
  | next (key val : Block) (entry : Option (Bytes × Bytes)) (p : Bytes)

/-- The entry behind its key. -/
def parseAfterKey (key val : Block) (p : Bytes) : Except Stop Round := do
  let p ← skipWs p
  let b ← deref p
  if b ≠ 0x3a then return .done
  else do
    let p ← skipWs p.tail
    let parsed ← parseValue p val
    match parsed with
    | none => return .done
    | some v => do
        let chars ← cstr key
        return .next key v.buf (some (chars, v.chars)) v.next

def round (key val : Block) (p : Bytes) : Except Stop Round := do
  let b ← deref p
  if b = 0 then return .done
  else do
    let p ← skipWs p
    let b ← deref p
    if b = 0x7d then return .done
    else if b = 0x2c then return .next key val none p.tail
    else do
      let parsed ← parseString p key keySize
      match parsed with
      | none => return .done
      | some (key, next) => parseAfterKey key val next

/-- The main loop; `hang` when the given rounds are not enough. -/
def mainLoop : Nat → Block → Block → Bytes → Except Stop (List (Bytes × Bytes))
  | 0, _, _, _ => .error .hang
  | rounds + 1, key, val, p => do
      let r ← round key val p
      match r with
      | .done => return []
      | .next key val entry p => do
          let rest ← mainLoop rounds key val p
          return entry.toList ++ rest

/-- `duxrt_json_parse` of a text: the keys and values that it sets. -/
def duxrtJsonParse (rounds : Nat) (input : Bytes) : Except Stop (List (Bytes × Bytes)) := do
  let p ← skipWs (cText input ++ [0])
  let b ← deref p
  if b ≠ 0x7b then return []
  else do
    let p ← skipWs p.tail
    let b ← deref p
    if b = 0x7d then return []
    else mainLoop rounds (Block.fresh keySize) (Block.fresh valSize) p

/-! ## The characters that are read

On a text without a terminator inside, every function does what the one on texts does.
-/

section Refine

variable {p : Bytes}

theorem deref_cons (b : UInt8) (q : Bytes) : deref (b :: q) = .ok b :=
  rfl

theorem skipWs_eq (noNul : 0 ∉ p) : skipWs (p ++ [0]) = .ok (Runtime.skipWs p ++ [0]) := by
  induction p with
  | nil => rfl
  | cons b rest ih =>
    rw [List.mem_cons, not_or] at noNul
    rw [List.cons_append, skipWs]
    by_cases space : isSpace b = true
    · rw [if_pos ⟨Ne.symm noNul.1, space⟩, ih noNul.2, Runtime.skipWs, Runtime.skipWs,
        List.dropWhile_cons_of_pos space]
    · rw [if_neg (fun both => space both.2), Runtime.skipWs, List.dropWhile_cons_of_neg space]
      rfl

/-- What a buffer holds while a string is read into it. -/
structure Filled (bufsz : Nat) (buf : Block) (i : Nat) (chars : Bytes) : Prop where
  filling : buf.Filling bufsz (chars.take (bufsz - 1))
  index : i = (chars.take (bufsz - 1)).length

theorem Filled.putChar {bufsz i : Nat} {buf : Block} {chars : Bytes}
    (filled : Filled bufsz buf i chars) (c : UInt8) :
    ∃ buf' i', putChar buf i bufsz c = .ok (buf', i') ∧ Filled bufsz buf' i' (chars ++ [c]) := by
  have index := filled.index
  rw [List.length_take] at index
  rw [JsonMemory.putChar]
  split
  · next room =>
    have whole : chars.take (bufsz - 1) = chars := List.take_of_length_le (by omega)
    have whole' : (chars ++ [c]).take (bufsz - 1) = chars ++ [c] :=
      List.take_of_length_le (by
        rw [List.length_append, List.length_singleton]
        omega)
    have filling := filled.filling
    rw [whole] at filling
    obtain ⟨buf', written, filling'⟩ := filling.write [c] (by
      rw [List.length_singleton]
      omega)
    rw [filled.index, whole, written]
    refine ⟨buf', _, rfl, ?_, ?_⟩
    · rw [whole']
      exact filling'
    · rw [whole', List.length_append]
      rfl
  · next full =>
    have same : (chars ++ [c]).take (bufsz - 1) = chars.take (bufsz - 1) :=
      List.take_append_of_le_length (by omega)
    exact ⟨buf, i, rfl, same ▸ filled.filling, same ▸ filled.index⟩

theorem scanLoop_end {bufsz i : Nat} {buf : Block} {b : UInt8} (ends : b = 0 ∨ b = 0x22)
    (q : Bytes) : scanLoop bufsz buf i (b :: q) = .ok (buf, i, b :: q) := by
  rw [scanLoop.eq_def]
  exact if_pos ends

theorem scanLoop_escape (bufsz i : Nat) (buf : Block) (c : UInt8) (q : Bytes) :
    scanLoop bufsz buf i (0x5c :: c :: q) =
      (putChar buf i bufsz (unescape c) >>= fun r => scanLoop bufsz r.1 r.2 q) := by
  rw [scanLoop.eq_def]
  rfl

theorem scanLoop_other {bufsz i : Nat} {buf : Block} {b : UInt8} (goesOn : ¬(b = 0 ∨ b = 0x22))
    (notEscape : b ≠ 0x5c) (q : Bytes) : scanLoop bufsz buf i (b :: q) =
      (putChar buf i bufsz b >>= fun r => scanLoop bufsz r.1 r.2 q) := by
  rw [scanLoop.eq_def]
  dsimp only
  rw [if_neg goesOn, if_neg notEscape]

theorem scanString_escape (c : UInt8) (q : Bytes) : scanString (0x5c :: c :: q) =
    (scanString q).map fun r => (unescape c :: r.1, r.2) := by
  rw [scanString.eq_def]
  rfl

/-- Where the characters of a string end, with the step over the closing quote. -/
structure Scan (bufsz : Nat) (chars next : Bytes) (run : Except Stop (Block × Nat × Bytes)) :
    Prop where
  run : ∃ buf i c q, run = .ok (buf, i, c :: q) ∧ Filled bufsz buf i chars ∧
    (if c = 0x22 then q else c :: q) = next ++ [0]

theorem scanLoop_eq {bufsz i : Nat} {buf : Block} {chars : Bytes} (noNul : 0 ∉ p)
    (filled : Filled bufsz buf i chars) :
    (scanString p = none ∧ scanLoop bufsz buf i (p ++ [0]) = .error .fault) ∨
      ∃ more next, scanString p = some (more, next) ∧
        Scan bufsz (chars ++ more) next (scanLoop bufsz buf i (p ++ [0])) := by
  -- the cases in which a character is stored and the loop goes on
  have goesOn {rest rest' : Bytes} {c : UInt8} {buf : Block} {i : Nat} {chars : Bytes}
      (filled : Filled bufsz buf i chars) (scans : scanString rest' =
        (scanString rest).map fun r => (c :: r.1, r.2))
      (loops : scanLoop bufsz buf i (rest' ++ [0]) =
        (putChar buf i bufsz c >>= fun r => scanLoop bufsz r.1 r.2 (rest ++ [0])))
      (ih : ∀ {i : Nat} {buf : Block} {chars : Bytes}, Filled bufsz buf i chars →
        (scanString rest = none ∧ scanLoop bufsz buf i (rest ++ [0]) = .error .fault) ∨
          ∃ more next, scanString rest = some (more, next) ∧
            Scan bufsz (chars ++ more) next (scanLoop bufsz buf i (rest ++ [0]))) :
      (scanString rest' = none ∧ scanLoop bufsz buf i (rest' ++ [0]) = .error .fault) ∨
        ∃ more next, scanString rest' = some (more, next) ∧
          Scan bufsz (chars ++ more) next (scanLoop bufsz buf i (rest' ++ [0])) := by
    obtain ⟨buf₁, i₁, stored, filled₁⟩ := filled.putChar c
    rw [loops, stored, ok_bind, scans]
    rcases ih filled₁ with ⟨isNone, fault⟩ | ⟨more, next, isSome, scan⟩
    · exact .inl ⟨by rw [isNone]; rfl, fault⟩
    · refine .inr ⟨c :: more, next, by rw [isSome]; rfl, ?_⟩
      rwa [List.append_assoc, List.singleton_append] at scan
  induction p using scanString.induct generalizing i buf chars with
  | case1 =>
    refine .inr ⟨[], [], rfl, ⟨buf, i, 0, [], scanLoop_end (.inl rfl) [], ?_, rfl⟩⟩
    rwa [List.append_nil]
  | case2 rest =>
    refine .inr ⟨[], rest, scanString_quote rest,
      ⟨buf, i, 0x22, rest ++ [0], scanLoop_end (.inr rfl) _, ?_, rfl⟩⟩
    rwa [List.append_nil]
  | case3 notQuote =>
    obtain ⟨buf₁, i₁, stored, -⟩ := filled.putChar (unescape 0)
    refine .inl ⟨by rw [scanString.eq_def]; rfl, ?_⟩
    rw [List.singleton_append, scanLoop_escape, stored, ok_bind, scanLoop]
  | case4 c rest notQuote ih =>
    simp only [List.mem_cons, not_or] at noNul
    exact goesOn filled (scanString_escape c rest) (scanLoop_escape bufsz i buf c _)
      fun filled' => ih noNul.2.2 filled'
  | case5 b rest notQuote notEscape ih =>
    rw [List.mem_cons, not_or] at noNul
    exact goesOn filled (scanString_other notQuote notEscape rest)
      (scanLoop_other (not_or.2 ⟨Ne.symm noNul.1, notQuote⟩) notEscape _)
      fun filled' => ih noNul.2 filled'

theorem cstr_eq {buf : Block} {data : Bytes} (holds : buf.Holds (data ++ [0])) :
    cstr buf = .ok (cText data) := by
  obtain ⟨rest, rfl⟩ := holds
  induction data with
  | nil => rfl
  | cons b data ih =>
    rw [List.cons_append, List.map_cons, List.cons_append, cstr]
    by_cases ends : b = 0
    · rw [if_pos ends, ends]
      rfl
    · rw [if_neg ends, ih, cText, cText, List.takeWhile_cons_of_pos (by simpa using ends)]
      rfl

/-- What a string is read as. -/
def ParsesAs (bufsz : Nat) : Scanned → Except Stop (Option (Block × Bytes)) → Prop
  | .null, run => run = .ok none
  | .fault, run => run = .error .fault
  | .str chars next, run => ∃ buf, run = .ok (some (buf, next ++ [0])) ∧ buf.length = bufsz ∧
      cstr buf = .ok chars

theorem parseString_eq {buf : Block} {bufsz : Nat} (noNul : 0 ∉ p) (size : buf.length = bufsz)
    (positive : 0 < bufsz) :
    ParsesAs bufsz (Runtime.parseString p bufsz) (parseString (p ++ [0]) buf bufsz) := by
  cases p with
  | nil => rfl
  | cons b rest =>
    rw [List.mem_cons, not_or] at noNul
    rw [List.cons_append, parseString, deref_cons, ok_bind, List.tail_cons]
    by_cases opens : b = 0x22
    · rw [if_neg (not_not.2 opens), Runtime.parseString, if_pos opens]
      have empty : Filled bufsz buf 0 [] := by
        refine ⟨⟨?_, size⟩, ?_⟩ <;> rw [List.take_nil]
        · exact Block.holds_nil buf
        · rfl
      rcases scanLoop_eq noNul.2 empty with ⟨isNone, fault⟩ | ⟨more, next, isSome, scan⟩
      · rw [isNone, fault]
        rfl
      · obtain ⟨buf', i, c, q, runs, filled, rest'⟩ := scan.run
        rw [List.nil_append] at filled
        have index := filled.index
        obtain ⟨buf'', written, filling⟩ := filled.filling.write [0] (by
          rw [List.length_singleton, List.length_take]
          omega)
        rw [← index] at written
        rw [isSome, runs, ok_bind]
        refine ⟨buf'', ?_, filling.length, cstr_eq filling.holds⟩
        simp only [written, ok_bind, deref, pure_eq_ok, List.tail_cons, rest']
    · rw [if_pos opens, Runtime.parseString, if_neg opens]
      rfl

theorem strncmpIsZero_eq {word : Bytes} (noNul : 0 ∉ word) (p : Bytes) :
    strncmpIsZero word (p ++ [0]) = .ok (decide (word <+: p)) := by
  induction word generalizing p with
  | nil => simp [strncmpIsZero]
  | cons w word ih =>
    rw [List.mem_cons, not_or] at noNul
    cases p with
    | nil => simp [strncmpIsZero, noNul.1]
    | cons b rest =>
      rw [List.cons_append, strncmpIsZero]
      by_cases same : b = w
      · rw [if_pos same, ih noNul.2, same]
        simp
      · rw [if_neg same]
        simp [Ne.symm same]

theorem numberLoop_eq (p : Bytes) : numberLoop (p ++ [0]) =
    .ok (p.takeWhile isNumberChar, p.dropWhile isNumberChar ++ [0]) := by
  induction p with
  | nil => rfl
  | cons b rest ih =>
    rw [List.cons_append, numberLoop]
    by_cases goesOn : isNumberChar b = true
    · rw [if_pos goesOn, ih, List.takeWhile_cons_of_pos goesOn, List.dropWhile_cons_of_pos goesOn]
      rfl
    · rw [if_neg goesOn, List.takeWhile_cons_of_neg goesOn, List.dropWhile_cons_of_neg goesOn]
      rfl

/-- What a value is read as. -/
def ValueAs : Scanned → Except Stop (Option Value) → Prop
  | .null, run => run = .ok none
  | .fault, run => run = .error .fault
  | .str chars next, run => ∃ buf, run = .ok (some ⟨chars, buf, next ++ [0]⟩) ∧
      buf.length = valSize

theorem parseNumber_eq (p : Bytes) {buf : Block} (size : buf.length = valSize) :
    ∃ buf', parseNumber (p ++ [0]) buf = .ok ⟨(p.takeWhile isNumberChar).take (valSize - 1), buf',
      p.dropWhile isNumberChar ++ [0]⟩ ∧ buf'.length = valSize := by
  have limit : valSize = 4096 := rfl
  generalize isChars : p.takeWhile isNumberChar = chars
  have count : (if valSize ≤ chars.length then valSize - 1 else chars.length) =
      (chars.take (valSize - 1)).length := by
    rw [List.length_take]
    split <;> omega
  have short : (chars.take (valSize - 1)).length < valSize := by
    rw [List.length_take]
    omega
  have within : (chars.take (valSize - 1)).length ≤ chars.length := by
    rw [List.length_take]
    exact Nat.min_le_right _ _
  obtain ⟨first, copied, filling⟩ :=
    (⟨Block.holds_nil buf, size⟩ : buf.Filling valSize []).write (chars.take (valSize - 1))
      (by
        rw [List.length_nil]
        omega)
  rw [List.nil_append] at filling
  obtain ⟨second, ended, filling'⟩ := filling.write [0] (by
    rw [List.length_singleton]
    omega)
  have read : second.read 0 (chars.take (valSize - 1)).length = .ok (chars.take (valSize - 1)) :=
    Block.Holds.read [] _ _ filling'.holds
  have same : chars.take (chars.take (valSize - 1)).length = chars.take (valSize - 1) := by
    rw [List.length_take, List.take_eq_take_iff]
    omega
  rw [List.length_nil, Nat.cast_zero] at copied
  refine ⟨second, ?_, filling'.length⟩
  rw [parseNumber, numberLoop_eq, ok_bind, isChars]
  dsimp only
  rw [count, Block.memcpy_of_le _ _ within, same, copied, ok_bind, ended, ok_bind, read, ok_bind,
    pure_eq_ok]

theorem drop_append_nul {word : Bytes} (found : word <+: p) :
    (p ++ [0]).drop word.length = p.drop word.length ++ [0] :=
  List.drop_append_of_le_length (List.IsPrefix.length_le found)

theorem parseWord_cons {word : Bytes} (noNul : 0 ∉ word) (words : List Bytes) (buf : Block) :
    parseWord (p ++ [0]) buf (word :: words) =
      if word <+: p then .ok ⟨word, buf, p.drop word.length ++ [0]⟩
      else parseWord (p ++ [0]) buf words := by
  rw [parseWord, strncmpIsZero_eq noNul, ok_bind]
  by_cases found : word <+: p
  · rw [if_pos found, if_pos (decide_eq_true found), drop_append_nul found]
    rfl
  · rw [if_neg found, if_neg (by simpa using found)]

theorem parseWord_eq (p : Bytes) {buf : Block} (size : buf.length = valSize) :
    ∃ chars next buf', (if wordTrue <+: p then Scanned.str wordTrue (p.drop wordTrue.length)
        else if wordFalse <+: p then .str wordFalse (p.drop wordFalse.length)
        else if wordNull <+: p then .str wordNull (p.drop wordNull.length)
        else scanNumber p) = .str chars next ∧
      parseWord (p ++ [0]) buf [wordTrue, wordFalse, wordNull] = .ok ⟨chars, buf', next ++ [0]⟩ ∧
        buf'.length = valSize := by
  rw [parseWord_cons (by decide), parseWord_cons (by decide), parseWord_cons (by decide)]
  split
  · exact ⟨_, _, buf, rfl, rfl, size⟩
  · split
    · exact ⟨_, _, buf, rfl, rfl, size⟩
    · split
      · exact ⟨_, _, buf, rfl, rfl, size⟩
      · obtain ⟨buf', runs, size'⟩ := parseNumber_eq p size
        exact ⟨_, _, buf', rfl, runs, size'⟩

theorem parseValue_eq {buf : Block} (noNul : 0 ∉ p) (size : buf.length = valSize) :
    ValueAs (Runtime.parseValue p) (parseValue (p ++ [0]) buf) := by
  obtain ⟨b, q, first⟩ : ∃ b q, p ++ [0] = b :: q := by
    cases p with
    | nil => exact ⟨0, [], rfl⟩
    | cons b rest => exact ⟨b, rest ++ [0], rfl⟩
  have quote : p.head? = some 0x22 ↔ b = 0x22 := by
    cases p with
    | nil =>
      cases first
      decide
    | cons c rest =>
      cases first
      rw [List.head?_cons, Option.some.injEq]
  rw [Runtime.parseValue, parseValue, first, deref_cons, ok_bind, ← first]
  by_cases opens : b = 0x22
  · rw [if_pos opens, if_pos (quote.2 opens)]
    have parsed := parseString_eq noNul size (by decide)
    cases scanned : Runtime.parseString p valSize with
    | null =>
      rw [scanned] at parsed
      rw [show parseString (p ++ [0]) buf valSize = .ok none from parsed]
      rfl
    | fault =>
      rw [scanned] at parsed
      rw [show parseString (p ++ [0]) buf valSize = .error .fault from parsed]
      rfl
    | str chars next =>
      rw [scanned] at parsed
      obtain ⟨buf', runs, size', value⟩ := parsed
      rw [runs, ok_bind]
      exact ⟨buf', by simp only [value, ok_bind, pure_eq_ok], size'⟩
  · rw [if_neg opens, if_neg (mt quote.1 opens)]
    obtain ⟨chars, next, buf', scanned, runs, size'⟩ := parseWord_eq p size
    rw [scanned, runs]
    exact ⟨buf', rfl, size'⟩

/-- What a round does. -/
def RoundAs : JsonStep → Except Stop Round → Prop
  | .done, run => run = .ok .done
  | .fault, run => run = .error .fault
  | .skip next, run => ∃ key val, run = .ok (.next key val none (next ++ [0])) ∧
      key.length = keySize ∧ val.length = valSize
  | .set chars value next, run => ∃ key val,
      run = .ok (.next key val (some (chars, value)) (next ++ [0])) ∧
        key.length = keySize ∧ val.length = valSize

theorem notMem_skipWs (noNul : 0 ∉ p) : 0 ∉ Runtime.skipWs p :=
  fun member => noNul ((skipWs_suffix p).mem member)

theorem notMem_next {chars next : Bytes} {bufsz : Nat} (noNul : 0 ∉ p)
    (parsed : Runtime.parseString p bufsz = .str chars next) : 0 ∉ next :=
  fun member => noNul ((behind_parseString parsed).suffix.mem member)

theorem parseAfterKey_eq {key val : Block} {chars : Bytes} (noNul : 0 ∉ p)
    (keyIs : cstr key = .ok chars) (keyLength : key.length = keySize)
    (valLength : val.length = valSize) :
    RoundAs (Runtime.parseAfterKey chars p) (parseAfterKey key val (p ++ [0])) := by
  have noNul' := notMem_skipWs noNul
  rw [Runtime.parseAfterKey, parseAfterKey, skipWs_eq noNul, ok_bind]
  cases left : Runtime.skipWs p with
  | nil => rfl
  | cons b rest =>
    rw [left, List.mem_cons, not_or] at noNul'
    rw [List.cons_append, deref_cons, ok_bind, List.tail_cons]
    dsimp only
    by_cases colon : b = 0x3a
    · rw [if_pos colon, if_neg (not_not.2 colon), skipWs_eq noNul'.2, ok_bind]
      have parsed := parseValue_eq (notMem_skipWs noNul'.2) valLength
      cases scanned : Runtime.parseValue (Runtime.skipWs rest) with
      | null =>
        rw [scanned] at parsed
        rw [show parseValue (Runtime.skipWs rest ++ [0]) val = .ok none from parsed]
        rfl
      | fault =>
        rw [scanned] at parsed
        rw [show parseValue (Runtime.skipWs rest ++ [0]) val = .error .fault from parsed]
        rfl
      | str value next =>
        rw [scanned] at parsed
        obtain ⟨val', runs, valLength'⟩ := parsed
        rw [runs, ok_bind]
        exact ⟨key, val', by simp only [keyIs, ok_bind, pure_eq_ok], keyLength, valLength'⟩
    · rw [if_neg colon, if_pos colon]
      rfl

theorem round_eq {key val : Block} (noNul : 0 ∉ p) (keyLength : key.length = keySize)
    (valLength : val.length = valSize) : RoundAs (jsonStep p) (round key val (p ++ [0])) := by
  cases p with
  | nil => rfl
  | cons c q =>
    have notEnd : c ≠ 0 := fun isEnd => noNul (isEnd ▸ List.mem_cons_self)
    have noNul' := notMem_skipWs noNul
    rw [jsonStep, round, List.cons_append, deref_cons, ok_bind, if_neg notEnd, ← List.cons_append,
      skipWs_eq noNul, ok_bind]
    cases left : Runtime.skipWs (c :: q) with
    | nil => rfl
    | cons b rest =>
      rw [left] at noNul'
      rw [List.cons_append, deref_cons, ok_bind, List.tail_cons]
      dsimp only
      split
      · rfl
      · split
        · exact ⟨key, val, rfl, keyLength, valLength⟩
        · rw [parseEntry, ← List.cons_append]
          have parsed := parseString_eq noNul' keyLength (by decide)
          cases scanned : Runtime.parseString (b :: rest) keySize with
          | null =>
            rw [scanned] at parsed
            rw [show parseString (b :: rest ++ [0]) key keySize = .ok none from parsed]
            rfl
          | fault =>
            rw [scanned] at parsed
            rw [show parseString (b :: rest ++ [0]) key keySize = .error .fault from parsed]
            rfl
          | str chars next =>
            rw [scanned] at parsed
            obtain ⟨key', runs, keyLength', keyIs⟩ := parsed
            rw [runs, ok_bind]
            exact parseAfterKey_eq (notMem_next noNul' scanned) keyIs keyLength' valLength

/-- What the keys and values that are set are read as. -/
def LoopAs (pairs : Option (List (CString × Bytes))) : Except Stop (List (Bytes × Bytes)) :=
  pairs.elim (.error .fault) fun pairs => .ok (pairs.map fun e => (e.1.bytes, e.2))

theorem mainLoop_eq (rounds : Nat) {key val : Block} (noNul : 0 ∉ p) (enough : p.length < rounds)
    (keyLength : key.length = keySize) (valLength : val.length = valSize) :
    mainLoop rounds key val (p ++ [0]) = LoopAs (parseLoop p) := by
  induction rounds generalizing p key val with
  | zero => exact absurd enough (Nat.not_lt_zero _)
  | succ rounds ih =>
    have runs := round_eq noNul keyLength valLength
    have fewer {next : Bytes} (goesOn : (jsonStep p).next = some next) :
        0 ∉ next ∧ next.length < rounds := by
      have behind := behind_jsonStep goesOn
      have shorter := behind.length_lt
      exact ⟨fun member => noNul (behind.suffix.mem member), by omega⟩
    rw [mainLoop]
    cases step : jsonStep p with
    | done =>
      rw [step] at runs
      rw [parseLoop_done step, show round key val (p ++ [0]) = .ok .done from runs]
      rfl
    | fault =>
      rw [step] at runs
      rw [parseLoop_fault step, show round key val (p ++ [0]) = .error .fault from runs]
      rfl
    | skip next =>
      rw [step] at runs fewer
      obtain ⟨noNul', enough'⟩ := fewer rfl
      obtain ⟨key', val', runs, keyLength', valLength'⟩ := runs
      rw [parseLoop_skip step, runs, ok_bind, ← ih noNul' enough' keyLength' valLength']
      dsimp only
      cases mainLoop rounds key' val' (next ++ [0]) <;> rfl
    | set chars value next =>
      have noNulKey := (setFrom_jsonStep step).keyNoNul
      rw [step] at runs fewer
      obtain ⟨noNul', enough'⟩ := fewer rfl
      obtain ⟨key', val', runs, keyLength', valLength'⟩ := runs
      rw [parseLoop_set step, runs, ok_bind]
      dsimp only
      rw [ih noNul' enough' keyLength' valLength']
      cases parseLoop next with
      | none => rfl
      | some pairs =>
        have keyIs : (cString chars).bytes = chars := cText_eq_self_iff.2 noNulKey
        simp only [LoopAs, Option.elim_some, ok_bind, pure_eq_ok, Option.map_some, List.map_cons,
          keyIs]
        rfl

theorem duxrtJsonParse_eq {rounds : Nat} {input : Bytes} (enough : input.length < rounds) :
    duxrtJsonParse rounds input = LoopAs (Json.duxrtJsonParse input) := by
  have noNul : 0 ∉ cText input := cText_noNul input
  have short : (cText input).length ≤ input.length := (List.takeWhile_sublist _).length_le
  have noNul' := notMem_skipWs noNul
  have left := (skipWs_suffix (cText input)).length_le
  rw [duxrtJsonParse, Json.duxrtJsonParse, skipWs_eq noNul, ok_bind]
  cases isText : Runtime.skipWs (cText input) with
  | nil => rfl
  | cons b rest =>
    rw [isText, List.mem_cons, not_or] at noNul'
    rw [isText, List.length_cons] at left
    rw [List.cons_append, deref_cons, ok_bind, List.tail_cons]
    dsimp only
    by_cases opens : b = 0x7b
    · have noNul'' := notMem_skipWs noNul'.2
      have left' := (skipWs_suffix rest).length_le
      rw [if_neg (not_not.2 opens), if_pos opens, skipWs_eq noNul'.2, ok_bind]
      have loops := mainLoop_eq rounds noNul'' (by omega)
        (Block.length_fresh keySize) (Block.length_fresh valSize)
      cases isBody : Runtime.skipWs rest with
      | nil =>
        rw [isBody] at loops
        exact loops
      | cons c body =>
        rw [isBody] at loops
        rw [List.head?_cons, List.cons_append, deref_cons, ok_bind]
        by_cases closes : c = 0x7d
        · rw [if_pos closes, if_pos (congrArg some closes)]
          rfl
        · rw [if_neg closes, if_neg (fun same => closes (Option.some.inj same))]
          exact loops
    · rw [if_pos opens, if_neg opens]
      rfl

end Refine

end Dux.Runtime.JsonMemory
