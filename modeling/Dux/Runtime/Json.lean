import Dux.Logic.CText
import Dux.Runtime.DictMap
import Dux.Runtime.Str
import Mathlib.Algebra.Order.BigOperators.Group.List
import Mathlib.Algebra.Order.Group.Nat

/-!
# JSON texts of dictionaries

`duxrt_json_stringify` writes the entries of a dictionary as they are, and
`duxrt_json_parse` reads an object with escapes in its strings, into buffers of fixed
size (`src/runtime/json_rt.c`).  A dictionary that is read is given by the calls that
make it.
-/

namespace Dux.Runtime

open Logic (cText isSpace)

def cString (text : Bytes) : CString := ⟨cText text, Logic.cText_noNul text⟩

/-! ## Writing -/

/-- The live entries of a dictionary in the order of their places. -/
def DuxDict.liveEntries (d : DuxDict) : List (CString × Ptr) :=
  d.entries.filterMap fun e =>
    match e.key with
    | .str key => some (key, e.val)
    | .null | .tombstone => none

/-- The characters of a string; a null pointer stands for none. -/
def stringAt (strs : Ptr → Bytes) (val : Ptr) : Bytes := if val = .null then [] else strs val

/-- An entry of the text: `"key":"value"`. -/
def entryText (e : Bytes × Bytes) : Bytes :=
  0x22 :: (e.1 ++ 0x22 :: 0x3a :: 0x22 :: (e.2 ++ [0x22]))

/-- The entries of the text behind the first one, with the closing brace. -/
def restText : List (Bytes × Bytes) → Bytes
  | [] => [0x7d]
  | e :: es => 0x2c :: (entryText e ++ restText es)

/-- The text of a list of entries. -/
def entriesText : List (Bytes × Bytes) → Bytes
  | [] => [0x7b, 0x7d]
  | e :: es => 0x7b :: (entryText e ++ restText es)

/-- `duxrt_json_stringify`; the buffer grows with the text. -/
def duxrtJsonStringify (strs : Ptr → Bytes) (d : DuxDict) : Bytes :=
  entriesText (d.liveEntries.map fun e => (e.1.bytes, cText (stringAt strs e.2)))

/-! ## Reading -/

def skipWs (p : Bytes) : Bytes := p.dropWhile isSpace

/-- The character for which an escape stands. -/
def unescape (b : UInt8) : UInt8 :=
  if b = 0x6e then 0x0a else if b = 0x74 then 0x09 else if b = 0x72 then 0x0d else b

/-- The loop of `parse_string`: the characters of the string and what follows its closing
quote.  `none`: it reads behind the end of the text. -/
def scanString : Bytes → Option (Bytes × Bytes)
  | [] => some ([], [])
  | b :: rest =>
      if b = 0x22 then some ([], rest)
      else if b = 0x5c then
        match rest with
        | [] => none
        | c :: rest => (scanString rest).map fun r => (unescape c :: r.1, r.2)
      else (scanString rest).map fun r => (b :: r.1, r.2)

/-- What `parse_string` returns; `fault` when it reads behind the end of the text. -/
inductive Scanned
  | null
  | fault
  | str (chars next : Bytes)

/-- `parse_string` into a buffer of a given size, which is read as a C string. -/
def parseString (p : Bytes) (bufsz : Nat) : Scanned :=
  match p with
  | [] => .null
  | b :: rest =>
      if b = 0x22 then
        match scanString rest with
        | none => .fault
        | some (chars, next) => .str (cText (chars.take (bufsz - 1))) next
      else .null

/-- `sizeof key` in `duxrt_json_parse`. -/
def keySize : Nat := 512

/-- `sizeof val` in `duxrt_json_parse`. -/
def valSize : Nat := 4096

/-- A character behind the first one of a number. -/
def isNumberChar (b : UInt8) : Bool :=
  (0x30 ≤ b && b ≤ 0x39) || b = 0x2e || b = 0x65 || b = 0x45 || b = 0x2b || b = 0x2d

/-- A number at the front of a text, and the rest. -/
def scanNumber (p : Bytes) : Scanned :=
  .str ((p.takeWhile isNumberChar).take (valSize - 1)) (p.dropWhile isNumberChar)

/-- The words that are values of their own. -/
def wordTrue : Bytes := [0x74, 0x72, 0x75, 0x65]
def wordFalse : Bytes := [0x66, 0x61, 0x6c, 0x73, 0x65]
def wordNull : Bytes := [0x6e, 0x75, 0x6c, 0x6c]

/-- The value at the front of a text, and the rest. -/
def parseValue (p : Bytes) : Scanned :=
  if p.head? = some 0x22 then parseString p valSize
  else if wordTrue <+: p then .str wordTrue (p.drop wordTrue.length)
  else if wordFalse <+: p then .str wordFalse (p.drop wordFalse.length)
  else if wordNull <+: p then .str wordNull (p.drop wordNull.length)
  else scanNumber p

/-- What one round of the loop of `duxrt_json_parse` does. -/
inductive JsonStep
  | done
  | fault
  | skip (next : Bytes)
  | set (key value next : Bytes)

def parseAfterKey (key p : Bytes) : JsonStep :=
  match skipWs p with
  | [] => .done
  | b :: rest =>
      if b = 0x3a then
        match parseValue (skipWs rest) with
        | .null => .done
        | .fault => .fault
        | .str value next => .set key value next
      else .done

def parseEntry (p : Bytes) : JsonStep :=
  match parseString p keySize with
  | .null => .done
  | .fault => .fault
  | .str key next => parseAfterKey key next

def jsonStep (p : Bytes) : JsonStep :=
  match skipWs p with
  | [] => .done
  | b :: rest =>
      if b = 0x7d then .done
      else if b = 0x2c then .skip rest
      else parseEntry (b :: rest)

/-- What is left of a text behind one of its characters. -/
def Behind (next p : Bytes) : Prop := ∃ b rest, b :: rest <:+ p ∧ next <:+ rest

namespace Behind

variable {next next' p p' : Bytes}

theorem suffix (behind : Behind next p) : next <:+ p := by
  obtain ⟨b, rest, inside, left⟩ := behind
  exact (left.trans (List.suffix_cons b rest)).trans inside

theorem length_lt (behind : Behind next p) : next.length < p.length := by
  obtain ⟨b, rest, inside, left⟩ := behind
  exact Nat.lt_of_lt_of_le (Nat.lt_succ_of_le left.length_le) inside.length_le

theorem of_suffix (left : next' <:+ next) (behind : Behind next p) : Behind next' p := by
  obtain ⟨b, rest, inside, left'⟩ := behind
  exact ⟨b, rest, inside, left.trans left'⟩

theorem of_suffix_right (behind : Behind next p) (inside : p <:+ p') : Behind next p' := by
  obtain ⟨b, rest, inside', left⟩ := behind
  exact ⟨b, rest, inside'.trans inside, left⟩

end Behind

theorem skipWs_suffix (p : Bytes) : skipWs p <:+ p := List.dropWhile_suffix _

theorem suffix_scanString {p chars next : Bytes} (scanned : scanString p = some (chars, next)) :
    next <:+ p := by
  fun_induction scanString p generalizing chars with
  | case1 =>
    cases scanned
    exact List.suffix_refl _
  | case2 rest =>
    cases scanned
    exact List.suffix_cons _ _
  | case3 => cases scanned
  | case4 c rest _ ih =>
    obtain ⟨⟨chars', next'⟩, inner, result⟩ := Option.map_eq_some_iff.1 scanned
    cases result
    exact (ih inner).trans ((List.suffix_cons c rest).trans (List.suffix_cons _ _))
  | case5 b rest isQuote isEscape ih =>
    obtain ⟨⟨chars', next'⟩, inner, result⟩ := Option.map_eq_some_iff.1 scanned
    cases result
    exact (ih inner).trans (List.suffix_cons b rest)

theorem behind_parseString {p chars next : Bytes} {bufsz : Nat}
    (parsed : parseString p bufsz = .str chars next) : Behind next p := by
  cases p with
  | nil => cases parsed
  | cons b rest =>
    rw [parseString] at parsed
    split at parsed
    · cases scanned : scanString rest with
      | none => simp [scanned] at parsed
      | some r =>
        simp only [scanned, Scanned.str.injEq] at parsed
        rw [← parsed.2]
        exact ⟨b, rest, List.suffix_refl _, suffix_scanString scanned⟩
    · cases parsed

theorem suffix_parseValue {p value next : Bytes} (parsed : parseValue p = .str value next) :
    next <:+ p := by
  unfold parseValue at parsed
  split at parsed
  · exact (behind_parseString parsed).suffix
  · split at parsed
    · cases parsed
      exact List.drop_suffix _ _
    · split at parsed
      · cases parsed
        exact List.drop_suffix _ _
      · split at parsed
        · cases parsed
          exact List.drop_suffix _ _
        · cases parsed
          exact List.dropWhile_suffix _

def JsonStep.next : JsonStep → Option Bytes
  | .done | .fault => none
  | .skip next | .set _ _ next => some next

theorem behind_parseEntry {p next : Bytes} (goesOn : (parseEntry p).next = some next) :
    Behind next p := by
  unfold parseEntry at goesOn
  split at goesOn
  · cases goesOn
  · cases goesOn
  · next key rest parsed =>
    apply Behind.of_suffix _ (behind_parseString parsed)
    unfold parseAfterKey at goesOn
    have left := skipWs_suffix rest
    split at goesOn
    · cases goesOn
    · next b rest' isRest =>
      rw [isRest] at left
      split at goesOn
      · split at goesOn
        · cases goesOn
        · cases goesOn
        · next value next' isValue =>
          cases goesOn
          exact (suffix_parseValue isValue).trans ((skipWs_suffix rest').trans
            ((List.suffix_cons b rest').trans left))
      · cases goesOn

theorem behind_jsonStep {p next : Bytes} (goesOn : (jsonStep p).next = some next) :
    Behind next p := by
  unfold jsonStep at goesOn
  have left := skipWs_suffix p
  split at goesOn
  · cases goesOn
  · next b rest isRest =>
    rw [isRest] at left
    split at goesOn
    · cases goesOn
    · split at goesOn
      · cases goesOn
        exact ⟨b, _, left, List.suffix_refl _⟩
      · exact (behind_parseEntry goesOn).of_suffix_right left

/-- The loop of `duxrt_json_parse`: the keys and values that it sets, in order. -/
def parseLoop (p : Bytes) : Option (List (CString × Bytes)) :=
  match _step : jsonStep p with
  | .done => some []
  | .fault => none
  | .skip next => parseLoop next
  | .set key value next => (parseLoop next).map fun pairs => (cString key, value) :: pairs
termination_by p.length
decreasing_by
  all_goals exact (behind_jsonStep (by rw [_step]; rfl)).length_lt

theorem parseLoop_done {p : Bytes} (step : jsonStep p = .done) : parseLoop p = some [] := by
  rw [parseLoop]
  split <;> rename_i step' <;> rw [step] at step' <;> cases step'

theorem parseLoop_fault {p : Bytes} (step : jsonStep p = .fault) : parseLoop p = none := by
  rw [parseLoop]
  split <;> rename_i step' <;> rw [step] at step' <;> cases step'

theorem parseLoop_skip {p next : Bytes} (step : jsonStep p = .skip next) :
    parseLoop p = parseLoop next := by
  rw [parseLoop]
  split <;> rename_i step' <;> rw [step] at step' <;> cases step'
  rfl

theorem parseLoop_set {p key value next : Bytes} (step : jsonStep p = .set key value next) :
    parseLoop p = (parseLoop next).map fun pairs => (cString key, value) :: pairs := by
  rw [parseLoop]
  split <;> rename_i step' <;> rw [step] at step' <;> cases step'
  rfl

/-- `duxrt_json_parse`: the keys and values that it sets, in order. -/
def Json.duxrtJsonParse (input : Bytes) : Option (List (CString × Bytes)) :=
  match skipWs (cText input) with
  | [] => some []
  | b :: rest =>
      if b = 0x7b then
        if (skipWs rest).head? = some 0x7d then some [] else parseLoop (skipWs rest)
      else some []

/-- The map that setting keys to values makes. -/
def mapOf (pairs : List (CString × Bytes)) : Finmap fun _ : CString => Bytes :=
  pairs.foldl (fun m e => m.insert e.1 e.2) ∅

/-- Of a dictionary, reading what was written gives the keys and their values. -/
def SurvivesJson (strs : Ptr → Bytes) (calls : List DictCall) : Prop :=
  ∃ d replies pairs, execCalls duxrtDictNew calls = some (d, replies) ∧
    Json.duxrtJsonParse (duxrtJsonStringify strs d) = some pairs ∧
      ∀ key, (mapOf pairs).lookup key = ((specCalls ∅ calls).1.lookup key).map (stringAt strs)

/-- Characters that are written and read as they are, and fit into a buffer. -/
structure Fits (size : Nat) (chars : Bytes) : Prop where
  noQuote : 0x22 ∉ chars
  noEscape : 0x5c ∉ chars
  noNul : 0 ∉ chars
  short : chars.length < size

/-! ## Reading what fits -/

theorem scanString_quote (rest : Bytes) : scanString (0x22 :: rest) = some ([], rest) := by
  unfold scanString
  rfl

theorem scanString_other {b : UInt8} (noQuote : b ≠ 0x22) (noEscape : b ≠ 0x5c) (rest : Bytes) :
    scanString (b :: rest) = (scanString rest).map fun r => (b :: r.1, r.2) := by
  rw [scanString.eq_def]
  simp only [if_neg noQuote, if_neg noEscape]

theorem scanString_plain {chars : Bytes} (noQuote : 0x22 ∉ chars) (noEscape : 0x5c ∉ chars)
    (rest : Bytes) : scanString (chars ++ 0x22 :: rest) = some (chars, rest) := by
  induction chars with
  | nil => exact scanString_quote rest
  | cons b chars ih =>
    rw [List.mem_cons, not_or] at noQuote noEscape
    rw [List.cons_append, scanString_other (Ne.symm noQuote.1) (Ne.symm noEscape.1),
      ih noQuote.2 noEscape.2]
    rfl

theorem parseString_of_fits {chars : Bytes} {size : Nat} (fits : Fits size chars) (rest : Bytes) :
    parseString (0x22 :: (chars ++ 0x22 :: rest)) size = .str chars rest := by
  have whole : cText (chars.take (size - 1)) = chars := by
    rw [List.take_of_length_le (Nat.le_sub_one_of_lt fits.short), Logic.cText_eq_self_iff]
    exact fits.noNul
  rw [parseString, if_pos rfl, scanString_plain fits.noQuote fits.noEscape]
  simp only [whole]

theorem skipWs_cons {b : UInt8} (visible : isSpace b = false) (rest : Bytes) :
    skipWs (b :: rest) = b :: rest := by
  simp [skipWs, visible]

theorem jsonStep_entryText {e : Bytes × Bytes} (key : Fits keySize e.1) (value : Fits valSize e.2)
    (rest : Bytes) : jsonStep (entryText e ++ rest) = .set e.1 e.2 rest := by
  have isEntry : entryText e ++ rest =
      0x22 :: (e.1 ++ 0x22 :: 0x3a :: 0x22 :: (e.2 ++ 0x22 :: rest)) := by
    simp [entryText]
  have isValue : parseValue (0x22 :: (e.2 ++ 0x22 :: rest)) = .str e.2 rest := by
    rw [parseValue, List.head?_cons, if_pos rfl]
    exact parseString_of_fits value rest
  have afterKey :
      parseAfterKey e.1 (0x3a :: 0x22 :: (e.2 ++ 0x22 :: rest)) = .set e.1 e.2 rest := by
    unfold parseAfterKey
    rw [skipWs_cons (by decide)]
    simp only [if_true, skipWs_cons (show isSpace 0x22 = false by decide), isValue]
  unfold jsonStep parseEntry
  rw [isEntry, skipWs_cons (by decide)]
  simp only [parseString_of_fits key, afterKey]
  rfl

theorem parseLoop_restText {es : List (Bytes × Bytes)}
    (fit : ∀ e ∈ es, Fits keySize e.1 ∧ Fits valSize e.2) :
    parseLoop (restText es) = some (es.map fun e => (cString e.1, e.2)) := by
  induction es with
  | nil => exact parseLoop_done rfl
  | cons e es ih =>
    have here := fit e List.mem_cons_self
    have comma : jsonStep (restText (e :: es)) = .skip (entryText e ++ restText es) := rfl
    rw [parseLoop_skip comma, parseLoop_set (jsonStep_entryText here.1 here.2 _),
      ih fun e' member => fit e' (List.mem_cons_of_mem e member)]
    rfl

theorem noNul_entryText {e : Bytes × Bytes} (key : 0 ∉ e.1) (value : 0 ∉ e.2) :
    0 ∉ entryText e := by
  simp [entryText, key, value]

theorem noNul_entriesText {es : List (Bytes × Bytes)} (noNul : ∀ e ∈ es, 0 ∉ e.1 ∧ 0 ∉ e.2) :
    0 ∉ entriesText es := by
  have rest {es : List (Bytes × Bytes)} (noNul : ∀ e ∈ es, 0 ∉ e.1 ∧ 0 ∉ e.2) :
      0 ∉ restText es := by
    induction es with
    | nil => decide
    | cons e es ih =>
      have here := noNul e List.mem_cons_self
      have later := ih fun e' member => noNul e' (List.mem_cons_of_mem e member)
      simp [restText, noNul_entryText here.1 here.2, later]
  cases es with
  | nil => decide
  | cons e es =>
    have here := noNul e List.mem_cons_self
    have later := rest fun e' member => noNul e' (List.mem_cons_of_mem e member)
    simp [entriesText, noNul_entryText here.1 here.2, later]

theorem duxrtJsonParse_entriesText {es : List (Bytes × Bytes)}
    (noNul : ∀ e ∈ es, 0 ∉ e.1 ∧ 0 ∉ e.2) :
    Json.duxrtJsonParse (entriesText es) = parseLoop (0x2c :: (entriesText es).tail) := by
  rw [Json.duxrtJsonParse, Logic.cText_eq_self_iff.2 (noNul_entriesText noNul)]
  cases es with
  | nil =>
    have skipped : jsonStep (0x2c :: [0x7d]) = .skip [0x7d] := rfl
    rw [entriesText, List.tail_cons, parseLoop_skip skipped, parseLoop_done rfl]
    rfl
  | cons e es =>
    have skipped : jsonStep (0x2c :: (entryText e ++ restText es)) =
        .skip (entryText e ++ restText es) := rfl
    rw [entriesText, List.tail_cons, parseLoop_skip skipped, skipWs_cons (by decide)]
    simp [entryText, skipWs_cons (show isSpace 0x22 = false by decide)]

theorem parse_entriesText_of_fits {es : List (Bytes × Bytes)}
    (fit : ∀ e ∈ es, Fits keySize e.1 ∧ Fits valSize e.2) :
    Json.duxrtJsonParse (entriesText es) = some (es.map fun e => (cString e.1, e.2)) := by
  rw [duxrtJsonParse_entriesText fun e member => ⟨(fit e member).1.noNul, (fit e member).2.noNul⟩]
  cases es with
  | nil =>
    have skipped : jsonStep (0x2c :: [0x7d]) = .skip [0x7d] := rfl
    exact (parseLoop_skip skipped).trans (parseLoop_done rfl)
  | cons e es => exact parseLoop_restText fit

/-! ## Escapes -/

/-- The escapes of a text: its backslashes. -/
def escapes (p : Bytes) : Nat := p.count 0x5c

theorem escapes_le_of_sublist {p q : Bytes} (sub : p.Sublist q) : escapes p ≤ escapes q :=
  sub.count_le 0x5c

theorem escapes_eq_zero {p : Bytes} : escapes p = 0 ↔ 0x5c ∉ p := List.count_eq_zero

theorem escapes_cons (b : UInt8) (p : Bytes) :
    escapes (b :: p) = escapes p + if b = 0x5c then 1 else 0 := by
  simp [escapes, List.count_cons]

theorem escapes_append (p q : Bytes) : escapes (p ++ q) = escapes p + escapes q :=
  List.count_append ..

theorem escapes_cText_le (p : Bytes) : escapes (cText p) ≤ escapes p :=
  escapes_le_of_sublist (List.takeWhile_sublist _)

theorem escapes_unescape (c : UInt8) : (if unescape c = 0x5c then 1 else 0) ≤
    if c = 0x5c then 1 else 0 := by
  unfold unescape
  split
  · simp
  · split
    · simp
    · split
      · simp
      · exact Nat.le_refl _

theorem escapes_scanString {p chars next : Bytes} (scanned : scanString p = some (chars, next)) :
    2 * escapes chars + escapes next ≤ escapes p := by
  fun_induction scanString p generalizing chars with
  | case1 =>
    cases scanned
    exact Nat.le_refl _
  | case2 rest =>
    cases scanned
    rw [escapes_cons]
    simp [escapes]
  | case3 => cases scanned
  | case4 c rest _ ih =>
    obtain ⟨⟨chars', next'⟩, inner, result⟩ := Option.map_eq_some_iff.1 scanned
    cases result
    have same := escapes_unescape c
    rw [escapes_cons, escapes_cons, escapes_cons, if_pos rfl]
    split at same <;> split at same <;> simp_all <;> omega
  | case5 b rest isQuote isEscape ih =>
    obtain ⟨⟨chars', next'⟩, inner, result⟩ := Option.map_eq_some_iff.1 scanned
    cases result
    rw [escapes_cons, escapes_cons, if_neg isEscape]
    exact ih inner

theorem noQuote_scanString {p chars next : Bytes} (scanned : scanString p = some (chars, next))
    (plain : 0x5c ∉ p) : 0x22 ∉ chars := by
  fun_induction scanString p generalizing chars with
  | case1 =>
    cases scanned
    exact List.not_mem_nil
  | case2 rest =>
    cases scanned
    exact List.not_mem_nil
  | case3 => cases scanned
  | case4 c rest _ ih => exact absurd List.mem_cons_self plain
  | case5 b rest isQuote isEscape ih =>
    obtain ⟨⟨chars', next'⟩, inner, result⟩ := Option.map_eq_some_iff.1 scanned
    cases result
    rw [List.mem_cons, not_or] at plain
    simp [Ne.symm isQuote, ih inner plain.2]

/-- What a string that is read has to be. -/
structure ReadAs (p : Bytes) (size : Nat) (chars next : Bytes) : Prop where
  short : chars.length < size
  noNul : 0 ∉ chars
  escapes : 2 * escapes chars + escapes next ≤ escapes p
  noQuote : 0x5c ∉ p → 0x22 ∉ chars

theorem readAs_parseString {p chars next : Bytes} {size : Nat} (positive : 0 < size)
    (parsed : parseString p size = .str chars next) : ReadAs p size chars next := by
  cases p with
  | nil => cases parsed
  | cons b rest =>
    rw [parseString] at parsed
    split at parsed
    · cases scanned : scanString rest with
      | none => simp [scanned] at parsed
      | some r =>
        simp only [scanned, Scanned.str.injEq] at parsed
        obtain ⟨rfl, rfl⟩ := parsed
        have sub : (cText (r.1.take (size - 1))).Sublist r.1 :=
          (List.takeWhile_sublist _).trans (List.take_sublist _ _)
        constructor
        · apply Nat.lt_of_le_of_lt (List.takeWhile_sublist _).length_le
          rw [List.length_take]
          omega
        · exact Logic.cText_noNul _
        · have scan := escapes_scanString scanned
          have fewer := escapes_le_of_sublist sub
          rw [escapes_cons]
          omega
        · intro plain member
          rw [List.mem_cons, not_or] at plain
          exact noQuote_scanString scanned plain.2 (sub.subset member)
    · cases parsed

theorem readAs_parseValue {p chars next : Bytes} (parsed : parseValue p = .str chars next) :
    ReadAs p valSize chars next := by
  have word (w : Bytes) (noQuote : 0x22 ∉ w) (noEscape : 0x5c ∉ w) (noNul : 0 ∉ w)
      (short : w.length < valSize) : ReadAs p valSize w (p.drop w.length) := by
    constructor
    · exact short
    · exact noNul
    · rw [escapes_eq_zero.2 noEscape]
      simpa using escapes_le_of_sublist (List.drop_sublist _ _)
    · exact fun _ => noQuote
  unfold parseValue at parsed
  split at parsed
  · exact readAs_parseString (by decide) parsed
  · split at parsed
    · cases parsed
      exact word wordTrue (by decide) (by decide) (by decide) (by decide)
    · split at parsed
      · cases parsed
        exact word wordFalse (by decide) (by decide) (by decide) (by decide)
      · split at parsed
        · cases parsed
          exact word wordNull (by decide) (by decide) (by decide) (by decide)
        · cases parsed
          have isNumber {b : UInt8} (member : b ∈ (p.takeWhile isNumberChar).take (valSize - 1)) :
              isNumberChar b = true := List.mem_takeWhile_imp (List.mem_of_mem_take member)
          have absent (b : UInt8) (other : isNumberChar b = false) :
              b ∉ (p.takeWhile isNumberChar).take (valSize - 1) := by
            intro member
            rw [isNumber member] at other
            cases other
          constructor
          · rw [List.length_take]
            exact Nat.lt_of_le_of_lt (Nat.min_le_left _ _) (by decide)
          · exact absent 0 (by decide)
          · rw [escapes_eq_zero.2 (absent 0x5c (by decide))]
            simpa using escapes_le_of_sublist (List.dropWhile_sublist _)
          · exact fun _ => absent 0x22 (by decide)

/-- A key and a value that are set have been read from the text. -/
structure SetFrom (p key value next : Bytes) : Prop where
  keyShort : key.length < keySize
  keyNoNul : 0 ∉ key
  valueShort : value.length < valSize
  valueNoNul : 0 ∉ value
  escapes : 2 * (escapes key + Runtime.escapes value) + Runtime.escapes next ≤ Runtime.escapes p
  noQuote : 0x5c ∉ p → 0x22 ∉ key ∧ 0x22 ∉ value

theorem skipWs_sublist (p : Bytes) : (skipWs p).Sublist p := (skipWs_suffix p).sublist

theorem setFrom_parseEntry {p key value next : Bytes}
    (parsed : parseEntry p = .set key value next) : SetFrom p key value next := by
  unfold parseEntry at parsed
  split at parsed
  · cases parsed
  · cases parsed
  · next key' afterKey isKey =>
    unfold parseAfterKey at parsed
    have readKey := readAs_parseString (by decide) isKey
    have skipped := skipWs_sublist afterKey
    split at parsed
    · cases parsed
    · next b rest isRest =>
      rw [isRest] at skipped
      split at parsed
      · split at parsed
        · cases parsed
        · cases parsed
        · next value' next' isValue =>
          cases parsed
          have readValue := readAs_parseValue isValue
          have behind : (skipWs rest).Sublist afterKey :=
            ((skipWs_sublist rest).trans (List.sublist_cons_self b rest)).trans skipped
          have fewer := escapes_le_of_sublist behind
          have ofKey := readKey.escapes
          have ofValue := readValue.escapes
          constructor
          · exact readKey.short
          · exact readKey.noNul
          · exact readValue.short
          · exact readValue.noNul
          · omega
          · intro plain
            constructor
            · exact readKey.noQuote plain
            · apply readValue.noQuote
              rw [← escapes_eq_zero] at plain ⊢
              omega
      · cases parsed

theorem setFrom_jsonStep {p key value next : Bytes} (step : jsonStep p = .set key value next) :
    SetFrom p key value next := by
  unfold jsonStep at step
  have skipped := skipWs_sublist p
  split at step
  · cases step
  · next b rest isRest =>
    split at step
    · cases step
    · split at step
      · cases step
      · have read := setFrom_parseEntry step
        rw [← isRest] at read
        have fewer := escapes_le_of_sublist skipped
        constructor
        · exact read.keyShort
        · exact read.keyNoNul
        · exact read.valueShort
        · exact read.valueNoNul
        · exact read.escapes.trans fewer
        · exact fun plain => read.noQuote fun member => plain (skipped.subset member)

theorem skip_sublist {p next : Bytes} (step : jsonStep p = .skip next) : next.Sublist p :=
  (behind_jsonStep (by rw [step]; rfl)).suffix.sublist

/-- The escapes that keys and values need. -/
def pairEscapes (e : CString × Bytes) : Nat := escapes e.1.bytes + escapes e.2

/-- What is set by reading a text. -/
structure LoopFrom (p : Bytes) (pairs : List (CString × Bytes)) : Prop where
  short : ∀ e ∈ pairs, e.1.bytes.length < keySize ∧ e.2.length < valSize ∧ 0 ∉ e.2
  escapes : 2 * (pairs.map pairEscapes).sum ≤ escapes p
  noQuote : 0x5c ∉ p → ∀ e ∈ pairs, 0x22 ∉ e.1.bytes ∧ 0x22 ∉ e.2

theorem loopFrom_parseLoop (p : Bytes) {pairs : List (CString × Bytes)}
    (parsed : parseLoop p = some pairs) : LoopFrom p pairs := by
  fun_induction parseLoop p generalizing pairs with
  | case1 p step =>
    cases parsed
    exact ⟨by simp, Nat.zero_le _, by simp⟩
  | case2 p step => cases parsed
  | case3 p next step ih =>
    have sub := skip_sublist step
    have rest := ih parsed
    constructor
    · exact rest.short
    · exact rest.escapes.trans (escapes_le_of_sublist sub)
    · exact fun plain => rest.noQuote fun member => plain (sub.subset member)
  | case4 p key value next step ih =>
    obtain ⟨later, isLater, rfl⟩ := Option.map_eq_some_iff.1 parsed
    have rest := ih isLater
    have here := setFrom_jsonStep step
    have isKey : (cString key).bytes = key := Logic.cText_eq_self_iff.2 here.keyNoNul
    have ofRest := rest.escapes
    have ofHere := here.escapes
    constructor
    · rintro e (_ | ⟨_, member⟩)
      · rw [isKey]
        exact ⟨here.keyShort, here.valueShort, here.valueNoNul⟩
      · exact rest.short e member
    · simp only [List.map_cons, List.sum_cons, pairEscapes, isKey]
      omega
    · rintro plain e (_ | ⟨_, member⟩)
      · rw [isKey]
        exact here.noQuote plain
      · apply rest.noQuote _ e member
        rw [← escapes_eq_zero] at plain ⊢
        omega

/-! ## Dictionaries and their entries -/

section Maps

variable {pairs : List (CString × Bytes)} {key : CString} {value : Bytes}

theorem mem_of_lookup_mapOf (found : (mapOf pairs).lookup key = some value) :
    (key, value) ∈ pairs := by
  have fold (pairs : List (CString × Bytes)) (m : Finmap fun _ : CString => Bytes)
      (found : (pairs.foldl (fun m e => m.insert e.1 e.2) m).lookup key = some value) :
      m.lookup key = some value ∨ (key, value) ∈ pairs := by
    induction pairs generalizing m with
    | nil => exact .inl found
    | cons e pairs ih =>
      rcases ih (m.insert e.1 e.2) found with before | later
      · by_cases same : key = e.1
        · rw [same, Finmap.lookup_insert, Option.some.injEq] at before
          rw [same, ← before]
          exact .inr List.mem_cons_self
        · rw [Finmap.lookup_insert_of_ne _ same] at before
          exact .inl before
      · exact .inr (List.mem_cons_of_mem e later)
  rcases fold pairs ∅ found with none | member
  · cases none
  · exact member

theorem lookup_mapOf_of_nodup (distinct : (pairs.map (·.1)).Nodup) (member : (key, value) ∈ pairs) :
    (mapOf pairs).lookup key = some value := by
  have absent (pairs : List (CString × Bytes)) (m : Finmap fun _ : CString => Bytes)
      (absent : key ∉ pairs.map (·.1)) :
      (pairs.foldl (fun m e => m.insert e.1 e.2) m).lookup key = m.lookup key := by
    induction pairs generalizing m with
    | nil => rfl
    | cons e pairs ih =>
      rw [List.map_cons, List.mem_cons, not_or] at absent
      exact (ih _ absent.2).trans (Finmap.lookup_insert_of_ne _ absent.1)
  have fold (m : Finmap fun _ : CString => Bytes) :
      (pairs.foldl (fun m e => m.insert e.1 e.2) m).lookup key = some value := by
    induction pairs generalizing m with
    | nil => cases member
    | cons e pairs ih =>
      rw [List.map_cons, List.nodup_cons] at distinct
      rcases List.mem_cons.1 member with rfl | later
      · exact (absent pairs _ distinct.1).trans (Finmap.lookup_insert _)
      · exact ih distinct.2 later _
  exact fold ∅

end Maps

theorem mem_liveEntries {d : DuxDict} {key : CString} {val : Ptr} :
    (key, val) ∈ d.liveEntries ↔ ∃ e ∈ d.entries, e.key = .str key ∧ e.val = val := by
  unfold DuxDict.liveEntries
  rw [List.mem_filterMap]
  constructor
  · rintro ⟨e, member, isEntry⟩
    cases isKey : e.key <;> simp [isKey] at isEntry
    exact ⟨e, member, by rw [isKey, isEntry.1], isEntry.2⟩
  · rintro ⟨e, member, isKey, isVal⟩
    exact ⟨e, member, by simp [isKey, isVal]⟩

theorem DuxDict.Refines.mem_liveEntries_iff {d : DuxDict} {m : DictMap} (refines : d.Refines m)
    {key : CString} {val : Ptr} : (key, val) ∈ d.liveEntries ↔ m.lookup key = some val := by
  rw [mem_liveEntries, refines.lookup]
  constructor
  · rintro ⟨e, member, isKey, isVal⟩
    obtain ⟨idx, bound, rfl⟩ := (DuxDict.mem_entries_iff refines.inv.length e).1 member
    exact ⟨idx, bound, isKey, isVal⟩
  · rintro ⟨idx, bound, isKey, isVal⟩
    exact ⟨_, (DuxDict.mem_entries_iff refines.inv.length _).2 ⟨idx, bound, rfl⟩, isKey, isVal⟩

theorem DuxDict.Inv.nodup_liveEntries {d : DuxDict} (inv : d.Inv) :
    (d.liveEntries.map (·.1)).Nodup := by
  unfold DuxDict.liveEntries
  rw [List.Nodup, List.pairwise_map, List.pairwise_filterMap]
  apply inv.distinctKeys.imp
  rintro e e' apart ⟨key, val⟩ isEntry ⟨key', val'⟩ isEntry' rfl
  cases isKey : e.key <;> simp [isKey] at isEntry
  cases isKey' : e'.key <;> simp [isKey'] at isEntry'
  apply apart key
  · rw [isKey, isEntry.1]
  · rw [isKey', isEntry'.1]

theorem escapes_entryText (e : Bytes × Bytes) :
    escapes (entryText e) = escapes e.1 + escapes e.2 := by
  simp [entryText, escapes]

theorem escapes_restText (es : List (Bytes × Bytes)) :
    escapes (restText es) = (es.map fun e => escapes e.1 + escapes e.2).sum := by
  induction es with
  | nil => rfl
  | cons e es ih =>
    rw [restText, escapes_cons, escapes_append, escapes_entryText, ih, List.map_cons, List.sum_cons]
    rfl

theorem escapes_entriesText (es : List (Bytes × Bytes)) :
    escapes (0x2c :: (entriesText es).tail) = (es.map fun e => escapes e.1 + escapes e.2).sum := by
  cases es with
  | nil => rfl
  | cons e es => exact escapes_restText (e :: es)

theorem sum_pairEscapes_le {es pairs : List (CString × Bytes)} (distinct : es.Nodup)
    (inside : es ⊆ pairs) : (es.map pairEscapes).sum ≤ (pairs.map pairEscapes).sum := by
  obtain ⟨es', perm, sub⟩ := distinct.subperm inside
  rw [← (perm.map pairEscapes).sum_eq]
  exact (sub.map pairEscapes).sum_le_sum fun _ _ => Nat.zero_le _

section Survives

variable {strs : Ptr → Bytes} {d : DuxDict} {m : DictMap}

/-- The entries of a dictionary with their strings. -/
def entriesOf (strs : Ptr → Bytes) (d : DuxDict) : List (CString × Bytes) :=
  d.liveEntries.map fun e => (e.1, stringAt strs e.2)

theorem nodup_entriesOf (inv : d.Inv) : ((entriesOf strs d).map (·.1)).Nodup := by
  rw [entriesOf, List.map_map]
  exact inv.nodup_liveEntries

theorem parse_stringify_of_fits (refines : d.Refines m)
    (fit : ∀ key val, m.lookup key = some val →
      Fits keySize key.bytes ∧ Fits valSize (stringAt strs val)) :
    Json.duxrtJsonParse (duxrtJsonStringify strs d) = some (entriesOf strs d) := by
  have fits (e : CString × Ptr) (member : e ∈ d.liveEntries) :
      Fits keySize e.1.bytes ∧ Fits valSize (stringAt strs e.2) :=
    fit e.1 e.2 (refines.mem_liveEntries_iff.1 member)
  rw [duxrtJsonStringify, parse_entriesText_of_fits, entriesOf, List.map_map]
  · congr 1
    apply List.map_congr_left
    intro e member
    have isKey : cString e.1.bytes = e.1 := by
      rw [cString, CString.mk.injEq]
      exact Logic.cText_eq_self_iff.2 e.1.noNul
    rw [Function.comp, isKey, Logic.cText_eq_self_iff.2 (fits e member).2.noNul]
  · intro e member
    obtain ⟨entry, isEntry, rfl⟩ := List.mem_map.1 member
    rw [Logic.cText_eq_self_iff.2 (fits entry isEntry).2.noNul]
    exact fits entry isEntry

theorem lookup_mapOf_entriesOf (refines : d.Refines m) (key : CString) :
    (mapOf (entriesOf strs d)).lookup key = (m.lookup key).map (stringAt strs) := by
  cases found : m.lookup key with
  | some val =>
    apply lookup_mapOf_of_nodup (nodup_entriesOf refines.inv)
    exact List.mem_map.2 ⟨(key, val), refines.mem_liveEntries_iff.2 found, rfl⟩
  | none =>
    rw [Option.map_none, Option.eq_none_iff_forall_ne_some]
    intro value isValue
    obtain ⟨⟨key', val⟩, member, isEntry⟩ := List.mem_map.1 (mem_of_lookup_mapOf isValue)
    cases isEntry
    rw [refines.mem_liveEntries_iff.1 member] at found
    cases found

/-- Reading sets nothing with quotes, escapes or terminators and nothing too long, so that
it finds all entries again only if they have none and are not. -/
theorem fits_of_parse {pairs : List (CString × Bytes)} (refines : d.Refines m)
    (parsed : Json.duxrtJsonParse (duxrtJsonStringify strs d) = some pairs)
    (same : ∀ key, (mapOf pairs).lookup key = (m.lookup key).map (stringAt strs))
    {key : CString} {val : Ptr} (found : m.lookup key = some val) :
    Fits keySize key.bytes ∧ Fits valSize (stringAt strs val) := by
  have inside : entriesOf strs d ⊆ pairs := by
    intro e member
    obtain ⟨⟨key, val⟩, isEntry, rfl⟩ := List.mem_map.1 member
    apply mem_of_lookup_mapOf
    rw [same, refines.mem_liveEntries_iff.1 isEntry]
    rfl
  have few := sum_pairEscapes_le (nodup_entriesOf refines.inv).of_map inside
  rw [duxrtJsonStringify, duxrtJsonParse_entriesText] at parsed
  · have read := loopFrom_parseLoop _ parsed
    have twice := read.escapes
    rw [escapes_entriesText, List.map_map] at twice
    have written := List.sum_le_sum (l := d.liveEntries)
      (f := (fun e : Bytes × Bytes => escapes e.1 + escapes e.2) ∘
        fun e => (e.1.bytes, cText (stringAt strs e.2)))
      (g := pairEscapes ∘ fun e => (e.1, stringAt strs e.2))
      fun e _ => Nat.add_le_add_left (escapes_cText_le _) _
    rw [entriesOf, List.map_map] at few
    -- each escape is read from two, so there are none
    have none : ((entriesOf strs d).map pairEscapes).sum = 0 := by
      rw [entriesOf, List.map_map]
      omega
    have plain : 0x5c ∉ 0x2c :: (entriesText (d.liveEntries.map fun e =>
        (e.1.bytes, cText (stringAt strs e.2)))).tail := by
      rw [← escapes_eq_zero, escapes_entriesText, List.map_map]
      omega
    have isEntry : (key, stringAt strs val) ∈ entriesOf strs d :=
      List.mem_map.2 ⟨(key, val), refines.mem_liveEntries_iff.2 found, rfl⟩
    have short := read.short _ (inside isEntry)
    have noQuote := read.noQuote plain _ (inside isEntry)
    have noEscape : pairEscapes (key, stringAt strs val) = 0 :=
      List.sum_eq_zero_iff_forall_eq_nat.1 none _ (List.mem_map_of_mem isEntry)
    rw [pairEscapes, Nat.add_eq_zero_iff, escapes_eq_zero, escapes_eq_zero] at noEscape
    exact ⟨⟨noQuote.1, noEscape.1, key.noNul, short.1⟩,
      ⟨noQuote.2, noEscape.2, short.2.2, short.2.1⟩⟩
  · intro e member
    obtain ⟨entry, -, rfl⟩ := List.mem_map.1 member
    exact ⟨entry.1.noNul, Logic.cText_noNul _⟩

end Survives

end Dux.Runtime
