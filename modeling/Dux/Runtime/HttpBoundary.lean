import Dux.Runtime.HttpRequest

/-!
# The end of the headers

In `src/runtime/net_http.c` the loop over the header lines stops at an empty line, and the body is
searched for again from the start of the message.  A line ends at the next carriage return with a
line feed, or at the next line feed where there are none of these.
-/

namespace Dux.Runtime.HttpBoundary

open Logic
open Http (blankLine crlf findBody firstLine headerOf parseHeaders length_firstLine_lt)

/-! ## Empty lines -/

/-- An empty line comes next. -/
def StartsEmpty (p : Bytes) : Prop := p.head? = some 0x0a ∨ crlf <+: p

instance instDecidableStartsEmpty (p : Bytes) : Decidable (StartsEmpty p) :=
  inferInstanceAs (Decidable (_ ∨ _))

/-- What is behind an empty line. -/
def behindEmpty (p : Bytes) : Bytes := if p.head? = some 0x0a then p.drop 1 else p.drop 2

/-- The first empty line that follows another line: what is before the line feed in front of it, and
from it on. -/
def emptyLine : Bytes → Option (Bytes × Bytes)
  | [] => none
  | b :: rest =>
      if b = 0x0a ∧ StartsEmpty rest then some ([], rest)
      else (emptyLine rest).map fun r => (b :: r.1, r.2)

/-- The lines in front of the first empty one. -/
def headerBlock (raw : Bytes) : Bytes := ((emptyLine raw).map fun r => r.1 ++ [0x0a]).getD raw

theorem length_drop_lt {p line rest : Bytes} (found : strstr crlf p = some (line, rest)) :
    (rest.drop 2).length < p.length := by
  obtain ⟨rfl, isPrefix⟩ := strstr_some found
  have atLeast := isPrefix.length_le
  have two : crlf.length = 2 := rfl
  rw [List.length_drop, List.length_append]
  omega

/-- The lines that end with a carriage return and a line feed. -/
def crlfLines (p : Bytes) : List Bytes :=
  match _found : strstr crlf p with
  | none => []
  | some (line, rest) => line :: crlfLines (rest.drop 2)
termination_by p.length
decreasing_by exact length_drop_lt _found

/-- Where the loop over the header lines stops. -/
def headersEnd (p : Bytes) : Bytes :=
  if p = [] ∨ crlf <+: p ∨ p.head? = some 0x0a then p
  else
    match _line : firstLine p with
    | none => p
    | some (_, rest) => headersEnd rest
termination_by p.length
decreasing_by exact length_firstLine_lt _line

/-- The loop stops at the first empty line, the body starts behind it, and no header goes over the
end of a line. -/
structure BoundaryAgrees (raw : Bytes) (headers : List (Bytes × Bytes)) (stop body : Bytes) :
    Prop where
  stops : ∀ r ∈ emptyLine raw, stop = r.2
  body : body = ((emptyLine raw).map fun r => behindEmpty r.2).getD []
  noTerminator : ∀ h ∈ headers, 0x0a ∉ h.1 ∧ 0x0a ∉ h.2

/-- `parse_response` of a text; without a line there is no loop. -/
def ResponseAgrees (raw : Bytes) : Prop :=
  BoundaryAgrees raw (Http.parseResponse raw).headers
    (((firstLine raw).map fun l => headersEnd l.2).getD []) (Http.parseResponse raw).body

/-- `duxrt_http_parse_request` of a string. -/
def RequestAgrees (raw : Bytes) : Prop :=
  BoundaryAgrees raw (Http.duxrtHttpParseRequest raw).headers
    (headersEnd (((firstLine (cText raw)).map fun l => l.2).getD (cText raw)))
    (Http.duxrtHttpParseRequest raw).body

/-- From the first empty line on there is no carriage return with a line feed, or such a pair ends
the line in front of it, and one is the empty line or no two of them follow.  No header that ends
with such a pair has a line feed in it. -/
structure LinesAgree (raw : Bytes) : Prop where
  boundary : ∀ r ∈ emptyLine raw,
    ¬crlf <:+: r.2 ∨ r.1.getLast? = some 0x0d ∧ (crlf <+: r.2 ∨ ¬blankLine <:+: r.2)
  headers : ∀ line ∈ (crlfLines (headerBlock raw)).tail, 0x3a ∈ line → 0x0a ∉ line

/-! ## Searching -/

section Search

variable {pat text before found front back : Bytes}

theorem length_strstr_le (isFound : strstr pat text = some (before, found))
    (isText : text = front ++ back) (isPrefix : pat <+: back) : before.length ≤ front.length := by
  induction text generalizing before front with
  | nil =>
    rw [strstr] at isFound
    split at isFound
    · cases isFound
      exact Nat.zero_le _
    · cases isFound
  | cons b rest ih =>
    rw [strstr] at isFound
    split at isFound
    · cases isFound
      exact Nat.zero_le _
    · next other =>
      obtain ⟨⟨before', found'⟩, inRest, result⟩ := Option.map_eq_some_iff.1 isFound
      cases result
      cases front with
      | nil => exact absurd (isText ▸ isPrefix) other
      | cons c front => exact Nat.succ_le_succ (ih inRest (List.cons.inj isText).2)

theorem infix_iff_exists : pat <:+: text ↔ ∃ front back, text = front ++ back ∧ pat <+: back := by
  constructor
  · rintro ⟨front, back, rfl⟩
    exact ⟨front, pat ++ back, List.append_assoc _ _ _, List.prefix_append _ _⟩
  · rintro ⟨front, back, rfl, isPrefix⟩
    exact isPrefix.isInfix.trans (List.suffix_append _ _).isInfix

theorem strstr_eq_none_iff : strstr pat text = none ↔ ¬pat <:+: text := by
  constructor
  · intro none inside
    obtain ⟨before, found, isFound⟩ := Http.exists_strstr inside
    rw [none] at isFound
    cases isFound
  · intro absent
    cases isFound : strstr pat text with
    | none => rfl
    | some r =>
      obtain ⟨isText, isPrefix⟩ := strstr_some isFound
      exact absurd (infix_iff_exists.2 ⟨r.1, r.2, isText, isPrefix⟩) absent

theorem strstr_crlf {line : Bytes} (absent : ¬crlf <:+: line ++ [0x0d]) (rest : Bytes) :
    strstr crlf (line ++ (crlf ++ rest)) = some (line, crlf ++ rest) := by
  have inside : crlf <:+: line ++ (crlf ++ rest) :=
    (List.prefix_append crlf rest).isInfix.trans (List.suffix_append _ _).isInfix
  obtain ⟨before, found, isFound⟩ := Http.exists_strstr inside
  obtain ⟨isText, isPrefix⟩ := strstr_some isFound
  have atMost := length_strstr_le isFound rfl (List.prefix_append crlf rest)
  rcases Nat.lt_or_eq_of_le atMost with earlier | same
  · -- an earlier place would be in the line
    refine absurd ?_ absent
    obtain ⟨tail, rfl⟩ := isPrefix
    have front : line ++ [0x0d] = (before ++ (crlf ++ tail)).take (line.length + 1) := by
      rw [← isText, List.take_append, List.take_of_length_le (Nat.le_succ _),
        Nat.add_sub_cancel_left]
      rfl
    rw [front, List.take_append, List.take_of_length_le (by omega)]
    have two : crlf.length = 2 := rfl
    rw [List.take_append, List.take_of_length_le (by omega)]
    exact (List.prefix_append _ _).isInfix.trans (List.suffix_append _ _).isInfix
  · obtain ⟨rfl, rfl⟩ := List.append_inj isText same.symm
    exact isFound

end Search

/-! ## The first empty line -/

section EmptyLine

variable {raw left rest h e : Bytes}

theorem emptyLine_some {text : Bytes} (isFirst : emptyLine text = some (h, e)) :
    text = h ++ 0x0a :: e ∧ StartsEmpty e := by
  induction text generalizing h with
  | nil => cases isFirst
  | cons b text ih =>
    rw [emptyLine] at isFirst
    split at isFirst
    · next here =>
      cases isFirst
      exact ⟨congrArg (· :: _) here.1, here.2⟩
    · obtain ⟨r, inRest, result⟩ := Option.map_eq_some_iff.1 isFirst
      cases result
      obtain ⟨rfl, isEmpty⟩ := ih inRest
      exact ⟨rfl, isEmpty⟩

theorem exists_emptyLine (isEmpty : StartsEmpty e) (h : Bytes) :
    ∃ r, emptyLine (h ++ 0x0a :: e) = some r ∧ r.1.length ≤ h.length := by
  induction h with
  | nil => exact ⟨([], e), if_pos ⟨rfl, isEmpty⟩, Nat.le_refl _⟩
  | cons b h ih =>
    rw [List.cons_append, emptyLine]
    split
    · exact ⟨_, rfl, Nat.zero_le _⟩
    · obtain ⟨r, isFirst, atMost⟩ := ih
      rw [isFirst]
      exact ⟨_, rfl, Nat.succ_le_succ atMost⟩

theorem emptyLine_cases (left rest : Bytes) :
    (∃ h s, left = h ++ 0x0a :: s ∧
        emptyLine (left ++ 0x0a :: rest) = some (h, s ++ 0x0a :: rest)) ∨
      (StartsEmpty rest ∧ emptyLine (left ++ 0x0a :: rest) = some (left, rest)) ∨
      (¬StartsEmpty rest ∧ emptyLine (left ++ 0x0a :: rest) =
        (emptyLine rest).map fun r => (left ++ 0x0a :: r.1, r.2)) := by
  induction left with
  | nil =>
    right
    by_cases isEmpty : StartsEmpty rest
    · exact .inl ⟨isEmpty, if_pos ⟨rfl, isEmpty⟩⟩
    · exact .inr ⟨isEmpty, if_neg fun here => isEmpty here.2⟩
  | cons b left ih =>
    rw [List.cons_append, emptyLine]
    by_cases here : b = 0x0a ∧ StartsEmpty (left ++ 0x0a :: rest)
    · rw [if_pos here]
      exact .inl ⟨[], left, congrArg (· :: left) here.1, rfl⟩
    · rw [if_neg here]
      rcases ih with ⟨h, s, isLeft, isFirst⟩ | ⟨isEmpty, isFirst⟩ | ⟨other, isFirst⟩
      · rw [isFirst]
        exact .inl ⟨b :: h, s, congrArg (b :: ·) isLeft, rfl⟩
      · rw [isFirst]
        exact .inr (.inl ⟨isEmpty, rfl⟩)
      · rw [isFirst, Option.map_map]
        exact .inr (.inr ⟨other, rfl⟩)

theorem not_startsEmpty (absent : 0x0a ∉ raw) : ¬StartsEmpty raw := by
  rintro (feed | pair)
  · exact absent (List.mem_of_head? feed)
  · exact absent (pair.subset (by decide))

theorem emptyLine_eq_none (absent : 0x0a ∉ raw) : emptyLine raw = none := by
  cases isFirst : emptyLine raw with
  | none => rfl
  | some r =>
    obtain ⟨rfl, -⟩ := emptyLine_some isFirst
    exact absurd (List.mem_append_right _ List.mem_cons_self) absent

end EmptyLine

/-! ## Lines -/

/-- What is in front of the line feed of a line: the line, or the line and a carriage return. -/
inductive LineEnd (p line rest : Bytes) : Bytes → Prop
  | crlf (isText : p = line ++ (Http.crlf ++ rest)) : LineEnd p line rest (line ++ [0x0d])
  | lf (isText : p = line ++ 0x0a :: rest) (noFeed : 0x0a ∉ line) (noPair : ¬Http.crlf <:+: p) :
      LineEnd p line rest line

section Lines

variable {p line rest left : Bytes}

theorem LineEnd.isText (isEnd : LineEnd p line rest left) : p = left ++ 0x0a :: rest := by
  cases isEnd with
  | crlf isText =>
    rw [isText, List.append_assoc]
    rfl
  | lf isText => exact isText

theorem exists_lineEnd (isLine : firstLine p = some (line, rest)) :
    ∃ left, LineEnd p line rest left ∧ ¬crlf <:+: left := by
  unfold firstLine at isLine
  split at isLine
  · next line' found isFound =>
    cases isLine
    obtain ⟨isText, more, rfl⟩ := strstr_some isFound
    refine ⟨line ++ [0x0d], .crlf isText, ?_⟩
    intro inside
    obtain ⟨front, back, isFront, isPrefix⟩ := infix_iff_exists.1 inside
    have isText' : p = front ++ (back ++ 0x0a :: more) := by
      rw [isText, ← List.append_assoc front, ← isFront, List.append_assoc]
      rfl
    have atMost := length_strstr_le isFound isText' (isPrefix.trans (List.prefix_append _ _))
    have lengths := congrArg List.length isFront
    have two := isPrefix.length_le
    simp only [crlf, List.length_append, List.length_cons, List.length_nil] at lengths two
    omega
  · next none =>
    obtain ⟨⟨line', found⟩, isFound, result⟩ := Option.map_eq_some_iff.1 isLine
    cases result
    obtain ⟨isText, more, rfl⟩ := strstr_some isFound
    have noFeed : 0x0a ∉ line' := by
      intro member
      obtain ⟨before, after, isLine', -⟩ := List.eq_append_cons_of_mem member
      have isText' : p = before ++ 0x0a :: (after ++ ([0x0a] ++ more)) := by
        rw [isText, isLine', List.append_assoc]
        rfl
      have atMost := length_strstr_le isFound isText' ⟨after ++ ([0x0a] ++ more), rfl⟩
      rw [isLine', List.length_append, List.length_cons] at atMost
      omega
    refine ⟨_, .lf isText noFeed (strstr_eq_none_iff.1 none), ?_⟩
    intro inside
    exact noFeed (inside.subset (by decide))

theorem firstLine_eq_none (none : firstLine p = none) : 0x0a ∉ p := by
  unfold firstLine at none
  split at none
  · cases none
  · have notFound := strstr_eq_none_iff.1 (Option.map_eq_none_iff.1 none)
    intro member
    exact notFound ((List.singleton_infix_iff _ _).2 member)

theorem headerOf_noTerminator_iff (line : Bytes) :
    (∀ h ∈ (headerOf line).toList, 0x0a ∉ h.1 ∧ 0x0a ∉ h.2) ↔ (0x3a ∈ line → 0x0a ∉ line) := by
  by_cases colon : 0x3a ∈ line
  · obtain ⟨name, rest, rfl, absent⟩ := List.eq_append_cons_of_mem colon
    have here : [0x3a] <+: 0x3a :: rest := ⟨rest, rfl⟩
    have isFound : strchr 0x3a (name ++ 0x3a :: rest) = some (name, 0x3a :: rest) := by
      rw [strchr, strstr_append_of_notMem absent, strstr_of_isPrefix here]
      simp
    have inValue : 0x0a ∈ rest.dropWhile (· = 0x20) ↔ 0x0a ∈ rest := by
      constructor
      · exact fun member => (List.dropWhile_suffix _).subset member
      · intro member
        rw [← List.takeWhile_append_dropWhile (p := (· = 0x20)) (l := rest),
          List.mem_append] at member
        refine member.resolve_left fun space => ?_
        exact absurd (List.mem_takeWhile_imp space) (by decide)
    generalize isValue : rest.dropWhile (· = 0x20) = value at inValue
    have trimmed : 0x0a ∈ (if value.getLast? = some 0x0d then value.dropLast else value) ↔
        0x0a ∈ rest := by
      rw [← inValue]
      split
      · next last =>
        obtain ⟨front, rfl⟩ := List.getLast?_eq_some_iff.1 last
        simp
      · rfl
    rw [headerOf, isFound]
    simp only [Option.map_some, Option.toList_some, List.mem_singleton, forall_eq,
      List.drop_succ_cons, List.drop_zero, isValue, trimmed, colon, true_imp_iff]
    simp
  · have none : headerOf line = none := by
      rw [headerOf, strchr, strstr_eq_none_of_notMem colon]
      rfl
    rw [none]
    simp [colon]

end Lines

/-! ## The loop -/

section Loop

variable {p line rest left : Bytes}

theorem loop_stops_iff (p : Bytes) :
    p = [] ∨ crlf <+: p ∨ p.head? = some 0x0a ↔ p = [] ∨ StartsEmpty p := by
  rw [StartsEmpty, or_comm (a := p.head? = some 0x0a)]

theorem headersEnd_of_startsEmpty (isEmpty : StartsEmpty p) : headersEnd p = p := by
  rw [headersEnd, if_pos ((loop_stops_iff p).2 (.inr isEmpty))]

theorem parseHeaders_of_startsEmpty (isEmpty : StartsEmpty p) : parseHeaders p = [] := by
  rw [parseHeaders, if_pos ((loop_stops_iff p).2 (.inr isEmpty))]

theorem ne_nil_of_firstLine (isLine : firstLine p = some (line, rest)) : p ≠ [] := by
  rintro rfl
  cases isLine

theorem headersEnd_of_line (other : ¬StartsEmpty p) (isLine : firstLine p = some (line, rest)) :
    headersEnd p = headersEnd rest := by
  rw [headersEnd, if_neg ((loop_stops_iff p).not.2 (not_or.2 ⟨ne_nil_of_firstLine isLine, other⟩))]
  split
  · next none =>
    rw [none] at isLine
    cases isLine
  · next isLine' =>
    rw [isLine'] at isLine
    cases isLine
    rfl

theorem parseHeaders_of_line (other : ¬StartsEmpty p) (isLine : firstLine p = some (line, rest)) :
    parseHeaders p = (headerOf line).toList ++ parseHeaders rest := by
  rw [parseHeaders,
    if_neg ((loop_stops_iff p).not.2 (not_or.2 ⟨ne_nil_of_firstLine isLine, other⟩))]
  split
  · next none =>
    rw [none] at isLine
    cases isLine
  · next isLine' =>
    rw [isLine'] at isLine
    cases isLine
    rfl

theorem parseHeaders_of_none (none : firstLine p = none) : parseHeaders p = [] := by
  rw [parseHeaders]
  split
  · rfl
  · split
    · rfl
    · next isLine =>
      rw [none] at isLine
      cases isLine

theorem headersEnd_of_none (none : firstLine p = none) : headersEnd p = p := by
  rw [headersEnd]
  split
  · rfl
  · split
    · rfl
    · next isLine =>
      rw [none] at isLine
      cases isLine

theorem headersEnd_suffix (p : Bytes) : headersEnd p <:+ p := by
  induction size : p.length using Nat.strong_induction_on generalizing p with
  | _ n ih =>
    subst size
    by_cases isEmpty : StartsEmpty p
    · rw [headersEnd_of_startsEmpty isEmpty]
    · cases isLine : firstLine p with
      | none => rw [headersEnd_of_none isLine]
      | some l =>
        obtain ⟨left, isEnd, -⟩ := exists_lineEnd isLine
        rw [headersEnd_of_line isEmpty isLine]
        refine (ih _ (length_firstLine_lt isLine) _ rfl).trans ?_
        rw [isEnd.isText]
        exact (List.suffix_cons _ _).trans (List.suffix_append _ _)

theorem length_headersEnd_le (p : Bytes) : (headersEnd p).length ≤ p.length :=
  (headersEnd_suffix p).length_le

theorem passed_of_inside {h s : Bytes} (isEnd : LineEnd p line rest left)
    (noPair : ¬crlf <:+: left) (isLeft : left = h ++ 0x0a :: s) :
    h.getLast? ≠ some 0x0d ∧ crlf <:+: s ++ 0x0a :: rest := by
  constructor
  · intro last
    obtain ⟨front, rfl⟩ := List.getLast?_eq_some_iff.1 last
    apply noPair
    rw [isLeft]
    exact ⟨front, s, by simp [crlf]⟩
  · cases isEnd with
    | crlf =>
      cases s.eq_nil_or_concat with
      | inl isNil =>
        subst isNil
        have ends := congrArg List.getLast? isLeft
        simp at ends
      | inr isConcat =>
        obtain ⟨front, b, rfl⟩ := isConcat
        have ends := congrArg List.getLast? isLeft
        simp only [List.concat_eq_append, List.getLast?_append, List.getLast?_cons] at ends
        simp at ends
        subst ends
        exact ⟨front, rest, by simp [crlf]⟩
    | lf isText noFeed =>
      rw [isLeft] at noFeed
      exact absurd (List.mem_append_right _ List.mem_cons_self) noFeed

theorem headersEnd_iff (isLine : firstLine p = some (line, rest)) :
    (∀ r ∈ emptyLine p, headersEnd rest = r.2) ↔
      ∀ r ∈ emptyLine p, ¬crlf <:+: r.2 ∨ r.1.getLast? = some 0x0d := by
  induction size : p.length using Nat.strong_induction_on generalizing p line rest with
  | _ n ih =>
    subst size
    obtain ⟨left, isEnd, noPair⟩ := exists_lineEnd isLine
    have isText := isEnd.isText
    rcases emptyLine_cases left rest with ⟨h, s, isLeft, isFirst⟩ | ⟨isEmpty, isFirst⟩ |
        ⟨other, isFirst⟩
    · -- the line goes over an empty line
      obtain ⟨noReturn, pair⟩ := passed_of_inside isEnd noPair isLeft
      rw [← isText] at isFirst
      rw [isFirst]
      simp only [Option.mem_some_iff, forall_eq']
      refine iff_of_false (fun same => ?_) (not_or.2 ⟨not_not.2 pair, noReturn⟩)
      have atMost := length_headersEnd_le rest
      rw [same, List.length_append, List.length_cons] at atMost
      omega
    · rw [← isText] at isFirst
      rw [isFirst]
      simp only [Option.mem_some_iff, forall_eq']
      refine iff_of_true (headersEnd_of_startsEmpty isEmpty) ?_
      cases isEnd with
      | crlf => exact .inr List.getLast?_concat
      | lf isText' noFeed absent =>
        refine .inl fun pair => absent ?_
        rw [isText']
        exact pair.trans ((List.suffix_cons _ _).trans (List.suffix_append _ _)).isInfix
    · rw [← isText] at isFirst
      rw [isFirst]
      cases next : firstLine rest with
      | none =>
        rw [emptyLine_eq_none (firstLine_eq_none next)]
        exact iff_of_true nofun nofun
      | some l =>
        have more := ih _ (length_firstLine_lt isLine) next rfl
        rw [← headersEnd_of_line other next] at more
        have later : ∀ r ∈ emptyLine rest,
            (left ++ 0x0a :: r.1).getLast? = r.1.getLast? := by
          rintro ⟨h, e⟩ isFirst'
          cases h with
          | nil => exact absurd (.inl (by rw [(emptyLine_some isFirst').1]; rfl)) other
          | cons b h => simp [List.getLast?_cons]
        simp only [Option.mem_map, forall_exists_index, and_imp, forall_apply_eq_imp_iff₂]
        rw [more]
        constructor
        · intro all r isFirst'
          rw [later r isFirst']
          exact all r isFirst'
        · intro all r isFirst'
          rw [← later r isFirst']
          exact all r isFirst'

/-- The lines from the next one to the first empty one. -/
def nextBlock (rest : Bytes) : Bytes := if StartsEmpty rest then [] else headerBlock rest

theorem nextBlock_isPrefix (rest : Bytes) : nextBlock rest <+: rest := by
  unfold nextBlock headerBlock
  split
  · exact List.nil_prefix
  · cases isFirst : emptyLine rest with
    | none => exact List.prefix_rfl
    | some r =>
      obtain ⟨isRest, -⟩ := emptyLine_some isFirst
      rw [isRest]
      exact ⟨r.2, by simp⟩

theorem headerBlock_of_line (isEnd : LineEnd p line rest left)
    (stops : ∀ r ∈ emptyLine p, headersEnd rest = r.2) :
    headerBlock p = left ++ 0x0a :: nextBlock rest := by
  have isText := isEnd.isText
  rcases emptyLine_cases left rest with ⟨h, s, isLeft, isFirst⟩ | ⟨isEmpty, isFirst⟩ |
      ⟨other, isFirst⟩
  · rw [← isText] at isFirst
    have atMost := length_headersEnd_le rest
    rw [stops _ isFirst, List.length_append, List.length_cons] at atMost
    omega
  · rw [← isText] at isFirst
    rw [headerBlock, isFirst, nextBlock, if_pos isEmpty]
    rfl
  · rw [← isText] at isFirst
    rw [headerBlock, isFirst, nextBlock, if_neg other, headerBlock]
    cases emptyLine rest with
    | none => exact isText
    | some r => simp

theorem stops_next (isEnd : LineEnd p line rest left)
    (stops : ∀ r ∈ emptyLine p, headersEnd rest = r.2) :
    StartsEmpty rest ∨ ∀ r ∈ emptyLine rest, headersEnd rest = r.2 := by
  have isText := isEnd.isText
  rcases emptyLine_cases left rest with ⟨h, s, -, isFirst⟩ | ⟨isEmpty, -⟩ | ⟨-, isFirst⟩
  · rw [← isText] at isFirst
    have atMost := length_headersEnd_le rest
    rw [stops _ isFirst, List.length_append, List.length_cons] at atMost
    omega
  · exact .inl isEmpty
  · rw [← isText] at isFirst
    refine .inr fun r isFirst' => stops (left ++ 0x0a :: r.1, r.2) ?_
    rw [isFirst, isFirst']
    rfl

theorem crlfLines_of_absent (absent : ¬crlf <:+: p) : crlfLines p = [] := by
  rw [crlfLines]
  split
  · rfl
  · next isFound =>
    rw [strstr_eq_none_iff.2 absent] at isFound
    cases isFound

theorem crlfLines_cons (absent : ¬crlf <:+: line ++ [0x0d]) (rest : Bytes) :
    crlfLines (line ++ (crlf ++ rest)) = line :: crlfLines rest := by
  have isFound := strstr_crlf absent rest
  rw [crlfLines]
  split
  · next none =>
    rw [none] at isFound
    cases isFound
  · next isFound' =>
    rw [isFound'] at isFound
    cases isFound
    rfl

theorem crlfLines_headerBlock (isEnd : LineEnd p line rest left) (noPair : ¬crlf <:+: left)
    (stops : ∀ r ∈ emptyLine p, headersEnd rest = r.2) :
    (crlfLines (headerBlock p) = line :: crlfLines (nextBlock rest)) ∨
      (0x0a ∉ line ∧ crlfLines (headerBlock p) = [] ∧ crlfLines (nextBlock rest) = []) := by
  have block := headerBlock_of_line isEnd stops
  cases isEnd with
  | crlf isText =>
    left
    rw [block, List.append_assoc]
    exact crlfLines_cons noPair _
  | lf isText noFeed absent =>
    right
    have inside : headerBlock p <+: p := by
      rw [block, isText, List.prefix_append_right_inj, List.cons_prefix_cons]
      exact ⟨rfl, nextBlock_isPrefix rest⟩
    have nextInside : nextBlock rest <:+: p := by
      rw [isText]
      exact (nextBlock_isPrefix rest).isInfix.trans
        ((List.suffix_cons _ _).trans (List.suffix_append _ _)).isInfix
    exact ⟨noFeed, crlfLines_of_absent fun pair => absent (pair.trans inside.isInfix),
      crlfLines_of_absent fun pair => absent (pair.trans nextInside)⟩

/-- The headers that the loop reads are the lines with a pair at their end, and others that have
no line feed in them. -/
theorem parseHeaders_noTerminator_iff
    (stops : StartsEmpty p ∨ ∀ r ∈ emptyLine p, headersEnd p = r.2) :
    (∀ h ∈ parseHeaders p, 0x0a ∉ h.1 ∧ 0x0a ∉ h.2) ↔
      ∀ line ∈ crlfLines (nextBlock p), 0x3a ∈ line → 0x0a ∉ line := by
  induction size : p.length using Nat.strong_induction_on generalizing p with
  | _ n ih =>
    subst size
    by_cases isEmpty : StartsEmpty p
    · rw [parseHeaders_of_startsEmpty isEmpty, nextBlock, if_pos isEmpty,
        crlfLines_of_absent (by decide)]
      exact iff_of_true nofun nofun
    · cases isLine : firstLine p with
      | none =>
        have noFeed := firstLine_eq_none isLine
        rw [parseHeaders_of_none isLine, crlfLines_of_absent fun pair =>
          noFeed ((pair.trans (nextBlock_isPrefix p).isInfix).subset (by decide))]
        exact iff_of_true nofun nofun
      | some l =>
        obtain ⟨line, rest⟩ := l
        obtain ⟨left, isEnd, noPair⟩ := exists_lineEnd isLine
        have stops' := stops.resolve_left isEmpty
        rw [headersEnd_of_line isEmpty isLine] at stops'
        have more := ih rest.length (length_firstLine_lt isLine) (stops_next isEnd stops') rfl
        have both : (∀ h ∈ parseHeaders p, 0x0a ∉ h.1 ∧ 0x0a ∉ h.2) ↔
            (0x3a ∈ line → 0x0a ∉ line) ∧
              ∀ line ∈ crlfLines (nextBlock rest), 0x3a ∈ line → 0x0a ∉ line := by
          rw [← headerOf_noTerminator_iff, ← more, parseHeaders_of_line isEmpty isLine]
          exact List.forall_mem_append
        rw [both, nextBlock.eq_def p, if_neg isEmpty]
        rcases crlfLines_headerBlock isEnd noPair stops' with lines | ⟨noFeed, noLines, noMore⟩
        · rw [lines, List.forall_mem_cons]
        · rw [noLines, noMore]
          exact iff_of_true ⟨fun _ => noFeed, nofun⟩ nofun

end Loop

/-! ## The body -/

section Body

variable {raw h e : Bytes}

theorem place_of_blankLine {before tail : Bytes} (isFirst : emptyLine raw = some (h, e))
    (isText : raw = before ++ (blankLine ++ tail)) :
    (h = before ++ [0x0d] ∧ e = crlf ++ tail) ∨ ∃ c, e = c ++ (blankLine ++ tail) := by
  obtain ⟨isText', -⟩ := emptyLine_some isFirst
  have atMost : h.length ≤ before.length + 1 := by
    have isEmpty : StartsEmpty (crlf ++ tail) := .inr (List.prefix_append _ _)
    obtain ⟨r, isFirst', atMost⟩ := exists_emptyLine isEmpty (before ++ [0x0d])
    have same : before ++ [0x0d] ++ 0x0a :: (crlf ++ tail) = raw := by
      rw [isText, List.append_assoc]
      rfl
    rw [same, isFirst] at isFirst'
    cases isFirst'
    rwa [List.length_append] at atMost
  rw [isText'] at isText
  rcases List.append_eq_append_iff.1 isText with ⟨c, isBefore, isRest⟩ | ⟨c, isH, isRest⟩
  · cases c with
    | nil => exact absurd (List.cons.inj isRest).1 (by decide)
    | cons b c => exact .inr ⟨c, (List.cons.inj isRest).2⟩
  · rw [isH, List.length_append] at atMost
    cases c with
    | nil => exact absurd (List.cons.inj isRest).1 (by decide)
    | cons b c =>
      cases c with
      | nil =>
        obtain ⟨isReturn, isTail⟩ := List.cons.inj isRest
        left
        rw [isH, ← isReturn]
        exact ⟨rfl, (List.cons.inj isTail).2.symm⟩
      | cons b' c =>
        rw [List.length_cons, List.length_cons] at atMost
        omega

theorem findBody_of_blankLine {before tail : Bytes}
    (isFound : strstr blankLine raw = some (before, blankLine ++ tail)) : findBody raw = tail := by
  rw [findBody, isFound]
  rfl

theorem findBody_of_pairs {tail : Bytes} (isFirst : emptyLine raw = some (h, crlf ++ tail))
    (last : h.getLast? = some 0x0d) : findBody raw = tail := by
  obtain ⟨front, rfl⟩ := List.getLast?_eq_some_iff.1 last
  have isText : raw = front ++ (blankLine ++ tail) := by
    rw [(emptyLine_some isFirst).1, List.append_assoc]
    rfl
  have inside : blankLine <:+: raw := infix_iff_exists.2 ⟨_, _, isText, List.prefix_append _ _⟩
  obtain ⟨before, found, isFound⟩ := Http.exists_strstr inside
  obtain ⟨isText', tail', rfl⟩ := strstr_some isFound
  have atMost := length_strstr_le isFound isText (List.prefix_append _ _)
  rw [findBody_of_blankLine isFound]
  rcases place_of_blankLine isFirst isText' with ⟨-, isRest⟩ | ⟨c, isRest⟩
  · exact (List.append_cancel_left isRest).symm
  · have lengths := congrArg List.length (isText.symm.trans isText')
    have two : crlf.length = 2 ∧ blankLine.length = 4 := ⟨rfl, rfl⟩
    have lengths' := congrArg List.length isRest
    simp only [List.length_append, two] at lengths lengths'
    omega

theorem findBody_of_feeds {tail : Bytes} (isFirst : emptyLine raw = some (h, 0x0a :: tail))
    (absent : strstr blankLine raw = none) : findBody raw = tail := by
  have isText : raw = h ++ ([0x0a, 0x0a] ++ tail) := (emptyLine_some isFirst).1
  have inside : [0x0a, 0x0a] <:+: raw :=
    infix_iff_exists.2 ⟨_, _, isText, List.prefix_append _ _⟩
  obtain ⟨before, found, isFound⟩ := Http.exists_strstr inside
  obtain ⟨isText', tail', rfl⟩ := strstr_some isFound
  have atMost := length_strstr_le isFound isText (List.prefix_append _ _)
  have atLeast : h.length ≤ before.length := by
    obtain ⟨r, isFirst', atMost'⟩ := exists_emptyLine (e := 0x0a :: tail') (.inl rfl) before
    have same : before ++ 0x0a :: 0x0a :: tail' = raw := isText'.symm
    rw [same, isFirst] at isFirst'
    cases isFirst'
    exact atMost'
  obtain ⟨rfl, isTail⟩ :=
    List.append_inj (isText.symm.trans isText') (Nat.le_antisymm atLeast atMost)
  rw [findBody, absent]
  simp only [isFound]
  exact (List.append_cancel_left isTail).symm

theorem findBody_iff (isFirst : emptyLine raw = some (h, e))
    (stops : ¬crlf <:+: e ∨ h.getLast? = some 0x0d) :
    findBody raw = behindEmpty e ↔
      ¬crlf <:+: e ∨ h.getLast? = some 0x0d ∧ (crlf <+: e ∨ ¬blankLine <:+: e) := by
  obtain ⟨isText, isEmpty⟩ := emptyLine_some isFirst
  by_cases around : h.getLast? = some 0x0d ∧ crlf <+: e
  · obtain ⟨last, tail, rfl⟩ := around
    refine iff_of_true ?_ (.inr ⟨last, .inl (List.prefix_append _ _)⟩)
    rw [findBody_of_pairs isFirst last]
    rfl
  · by_cases later : blankLine <:+: e
    · have pair : crlf <:+: e := (List.prefix_append crlf crlf).isInfix.trans later
      have last := stops.resolve_left (not_not.2 pair)
      refine iff_of_false ?_ (not_or.2 ⟨not_not.2 pair, fun both =>
        both.2.elim (fun isPair => around ⟨last, isPair⟩) fun absent => absent later⟩)
      have inside : blankLine <:+: raw := by
        rw [isText]
        exact later.trans ((List.suffix_cons _ _).trans (List.suffix_append _ _)).isInfix
      obtain ⟨before, found, isFound⟩ := Http.exists_strstr inside
      obtain ⟨isText', tail, rfl⟩ := strstr_some isFound
      rw [findBody_of_blankLine isFound]
      rcases place_of_blankLine isFirst isText' with ⟨-, isRest⟩ | ⟨c, isRest⟩
      · exact absurd ⟨last, isRest ▸ List.prefix_append _ _⟩ around
      · intro same
        have atMost : e.length ≤ tail.length + 2 := by
          rw [same, behindEmpty]
          split
          · rw [List.length_drop]
            omega
          · rw [List.length_drop]
            omega
        have four : blankLine.length = 4 := rfl
        rw [isRest, List.length_append, List.length_append] at atMost
        omega
    · have absent : strstr blankLine raw = none := by
        rw [strstr_eq_none_iff]
        rintro inside
        obtain ⟨before, back, isText', tail, rfl⟩ := infix_iff_exists.1 inside
        rcases place_of_blankLine isFirst isText' with ⟨isH, isRest⟩ | ⟨c, isRest⟩
        · refine around ⟨?_, isRest ▸ List.prefix_append _ _⟩
          rw [isH]
          exact List.getLast?_concat
        · exact later (infix_iff_exists.2 ⟨c, _, isRest, List.prefix_append _ _⟩)
      have feed : e.head? = some 0x0a := by
        refine isEmpty.resolve_right fun isPair => ?_
        exact stops.elim (fun none => none isPair.isInfix) fun last => around ⟨last, isPair⟩
      obtain ⟨tail, rfl⟩ := List.head?_eq_some_iff.1 feed
      refine iff_of_true (findBody_of_feeds isFirst absent) ?_
      exact stops.imp_right fun last => ⟨last, .inr later⟩

theorem findBody_of_none (none : emptyLine raw = none) : findBody raw = [] := by
  have absent (front back : Bytes) (isEmpty : StartsEmpty back) :
      raw ≠ front ++ 0x0a :: back := by
    intro isText
    obtain ⟨r, isFirst, -⟩ := exists_emptyLine isEmpty front
    rw [← isText, none] at isFirst
    cases isFirst
  have noPairs : strstr blankLine raw = Option.none := by
    rw [strstr_eq_none_iff]
    intro inside
    obtain ⟨front, back, isText, tail, rfl⟩ := infix_iff_exists.1 inside
    refine absent (front ++ [0x0d]) (crlf ++ tail) (.inr (List.prefix_append _ _)) ?_
    rw [isText, List.append_assoc]
    rfl
  have noFeeds : strstr [0x0a, 0x0a] raw = Option.none := by
    rw [strstr_eq_none_iff]
    intro inside
    obtain ⟨front, back, isText, tail, rfl⟩ := infix_iff_exists.1 inside
    exact absent front (0x0a :: tail) (.inl rfl) isText
  rw [findBody, noPairs]
  simp only [noFeeds]

end Body

/-! ## Both parsers -/

section Agree

variable {raw line rest : Bytes} {headers : List (Bytes × Bytes)} {stop body : Bytes}

theorem headerBlock_tail (isLine : firstLine raw = some (line, rest))
    (stops : ∀ r ∈ emptyLine raw, headersEnd rest = r.2) :
    (crlfLines (headerBlock raw)).tail = crlfLines (nextBlock rest) := by
  obtain ⟨left, isEnd, noPair⟩ := exists_lineEnd isLine
  rcases crlfLines_headerBlock isEnd noPair stops with lines | ⟨-, noLines, noMore⟩
  · rw [lines, List.tail_cons]
  · rw [noLines, noMore, List.tail_nil]

theorem boundaryAgrees_iff (isLine : firstLine raw = some (line, rest)) :
    BoundaryAgrees raw (parseHeaders rest) (headersEnd rest) (findBody raw) ↔ LinesAgree raw := by
  obtain ⟨left, isEnd, -⟩ := exists_lineEnd isLine
  have headers (stops : ∀ r ∈ emptyLine raw, headersEnd rest = r.2) :=
    parseHeaders_noTerminator_iff (stops_next isEnd stops)
  constructor
  · intro agrees
    have stops := (headersEnd_iff isLine).1 agrees.stops
    constructor
    · intro r isFirst
      refine (findBody_iff isFirst (stops r isFirst)).1 ?_
      have isBody := agrees.body
      rwa [isFirst] at isBody
    · rw [headerBlock_tail isLine agrees.stops]
      exact (headers agrees.stops).1 agrees.noTerminator
  · intro agree
    have stops : ∀ r ∈ emptyLine raw, ¬crlf <:+: r.2 ∨ r.1.getLast? = some 0x0d :=
      fun r isFirst => (agree.boundary r isFirst).imp_right And.left
    have stops' := (headersEnd_iff isLine).2 stops
    constructor
    · exact stops'
    · cases isFirst : emptyLine raw with
      | none => exact findBody_of_none isFirst
      | some r => exact (findBody_iff isFirst (stops r isFirst)).2 (agree.boundary r isFirst)
    · apply (headers stops').2
      rw [← headerBlock_tail isLine stops']
      exact agree.headers

theorem mem_of_firstLine (isLine : firstLine raw = some (line, rest)) : 0x0a ∈ raw := by
  obtain ⟨left, isEnd, -⟩ := exists_lineEnd isLine
  rw [isEnd.isText]
  exact List.mem_append_right _ List.mem_cons_self

theorem linesAgree_of_notMem (noFeed : 0x0a ∉ raw) : LinesAgree raw := by
  have none := emptyLine_eq_none noFeed
  constructor
  · rw [none]
    nofun
  · rw [headerBlock, none, Option.map_none, Option.getD_none,
      crlfLines_of_absent fun pair => noFeed (pair.subset (by decide))]
    nofun

theorem responseAgrees_iff (raw : Bytes) :
    ResponseAgrees raw ↔ LinesAgree raw ∧ (0x0a ∈ raw ∨ raw = []) := by
  unfold ResponseAgrees Http.parseResponse
  cases isLine : firstLine raw with
  | none =>
    have noFeed := firstLine_eq_none isLine
    have none := emptyLine_eq_none noFeed
    simp only [Option.map_none, Option.getD_none]
    constructor
    · intro agrees
      have isNil := agrees.body
      rw [none] at isNil
      exact ⟨linesAgree_of_notMem noFeed, .inr isNil⟩
    · rintro ⟨-, isNil⟩
      constructor
      · rw [none]
        nofun
      · rw [none]
        exact isNil.resolve_left noFeed
      · nofun
  | some l =>
    have agrees := boundaryAgrees_iff isLine
    simp only [Option.map_some, Option.getD_some]
    rw [agrees]
    exact ⟨fun agree => ⟨agree, .inl (mem_of_firstLine isLine)⟩, And.left⟩

theorem requestAgrees_text (raw : Bytes) :
    BoundaryAgrees (cText raw) (Http.duxrtHttpParseRequest raw).headers
        (headersEnd (((firstLine (cText raw)).map fun l => l.2).getD (cText raw)))
        (Http.duxrtHttpParseRequest raw).body ↔ LinesAgree (cText raw) := by
  unfold Http.duxrtHttpParseRequest
  simp only
  cases isLine : firstLine (cText raw) with
  | none =>
    have noFeed := firstLine_eq_none isLine
    have none := emptyLine_eq_none noFeed
    refine iff_of_true ?_ (linesAgree_of_notMem noFeed)
    rw [Option.map_none, Option.getD_none, parseHeaders_of_none isLine, findBody_of_none none]
    constructor
    · rw [none]
      nofun
    · rw [none]
      rfl
    · nofun
  | some l => exact boundaryAgrees_iff isLine

theorem exists_emptyLine_append {r : Bytes × Bytes} (isFirst : emptyLine raw = some r)
    (tail : Bytes) :
    ∃ r', emptyLine (raw ++ tail) = some r' ∧ r'.1.length < raw.length := by
  obtain ⟨isText, isEmpty⟩ := emptyLine_some isFirst
  have stillEmpty : StartsEmpty (r.2 ++ tail) := by
    refine isEmpty.imp (fun feed => ?_) fun pair => pair.trans (List.prefix_append _ _)
    rw [List.head?_append, feed]
    rfl
  obtain ⟨r', isFirst', atMost⟩ := exists_emptyLine stillEmpty r.1
  have same : r.1 ++ 0x0a :: (r.2 ++ tail) = raw ++ tail := by
    rw [isText, List.append_assoc]
    rfl
  rw [same] at isFirst'
  refine ⟨r', isFirst', ?_⟩
  rw [isText, List.length_append, List.length_cons]
  omega

theorem exists_emptyLine_of_stop (isLine : firstLine raw = some (line, rest))
    (stops : StartsEmpty (headersEnd rest)) : ∃ r, emptyLine raw = some r := by
  induction size : raw.length using Nat.strong_induction_on generalizing raw line rest with
  | _ n ih =>
    subst size
    obtain ⟨left, isEnd, -⟩ := exists_lineEnd isLine
    by_cases isEmpty : StartsEmpty rest
    · obtain ⟨r, isFirst, -⟩ := exists_emptyLine isEmpty left
      rw [isEnd.isText]
      exact ⟨r, isFirst⟩
    · cases next : firstLine rest with
      | none =>
        rw [headersEnd_of_none next] at stops
        exact absurd stops isEmpty
      | some l =>
        rw [headersEnd_of_line isEmpty next] at stops
        obtain ⟨r, isFirst⟩ := ih _ (length_firstLine_lt isLine) next stops rfl
        obtain ⟨isRest, isEmpty'⟩ := emptyLine_some isFirst
        obtain ⟨r', isFirst', -⟩ := exists_emptyLine isEmpty' (left ++ 0x0a :: r.1)
        rw [isEnd.isText, isRest]
        rw [List.append_assoc] at isFirst'
        exact ⟨r', isFirst'⟩

/-- Behind a terminator no empty line is found. -/
theorem not_requestAgrees {r : Bytes × Bytes} (isFirst : emptyLine raw = some r)
    (nul : 0 ∈ raw) : ¬RequestAgrees raw := by
  intro agrees
  have stops := agrees.stops r isFirst
  obtain ⟨isText, isEmpty⟩ := emptyLine_some isFirst
  have noNul : 0 ∉ r.2 := by
    intro member
    rw [← stops] at member
    have inText := (headersEnd_suffix _).subset member
    cases isLine : firstLine (cText raw) with
    | none =>
      rw [isLine] at inText
      exact cText_noNul raw inText
    | some l =>
      rw [isLine] at inText
      obtain ⟨left, isEnd, -⟩ := exists_lineEnd isLine
      refine cText_noNul raw ?_
      rw [isEnd.isText]
      exact List.mem_append_right _ (List.mem_cons_of_mem _ inText)
  rw [← stops] at isEmpty
  obtain ⟨r', isFirst'⟩ : ∃ r', emptyLine (cText raw) = some r' := by
    cases isLine : firstLine (cText raw) with
    | none =>
      rw [isLine, Option.map_none, Option.getD_none, headersEnd_of_none isLine] at isEmpty
      exact absurd isEmpty (not_startsEmpty (firstLine_eq_none isLine))
    | some l =>
      rw [isLine] at isEmpty
      exact exists_emptyLine_of_stop isLine isEmpty
  obtain ⟨front, back, isRaw, absent⟩ := List.eq_append_cons_of_mem nul
  have isFront : cText raw = front := by
    rw [isRaw]
    exact cText_append_nul absent back
  rw [isFront] at isFirst'
  obtain ⟨r'', isFirst'', before⟩ := exists_emptyLine_append isFirst' (0 :: back)
  rw [← isRaw, isFirst] at isFirst''
  cases isFirst''
  rcases List.append_eq_append_iff.1 (isText.symm.trans isRaw) with ⟨c, isFront', isRest⟩ |
      ⟨c, isHead, -⟩
  · cases c with
    | nil => exact absurd (List.cons.inj isRest).1 (by decide)
    | cons b c =>
      apply noNul
      rw [(List.cons.inj isRest).2]
      exact List.mem_append_right _ List.mem_cons_self
  · rw [isHead, List.length_append] at before
    omega

theorem requestAgrees_iff (raw : Bytes) :
    RequestAgrees raw ↔ LinesAgree (cText raw) ∧ (emptyLine raw ≠ none → 0 ∉ raw) := by
  cases isFirst : emptyLine raw with
  | none =>
    have noneText : emptyLine (cText raw) = none := by
      cases isFirst' : emptyLine (cText raw) with
      | none => rfl
      | some r =>
        obtain ⟨tail, isRaw⟩ : cText raw <+: raw := List.takeWhile_prefix _
        obtain ⟨r', isFirst'', -⟩ := exists_emptyLine_append isFirst' tail
        rw [isRaw, isFirst] at isFirst''
        cases isFirst''
    rw [← requestAgrees_text, RequestAgrees]
    refine ⟨fun agrees => ⟨?_, fun some => absurd rfl some⟩, fun agree => ?_⟩
    · exact ⟨noneText ▸ nofun, by rw [agrees.body, isFirst, noneText], agrees.noTerminator⟩
    · exact ⟨isFirst ▸ nofun, by rw [agree.1.body, isFirst, noneText], agree.1.noTerminator⟩
  | some r =>
    by_cases nul : 0 ∈ raw
    · exact iff_of_false (not_requestAgrees isFirst nul)
        fun agree => agree.2 (Option.some_ne_none r) nul
    · have isText : cText raw = raw := cText_eq_self_iff.2 nul
      have agrees := requestAgrees_text raw
      rw [RequestAgrees]
      rw [isText] at agrees ⊢
      rw [agrees]
      exact ⟨fun agree => ⟨agree, fun _ => nul⟩, And.left⟩

/-- Headers and body of a message agree exactly if its lines do.  A response without a line comes
back as a body, and a request is cut at its first terminator. -/
theorem boundary_agrees_iff (raw : Bytes) :
    (ResponseAgrees raw ↔ LinesAgree raw ∧ (0x0a ∈ raw ∨ raw = [])) ∧
      (RequestAgrees raw ↔ LinesAgree (cText raw) ∧ (emptyLine raw ≠ none → 0 ∉ raw)) :=
  ⟨responseAgrees_iff raw, requestAgrees_iff raw⟩

end Agree

/-- A header that goes over an empty line and into the body. -/
theorem not_boundary_agrees : ¬((∀ raw, ResponseAgrees raw) ∧ ∀ raw, RequestAgrees raw) := by
  rintro ⟨-, always⟩
  have agrees := (requestAgrees_iff
    (ascii "POST / HTTP/1.1\r\nHost: h\n\nA: b\r\n\r\n")).1 (always _)
  have isFirst : emptyLine (cText (ascii "POST / HTTP/1.1\r\nHost: h\n\nA: b\r\n\r\n")) =
      some (ascii "POST / HTTP/1.1\r\nHost: h", ascii "\nA: b\r\n\r\n") := by decide +kernel
  exact absurd (agrees.1.boundary _ isFirst) (by decide +kernel)

end Dux.Runtime.HttpBoundary
