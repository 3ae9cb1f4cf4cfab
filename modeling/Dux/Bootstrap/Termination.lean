import Dux.Bootstrap.Descent

/-!
# The second stage terminates

The lexer and the parser of `bootstrap/dux_stage2.dux` return for every source whose positions an
`int` can hold.  Turns of loops that do not consume anything are the last ones.
-/

namespace Dux.Bootstrap

open Dux.Logic (ascii Prog)
open Dux.Runtime (Bytes)
open Dux.Runtime.Text (DuxStr int32Max)
open Dux.Stdlib.Path (duxrtStrIndex)

/-! ## Loops -/

inductive NextTurn : Call → Call → Prop
  | skipLoop {going going' : Bool} : NextTurn (.scan (.skipLoop going)) (.scan (.skipLoop going'))
  | wsLoop {going going' : Bool} : NextTurn (.scan (.wsLoop going)) (.scan (.wsLoop going'))
  | lineLoop : NextTurn (.scan .lineLoop) (.scan .lineLoop)
  | blockLoop {found found' : Bool} :
      NextTurn (.scan (.blockLoop found)) (.scan (.blockLoop found'))
  | tripleLoop {found found' : Bool} :
      NextTurn (.scan (.tripleLoop found)) (.scan (.tripleLoop found'))
  | identLoop : NextTurn (.scan .identLoop) (.scan .identLoop)
  | digitsLoop : NextTurn (.scan .digitsLoop) (.scan .digitsLoop)
  | stringLoop {quote quote' result result' : Bytes} {done done' : Bool} :
      NextTurn (.scan (.stringLoop quote result done)) (.scan (.stringLoop quote' result' done'))
  | orLoop {left left' : Bytes} : NextTurn (.parse (.orLoop left)) (.parse (.orLoop left'))
  | andLoop {left left' : Bytes} : NextTurn (.parse (.andLoop left)) (.parse (.andLoop left'))
  | addLoop {left left' : Bytes} : NextTurn (.parse (.addLoop left)) (.parse (.addLoop left'))
  | mulLoop {left left' : Bytes} : NextTurn (.parse (.mulLoop left)) (.parse (.mulLoop left'))
  | postfixLoop {base base' : Bytes} {going going' : Bool} :
      NextTurn (.parse (.postfixLoop base going)) (.parse (.postfixLoop base' going'))
  | declsLoop {decls decls' : Bytes} :
      NextTurn (.parse (.declsLoop decls)) (.parse (.declsLoop decls'))
  | pathLoop {path path' : Bytes} : NextTurn (.parse (.pathLoop path)) (.parse (.pathLoop path'))
  | programLoop : NextTurn (.parse .programLoop) (.parse .programLoop)
  | listed {loop : Bytes → Bool → ParseCall} (isLoop : loop ∈ [.paramsLoop, .argLoop, .elemsLoop,
      .pairsLoop, .symsLoop, .basesLoop, .payloadLoop]) {text text' : Bytes} {first first' : Bool} :
      NextTurn (.parse (loop text first)) (.parse (loop text' first'))
  | tparamsLoop {stops stops' : List TokenType} {text text' : Bytes} {first first' : Bool} :
      NextTurn (.parse (.tparamsLoop stops text first)) (.parse (.tparamsLoop stops' text' first'))
  | block {loop : Nat → ParseCall} (isLoop : loop ∈ [.stmtsLoop, .caseLoop, .topLoop, .enumLoop])
      {d d' : Nat} : NextTurn (.parse (loop d)) (.parse (loop d'))
  | arms {loop : Nat → Nat → ParseCall} (isLoop : loop ∈ [.switchLoop, .matchLoop])
      {d1 d1' d2 d2' : Nat} : NextTurn (.parse (loop d1 d2)) (.parse (loop d1' d2'))
  | membersLoop {className className' : Bytes} {d d' : Nat} :
      NextTurn (.parse (.membersLoop className d)) (.parse (.membersLoop className' d'))

/-- A loop whose flag has been cleared. -/
def Call.cleared : Call → Bool
  | .scan (.skipLoop going) => !going
  | .scan (.wsLoop wsGoing) => !wsGoing
  | .parse (.postfixLoop _ going) => !going
  | _ => false

theorem not_makes_of_cleared {c : Call} (cleared : c.cleared) {s s' : Parser} {c' : Call} :
    ¬Prog.Makes Call.body c.body s c' s' := by
  have ends (a : Bytes) : ¬Prog.Makes Call.body (.ret a : Prog Parser Call Bytes Bytes) s c' s' :=
    nofun
  match c, cleared with
  | .scan (.skipLoop false), _ => exact ends []
  | .parse (.postfixLoop base false), _ => exact ends base
  | .scan (.wsLoop false), _ =>
    intro makes
    cases makes with
    | look makes => exact ends [] makes

theorem NextTurn.cleared_of_rank {c c' : Call} (turn : NextTurn c c') {s s' : Parser}
    (full : s'.left = s.left) (lower : c'.rank s' < c.rank s) : c'.cleared := by
  have impossible (same : c'.rank s' = c.rank s) : c'.cleared := absurd lower (same ▸ lt_irrefl _)
  cases turn with
  | @skipLoop going going' =>
    cases going'
    · rfl
    · cases going <;> simp [Call.rank, ScanCall.rank] at lower
  | @wsLoop going going' =>
    cases going'
    · rfl
    · cases going <;> simp [Call.rank, ScanCall.rank] at lower
  | @postfixLoop base base' going going' =>
    cases going'
    · rfl
    · cases going <;> simp [Call.rank, full] at lower
  | listed isLoop =>
    simp only [List.mem_cons, List.not_mem_nil, or_false] at isLoop
    rcases isLoop with rfl | rfl | rfl | rfl | rfl | rfl | rfl <;>
      exact impossible (by simp [Call.rank, full])
  | block isLoop =>
    simp only [List.mem_cons, List.not_mem_nil, or_false] at isLoop
    rcases isLoop with rfl | rfl | rfl | rfl <;> exact impossible (by simp [Call.rank, full])
  | arms isLoop =>
    simp only [List.mem_cons, List.not_mem_nil, or_false] at isLoop
    rcases isLoop with rfl | rfl <;> exact impossible (by simp [Call.rank, full])
  | _ => exact impossible (by simp [Call.rank, ScanCall.rank, full])

/-! ## Runs -/

theorem less_wellFounded : WellFounded Less := WellFounded.prod_lex Nat.lt_wfRel.wf Nat.lt_wfRel.wf

theorem decreasing : Prog.Decreasing Call.body Pre Post Less Call.measure := by
  intro c s ready
  cases c with
  | scan c => exact scan_meets ready c
  | advance => exact advance_meets ready
  | parse c => exact parse_meets ready c

theorem dumpAst_meets {src : DuxStr} (short : src.len + 2 ≤ int32Max) :
    dumpAst.Meets Pre (fun _ _ => True) Post (fun _ _ => True) (Parser.start src) := by
  have nonneg : 0 ≤ src.len := Int.natCast_nonneg _
  refine ⟨⟨le_refl _, nonneg, short⟩, trivial, ?_⟩
  rintro _ _ ⟨p, tt, tv, behind, inside, rfl, moved⟩
  have behind : 0 ≤ p := behind
  have inside : p ≤ src.len := inside
  have moved : if tt = .eof then p = src.len else 0 < p := moved
  refine ⟨⟨behind, inside, short⟩, trivial, ?_⟩
  rintro _ _ ⟨p', tt', tv', behind', inside', rfl, moved'⟩
  have behind' : p ≤ p' := behind'
  have inside' : p' ≤ src.len := inside'
  have moved' : if tt' = .eof then p' = src.len else p < p' := moved'
  refine ⟨⟨⟨behind.trans behind', inside', short⟩, ?_, ?_⟩, trivial, fun _ _ _ => trivial⟩
  · intro ended
    have ended : tt' = .eof := ended
    rw [if_pos ended] at moved'
    exact moved'
  · intro last
    have last : tt = .eof := last
    change tt' = .eof
    rw [if_pos last] at moved
    by_contra real
    rw [if_neg real] at moved'
    omega

/-- `parse_program` returns for every source of at most 2³¹ − 3 bytes.  A call finds less left than
its caller did, or as much and is of a lower rank; turns of a loop consume something, but for those
that clear its flag, which are the last ones. -/
theorem parseProgram_returns (src : DuxStr) (short : src.len + 2 ≤ int32Max) :
    (∃ n result, dumpAst.exec (Prog.run Call.body n) (Parser.start src) = some result) ∧
      ∀ c s, Prog.Reaches Call.body dumpAst (Parser.start src) c s →
        ∀ c' s', Prog.Makes Call.body c.body s c' s' →
          Less (c'.measure s') (c.measure s) ∧ ¬c.cleared ∧
            (NextTurn c c' → s'.left < s.left ∨ c'.cleared) := by
  have meets := dumpAst_meets short
  constructor
  · obtain ⟨n, a, s', ends, _⟩ := meets.ends (decreasing.fulfilled less_wellFounded _)
    exact ⟨n, (a, s'), ends⟩
  · intro c s reaches c' s' makes
    have less := (decreasing.reaches less_wellFounded meets reaches).2 c' s' makes
    refine ⟨less, fun cleared => not_makes_of_cleared cleared makes, fun turn => ?_⟩
    rcases less_iff.mp less with fewer | ⟨full, lower⟩
    · exact .inl fewer
    · exact .inr (turn.cleared_of_rank full lower)

/-- A declaration that breaks off inside a call inside a string. -/
theorem parseProgram_returns_brokenOff :
    ∃ n result, dumpAst.exec (Prog.run Call.body n)
      (Parser.start ⟨ascii "int f( \x7b g(\"", by decide⟩) = some result :=
  (parseProgram_returns ⟨ascii "int f( \x7b g(\"", by decide⟩ (by decide)).1

/-! ## Longer sources

Of the `int`s that the lexer looks at behind its position, one wraps around at the end of a longer
source.  A string in three quotes that is not closed is then looked for from the front again. -/

section Longer

open Scanning

/-- Blanks, and an opening in three quotes. -/
def unclosed (k : Nat) : Bytes := List.replicate k 0x20 ++ [0x22, 0x22, 0x22]

theorem length_unclosed (k : Nat) : (unclosed k).length = k + 3 := by
  simp [unclosed]

theorem drop_unclosed (i j : Nat) : (unclosed (i + j)).drop i = unclosed j := by
  rw [unclosed, List.replicate_add, List.append_assoc, List.drop_left' (List.length_replicate ..)]
  rfl

theorem index_blank {k : Nat} {i : Int} (nonneg : 0 ≤ i) (below : i < k) :
    duxrtStrIndex (unclosed k) i = ascii " " := by
  obtain ⟨i, rfl⟩ := Int.eq_ofNat_of_zero_le nonneg
  obtain ⟨j, rfl⟩ := Nat.exists_eq_add_of_lt (Int.ofNat_lt.mp below)
  rw [duxrtStrIndex, if_neg (not_lt.mpr nonneg), length_unclosed, if_neg (by omega),
    Int.toNat_natCast, Nat.add_assoc, drop_unclosed]
  rfl

theorem index_quote {k : Nat} {i : Int} (behind : k ≤ i) (inside : i < k + 3) :
    duxrtStrIndex (unclosed k) i = ascii "\"" := by
  obtain ⟨j, rfl⟩ := Int.le.dest behind
  have dropped : (unclosed k).drop (k + j) = [(0x22 : UInt8), 0x22, 0x22].drop j := by
    rw [← List.drop_drop]
    exact congrArg (List.drop j) (drop_unclosed k 0)
  have third : j < 3 := by omega
  have nonneg : 0 ≤ (k + j : Int) := by omega
  rw [duxrtStrIndex, if_neg (not_lt.mpr nonneg), length_unclosed, if_neg (by omega),
    ← Int.natCast_add, Int.toNat_natCast, dropped]
  interval_cases j <;> rfl

theorem index_neg {s : Bytes} {i : Int} (neg : i < 0) (inside : 0 ≤ i + s.length) :
    duxrtStrIndex s i = duxrtStrIndex s (i + s.length) := by
  rw [duxrtStrIndex, if_pos neg, duxrtStrIndex, if_neg (not_lt.mpr inside)]

theorem index_outside {s : Bytes} {i : Int} (outside : s.length ≤ i ∨ i + s.length < 0) :
    duxrtStrIndex s i = [] := by
  rw [duxrtStrIndex]
  split <;> exact if_pos (by omega)

theorem int32_inside {x : Int} (low : -2 ^ 31 ≤ x) (high : x < 2 ^ 31) : int32 x = x := by
  rw [int32, Int.bmod_eq_of_le (by omega) (by omega)]

theorem int32_wraps {x : Int} (low : 2 ^ 31 ≤ x) (high : x < 2 ^ 32) : int32 x = x - 2 ^ 32 := by
  rw [int32, Int.bmod_def]
  split <;> omega

theorem exec_scan {calls : Call → Parser → Option (Bytes × Parser)} {c : ScanCall} {s : Parser} :
    (scan c).exec calls s = calls (.scan c) s := by
  change (calls (.scan c) s).bind _ = _
  cases calls (.scan c) s <;> rfl

variable {k : Nat} {src : DuxStr}

/-- The lexer of a source at a position. -/
def Parser.startAt (src : DuxStr) (p : Int) : Parser := (Parser.start src).moveTo p

theorem startAt_char (p : Int) :
    (Parser.startAt src p).lx.char = duxrtStrIndex src.chars p :=
  rfl

theorem startAt_peek (p m : Int) :
    (Parser.startAt src p).lx.peek m = duxrtStrIndex src.chars (int32 (p + m)) :=
  rfl

theorem exec_skip {calls : Call → Parser → Option (Bytes × Parser)} {α : Type}
    {f : Unit → Scanning α} {p m : Int} :
    (skip m >>= f).exec calls (.startAt src p) = (f ()).exec calls (.startAt src (int32 (p + m))) :=
  rfl

section

variable (chars : src.chars = unclosed k)
include chars

theorem len_unclosed : src.len = k + 3 := by
  rw [DuxStr.len, chars, length_unclosed]
  rfl

variable (long : k + 4 = 2 ^ 31)
include long

theorem char_behind {p : Int} (behind : p = k + 3 ∨ -2 ^ 31 ≤ p ∧ p < -3) :
    duxrtStrIndex src.chars p ≠ ascii "\"" := by
  have len : (src.chars.length : Int) = k + 3 := len_unclosed chars
  by_cases outside : src.chars.length ≤ p ∨ p + src.chars.length < 0
  · rw [index_outside outside]
    decide
  · rw [index_neg (by omega) (by omega), len, chars, index_blank (by omega) (by omega)]
    decide

theorem char_last {p : Int} (behind : -3 ≤ p) (neg : p < 0) :
    duxrtStrIndex src.chars p = ascii "\"" := by
  have len : (src.chars.length : Int) = k + 3 := len_unclosed chars
  rw [index_neg neg (by omega), len, chars, index_quote (by omega) (by omega)]

theorem tripleLoop_wraps {n : Nat} {p : Int} (behind : p = k + 3 ∨ -2 ^ 31 ≤ p ∧ p ≤ -3)
    {result : Bytes × Parser}
    (returns : Prog.run Call.body n (.scan (.tripleLoop false)) (.startAt src p) = some result) :
    result.2 = .startAt src 0 := by
  induction n generalizing p with
  | zero => cases returns
  | succ n ih =>
    have len := len_unclosed chars
    have two : int32 (p + 2) < src.len := by
      rcases behind with rfl | ⟨low, high⟩
      · rw [int32_wraps (by omega) (by omega)]
        omega
      · rw [int32_inside (by omega) (by omega)]
        omega
    change Prog.exec _ (ite _ _ _) _ = _ at returns
    rw [if_pos ⟨two, rfl⟩] at returns
    by_cases last : p = -3
    case pos =>
      subst last
      have quotes : (Parser.startAt src (-3)).lx.char = ascii "\"" ∧
          (Parser.startAt src (-3)).lx.peek 1 = ascii "\"" ∧
          (Parser.startAt src (-3)).lx.peek 2 = ascii "\"" := by
        rw [startAt_char, startAt_peek, startAt_peek, int32_inside (by decide) (by decide),
          int32_inside (by decide) (by decide)]
        have quote {p : Int} := @char_last k src chars long p
        exact ⟨quote (by decide) (by decide), quote (by decide) (by decide),
          quote (by decide) (by decide)⟩
      rw [if_pos quotes, exec_skip, exec_scan] at returns
      cases n with
      | zero => cases returns
      | succ n =>
        change Prog.exec _ (ite _ _ _) _ = _ at returns
        rw [if_neg (fun more => absurd more.2 (by decide))] at returns
        cases returns
        rfl
    case neg =>
      have blank : (Parser.startAt src p).lx.char ≠ ascii "\"" := by
        rw [startAt_char]
        exact char_behind chars long (by omega)
      rw [if_neg (fun quotes => blank quotes.1), exec_skip, exec_scan] at returns
      refine ih ?_ returns
      rcases behind with rfl | ⟨low, high⟩
      · rw [int32_wraps (by omega) (by omega)]
        omega
      · rw [int32_inside (by omega) (by omega)]
        omega

theorem wsLoop_skips {n : Nat} {p : Int} (nonneg : 0 ≤ p) (inside : p ≤ k)
    {result : Bytes × Parser}
    (returns : Prog.run Call.body n (.scan (.wsLoop true)) (.startAt src p) = some result) :
    result.2 = .startAt src k := by
  induction n generalizing p with
  | zero => cases returns
  | succ n ih =>
    have len := len_unclosed chars
    have more : p < src.len := by omega
    change Prog.exec _ (ite _ _ _) _ = _ at returns
    rw [if_pos ⟨rfl, more⟩] at returns
    by_cases last : p = k
    case pos =>
      subst last
      have quote : (Parser.startAt src k).lx.char = ascii "\"" := by
        rw [startAt_char, chars]
        exact index_quote (le_refl _) (by omega)
      have notBlank : ¬((Parser.startAt src k).lx.char = ascii " " ∨
          (Parser.startAt src k).lx.char = ascii "\t" ∨
          (Parser.startAt src k).lx.char = ascii "\r" ∨
          (Parser.startAt src k).lx.char = ascii "\n") := by
        rw [quote]
        decide
      rw [if_neg notBlank, exec_scan] at returns
      cases n with
      | zero => cases returns
      | succ n =>
        have ended : Prog.run Call.body (n + 1) (.scan (.wsLoop false)) (.startAt src k) =
            some ([], .startAt src k) := rfl
        rw [ended] at returns
        cases returns
        rfl
    case neg =>
      have blank : (Parser.startAt src p).lx.char = ascii " " := by
        rw [startAt_char, chars]
        exact index_blank nonneg (by omega)
      rw [if_pos (.inl blank), exec_skip, exec_scan, int32_inside (by omega) (by omega)] at returns
      exact ih (by omega) (by omega) returns

theorem skipComment_opens (calls : Call → Parser → Option (Bytes × Parser)) :
    skipComment.exec calls (.startAt src k) =
      (calls (.scan (.tripleLoop false)) (.startAt src (k + 3))).bind
        fun result => some (true, result.2) := by
  have len := len_unclosed chars
  have more : (Parser.startAt src k).lx.pos < (Parser.startAt src k).lx.len :=
    show (k : Int) < src.len by omega
  have quote {p : Int} (behind : k ≤ p) (inside : p < k + 3) :
      duxrtStrIndex src.chars p = ascii "\"" := by
    rw [chars]
    exact index_quote behind inside
  have first : (Parser.startAt src k).lx.char = ascii "\"" := by
    rw [startAt_char]
    exact quote le_rfl (by omega)
  have quotes : (Parser.startAt src k).lx.ahead 2 < (Parser.startAt src k).lx.len ∧
      (Parser.startAt src k).lx.char = ascii "\"" ∧
      (Parser.startAt src k).lx.peek 1 = ascii "\"" ∧
      (Parser.startAt src k).lx.peek 2 = ascii "\"" := by
    have inside : (k + 2 : Int) < src.len := by omega
    have one : int32 ((k : Int) + 1) = k + 1 := int32_inside (by omega) (by omega)
    have two : int32 ((k : Int) + 2) = k + 2 := int32_inside (by omega) (by omega)
    have ahead : (Parser.startAt src k).lx.ahead 2 = k + 2 := two
    rw [startAt_peek, startAt_peek, ahead, one, two]
    exact ⟨inside, first, quote (by omega) (by omega), quote (by omega) (by omega)⟩
  change Prog.exec _ (ite _ _ _) _ = _
  rw [if_pos more, if_neg (by rw [first]; decide), if_neg (by rw [first]; exact nofun),
    if_neg (by rw [first]; exact nofun), if_pos quotes, exec_skip,
    int32_inside (by omega) (by omega)]
  rfl

theorem skipLoop_diverges (n : Nat) :
    Prog.run Call.body n (.scan (.skipLoop true)) (.startAt src 0) = none := by
  induction n with
  | zero => rfl
  | succ n ih =>
    rw [Option.eq_none_iff_forall_ne_some]
    intro result returns
    obtain ⟨⟨r, s⟩, skipped, rest⟩ := Option.bind_eq_some_iff.mp returns
    cases wsLoop_skips chars long le_rfl (by omega) skipped
    have rest : (skipComment >>= fun going => scan (.skipLoop going)).exec (Prog.run Call.body n)
        (.startAt src k) = some result := rest
    rw [Prog.exec_bind, skipComment_opens chars long] at rest
    obtain ⟨⟨going, s'⟩, opened, rest⟩ := Option.bind_eq_some_iff.mp rest
    obtain ⟨looked, found, same⟩ := Option.bind_eq_some_iff.mp opened
    cases same
    rw [tripleLoop_wraps chars long (.inl rfl) found, exec_scan, ih] at rest
    cases rest

end

/-- A string of 2³¹ - 1 bytes. -/
def longest : DuxStr where
  chars := unclosed (2 ^ 31 - 4)
  small := by
    rw [length_unclosed]
    decide

/-- The parser does not return for this string, and also for a short one there are turns of loops
that consume nothing. -/
theorem not_parseProgram_returns :
    (∀ n, dumpAst.exec (Prog.run Call.body n) (Parser.start longest) = none) ∧
      ∃ c s c' s', Prog.Reaches Call.body dumpAst (Parser.start ⟨ascii "x", by decide⟩) c s ∧
        Prog.Makes Call.body c.body s c' s' ∧ NextTurn c c' ∧ s'.left = s.left := by
  constructor
  · intro n
    have skips (n : Nat) : Prog.run Call.body n (.scan (.skipLoop true)) (.start longest) = none :=
      @skipLoop_diverges (2 ^ 31 - 4) longest rfl rfl n
    have first : Prog.run Call.body n (.scan (.lexOneInto false)) (.start longest) = none := by
      match n with
      | 0 | 1 => rfl
      | n + 2 =>
        change ((Prog.run Call.body n (.scan (.skipLoop true)) _).bind _).bind _ = _
        rw [skips]
        rfl
    change (Prog.run Call.body n (.scan (.lexOneInto false)) (.start longest)).bind _ = _
    rw [first]
    rfl
  · have token : Prog.Reaches Call.body dumpAst (Parser.start ⟨ascii "x", by decide⟩)
        (.scan (.lexOneInto false)) (Parser.start ⟨ascii "x", by decide⟩) := .first .here
    have loop : Prog.Reaches Call.body dumpAst (Parser.start ⟨ascii "x", by decide⟩)
        (.scan (.skipLoop true)) (Parser.start ⟨ascii "x", by decide⟩) :=
      .inside (.inside token .here) .here
    have turn : Prog.Reaches Call.body dumpAst (Parser.start ⟨ascii "x", by decide⟩)
        (.scan (.wsLoop true)) (Parser.start ⟨ascii "x", by decide⟩) := .inside loop .here
    exact ⟨_, _, .scan (.wsLoop false), _, turn, .look .here, .wsLoop, rfl⟩

end Longer

end Dux.Bootstrap
