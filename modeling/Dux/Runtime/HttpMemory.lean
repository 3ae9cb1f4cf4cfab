import Dux.Logic.Blocks
import Dux.Runtime.HttpRequest

/-!
# The buffer of HTTP messages

`duxrt_http_request` and `duxrt_http_format_response` of `src/runtime/net_http.c`, with the block
that they print into.  The offset is an `int`, to which the untruncated length of every text is
added.  What `printTo` and `appendBody` say about the text is derived here from the writes.
-/

namespace Dux.Runtime.HttpMemory

open Logic
open Http (DuxUrl HTTP_BUF_SIZE appendBody crlf intLength printTo requestHead responseHead urlParse)

/-- A sum of values of the type `int`, which wraps. -/
def intSum (x y : Int) : Int := (x + y).bmod (2 ^ 32)

/-- A buffer and the offset in it. -/
structure Message where
  buf : Block
  pos : Int

/-- What `snprintf` returns: the length of the whole text, or -1 where that is no `int`. -/
def wholeLength (text : Bytes) : Int := if text.length < 2 ^ 31 then text.length else -1

/-- `pos += snprintf(buf + pos, size, ...)`. -/
def snprintf (m : Message) (size : Nat) (text : Bytes) : Except Stop Message :=
  if size = 0 then .ok ⟨m.buf, intSum m.pos (wholeLength text)⟩
  else do
    let buf ← m.buf.write m.pos (text.take (size - 1) ++ [0])
    return ⟨buf, intSum m.pos (wholeLength text)⟩

/-- `(size_t)(HTTP_BUF_SIZE - pos)`. -/
def room (pos : Int) : Nat := (((HTTP_BUF_SIZE : Int) - pos) % 2 ^ 64).toNat

/-- The body, where it fits. -/
def printBody (m : Message) (body : Bytes) : Except Stop Message :=
  if 0 < intLength body.length ∧ intSum m.pos (intLength body.length) < HTTP_BUF_SIZE then do
    let buf ← m.buf.memcpy m.pos body (intLength body.length)
    return ⟨buf, intSum m.pos (intLength body.length)⟩
  else .ok m

/-- The lines of a message, with the empty one. -/
def printLines (head : Bytes) : Except Stop Message := do
  let m ← snprintf ⟨Block.fresh HTTP_BUF_SIZE, 0⟩ HTTP_BUF_SIZE head
  snprintf m (room m.pos) crlf

/-- The lines of a message and its body. -/
def printMessage (head body : Bytes) : Except Stop Message := do
  let m ← printLines head
  printBody m body

/-- `duxrt_http_format_response` up to the call of `duxrt_str_new`, which is left out where
`malloc` returns null. -/
def duxrtHttpFormatResponse (granted : Bool) (status : Int32) (statusText body : Option Bytes) :
    Except Stop (Option Message) :=
  if granted then
    let st := (statusText.map cText).getD (ascii "OK")
    let body := body.getD []
    some <$> printMessage (responseHead status st (intLength body.length)) body
  else .ok none

/-- `duxrt_http_request` up to the connection; `none` where it returns null before. -/
def duxrtHttpRequest (granted : Bool) (method urlStr body : Option Bytes) :
    Except Stop (Option Message) :=
  match method, urlStr with
  | some method, some url =>
      match urlParse (cText url) with
      | none => .ok none
      | some u =>
          if granted then
            let body := body.getD []
            some <$> printMessage (requestHead (cText method) u.path u.host
              (intLength body.length)) body
          else .ok none
  | _, _ => .ok none

/-- `duxrt_str_new(buf, pos)`, or the bytes that `send` takes. -/
def Message.handOn (m : Message) : Except Stop Bytes :=
  if m.pos < 0 then .error .abort else m.buf.read 0 m.pos.toNat

/-- The offset is in the buffer, and everything in front of it has been written. -/
def Message.Inside (m : Message) : Prop :=
  0 ≤ m.pos ∧ m.pos ≤ HTTP_BUF_SIZE ∧ ∃ text, m.handOn = .ok text

/-- Nothing is written outside of the buffer, and what is handed on is inside of it. -/
def StaysInside (run : Except Stop (Option Message)) : Prop :=
  ∃ handedOn, run = .ok handedOn ∧ ∀ m ∈ handedOn, m.Inside

/-- The length of the lines of a response with the empty one. -/
def responseLength (status : Int32) (st : Bytes) (bodyLen : Int) : Nat :=
  51 + (printInt status.toInt).length + st.length + (printInt bodyLen).length

/-- The length of the lines of a request with the empty one. -/
def requestLength (meth : Bytes) (u : DuxUrl) (bodyLen : Int) : Nat :=
  59 + meth.length + u.path.length + u.host.length + (printInt bodyLen).length

/-- The lines do not go beyond the buffer, and the offset behind the body is an `int`. -/
def Fits (length : Nat) (body : Bytes) : Prop :=
  length ≤ HTTP_BUF_SIZE ∧ (length : Int) + intLength body.length < 2 ^ 31

theorem length_responseHead (status : Int32) (st : Bytes) (n : Int) :
    (responseHead status st n).length + 2 = responseLength status st n := by
  have front : (ascii "HTTP/1.1 ").length = 9 ∧ (ascii " ").length = 1 ∧
      (ascii "Content-Length: ").length = 16 ∧ (ascii "Connection: close").length = 17 :=
    ⟨rfl, rfl, rfl, rfl⟩
  simp only [responseHead, responseLength, crlf, List.length_append, List.length_cons,
    List.length_nil, front]
  omega

theorem length_requestHead (meth : Bytes) (u : DuxUrl) (n : Int) :
    (requestHead meth u.path u.host n).length + 2 = requestLength meth u n := by
  have front : (ascii " HTTP/1.1").length = 9 ∧ (ascii "Host: ").length = 6 ∧
      Http.closeLine.length = 17 ∧ (ascii "Content-Length: ").length = 16 :=
    ⟨rfl, rfl, rfl, rfl⟩
  simp only [requestHead, requestLength, Http.requestLine, Http.hostLine, Http.lengthLine, crlf,
    List.length_append, List.length_cons, List.length_nil, front]
  omega

theorem intSum_eq {x y : Int} (low : -2 ^ 31 ≤ x + y) (high : x + y < 2 ^ 31) :
    intSum x y = x + y := by
  apply Int.bmod_eq_of_le <;> omega

theorem intLength_lt (n : Nat) : intLength n < 2 ^ 31 := by
  unfold intLength
  rw [Int.bmod_def]
  split <;> omega

theorem intLength_le (n : Nat) : intLength n ≤ n := by
  unfold intLength
  rw [Int.bmod_def]
  split <;> omega

theorem intSum_neg {x y : Int} (low : x < 2 ^ 31) (high : y < 2 ^ 31) (wraps : 2 ^ 31 ≤ x + y) :
    intSum x y < 0 := by
  rw [intSum, Int.bmod_def]
  omega

/-! ## What is printed -/

/-- The buffer after the lines: its front is known, and the offset is behind it. -/
structure Message.Printed (m : Message) (text : Bytes) : Prop where
  filling : m.buf.Filling HTTP_BUF_SIZE text
  pos : m.pos = text.length

namespace Message.Printed

variable {m : Message} {text : Bytes}

theorem length_le (printed : m.Printed text) : text.length ≤ HTTP_BUF_SIZE := by
  rw [← printed.filling.length]
  exact printed.filling.holds.length_le

theorem handOn (printed : m.Printed text) : m.handOn = .ok text := by
  have read := Block.Holds.read [] text [] (b := m.buf) (by
    rw [List.append_nil, List.nil_append]
    exact printed.filling.holds)
  have noSign : ¬m.pos < 0 := by
    rw [printed.pos]
    omega
  rw [Message.handOn, if_neg noSign, printed.pos, Int.toNat_natCast]
  exact read

theorem inside (printed : m.Printed text) : m.Inside := by
  have length := printed.length_le
  have pos := printed.pos
  exact ⟨by omega, by omega, text, printed.handOn⟩

end Message.Printed

theorem eq_of_printBody {m m' : Message} (size : m.buf.length = HTTP_BUF_SIZE)
    (behind : HTTP_BUF_SIZE < m.pos) {body : Bytes} (runs : printBody m body = .ok m') :
    m' = m := by
  unfold printBody at runs
  split at runs
  · -- only a sum that has wrapped is small, and the write is then outside
    obtain ⟨b, copied, -⟩ := bind_eq_ok_iff.1 runs
    unfold Block.memcpy at copied
    split at copied
    · rw [Block.write_fault (.inr (by
        rw [List.length_take]
        omega))] at copied
      cases copied
    · cases copied
  · cases runs
    rfl

theorem handOn_behind {m : Message} (size : m.buf.length = HTTP_BUF_SIZE)
    (behind : HTTP_BUF_SIZE < m.pos) : m.handOn = .error .fault := by
  rw [Message.handOn, if_neg (by omega), Block.read_fault]
  omega

section Lines

variable {head : Bytes}

theorem snprintf_head (fits : head.length < HTTP_BUF_SIZE) :
    ∃ m : Message, snprintf ⟨Block.fresh HTTP_BUF_SIZE, 0⟩ HTTP_BUF_SIZE head = .ok m ∧
      m.Printed head := by
  have size : HTTP_BUF_SIZE = 65536 := rfl
  have isText : head.take (HTTP_BUF_SIZE - 1) = head := List.take_of_length_le (by omega)
  obtain ⟨buf, written, filling⟩ := (Block.filling_fresh HTTP_BUF_SIZE).write (head ++ [0]) (by
    rw [List.length_append]
    exact (Nat.zero_add _).trans_le fits)
  have holds : buf.Holds (head ++ [0]) := filling.holds
  refine ⟨⟨buf, head.length⟩, ?_, ⟨⟨holds.of_append, filling.length⟩, rfl⟩⟩
  have sum : intSum 0 head.length = head.length := by
    rw [intSum_eq, Int.zero_add] <;> omega
  rw [List.length_nil, Int.natCast_zero] at written
  rw [snprintf, if_neg (by omega), isText, written, wholeLength, if_pos (by omega)]
  simp only [ok_bind, pure_eq_ok, sum]

theorem snprintf_crlf {m : Message} (printed : m.Printed head)
    (fits : head.length < HTTP_BUF_SIZE) :
    ∃ m', snprintf m (room m.pos) crlf = .ok m' ∧ m'.buf.length = HTTP_BUF_SIZE ∧
      m'.pos = head.length + 2 ∧
      m'.buf.Holds (head ++ (crlf.take (HTTP_BUF_SIZE - head.length - 1) ++ [0])) := by
  have size : HTTP_BUF_SIZE = 65536 := rfl
  have isRoom : room m.pos = HTTP_BUF_SIZE - head.length := by
    rw [room, printed.pos]
    omega
  obtain ⟨buf, written, filling⟩ := printed.filling.write
    (crlf.take (HTTP_BUF_SIZE - head.length - 1) ++ [0]) (by
      rw [List.length_append, List.length_take, List.length_singleton]
      omega)
  have sum : intSum m.pos (wholeLength crlf) = head.length + 2 := by
    have two : wholeLength crlf = 2 := rfl
    rw [two, printed.pos, intSum_eq] <;> omega
  refine ⟨⟨buf, head.length + 2⟩, ?_, filling.length, rfl, filling.holds⟩
  rw [snprintf, isRoom, if_neg (by omega), printed.pos, written]
  rw [printed.pos] at sum
  simp only [ok_bind, pure_eq_ok, sum]

theorem printLines_of_lt (fits : head.length < HTTP_BUF_SIZE) :
    ∃ m, printLines head = .ok m ∧ m.buf.length = HTTP_BUF_SIZE ∧ m.pos = head.length + 2 ∧
      m.buf.Holds (head ++ (crlf.take (HTTP_BUF_SIZE - head.length - 1) ++ [0])) := by
  obtain ⟨m, first, printed⟩ := snprintf_head fits
  obtain ⟨m', second, rest⟩ := snprintf_crlf printed fits
  refine ⟨m', ?_, rest⟩
  rw [printLines, first]
  exact second

theorem printLines_fits (fits : head.length + 2 < HTTP_BUF_SIZE) :
    ∃ m, printLines head = .ok m ∧ m.Printed (head ++ crlf) := by
  have first : head.length < HTTP_BUF_SIZE := by omega
  obtain ⟨m, runs, length, pos, holds⟩ := printLines_of_lt first
  have whole : crlf.take (HTTP_BUF_SIZE - head.length - 1) = crlf := by
    apply List.take_of_length_le
    have two : crlf.length = 2 := rfl
    omega
  rw [whole, ← List.append_assoc] at holds
  refine ⟨m, runs, ⟨holds.of_append, length⟩, ?_⟩
  rw [pos, List.length_append]
  rfl

theorem printLines_cut (cut : head.length + 2 = HTTP_BUF_SIZE) :
    ∃ m, printLines head = .ok m ∧ m.Printed (head ++ [0x0d, 0]) := by
  have first : head.length < HTTP_BUF_SIZE := by omega
  obtain ⟨m, runs, length, pos, holds⟩ := printLines_of_lt first
  have one : HTTP_BUF_SIZE - head.length - 1 = 1 := by omega
  rw [one] at holds
  refine ⟨m, runs, ⟨holds, length⟩, ?_⟩
  rw [pos, List.length_append]
  rfl

theorem printLines_behind (long : HTTP_BUF_SIZE < head.length + 2) {m : Message}
    (runs : printLines head = .ok m) : m.buf.length = HTTP_BUF_SIZE ∧ HTTP_BUF_SIZE < m.pos := by
  have size : HTTP_BUF_SIZE = 65536 := rfl
  by_cases first : head.length < HTTP_BUF_SIZE
  · obtain ⟨m', runs', length, pos, -⟩ := printLines_of_lt first
    rw [runs'] at runs
    cases runs
    exact ⟨length, by omega⟩
  · obtain ⟨m', printed, second⟩ := bind_eq_ok_iff.1 runs
    rw [snprintf, if_neg (by omega)] at printed
    obtain ⟨buf, written, isMessage⟩ := bind_eq_ok_iff.1 printed
    cases isMessage
    have length : buf.length = HTTP_BUF_SIZE := by
      rw [Block.length_write written, Block.length_fresh]
    obtain ⟨pos, isPos, outside⟩ : ∃ pos : Int, intSum 0 (wholeLength head) = pos ∧
        (pos = -1 ∨ HTTP_BUF_SIZE ≤ pos ∧ pos < 2 ^ 31) := by
      refine ⟨_, rfl, ?_⟩
      unfold wholeLength
      split
      · rw [intSum_eq] <;> omega
      · exact .inl rfl
    rw [isPos] at second
    have two : wholeLength crlf = 2 := rfl
    by_cases full : pos = HTTP_BUF_SIZE
    · -- nothing of the empty line is printed, and yet it is counted
      have noRoom : room pos = 0 := by
        rw [full]
        rfl
      have sum : intSum pos 2 = pos + 2 := intSum_eq (by omega) (by omega)
      rw [snprintf, if_pos noRoom, two, sum] at second
      cases second
      exact ⟨length, by simp only; omega⟩
    · -- the size has wrapped, and the empty line goes where the offset is
      have isRoom : room pos ≠ 0 := by
        unfold room
        omega
      rw [snprintf, if_neg isRoom, Block.write_fault] at second
      · cases second
      · rw [List.length_append, List.length_singleton]
        dsimp only
        omega

end Lines

/-! ## When it stays inside -/

section Inside

variable {m : Message} {text body : Bytes}

theorem printBody_of_lt (printed : m.Printed text)
    (isInt : (text.length : Int) + intLength body.length < 2 ^ 31) :
    ∃ m' text', printBody m body = .ok m' ∧ m'.Printed text' ∧
      appendBody HTTP_BUF_SIZE text body = some text' := by
  have size : HTTP_BUF_SIZE = 65536 := rfl
  have pos := printed.pos
  have notBoth : ¬2 ^ 31 ≤ (text.length : Int) + intLength body.length := Int.not_le.2 isInt
  unfold printBody appendBody
  by_cases empty : intLength body.length ≤ 0
  · rw [if_neg fun fits => Int.not_lt.2 empty fits.1]
    exact ⟨m, text, rfl, printed, if_pos empty⟩
  · obtain ⟨n, isLength⟩ := Int.eq_ofNat_of_zero_le (Int.not_le.1 empty).le
    simp only [if_neg empty, if_neg notBoth]
    have sum : intSum m.pos (intLength body.length) = text.length + intLength body.length := by
      rw [pos, intSum_eq] <;> omega
    rw [sum]
    by_cases fits : (text.length : Int) + intLength body.length < HTTP_BUF_SIZE
    · have part : n ≤ body.length := by
        have le := intLength_le body.length
        omega
      have taken : (body.take n).length = n := List.length_take_of_le part
      obtain ⟨buf, copied, filling⟩ := printed.filling.write (body.take n) (by omega)
      rw [if_pos ⟨Int.not_le.1 empty, fits⟩, if_pos fits, isLength, Int.toNat_natCast,
        Block.memcpy_of_le _ _ part, pos, copied]
      refine ⟨_, _, rfl, ⟨filling, ?_⟩, rfl⟩
      rw [List.length_append, taken]
      rfl
    · rw [if_neg fun both => fits both.2, if_neg fits]
      exact ⟨m, text, rfl, printed, rfl⟩

theorem printBody_of_le (printed : m.Printed text)
    (wraps : 2 ^ 31 ≤ (text.length : Int) + intLength body.length) :
    printBody m body = .error .fault ∧ appendBody HTTP_BUF_SIZE text body = none := by
  have size : HTTP_BUF_SIZE = 65536 := rfl
  have atMost := printed.length_le
  have small := intLength_lt body.length
  have pos := printed.pos
  have negative := intSum_neg (x := m.pos) (by omega) small (by omega)
  constructor
  · have copied : m.buf.memcpy m.pos body (intLength body.length) = .error .fault := by
      unfold Block.memcpy
      split
      · apply Block.write_fault
        rw [List.length_take, printed.filling.length]
        omega
      · rfl
    rw [printBody, if_pos (by omega), copied]
    rfl
  · unfold appendBody
    simp only [if_neg (show ¬intLength body.length ≤ 0 by omega), if_pos wraps]

theorem inside_printBody_iff (printed : m.Printed text) (body : Bytes) :
    (∃ m', printBody m body = .ok m' ∧ m'.Inside) ↔
      (text.length : Int) + intLength body.length < 2 ^ 31 := by
  constructor
  · rintro ⟨m', runs, -⟩
    by_contra wraps
    rw [(printBody_of_le printed (Int.not_lt.1 wraps)).1] at runs
    cases runs
  · intro isInt
    obtain ⟨m', text', runs, printed', -⟩ := printBody_of_lt printed isInt
    exact ⟨m', runs, printed'.inside⟩

theorem inside_printMessage_iff (head body : Bytes) :
    (∃ m, printMessage head body = .ok m ∧ m.Inside) ↔ Fits (head.length + 2) body := by
  have behind : (∃ m, printMessage head body = .ok m ∧ m.Inside) ↔
      ∃ m, printLines head = .ok m ∧ ∃ m', printBody m body = .ok m' ∧ m'.Inside := by
    unfold printMessage
    constructor
    · rintro ⟨m', runs, inside⟩
      obtain ⟨m, lines, runs⟩ := bind_eq_ok_iff.1 runs
      exact ⟨m, lines, m', runs, inside⟩
    · rintro ⟨m, lines, m', runs, inside⟩
      exact ⟨m', bind_eq_ok_iff.2 ⟨m, lines, runs⟩, inside⟩
  rw [behind]
  by_cases long : HTTP_BUF_SIZE < head.length + 2
  · refine iff_of_false ?_ fun fits => absurd fits.1 (Nat.not_le.2 long)
    rintro ⟨m, lines, m', runs, inside⟩
    obtain ⟨length, pos⟩ := printLines_behind long lines
    rw [eq_of_printBody length pos runs] at inside
    exact absurd inside.2.1 (Int.not_le.2 pos)
  · obtain ⟨m, text, lines, printed, length⟩ : ∃ m text, printLines head = .ok m ∧
        m.Printed text ∧ text.length = head.length + 2 := by
      rcases Nat.lt_or_eq_of_le (Nat.not_lt.1 long) with fits | cut
      · obtain ⟨m, lines, printed⟩ := printLines_fits fits
        exact ⟨m, _, lines, printed, List.length_append⟩
      · obtain ⟨m, lines, printed⟩ := printLines_cut cut
        exact ⟨m, _, lines, printed, List.length_append⟩
    rw [lines]
    simp only [Except.ok.injEq, exists_eq_left', inside_printBody_iff printed body, length]
    exact ⟨fun isInt => ⟨Nat.not_lt.1 long, isInt⟩, fun fits => fits.2⟩

end Inside

/-! ## The text -/

theorem toOption_bind {α β : Type} (run : Except Stop α) (f : α → Except Stop β) :
    (run >>= f).toOption = run.toOption.bind fun a => (f a).toOption := by
  cases run <;> rfl

theorem handOn_printBody {m : Message} {text : Bytes} (printed : m.Printed text) (body : Bytes) :
    (printBody m body >>= Message.handOn).toOption = appendBody HTTP_BUF_SIZE text body := by
  by_cases isInt : (text.length : Int) + intLength body.length < 2 ^ 31
  · obtain ⟨m', text', runs, printed', appended⟩ := printBody_of_lt printed isInt
    rw [runs, ok_bind, printed'.handOn, appended]
    rfl
  · obtain ⟨runs, appended⟩ := printBody_of_le printed (Int.not_lt.1 isInt)
    rw [runs, appended]
    rfl

theorem handOn_printBody_behind {m : Message} (size : m.buf.length = HTTP_BUF_SIZE)
    (behind : HTTP_BUF_SIZE < m.pos) (body : Bytes) :
    (printBody m body >>= Message.handOn).toOption = none := by
  cases runs : printBody m body with
  | error stop => rfl
  | ok m' =>
    rw [eq_of_printBody size behind runs, ok_bind, handOn_behind size behind]
    rfl

theorem handOn_printMessage (head body : Bytes) :
    (printMessage head body >>= Message.handOn).toOption =
      ((printTo HTTP_BUF_SIZE [] head).bind fun head => printTo HTTP_BUF_SIZE head crlf).bind
        fun buf => appendBody HTTP_BUF_SIZE buf body := by
  rw [Http.printHead_eq, printMessage, bind_assoc, toOption_bind]
  by_cases fits : head.length + 2 < HTTP_BUF_SIZE
  · obtain ⟨m, lines, printed⟩ := printLines_fits fits
    rw [lines, if_pos fits, Except.toOption, Option.bind_some, Option.bind_some]
    exact handOn_printBody printed body
  · rw [if_neg fits]
    by_cases cut : head.length + 2 = HTTP_BUF_SIZE
    · obtain ⟨m, lines, printed⟩ := printLines_cut cut
      rw [lines, if_pos cut, Except.toOption, Option.bind_some, Option.bind_some]
      exact handOn_printBody printed body
    · rw [if_neg cut, Option.bind_none]
      cases lines : printLines head with
      | error => rfl
      | ok m =>
        obtain ⟨length, pos⟩ := printLines_behind (by omega) lines
        rw [Except.toOption, Option.bind_some]
        exact handOn_printBody_behind length pos body

/-- What is handed on of a response is its text. -/
theorem handOn_formatResponse (status : Int32) (statusText body : Option Bytes) :
    ((duxrtHttpFormatResponse true status statusText body).toOption.join.bind
        fun m => m.handOn.toOption) =
      Http.duxrtHttpFormatResponse status statusText body := by
  have handedOn := handOn_printMessage (responseHead status
    ((statusText.map cText).getD (ascii "OK")) (intLength (body.getD []).length)) (body.getD [])
  rw [toOption_bind, Option.bind_assoc] at handedOn
  have joined (run : Except Stop Message) :
      ((some <$> run).toOption.join.bind fun m => m.handOn.toOption) =
        run.toOption.bind fun m => m.handOn.toOption := by
    cases run <;> rfl
  rw [duxrtHttpFormatResponse, if_pos rfl, joined, handedOn, Http.duxrtHttpFormatResponse]

/-! ## Both functions -/

theorem staysInside_some_iff (run : Except Stop Message) :
    StaysInside (some <$> run) ↔ ∃ m, run = .ok m ∧ m.Inside := by
  cases run with
  | error stop => simp [StaysInside]
  | ok m => simp [StaysInside]

theorem staysInside_none : StaysInside (.ok none) := ⟨none, rfl, nofun⟩

/-- Both functions stay inside of their buffer exactly if the lines do and the offset is an `int`
everywhere. -/
theorem staysInside_iff (granted : Bool) (status : Int32)
    (statusText method urlStr body : Option Bytes) :
    (StaysInside (duxrtHttpFormatResponse granted status statusText body) ↔
      (granted = true → Fits (responseLength status ((statusText.map cText).getD (ascii "OK"))
        (intLength (body.getD []).length)) (body.getD []))) ∧
    (StaysInside (duxrtHttpRequest granted method urlStr body) ↔
      ∀ meth ∈ method, ∀ url ∈ urlStr, ∀ u ∈ urlParse (cText url), granted = true →
        Fits (requestLength (cText meth) u (intLength (body.getD []).length)) (body.getD [])) := by
  constructor
  · cases granted with
    | false => exact iff_of_true staysInside_none nofun
    | true =>
      rw [duxrtHttpFormatResponse, if_pos rfl, staysInside_some_iff, inside_printMessage_iff,
        length_responseHead]
      exact (imp_iff_right rfl).symm
  · cases method with
    | none => exact iff_of_true staysInside_none nofun
    | some meth =>
      cases urlStr with
      | none => exact iff_of_true staysInside_none nofun
      | some url =>
        rw [duxrtHttpRequest]
        cases parsed : urlParse (cText url) with
        | none =>
          refine iff_of_true staysInside_none ?_
          rintro meth' - url' isUrl u' accepted
          cases isUrl
          rw [parsed] at accepted
          cases accepted
        | some u =>
          have atInput : (∀ meth' ∈ some meth, ∀ url' ∈ some url, ∀ u' ∈ urlParse (cText url'),
              granted = true → Fits (requestLength (cText meth') u'
                (intLength (body.getD []).length)) (body.getD [])) ↔
              (granted = true → Fits (requestLength (cText meth) u
                (intLength (body.getD []).length)) (body.getD [])) := by
            simp [parsed]
          rw [atInput]
          cases granted with
          | false => exact iff_of_true staysInside_none nofun
          | true =>
            simp only [if_true]
            rw [staysInside_some_iff, inside_printMessage_iff, length_requestHead]
            exact (imp_iff_right trivial).symm

/-- A long status text is printed over the end of the buffer. -/
theorem not_staysInside :
    ¬((∀ (granted : Bool) (status : Int32) (statusText body : Option Bytes),
        StaysInside (duxrtHttpFormatResponse granted status statusText body)) ∧
      ∀ (granted : Bool) (method urlStr body : Option Bytes),
        StaysInside (duxrtHttpRequest granted method urlStr body)) := by
  rintro ⟨always, -⟩
  have inside := always true 200 (some (List.replicate 65536 0x61)) none
  have noNul : cText (List.replicate 65536 0x61) = List.replicate 65536 0x61 := by
    apply Logic.cText_eq_self_iff.2
    intro member
    exact absurd (List.eq_of_mem_replicate member) (by decide)
  rw [duxrtHttpFormatResponse, if_pos rfl, staysInside_some_iff, inside_printMessage_iff,
    length_responseHead, Option.map_some, Option.getD_some, noNul] at inside
  have long := inside.1
  rw [responseLength, List.length_replicate] at long
  have size : HTTP_BUF_SIZE = 65536 := rfl
  omega

end Dux.Runtime.HttpMemory
