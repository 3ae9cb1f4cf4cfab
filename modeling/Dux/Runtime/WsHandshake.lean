import Dux.Runtime.AcceptKey
import Dux.Runtime.WebSocket

/-!
# The WebSocket handshake

Both sides read the header block of the other into a buffer of fixed size, search it for what
they need, and go on with frames where their last `recv` ended (`src/runtime/ws_rt.c`).
-/

namespace Dux.Runtime.WebSocket

open Logic (cText strstr strchr ascii)
open Http (crlf blankLine recv recv_append recv_noEmpty recv_ne_nil length_recv_le)

/-! ## Searching -/

/-- `tolower`. -/
def lower (text : Bytes) : Bytes := text.map fun b => if 0x41 ≤ b ∧ b ≤ 0x5a then b + 0x20 else b

/-- `strcasestr`: the text from the first place on where `pat` stands in any case. -/
def strcasestr (pat text : Bytes) : Option Bytes :=
  (strstr (lower pat) (lower text)).map fun r => text.drop r.1.length

/-- What stands behind the first occurrence of a name, without the spaces before it. -/
def behind (name text : Bytes) : Option Bytes :=
  (strcasestr name text).map fun hdr => (hdr.drop name.length).dropWhile (· = 0x20)

/-! ## Reading the header block -/

/-- The bytes that a handshake receives at most. -/
def room : Nat := 4095

/-- The loop that both handshakes begin with: receive until an empty line is in the buffer, or
the buffer is full. -/
def readHeaders (buf : Bytes) (pending : List Bytes) : Option (Bytes × List Bytes) :=
  if _free : buf.length < room then
    let r := recv (room - buf.length) pending
    if _more : r.1 = [] then none
    else if (strstr blankLine (cText (buf ++ r.1))).isSome then some (buf ++ r.1, r.2)
    else readHeaders (buf ++ r.1) r.2
  else some (buf, pending)
termination_by room - buf.length
decreasing_by
  have more : 0 < (recv (room - buf.length) pending).1.length := List.length_pos_iff.2 _more
  rw [List.length_append]
  omega

/-! ## The client -/

def acceptName : Bytes := ascii "Sec-WebSocket-Accept:"

/-- The value that is compared with the expected one. -/
def acceptValue (text : Bytes) : Option Bytes :=
  (behind acceptName text).map fun hdr => ((strstr crlf hdr).map fun r => r.1).getD hdr

/-- `read_upgrade_response`, with what is left to receive. -/
def readUpgradeResponse (expectedAccept : Bytes) (pending : List Bytes) : Option (List Bytes) :=
  match readHeaders [] pending with
  | none => none
  | some (buf, rest) =>
      if (strstr (ascii "101") (cText buf)).isNone then none
      else
        match acceptValue (cText buf) with
        | none => none
        | some value => if value = expectedAccept then some rest else none

/-- `duxrt_ws_connect` once its request is sent, with the 16 bytes that are its key. -/
def duxrtWsConnect (rawKey : Bytes) (pending : List Bytes) : Option (List Bytes) :=
  readUpgradeResponse (wsAcceptKey (base64Encode rawKey)) pending

/-! ## The server -/

def keyName : Bytes := ascii "Sec-WebSocket-Key:"

/-- The key of the client, as much as fits the buffer for it. -/
def clientKey (text : Bytes) : Option Bytes :=
  (behind keyName text).map fun hdr => ((strstr crlf hdr).map fun r => r.1.take 63).getD []

/-- The response of a server. -/
def upgradeResponse (acceptKey : Bytes) : Bytes :=
  ascii "HTTP/1.1 101 Switching Protocols" ++ crlf ++ ascii "Upgrade: websocket" ++ crlf ++
    ascii "Connection: Upgrade" ++ crlf ++ ascii "Sec-WebSocket-Accept: " ++ acceptKey ++ blankLine

/-- `duxrt_ws_accept` on an accepted connection: the response that it sends, and what is left to
receive. -/
def duxrtWsAccept (pending : List Bytes) : Option (Bytes × List Bytes) :=
  match readHeaders [] pending with
  | none => none
  | some (buf, rest) =>
      match clientKey (cText buf) with
      | none => none
      | some key => some (upgradeResponse (wsAcceptKey key), rest)

/-! ## What a handshake should do -/

/-- A connection delivers its bytes in chunks.  An empty one would be the end. -/
structure Chunks where
  pending : List Bytes
  noEmpty : ∀ chunk ∈ pending, chunk ≠ []

def Chunks.stream (c : Chunks) : Bytes := c.pending.flatten

/-- The header block of a stream, with the empty line that ends it, and what follows. -/
def splitBlock (stream : Bytes) : Option (Bytes × Bytes) :=
  (strstr blankLine (cText stream)).map fun r =>
    (stream.take (r.1.length + 4), stream.drop (r.1.length + 4))

/-- The header block, or what there is of it. -/
def header (stream : Bytes) : Bytes := ((splitBlock stream).map fun r => r.1).getD stream

/-- The lines of a text. -/
def linesOf : Bytes → List Bytes
  | [] => [[]]
  | b :: rest =>
      if crlf <+: b :: rest then [] :: (linesOf rest).modifyHead List.tail
      else (linesOf rest).modifyHead (b :: ·)

def statusCode (header : Bytes) : Bytes :=
  ((((linesOf header).headD []).dropWhile (· ≠ 0x20)).drop 1).takeWhile (· ≠ 0x20)

def trim (value : Bytes) : Bytes :=
  let blank : UInt8 → Bool := fun b => b = 0x20 || b = 0x09
  ((value.dropWhile blank).reverse.dropWhile blank).reverse

/-- The value of a header field: behind its name and colon in a line after the first. -/
def fieldValue (name header : Bytes) : Option Bytes :=
  (((linesOf header).drop 1).find? fun line => (lower name).isPrefixOf (lower line)).map
    fun line => trim (line.drop name.length)

/-- The side of a connection, a client with the bytes that are its key. -/
inductive Side where
  | client (rawKey : Bytes)
  | server

/-- A connection is there: what is left to receive. -/
def Side.connection (side : Side) (pending : List Bytes) : Option (List Bytes) :=
  match side with
  | .client rawKey => duxrtWsConnect rawKey pending
  | .server => (duxrtWsAccept pending).map fun r => r.2

/-- The upgrade is valid: the response has code 101 and the accept value for the key, or the
request has a complete header block with a key. -/
def Side.Valid (side : Side) (stream : Bytes) : Prop :=
  match side with
  | .client rawKey =>
      statusCode (header stream) = ascii "101" ∧
        fieldValue acceptName (header stream) = some (wsAcceptKey (base64Encode rawKey))
  | .server =>
      (splitBlock stream).isSome ∧ (fieldValue keyName (header stream)).isSome

/-- What is left to receive is what follows the header block, and all messages in it are
delivered. -/
structure Resumes (rest : List Bytes) (tail : Bytes) : Prop where
  whole : rest.flatten = tail
  delivered : ∀ (messages : List Message) (back : Bytes),
    tail = messages.flatMap Message.bytes ++ back →
      (wsRecvFrames messages.length rest).1 = messages.map fun m => some (payload m.pieces)

/-- A connection is there only after a valid upgrade, and no frame behind it is lost. -/
def Sound (side : Side) (c : Chunks) : Prop :=
  ∀ rest, side.connection c.pending = some rest →
    side.Valid c.stream ∧ ∀ block tail, splitBlock c.stream = some (block, tail) → Resumes rest tail

/-! ## When it does -/

/-- The bytes that have arrived with the chunk in which the first `n` are complete. -/
def arrived (n : Nat) : List Bytes → Nat
  | [] => 0
  | chunk :: rest =>
      if n ≤ chunk.length then chunk.length else chunk.length + arrived (n - chunk.length) rest

/-- The bytes that go into the buffer: up to the end of the chunk that completes the header block,
as far as there is room. -/
def Chunks.buffered (c : Chunks) : Nat :=
  match splitBlock c.stream with
  | some (block, _) => min room (arrived block.length c.pending)
  | none => room

/-- The text in the buffer. -/
def Chunks.text (c : Chunks) : Bytes := cText (c.stream.take c.buffered)

/-- What a side looks for stands somewhere in a text. -/
def Side.Finds (side : Side) (text : Bytes) : Prop :=
  match side with
  | .client rawKey =>
      (strstr (ascii "101") text).isSome ∧
        acceptValue text = some (wsAcceptKey (base64Encode rawKey))
  | .server => (behind keyName text).isSome

/-- It stands in its place: `101` is the code of the status line, the first occurrence of the
name of the accept field is followed by what the field has, and the name of the key field begins
a line of a complete header block. -/
def Side.InPlace (side : Side) (stream text : Bytes) : Prop :=
  match side with
  | .client _ =>
      statusCode (header stream) = ascii "101" ∧
        fieldValue acceptName (header stream) = acceptValue text
  | .server =>
      (splitBlock stream).isSome ∧ (fieldValue keyName (header stream)).isSome

/-- No byte arrives behind the header block in the chunk that completes it, or none that has room
in the buffer, and there is room for the block. -/
def Chunks.EndsWithBlock (c : Chunks) : Prop :=
  ∀ block tail, splitBlock c.stream = some (block, tail) → c.buffered = block.length

/-- The stream ends too early, or what is looked for is not in the buffer, or it is in its place
and the buffer ends with the header block. -/
def Met (side : Side) (c : Chunks) : Prop :=
  c.buffered ≤ c.stream.length → side.Finds c.text →
    side.InPlace c.stream c.text ∧ c.EndsWithBlock

example :
    fieldValue acceptName (ascii "HTTP/1.1 101 OK\x0d\nX: 1\x0d\nsec-websocket-accept: abc\x0d\n") =
      some (ascii "abc") := by
  decide

/-! ## Where the buffer ends -/

/-- A pattern is found in a beginning of a text as soon as its first occurrence is complete. -/
theorem strstr_take_isSome_iff {pat text before found : Bytes}
    (isFound : strstr pat text = some (before, found)) (k : Nat) :
    (strstr pat (text.take k)).isSome ↔ before.length + pat.length ≤ k := by
  obtain ⟨whole, isPrefix⟩ := Logic.strstr_some isFound
  constructor
  · intro isSome
    obtain ⟨⟨before', found'⟩, isFound'⟩ := Option.isSome_iff_exists.1 isSome
    have more := Http.strstr_append_of_some isFound' (text.drop k)
    rw [List.take_append_drop, isFound, Option.some.injEq, Prod.mk.injEq] at more
    obtain ⟨whole', isPrefix'⟩ := Logic.strstr_some isFound'
    have length := congrArg List.length whole'
    have atLeast := isPrefix'.length_le
    rw [List.length_take, List.length_append] at length
    rw [more.1]
    omega
  · intro complete
    have inside : pat <:+: text.take k := by
      obtain ⟨rest, rfl⟩ := isPrefix
      have isPrefix' : before ++ pat <+: text.take k := by
        rw [List.prefix_take_iff, List.length_append]
        exact ⟨⟨rest, by rw [whole, List.append_assoc]⟩, complete⟩
      exact (List.suffix_append before pat).isInfix.trans isPrefix'.isInfix
    obtain ⟨before', found', isFound'⟩ := Http.exists_strstr inside
    rw [isFound']
    rfl

section Buffer

variable {buf : Bytes} {pending : List Bytes}

theorem cText_take (text : Bytes) (k : Nat) : cText (text.take k) = (cText text).take k :=
  List.take_takeWhile.symm

theorem found_iff {stream block tail : Bytes} (isBlock : splitBlock stream = some (block, tail))
    (k : Nat) : (strstr blankLine (cText (stream.take k))).isSome ↔ block.length ≤ k := by
  obtain ⟨⟨before, found⟩, isFound, same⟩ := Option.map_eq_some_iff.1 isBlock
  obtain ⟨whole, isPrefix⟩ := Logic.strstr_some isFound
  cases same
  rw [cText_take, strstr_take_isSome_iff isFound, List.length_take]
  dsimp only
  have four : blankLine.length = 4 := rfl
  have length := congrArg List.length whole
  have atMost : (cText stream).length ≤ stream.length := (List.takeWhile_sublist _).length_le
  have atLeast := isPrefix.length_le
  rw [List.length_append] at length
  omega

theorem not_found {stream : Bytes} (noBlock : splitBlock stream = none) (k : Nat) :
    strstr blankLine (cText (stream.take k)) = none := by
  rw [Option.eq_none_iff_forall_ne_some]
  rintro ⟨before, found⟩ isFound
  rw [cText_take] at isFound
  have more := Http.strstr_append_of_some isFound ((cText stream).drop k)
  rw [List.take_append_drop] at more
  rw [splitBlock, more] at noBlock
  cases noBlock

theorem splitBlock_append {stream block tail : Bytes}
    (isBlock : splitBlock stream = some (block, tail)) :
    stream = block ++ tail := by
  obtain ⟨r, -, same⟩ := Option.map_eq_some_iff.1 isBlock
  cases same
  exact (List.take_append_drop _ _).symm

/-- Where the buffer ends when some bytes are in it. -/
def endOf (buf : Bytes) (pending : List Bytes) : Nat :=
  match splitBlock (buf ++ pending.flatten) with
  | some (block, _) => min room (buf.length + arrived (block.length - buf.length) pending)
  | none => room

theorem endOf_full (full : buf.length = room) : endOf buf pending = room := by
  unfold endOf
  split
  · omega
  · rfl

theorem lt_of_notYet {block tail : Bytes}
    (isBlock : splitBlock (buf ++ pending.flatten) = some (block, tail))
    (notYet : strstr blankLine (cText buf) = none) : buf.length < block.length := by
  have found := found_iff isBlock buf.length
  rw [List.take_left, notYet] at found
  by_contra atMost
  exact absurd (found.2 (Nat.le_of_not_lt atMost)) nofun

theorem endOf_found {chunk : Bytes} {rest : List Bytes} (fits : buf.length + chunk.length ≤ room)
    (notYet : strstr blankLine (cText buf) = none)
    (found : (strstr blankLine (cText (buf ++ chunk))).isSome) :
    endOf buf (chunk :: rest) = buf.length + chunk.length := by
  have whole : buf ++ (chunk :: rest).flatten = (buf ++ chunk) ++ rest.flatten := by
    rw [List.flatten_cons, List.append_assoc]
  unfold endOf
  split
  · next block tail isBlock =>
    have longer := lt_of_notYet isBlock notYet
    have complete := found_iff isBlock (buf ++ chunk).length
    rw [whole, List.take_left] at complete
    have atMost := complete.1 found
    rw [List.length_append] at atMost
    rw [arrived, if_pos (by omega)]
    omega
  · next noBlock =>
    have never := not_found noBlock (buf ++ chunk).length
    rw [whole, List.take_left] at never
    rw [never] at found
    cases found

theorem endOf_cons {chunk : Bytes} {rest : List Bytes}
    (notYet : strstr blankLine (cText (buf ++ chunk)) = none) :
    endOf buf (chunk :: rest) = endOf (buf ++ chunk) rest := by
  have whole : buf ++ (chunk :: rest).flatten = (buf ++ chunk) ++ rest.flatten := by
    rw [List.flatten_cons, List.append_assoc]
  unfold endOf
  rw [whole]
  split
  · next block tail isBlock =>
    have longer := lt_of_notYet isBlock notYet
    rw [List.length_append] at longer
    rw [arrived, if_neg (by omega), List.length_append, Nat.add_assoc, Nat.sub_sub]
  · rfl

theorem endOf_fills {chunk : Bytes} {rest : List Bytes} (fills : room ≤ buf.length + chunk.length) :
    endOf buf (chunk :: rest) = room := by
  unfold endOf
  split
  · rw [arrived]
    split <;> omega
  · rfl

theorem readHeaders_full (full : buf.length = room) :
    readHeaders buf pending = some (buf, pending) := by
  rw [readHeaders, dif_neg (by omega)]

theorem readHeaders_eq (fits : buf.length ≤ room) (noEmpty : ∀ chunk ∈ pending, chunk ≠ [])
    (notYet : strstr blankLine (cText buf) = none) :
    ((buf ++ pending.flatten).length < endOf buf pending ∧ readHeaders buf pending = none) ∨
      ∃ received rest, readHeaders buf pending = some (received, rest) ∧
        received.length = endOf buf pending ∧ received ++ rest.flatten = buf ++ pending.flatten ∧
        ∀ chunk ∈ rest, chunk ≠ [] := by
  induction pending generalizing buf with
  | nil =>
    by_cases full : buf.length = room
    · exact .inr ⟨buf, [], readHeaders_full full, by rw [endOf_full full, full], rfl, nofun⟩
    · have none' : splitBlock (buf ++ ([] : List Bytes).flatten) = none := by
        rw [Option.eq_none_iff_forall_ne_some]
        rintro ⟨block, tail⟩ isBlock
        have longer := lt_of_notYet isBlock notYet
        have length := congrArg List.length (splitBlock_append isBlock)
        simp only [List.flatten_nil, List.length_append, List.length_nil] at length
        omega
      have atRoom : endOf buf [] = room := by rw [endOf, none']
      refine .inl ⟨?_, ?_⟩
      · rw [atRoom, List.flatten_nil, List.append_nil]
        omega
      · rw [readHeaders, dif_pos (by omega)]
        rfl
  | cons chunk rest ih =>
    by_cases full : buf.length = room
    · exact .inr ⟨buf, _, readHeaders_full full, by rw [endOf_full full, full], rfl, noEmpty⟩
    · have notEmpty := noEmpty chunk List.mem_cons_self
      have noEmpty' : ∀ chunk ∈ rest, chunk ≠ [] := fun chunk member =>
        noEmpty chunk (List.mem_cons_of_mem _ member)
      have whole : buf ++ (chunk :: rest).flatten = (buf ++ chunk) ++ rest.flatten := by
        rw [List.flatten_cons, List.append_assoc]
      rw [readHeaders, dif_pos (by omega)]
      by_cases whole' : chunk.length ≤ room - buf.length
      · have received : recv (room - buf.length) (chunk :: rest) = (chunk, rest) := by
          rw [recv, if_pos whole']
        simp only [received, dif_neg notEmpty]
        by_cases found : (strstr blankLine (cText (buf ++ chunk))).isSome
        · rw [if_pos found]
          refine .inr ⟨_, _, rfl, ?_, whole.symm, noEmpty'⟩
          rw [List.length_append, endOf_found (by omega) notYet found]
        · rw [if_neg found]
          rw [Option.not_isSome_iff_eq_none] at found
          rw [whole, endOf_cons found]
          apply ih _ noEmpty' found
          rw [List.length_append]
          omega
      · have received : recv (room - buf.length) (chunk :: rest) =
            (chunk.take (room - buf.length), chunk.drop (room - buf.length) :: rest) := by
          rw [recv, if_neg whole']
        have fills : (buf ++ chunk.take (room - buf.length)).length = room := by
          rw [List.length_append, List.length_take]
          omega
        have some' : chunk.take (room - buf.length) ≠ [] := by
          intro none'
          rw [none', List.append_nil] at fills
          exact full fills
        have left : ∀ c ∈ chunk.drop (room - buf.length) :: rest, c ≠ [] := by
          intro c member
          rcases List.mem_cons.1 member with rfl | inRest
          · intro none'
            rw [List.drop_eq_nil_iff] at none'
            omega
          · exact noEmpty' c inRest
        have parts : (buf ++ chunk.take (room - buf.length)) ++
            (chunk.drop (room - buf.length) :: rest).flatten = buf ++ (chunk :: rest).flatten := by
          rw [List.flatten_cons, List.append_assoc, ← List.append_assoc (chunk.take _),
            List.take_append_drop, List.flatten_cons]
        simp only [received, dif_neg some', readHeaders_full fills, ite_self]
        refine .inr ⟨_, _, rfl, ?_, parts, left⟩
        rw [fills, endOf_fills (by omega)]

end Buffer

/-! ## Connections -/

theorem readHeaders_cases (c : Chunks) :
    (c.stream.length < c.buffered ∧ readHeaders [] c.pending = none) ∨
      c.buffered ≤ c.stream.length ∧ ∃ rest,
        readHeaders [] c.pending = some (c.stream.take c.buffered, rest) ∧
          Cuts rest (c.stream.drop c.buffered) := by
  have isEnd : endOf [] c.pending = c.buffered := by
    unfold endOf Chunks.buffered Chunks.stream
    rw [List.nil_append]
    split
    · simp only [List.length_nil, Nat.zero_add, Nat.sub_zero]
    · rfl
  have nothing : ([] : Bytes).length ≤ room := Nat.zero_le _
  rcases readHeaders_eq nothing c.noEmpty rfl with
    ⟨short, none'⟩ | ⟨received, rest, some', length, whole, noEmpty⟩
  · rw [isEnd] at short
    exact .inl ⟨short, none'⟩
  · rw [isEnd] at length
    rw [List.nil_append] at whole
    have taken : c.stream.take c.buffered = received := by
      rw [Chunks.stream, ← whole, ← length, List.take_left]
    have left : c.stream.drop c.buffered = rest.flatten := by
      rw [Chunks.stream, ← whole, ← length, List.drop_left]
    have total := congrArg List.length whole
    rw [List.length_append, length] at total
    rw [taken, left]
    exact .inr ⟨total ▸ Nat.le_add_right _ _, rest, some', rfl, noEmpty⟩

theorem connection_eq_some_iff {side : Side} {pending rest rest' : List Bytes} {buf : Bytes}
    (received : readHeaders [] pending = some (buf, rest)) :
    side.connection pending = some rest' ↔ side.Finds (cText buf) ∧ rest = rest' := by
  cases side with
  | client rawKey =>
    simp only [Side.connection, Side.Finds, duxrtWsConnect, readUpgradeResponse, received]
    cases strstr (ascii "101") (cText buf) with
    | none => simp
    | some r =>
      cases acceptValue (cText buf) with
      | none => simp
      | some value => simp
  | server =>
    simp only [Side.connection, Side.Finds, duxrtWsAccept, received, clientKey]
    cases behind keyName (cText buf) with
    | none => simp
    | some hdr => simp

theorem valid_iff {side : Side} {stream text : Bytes} (finds : side.Finds text) :
    side.Valid stream ↔ side.InPlace stream text := by
  cases side with
  | client rawKey => rw [Side.Valid, Side.InPlace, finds.2]
  | server => exact Iff.rfl

theorem resumes_iff {c : Chunks} {rest : List Bytes} {block tail : Bytes}
    (fits : c.buffered ≤ c.stream.length) (left : Cuts rest (c.stream.drop c.buffered))
    (isBlock : splitBlock c.stream = some (block, tail)) :
    Resumes rest tail ↔ c.buffered = block.length := by
  have parts := splitBlock_append isBlock
  constructor
  · intro resumes
    have length := congrArg List.length (left.whole.symm.trans resumes.whole)
    have total := congrArg List.length parts
    rw [List.length_drop] at length
    rw [List.length_append] at total
    omega
  · intro ends
    have cuts : Cuts rest tail := by
      rw [ends, parts, List.drop_left] at left
      exact left
    constructor
    · exact cuts.whole
    · intro messages back isTail
      obtain ⟨rest', -, delivered⟩ := wsRecvFrames_messages messages (isTail ▸ cuts)
      rw [delivered]

/-- A connection is there only after a valid upgrade, and no frame behind it is lost, exactly if
what is looked for is in its place and the buffer ends with the header block. -/
theorem sound_iff (side : Side) (c : Chunks) : Sound side c ↔ Met side c := by
  rcases readHeaders_cases c with ⟨short, none'⟩ | ⟨fits, rest, received, left⟩
  · constructor
    · intro _ fits
      omega
    · intro _ rest connected
      cases side with
      | client rawKey =>
        rw [Side.connection, duxrtWsConnect, readUpgradeResponse, none'] at connected
        cases connected
      | server =>
        rw [Side.connection, duxrtWsAccept, none'] at connected
        cases connected
  · constructor
    · intro sound _ finds
      obtain ⟨valid, resumes⟩ := sound rest ((connection_eq_some_iff received).2 ⟨finds, rfl⟩)
      constructor
      · exact (valid_iff finds).1 valid
      · intro block tail isBlock
        exact (resumes_iff fits left isBlock).1 (resumes block tail isBlock)
    · intro met rest' connected
      obtain ⟨finds, rfl⟩ := (connection_eq_some_iff received).1 connected
      obtain ⟨inPlace, ends⟩ := met fits finds
      constructor
      · exact (valid_iff finds).2 inPlace
      · intro block tail isBlock
        exact (resumes_iff fits left isBlock).2 (ends block tail isBlock)

/-- A request that arrives in one chunk with the first frame. -/
def hasty : Chunks where
  pending := [ascii "GET / HTTP/1.1\x0d\nSec-WebSocket-Key: x\x0d\n\x0d\n" ++ [0x81, 0x01, 72]]
  noEmpty := by decide

/-- The server accepts it and the frame is lost. -/
theorem not_sound : ¬∀ side c, Sound side c := by
  intro sound
  have isBlock : splitBlock hasty.stream =
      some (hasty.stream.take 40, [0x81, 0x01, 72]) := by
    decide
  have buffered : hasty.buffered = 43 := by
    rw [Chunks.buffered, isBlock]
    rfl
  rcases readHeaders_cases hasty with ⟨short, -⟩ | ⟨fits, rest, received, left⟩
  · rw [buffered] at short
    exact absurd short (by decide)
  · rw [buffered] at received
    have finds : Side.server.Finds (cText (hasty.stream.take 43)) := by
      unfold Side.Finds
      decide
    obtain ⟨-, resumes⟩ :=
      sound .server hasty rest ((connection_eq_some_iff received).2 ⟨finds, rfl⟩)
    have ends := (resumes_iff fits left isBlock).1 (resumes _ _ isBlock)
    rw [buffered] at ends
    exact absurd ends (by decide)

end Dux.Runtime.WebSocket
