import Dux.Logic.Arena
import Dux.Runtime.WebSocket

/-!
# The memory of the WebSocket reader

`ws_recv_frame` of `src/runtime/ws_rt.c` with the blocks that it allocates.  Sizes are words of
64 bits, whose sums wrap.  The headers go into arrays of exactly the sizes that are received.
-/

namespace Dux.Runtime.WsMemory

open Logic
open Http (recv length_recv_le)
open WebSocket (recvAll readLength readKey mask)

/-- A sum of words of the type `size_t`. -/
def sizeT (n : Nat) : Nat := n % 2 ^ 64

structure Header where
  fin : Bool
  opcode : UInt8
  hasMask : Bool
  payloadLen : Nat
  maskingKey : Bytes

def readHeader (pending : List Bytes) : Option (Header × List Bytes) := do
  let (hdr, pending) ← recvAll 2 pending
  let first := hdr.getD 0 0
  let second := hdr.getD 1 0
  let (payloadLen, pending) ← readLength second pending
  let (maskingKey, pending) ← readKey second pending
  some (⟨first >>> 7 &&& 1 = 1, first &&& 0x0F, second >>> 7 &&& 1 = 1, payloadLen, maskingKey⟩,
    pending)

/-- `recv_all` into the block of a pointer, where some bytes have come already: whether all came,
and what is left. -/
def recvInto (p n got : Nat) (pending : List Bytes) (m : Arena) :
    Except Stop (Bool × List Bytes × Arena) :=
  if _done : n ≤ got then .ok (true, pending, m)
  else
    let r := recv (n - got) pending
    if _more : r.1 = [] then .ok (false, r.2, m)
    else do
      let m ← m.store p got r.1
      recvInto p n (got + r.1.length) r.2 m
termination_by n - got
decreasing_by
  exact Nat.sub_lt_sub_left (Nat.not_le.1 _done)
    (Nat.lt_add_of_pos_right (List.length_pos_iff.2 _more))

/-- What a frame comes to: the call returns a payload and its length, or null, or it goes on with
what is accumulated. -/
inductive Next
  | returned (message : Option (Nat × Nat))
  | goOn (accumulated : Option Nat) (accLen : Nat) (pending : List Bytes)

/-- Give back both buffers and return null. -/
def giveUp (payload accumulated : Option Nat) (m : Arena) : Except Stop (Next × Arena) := do
  let m ← m.free payload
  let m ← m.free accumulated
  return (.returned none, m)

/-- `payload[i] ^= masking_key[i & 3]`, for every byte. -/
def unmask (h : Header) (payload : Nat) (m : Arena) : Except Stop Arena :=
  if h.hasMask then do
    let data ← m.load payload 0 h.payloadLen
    m.store payload 0 (mask h.maskingKey data)
  else .ok m

/-- The end of a data frame: the message is complete, or more fragments follow. -/
def finish (h : Header) (buffer len : Nat) (pending : List Bytes) : Next :=
  if h.fin then .returned (some (buffer, len)) else .goOn (some buffer) len pending

/-- Copy a payload behind what is accumulated, into the block that has been made larger. -/
def copy (h : Header) (payload tmp accLen : Nat) (pending : List Bytes) (m : Arena) :
    Except Stop (Next × Arena) := do
  let data ← m.load payload 0 h.payloadLen
  let m ← m.store tmp accLen data
  let len := sizeT (accLen + h.payloadLen)
  let m ← m.store tmp len [0]
  let m ← m.free (some payload)
  return (finish h tmp len pending, m)

/-- Append a payload to what is accumulated. -/
def append (grants : Allocator) (h : Header) (payload : Nat) (accumulated : Option Nat)
    (accLen : Nat) (pending : List Bytes) (m : Arena) : Except Stop (Next × Arena) := do
  let (tmp, m) ← m.realloc grants accumulated (sizeT (accLen + h.payloadLen + 1))
  match tmp with
  | none => giveUp (some payload) accumulated m
  | some tmp => copy h payload tmp accLen pending m

/-- A frame whose payload has come.  A ping is answered with the payload. -/
def handle (grants : Allocator) (h : Header) (payload : Nat) (accumulated : Option Nat)
    (accLen : Nat) (pending : List Bytes) (m : Arena) : Except Stop (Next × Arena) :=
  if h.opcode = 0x8 then giveUp (some payload) accumulated m
  else if h.opcode = 0x9 then do
    let _ ← m.load payload 0 h.payloadLen
    let m ← m.free (some payload)
    return (.goOn accumulated accLen pending, m)
  else if h.opcode = 0xA then do
    let m ← m.free (some payload)
    return (.goOn accumulated accLen pending, m)
  else if h.opcode = 0x0 ∨ accumulated.isSome then
    append grants h payload accumulated accLen pending m
  else .ok (finish h payload h.payloadLen pending, m)

/-- A frame whose header has come and whose payload has been allocated. -/
def receive (grants : Allocator) (h : Header) (payload : Nat) (accumulated : Option Nat)
    (accLen : Nat) (pending : List Bytes) (m : Arena) : Except Stop (Next × Arena) := do
  let m ← m.store payload h.payloadLen [0]
  let (all, pending, m) ← recvInto payload h.payloadLen 0 pending m
  if all then do
    let m ← unmask h payload m
    handle grants h payload accumulated accLen pending m
  else giveUp (some payload) accumulated m

/-- One frame of the loop. -/
def frameStep (grants : Allocator) (accumulated : Option Nat) (accLen : Nat)
    (pending : List Bytes) (m : Arena) : Except Stop (Next × Arena) :=
  match readHeader pending with
  | none => giveUp none accumulated m
  | some (h, pending) =>
      match m.malloc grants (sizeT (h.payloadLen + 1)) with
      | (none, m) => giveUp none accumulated m
      | (some payload, m) => receive grants h payload accumulated accLen pending m

/-- The loop of `ws_recv_frame`; `hang` when the given rounds are not enough. -/
def recvLoop (grants : Allocator) : Nat → Option Nat → Nat → List Bytes → Arena →
    Except Stop (Option (Nat × Nat) × Arena)
  | 0, _, _, _, _ => .error .hang
  | rounds + 1, accumulated, accLen, pending, m => do
      let (next, m) ← frameStep grants accumulated accLen pending m
      match next with
      | .returned message => return (message, m)
      | .goOn accumulated accLen pending => recvLoop grants rounds accumulated accLen pending m

/-- `ws_recv_frame`: the payload and its length, or null, and the blocks. -/
def wsRecvFrame (grants : Allocator) (rounds : Nat) (pending : List Bytes) :
    Except Stop (Option (Nat × Nat) × Arena) :=
  recvLoop grants rounds none 0 pending Arena.empty

/-! ## Frames of the stream -/

/-- What a frame means for a message: it ends the call, or more has to follow. -/
inductive Verdict
  | ends (message : Option Bytes)
  | more (accumulated : Option Bytes)

/-- The frame of a stream in a call that has accumulated some fragments. -/
def verdict (accumulated : Option Bytes) (f : WebSocket.Frame) : Verdict :=
  if f.opcode = 0x8 then .ends none
  else if f.opcode = 0x9 ∨ f.opcode = 0xA then .more accumulated
  else
    let message := accumulated.getD [] ++ f.payload
    if f.fin then .ends (some message) else .more (some message)

section Stream

variable {accumulated accumulated' message : Option Bytes} {f : WebSocket.Frame}
  {pending rest : List Bytes}

theorem recvLoop_none (noFrame : WebSocket.readFrame pending = none) :
    (WebSocket.recvLoop accumulated pending).message = none := by
  rw [WebSocket.recvLoop]
  split
  · rfl
  · next isFrame =>
    rw [noFrame] at isFrame
    cases isFrame

theorem recvLoop_ends (read : WebSocket.readFrame pending = some (f, rest))
    (ends : verdict accumulated f = .ends message) :
    (WebSocket.recvLoop accumulated pending).message = message := by
  rw [WebSocket.recvLoop]
  split
  · next noFrame =>
    rw [read] at noFrame
    cases noFrame
  · next f' rest' isFrame =>
    rw [read] at isFrame
    cases isFrame
    unfold verdict at ends
    split at ends
    · next close =>
      cases ends
      rw [if_pos close]
    · next notClose =>
      split at ends
      · cases ends
      · next isData =>
        rw [not_or] at isData
        rw [if_neg notClose, if_neg isData.1, if_neg isData.2]
        dsimp only at ends
        split at ends
        · next fin =>
          cases ends
          cases accumulated <;> simp [fin]
        · cases ends

theorem recvLoop_more (read : WebSocket.readFrame pending = some (f, rest))
    (more : verdict accumulated f = .more accumulated') :
    (WebSocket.recvLoop accumulated pending).message =
      (WebSocket.recvLoop accumulated' rest).message := by
  rw [WebSocket.recvLoop]
  split
  · next noFrame =>
    rw [read] at noFrame
    cases noFrame
  · next f' rest' isFrame =>
    rw [read] at isFrame
    cases isFrame
    unfold verdict at more
    split at more
    · cases more
    · next notClose =>
      rw [if_neg notClose]
      split at more
      · next control =>
        cases more
        split
        · rfl
        · next notPing => rw [if_pos (control.resolve_left notPing)]
      · next isData =>
        rw [not_or] at isData
        rw [if_neg isData.1, if_neg isData.2]
        dsimp only at more
        split at more
        · cases more
        · next unfinished =>
          cases more
          cases accumulated <;> simp [unfinished]

theorem readFrame_eq (pending : List Bytes) : WebSocket.readFrame pending =
    (readHeader pending).bind fun r => (recvAll r.1.payloadLen r.2).map fun s =>
      (⟨r.1.fin, r.1.opcode, if r.1.hasMask then mask r.1.maskingKey s.1 else s.1⟩, s.2) := by
  unfold WebSocket.readFrame readHeader
  simp only [Option.bind_eq_bind, Option.bind_assoc, Option.bind_some, decide_eq_true_eq,
    Option.map_eq_bind]
  rfl

theorem readFrame_of_header {h : Header} {read : List Bytes}
    (header : readHeader pending = some (h, read)) : WebSocket.readFrame pending =
    (recvAll h.payloadLen read).map fun s =>
      (⟨h.fin, h.opcode, if h.hasMask then mask h.maskingKey s.1 else s.1⟩, s.2) := by
  rw [readFrame_eq, header, Option.bind_some]

theorem readFrame_of_none (noHeader : readHeader pending = none) :
    WebSocket.readFrame pending = none := by
  rw [readFrame_eq, noHeader, Option.bind_none]

theorem shiftIn_recvAll_lt {n : Nat} {data : Bytes}
    (received : recvAll n pending = some (data, rest)) (word : n ≤ 8) :
    shiftIn 0 data < 2 ^ 64 := by
  have length := (WebSocket.recvAll_append received).2
  calc
    shiftIn 0 data < 256 ^ data.length := shiftIn_lt data
    _ ≤ 256 ^ 8 := Nat.pow_le_pow_right (by decide) (length ▸ word)

theorem readLength_lt {second : UInt8} {len : Nat}
    (read : readLength second pending = some (len, rest)) : len < 2 ^ 64 := by
  unfold readLength at read
  dsimp only at read
  split at read
  · obtain ⟨r, received, same⟩ := Option.map_eq_some_iff.1 read
    cases same
    exact shiftIn_recvAll_lt received (by decide)
  · split at read
    · obtain ⟨r, received, same⟩ := Option.map_eq_some_iff.1 read
      cases same
      exact shiftIn_recvAll_lt received (by decide)
    · cases read
      have small := (second &&& 0x7F).toNat_lt
      omega

theorem readHeader_lt {h : Header} (header : readHeader pending = some (h, rest)) :
    h.payloadLen < 2 ^ 64 := by
  simp only [readHeader, Option.bind_eq_bind, Option.bind_eq_some_iff, Prod.exists] at header
  obtain ⟨hdr, p₁, first, len, p₂, length, key, p₃, keyed, same⟩ := header
  cases same
  exact readLength_lt length

end Stream

/-! ## Receiving into a block -/

section Receive

variable {p n : Nat} {data : Bytes} {pending : List Bytes} {m : Arena}
  {rest : List (Nat × Block)}

/-- The block of a payload of which some bytes have come. -/
def arriving (data : Bytes) (left : Nat) : Block :=
  data.map some ++ (List.replicate left none ++ [some 0])

theorem write_arriving {data chunk : Bytes} {left : Nat} (fits : chunk.length ≤ left) :
    (arriving data left).write data.length chunk =
      .ok (arriving (data ++ chunk) (left - chunk.length)) := by
  have length : (arriving data left).length = data.length + (left + 1) := by
    simp [arriving]
  rw [Block.write, if_pos (by rw [length]; omega), Int.toNat_natCast, arriving,
    List.take_left' (List.length_map _), List.drop_append, List.length_map,
    Nat.add_sub_cancel_left, List.drop_eq_nil_of_le (by rw [List.length_map]; omega),
    List.nil_append, List.drop_append_of_le_length (by rw [List.length_replicate]; exact fits),
    List.drop_replicate, arriving, List.map_append, List.append_assoc]

theorem arriving_zero (data : Bytes) : arriving data 0 = (data ++ [0]).map some := by
  rw [arriving, List.replicate_zero, List.nil_append, List.map_append]
  rfl

theorem recvInto_eq (pending : List Bytes)
    (owns : m.Owns ((p, arriving data (n - data.length)) :: rest))
    (below : data.length ≤ n) : ∃ m', m'.refused = m.refused ∧
      ((∃ more left, recvAll (n - data.length) pending = some (more, left) ∧
        recvInto p n data.length pending m = .ok (true, left, m') ∧
          m'.Owns ((p, (data ++ (more ++ [0])).map some) :: rest)) ∨
      ∃ b left, recvAll (n - data.length) pending = none ∧
        recvInto p n data.length pending m = .ok (false, left, m') ∧
          m'.Owns ((p, b) :: rest)) := by
  generalize missing : n - data.length = left at owns ⊢
  induction left using Nat.strong_induction_on generalizing data pending m with
  | _ left ih =>
    rw [recvAll, recvInto]
    by_cases done : n ≤ data.length
    · obtain rfl : left = 0 := by omega
      rw [arriving_zero] at owns
      rw [dif_pos rfl, dif_pos done]
      exact ⟨m, rfl, .inl ⟨[], pending, rfl, rfl, owns⟩⟩
    · rw [dif_neg (by omega), dif_neg done, missing]
      dsimp only
      by_cases ended : (recv left pending).1 = []
      · rw [dif_pos ended, dif_pos ended]
        exact ⟨m, rfl, .inr ⟨_, _, rfl, rfl, owns⟩⟩
      · have positive := List.length_pos_iff.2 ended
        have fits := length_recv_le left pending
        obtain ⟨m₁, stored, owns₁, same⟩ := owns.store (write_arriving fits)
        rw [dif_neg ended, dif_neg ended, stored, ok_bind, ← List.length_append]
        obtain ⟨m', same', received⟩ := ih (left - (recv left pending).1.length) (by omega) _
          (by rw [List.length_append]; omega) (by rw [List.length_append]; omega) owns₁
        refine ⟨m', same'.trans same, ?_⟩
        rcases received with ⟨more, rest', all, into, owns'⟩ | ⟨b, rest', noMore, into, owns'⟩
        · refine .inl ⟨_, rest', by rw [all]; rfl, into, ?_⟩
          simpa only [List.append_assoc] using owns'
        · exact .inr ⟨b, rest', by rw [noMore]; rfl, into, owns'⟩

end Receive

end Dux.Runtime.WsMemory
