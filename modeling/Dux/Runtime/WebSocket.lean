import Dux.Logic.BigEndian
import Dux.Runtime.HttpReceive

/-!
# WebSocket frames

Frames as `ws_send_frame` of `src/runtime/ws_rt.c` writes them and `ws_recv_frame` reads them.
A message comes in one frame or in several, with control frames before any of them, and the
connection delivers the bytes in chunks.
-/

namespace Dux.Runtime.WebSocket

open Logic (bigEndian shiftIn shiftIn_bigEndian length_bigEndian)
open Http (recv recv_append recv_ne_nil recv_noEmpty length_recv_le length_recv_lt)

/-! ## Writing -/

/-- The four bytes of a masking key. -/
abbrev MaskingKey := { key : Bytes // key.length = 4 }

/-- The masking of a payload with a key, which also takes it off. -/
def mask (key data : Bytes) : Bytes := data.mapIdx fun i b => b ^^^ key.getD (i &&& 3) 0

/-- The length in a header, with the bit that says whether a key follows. -/
def lengthBytes (maskBit : UInt8) (len : Nat) : Bytes :=
  if len ≤ 125 then [maskBit ||| UInt8.ofNat len]
  else if len ≤ 65535 then (maskBit ||| 126) :: bigEndian 2 len
  else (maskBit ||| 127) :: bigEndian 8 len

/-- The header that `ws_send_frame` writes, where `fin` is set. -/
def frameHeader (fin : Bool) (opcode : UInt8) (len : Nat) (key : Option MaskingKey) : Bytes :=
  ((if fin then 0x80 else 0) ||| (opcode &&& 0x0F)) ::
    (lengthBytes (if key.isSome then 0x80 else 0) len ++ (key.map Subtype.val).getD [])

/-- The payload that `ws_send_frame` writes. -/
def framePayload (data : Bytes) (key : Option MaskingKey) : Bytes :=
  match key with
  | none => data
  | some key => mask key data

def frameBytes (fin : Bool) (opcode : UInt8) (data : Bytes) (key : Option MaskingKey) : Bytes :=
  frameHeader fin opcode data.length key ++ framePayload data key

/-! ## Reading -/

def recvAll (n : Nat) (pending : List Bytes) : Option (Bytes × List Bytes) :=
  if _done : n = 0 then some ([], pending)
  else
    let r := recv n pending
    if _more : r.1 = [] then none
    else (recvAll (n - r.1.length) r.2).map fun rest => (r.1 ++ rest.1, rest.2)
termination_by n
decreasing_by exact Nat.sub_lt (Nat.pos_of_ne_zero _done) (List.length_pos_iff.2 _more)

theorem recvAll_zero (pending : List Bytes) : recvAll 0 pending = some ([], pending) := by
  rw [recvAll, dif_pos rfl]

theorem recvAll_append {n : Nat} {pending rest : List Bytes} {data : Bytes}
    (received : recvAll n pending = some (data, rest)) :
    data ++ rest.flatten = pending.flatten ∧ data.length = n := by
  induction n using Nat.strong_induction_on generalizing pending data with
  | _ n ih =>
    rw [recvAll] at received
    split at received
    · next isZero =>
      cases received
      exact ⟨rfl, isZero.symm⟩
    · next notZero =>
      dsimp only at received
      split at received
      · cases received
      · next more =>
        obtain ⟨⟨data', rest'⟩, received', same⟩ := Option.map_eq_some_iff.1 received
        cases same
        have positive := List.length_pos_iff.2 more
        have fits := length_recv_le n pending
        obtain ⟨whole, length⟩ := ih _ (by omega) received'
        constructor
        · rw [List.append_assoc, whole]
          exact recv_append n pending
        · rw [List.length_append, length]
          omega

/-- A frame that has been read. -/
structure Frame where
  fin : Bool
  opcode : UInt8
  payload : Bytes

/-- The length of the payload, from the second byte of a header on. -/
def readLength (second : UInt8) (pending : List Bytes) : Option (Nat × List Bytes) :=
  let short := (second &&& 0x7F).toNat
  if short = 126 then (recvAll 2 pending).map fun r => (shiftIn 0 r.1, r.2)
  else if short = 127 then (recvAll 8 pending).map fun r => (shiftIn 0 r.1, r.2)
  else some (short, pending)

/-- The masking key, where the second byte of the header announces one. -/
def readKey (second : UInt8) (pending : List Bytes) : Option (Bytes × List Bytes) :=
  if second >>> 7 &&& 1 = 1 then recvAll 4 pending else some ([], pending)

/-- `ws_recv_frame`, the reading of one frame. -/
def readFrame (pending : List Bytes) : Option (Frame × List Bytes) := do
  let (hdr, pending) ← recvAll 2 pending
  let first := hdr.getD 0 0
  let second := hdr.getD 1 0
  let (len, pending) ← readLength second pending
  let (key, pending) ← readKey second pending
  let (data, pending) ← recvAll len pending
  let payload := if second >>> 7 &&& 1 = 1 then mask key data else data
  some (⟨first >>> 7 &&& 1 = 1, first &&& 0x0F, payload⟩, pending)

theorem recvAll_le {n : Nat} {pending rest : List Bytes} {data : Bytes}
    (received : recvAll n pending = some (data, rest)) :
    rest.flatten.length + n ≤ pending.flatten.length := by
  obtain ⟨whole, length⟩ := recvAll_append received
  rw [← whole, List.length_append, length, Nat.add_comm]

theorem readLength_le {second : UInt8} {pending rest : List Bytes} {len : Nat}
    (read : readLength second pending = some (len, rest)) :
    rest.flatten.length ≤ pending.flatten.length := by
  unfold readLength at read
  dsimp only at read
  split at read
  · obtain ⟨r, received, same⟩ := Option.map_eq_some_iff.1 read
    cases same
    exact Nat.le_of_add_right_le (recvAll_le received)
  · split at read
    · obtain ⟨r, received, same⟩ := Option.map_eq_some_iff.1 read
      cases same
      exact Nat.le_of_add_right_le (recvAll_le received)
    · cases read
      exact Nat.le_refl _

theorem readKey_le {second : UInt8} {pending rest : List Bytes} {key : Bytes}
    (read : readKey second pending = some (key, rest)) :
    rest.flatten.length ≤ pending.flatten.length := by
  unfold readKey at read
  split at read
  · exact Nat.le_of_add_right_le (recvAll_le read)
  · cases read
    exact Nat.le_refl _

theorem readFrame_lt {pending rest : List Bytes} {f : Frame}
    (read : readFrame pending = some (f, rest)) :
    rest.flatten.length < pending.flatten.length := by
  simp only [readFrame, Option.bind_eq_bind, Option.bind_eq_some_iff, Prod.exists] at read
  obtain ⟨hdr, p₁, first, len, p₂, length, key, p₃, keyed, data, p₄, last, same⟩ := read
  cases same
  have two := recvAll_le first
  have := readLength_le length
  have := readKey_le keyed
  have := recvAll_le last
  omega

/-- What `ws_recv_frame` returns, what is left to receive, and the payloads that it has answered
with a pong. -/
structure Receipt where
  message : Option Bytes
  pending : List Bytes
  pongs : List Bytes := []

/-- The loop of `ws_recv_frame`, with what is accumulated. -/
def recvLoop (accumulated : Option Bytes) (pending : List Bytes) : Receipt :=
  match _read : readFrame pending with
  | none => ⟨none, pending, []⟩
  | some (f, rest) =>
      if f.opcode = 0x8 then ⟨none, rest, []⟩
      else if f.opcode = 0x9 then
        let r := recvLoop accumulated rest
        { r with pongs := f.payload :: r.pongs }
      else if f.opcode = 0xA then recvLoop accumulated rest
      else if f.opcode = 0x0 ∨ accumulated.isSome then
        let message := accumulated.getD [] ++ f.payload
        if f.fin then ⟨some message, rest, []⟩ else recvLoop (some message) rest
      else if f.fin then ⟨some f.payload, rest, []⟩
      else recvLoop (some f.payload) rest
termination_by pending.flatten.length
decreasing_by all_goals exact readFrame_lt _read

def wsRecvFrame (pending : List Bytes) : Receipt := recvLoop none pending

/-! ## A frame is read back -/

/-- The chunks deliver a stream.  An empty one would be its end. -/
structure Cuts (pending : List Bytes) (stream : Bytes) : Prop where
  whole : pending.flatten = stream
  noEmpty : ∀ chunk ∈ pending, chunk ≠ []

section Frames

variable {pending : List Bytes} {front back : Bytes}

theorem recvAll_of_cuts (cuts : Cuts pending (front ++ back)) :
    ∃ rest, recvAll front.length pending = some (front, rest) ∧ Cuts rest back := by
  generalize size : front.length = n
  induction n using Nat.strong_induction_on generalizing pending front with
  | _ n ih =>
    by_cases isZero : n = 0
    · obtain rfl : front = [] := List.eq_nil_of_length_eq_zero (size.trans isZero)
      subst isZero
      exact ⟨pending, recvAll_zero pending, cuts⟩
    · have some' : pending ≠ [] := by
        rintro rfl
        have none' := cuts.whole
        rw [List.flatten_nil, eq_comm, List.append_eq_nil_iff] at none'
        rw [none'.1] at size
        exact isZero size.symm
      have more := recv_ne_nil (Nat.pos_of_ne_zero isZero) cuts.noEmpty some'
      have positive := List.length_pos_iff.2 more
      have fits := length_recv_le n pending
      have whole := (recv_append n pending).trans cuts.whole
      obtain ⟨front', same, left⟩ : ∃ front', front = (recv n pending).1 ++ front' ∧
          (recv n pending).2.flatten = front' ++ back := by
        rcases List.append_eq_append_iff.1 whole with ⟨x, same, left⟩ | ⟨x, same, left⟩
        · exact ⟨x, same, left⟩
        · have none' : x = [] := by
            have length := congrArg List.length same
            rw [List.length_append] at length
            exact List.eq_nil_of_length_eq_zero (by omega)
          subst none'
          exact ⟨[], by rw [same, List.append_nil, List.append_nil], left.symm⟩
      have length : front'.length = n - (recv n pending).1.length := by
        have total := congrArg List.length same
        rw [List.length_append] at total
        omega
      obtain ⟨rest, received, cuts'⟩ := ih _ (by omega) ⟨left, recv_noEmpty cuts.noEmpty⟩ length
      refine ⟨rest, ?_, cuts'⟩
      rw [recvAll, dif_neg isZero]
      dsimp only
      rw [dif_neg more, received, same]
      rfl

theorem secondByte_short : ∀ len < 126, ∀ masked : Bool,
    (((if masked then 0x80 else 0) ||| UInt8.ofNat len) &&& 0x7F).toNat = len ∧
      (((if masked then 0x80 else 0) ||| UInt8.ofNat len) >>> 7 &&& 1 = 1 ↔ masked = true) := by
  decide +kernel

theorem secondByte_long : ∀ masked : Bool,
    (((if masked then 0x80 else 0) ||| (126 : UInt8)) &&& 0x7F).toNat = 126 ∧
      (((if masked then 0x80 else 0) ||| (126 : UInt8)) >>> 7 &&& 1 = 1 ↔ masked = true) ∧
      (((if masked then 0x80 else 0) ||| (127 : UInt8)) &&& 0x7F).toNat = 127 ∧
      (((if masked then 0x80 else 0) ||| (127 : UInt8)) >>> 7 &&& 1 = 1 ↔ masked = true) := by
  decide +kernel

theorem lengthBytes_eq (masked : Bool) {len : Nat} (small : len < 2 ^ 64) :
    ∃ second ext, lengthBytes (if masked then 0x80 else 0) len = second :: ext ∧
      (second >>> 7 &&& 1 = 1 ↔ masked = true) ∧
      ∀ pending back, Cuts pending (ext ++ back) →
        ∃ rest, readLength second pending = some (len, rest) ∧ Cuts rest back := by
  unfold lengthBytes
  split
  · next short =>
    obtain ⟨value, bit⟩ := secondByte_short len (by omega) masked
    refine ⟨_, _, rfl, bit, fun pending back cuts => ⟨pending, ?_, cuts⟩⟩
    unfold readLength
    dsimp only
    rw [value, if_neg (by omega), if_neg (by omega)]
  · obtain ⟨value, bit, value', bit'⟩ := secondByte_long masked
    split
    · next short =>
      refine ⟨_, _, rfl, bit, fun pending back cuts => ?_⟩
      obtain ⟨rest, received, cuts'⟩ := recvAll_of_cuts cuts
      rw [length_bigEndian] at received
      refine ⟨rest, ?_, cuts'⟩
      unfold readLength
      dsimp only
      rw [value, if_pos rfl, received, Option.map_some, shiftIn_bigEndian (by omega)]
    · refine ⟨_, _, rfl, bit', fun pending back cuts => ?_⟩
      obtain ⟨rest, received, cuts'⟩ := recvAll_of_cuts cuts
      rw [length_bigEndian] at received
      refine ⟨rest, ?_, cuts'⟩
      unfold readLength
      dsimp only
      rw [value', if_neg (by decide), if_pos rfl, received, Option.map_some,
        shiftIn_bigEndian small]

theorem mask_mask (key data : Bytes) : mask key (mask key data) = data := by
  apply List.ext_getElem
  · rw [mask, mask, List.length_mapIdx, List.length_mapIdx]
  · intro i _ _
    simp only [mask, List.getElem_mapIdx]
    rw [UInt8.xor_assoc, UInt8.xor_self, UInt8.xor_zero]

theorem length_mask (key data : Bytes) : (mask key data).length = data.length :=
  List.length_mapIdx

theorem length_framePayload (data : Bytes) (key : Option MaskingKey) :
    (framePayload data key).length = data.length := by
  cases key with
  | none => rfl
  | some key => exact length_mask key data

theorem firstByte (fin : Bool) : ∀ opcode ∈ [0x0, 0x1, 0x2, 0x8, 0x9, (0xA : UInt8)],
    (((if fin then 0x80 else 0) ||| (opcode &&& 0x0F)) >>> 7 &&& 1 = 1 ↔ fin = true) ∧
      ((if fin then 0x80 else 0) ||| (opcode &&& 0x0F)) &&& 0x0F = opcode := by
  cases fin <;> decide +kernel

theorem readFrame_of_cuts {fin : Bool} {opcode : UInt8} {data : Bytes} {key : Option MaskingKey}
    (known : opcode ∈ [0x0, 0x1, 0x2, 0x8, 0x9, (0xA : UInt8)]) (small : data.length < 2 ^ 64)
    (cuts : Cuts pending (frameBytes fin opcode data key ++ back)) :
    ∃ rest, readFrame pending = some (⟨fin, opcode, data⟩, rest) ∧ Cuts rest back := by
  obtain ⟨isFin, isOpcode⟩ := firstByte fin opcode known
  obtain ⟨second, ext, written, hasMask, readExt⟩ := lengthBytes_eq key.isSome small
  have stream : Cuts pending ([(if fin then 0x80 else 0) ||| (opcode &&& 0x0F), second] ++
      (ext ++ ((key.map Subtype.val).getD [] ++ (framePayload data key ++ back)))) := by
    rw [frameBytes, frameHeader, written] at cuts
    simpa using cuts
  obtain ⟨p₁, first, cuts₁⟩ := recvAll_of_cuts stream
  obtain ⟨p₂, length, cuts₂⟩ := readExt _ _ cuts₁
  obtain ⟨p₃, keyed, cuts₃⟩ : ∃ rest,
      readKey second p₂ = some ((key.map Subtype.val).getD [], rest) ∧
        Cuts rest (framePayload data key ++ back) := by
    unfold readKey
    cases key with
    | none =>
      rw [if_neg (by simp [hasMask])]
      exact ⟨p₂, rfl, cuts₂⟩
    | some key =>
      obtain ⟨rest, received, cuts'⟩ := recvAll_of_cuts cuts₂
      refine ⟨rest, ?_, cuts'⟩
      rw [if_pos (by simp [hasMask]), ← received]
      exact congrArg (recvAll · p₂) key.2.symm
  obtain ⟨p₄, last, cuts₄⟩ := recvAll_of_cuts cuts₃
  rw [length_framePayload] at last
  refine ⟨p₄, ?_, cuts₄⟩
  have payload : (if second >>> 7 &&& 1 = 1 then
      mask ((key.map Subtype.val).getD []) (framePayload data key) else framePayload data key) =
        data := by
    cases key with
    | none => rw [if_neg (by simp [hasMask])]; rfl
    | some key => rw [if_pos (by simp [hasMask])]; exact mask_mask key data
  have received : recvAll 2 pending =
      some ([(if fin then 0x80 else 0) ||| (opcode &&& 0x0F), second], p₁) := first
  simp only [readFrame, received, length, keyed, last, payload, Option.bind_eq_bind,
    Option.bind_some, List.getD_cons_zero, List.getD_cons_succ, isFin, isOpcode,
    Bool.decide_eq_true]

end Frames

/-! ## Messages and control frames -/

inductive ControlKind where
  | ping | pong
  deriving DecidableEq

/-- A control frame that does not end the connection. -/
structure Control where
  kind : ControlKind
  payload : Bytes
  key : Option MaskingKey
  fits : payload.length < 2 ^ 63

def Control.opcode (c : Control) : UInt8 :=
  match c.kind with
  | .ping => 0x9
  | .pong => 0xA

def Control.bytes (c : Control) : Bytes := frameBytes true c.opcode c.payload c.key

/-- The payload that the receiver answers. -/
def Control.answer (c : Control) : Option Bytes :=
  match c.kind with
  | .ping => some c.payload
  | .pong => none

/-- One fragment of a message, and the control frames sent before it. -/
structure Piece where
  before : List Control
  data : Bytes
  key : Option MaskingKey

inductive DataKind where
  | text | binary
  deriving DecidableEq

def DataKind.opcode : DataKind → UInt8
  | .text => 0x1
  | .binary => 0x2

/-- What the fragments carry. -/
def payload (pieces : List Piece) : Bytes := pieces.flatMap Piece.data

/-- A message as a peer splits it.  Its payload is an object in the receiver's memory. -/
structure Message where
  kind : DataKind
  pieces : List Piece
  nonempty : pieces ≠ []
  fits : (payload pieces).length < 2 ^ 63

/-- The bytes of fragments, the first with this opcode and the last with the bit that ends a
message. -/
def piecesBytes : UInt8 → List Piece → Bytes
  | _, [] => []
  | opcode, p :: ps =>
      p.before.flatMap Control.bytes ++
        (frameBytes ps.isEmpty opcode p.data p.key ++ piecesBytes 0x0 ps)

def Message.bytes (m : Message) : Bytes := piecesBytes m.kind.opcode m.pieces

/-- The payloads of the pings among the fragments. -/
def pings (pieces : List Piece) : List Bytes :=
  pieces.flatMap fun p => p.before.filterMap Control.answer

/-- So many calls of `ws_recv_frame`, with what each returns. -/
def wsRecvFrames : Nat → List Bytes → List (Option Bytes) × Receipt
  | 0, pending => ([], ⟨none, pending, []⟩)
  | n + 1, pending =>
      let r := wsRecvFrame pending
      let s := wsRecvFrames n r.pending
      (r.message :: s.1, { s.2 with pongs := r.pongs ++ s.2.pongs })

theorem payload_cons (p : Piece) (ps : List Piece) : payload (p :: ps) = p.data ++ payload ps :=
  List.flatMap_cons

theorem pings_cons (p : Piece) (ps : List Piece) :
    pings (p :: ps) = p.before.filterMap Control.answer ++ pings ps :=
  List.flatMap_cons

section Messages

variable {pending : List Bytes} {back : Bytes}

theorem recvLoop_controls (accumulated : Option Bytes) (controls : List Control)
    (cuts : Cuts pending (controls.flatMap Control.bytes ++ back)) :
    ∃ rest, Cuts rest back ∧
      recvLoop accumulated pending =
        { recvLoop accumulated rest with
          pongs := controls.filterMap Control.answer ++ (recvLoop accumulated rest).pongs } := by
  induction controls generalizing pending with
  | nil => exact ⟨pending, cuts, rfl⟩
  | cons c controls ih =>
    rw [List.flatMap_cons, List.append_assoc] at cuts
    have small := c.fits
    have known : c.opcode ∈ [0x0, 0x1, 0x2, 0x8, 0x9, (0xA : UInt8)] := by
      cases same : c.kind <;> simp [Control.opcode, same]
    obtain ⟨rest₁, read, cuts₁⟩ := readFrame_of_cuts known (by omega) cuts
    obtain ⟨rest, cuts', same⟩ := ih cuts₁
    refine ⟨rest, cuts', ?_⟩
    rw [recvLoop]
    split
    · next noFrame => rw [noFrame] at read; cases read
    · next f left another =>
      rw [read] at another
      cases another
      cases isKind : c.kind with
      | ping =>
        have opcode : c.opcode = 0x9 := by rw [Control.opcode, isKind]
        have answer : c.answer = some c.payload := by rw [Control.answer, isKind]
        dsimp only
        rw [opcode, if_neg (by decide), if_pos rfl, same,
          List.filterMap_cons_some answer, List.cons_append]
      | pong =>
        have opcode : c.opcode = 0xA := by rw [Control.opcode, isKind]
        have answer : c.answer = none := by rw [Control.answer, isKind]
        dsimp only
        rw [opcode, if_neg (by decide), if_neg (by decide), if_pos rfl, same,
          List.filterMap_cons_none answer]

/-- A data frame that opens a message or goes on with one. -/
def Opens (accumulated : Option Bytes) (opcode : UInt8) : Prop :=
  match accumulated with
  | none => opcode = 0x1 ∨ opcode = 0x2
  | some _ => opcode = 0x0

theorem recvLoop_piece {accumulated : Option Bytes} {opcode : UInt8} {fin : Bool} {data : Bytes}
    {key : Option MaskingKey} (opens : Opens accumulated opcode) (small : data.length < 2 ^ 63)
    (cuts : Cuts pending (frameBytes fin opcode data key ++ back)) :
    ∃ rest, Cuts rest back ∧
      recvLoop accumulated pending =
        if fin then ⟨some (accumulated.getD [] ++ data), rest, []⟩
        else recvLoop (some (accumulated.getD [] ++ data)) rest := by
  have known : opcode ∈ [0x0, 0x1, 0x2, 0x8, 0x9, (0xA : UInt8)] := by
    cases accumulated with
    | none => rcases opens with rfl | rfl <;> decide
    | some _ => cases opens; decide
  obtain ⟨rest, read, cuts'⟩ := readFrame_of_cuts known (by omega) cuts
  refine ⟨rest, cuts', ?_⟩
  rw [recvLoop]
  split
  · next noFrame => rw [noFrame] at read; cases read
  · next f left another =>
    rw [read] at another
    cases another
    dsimp only
    cases accumulated with
    | none =>
      rcases opens with rfl | rfl
      all_goals
        rw [if_neg (by decide), if_neg (by decide), if_neg (by decide), if_neg (by decide)]
        rfl
    | some acc =>
      cases opens
      rw [if_neg (by decide), if_neg (by decide), if_neg (by decide), if_pos (.inl rfl)]

theorem recvLoop_pieces (accumulated : Option Bytes) {opcode : UInt8} {pieces : List Piece}
    (opens : Opens accumulated opcode) (nonempty : pieces ≠ [])
    (small : (payload pieces).length < 2 ^ 63)
    (cuts : Cuts pending (piecesBytes opcode pieces ++ back)) :
    ∃ rest, Cuts rest back ∧
      recvLoop accumulated pending =
        ⟨some (accumulated.getD [] ++ payload pieces), rest, pings pieces⟩ := by
  induction pieces generalizing accumulated opcode pending with
  | nil => exact absurd rfl nonempty
  | cons p ps ih =>
    rw [payload_cons, List.length_append] at small
    rw [piecesBytes, List.append_assoc, List.append_assoc] at cuts
    obtain ⟨rest₁, cuts₁, controls⟩ := recvLoop_controls accumulated p.before cuts
    obtain ⟨rest₂, cuts₂, piece⟩ := recvLoop_piece opens (by omega) cuts₁
    cases ps with
    | nil =>
      refine ⟨rest₂, cuts₂, ?_⟩
      rw [controls, piece, List.isEmpty_nil, if_pos rfl]
      simp [payload, pings]
    | cons q qs =>
      obtain ⟨rest, cuts', others⟩ :=
        ih (some (accumulated.getD [] ++ p.data)) rfl nofun
          (Nat.lt_of_le_of_lt (Nat.le_add_left _ _) small) cuts₂
      refine ⟨rest, cuts', ?_⟩
      rw [controls, piece, List.isEmpty_cons, if_neg nofun, others, Option.getD_some,
        payload_cons p, pings_cons p, List.append_assoc]

theorem wsRecvFrame_message (m : Message) (cuts : Cuts pending (m.bytes ++ back)) :
    ∃ rest, Cuts rest back ∧
      wsRecvFrame pending = ⟨some (payload m.pieces), rest, pings m.pieces⟩ := by
  have opens : Opens none m.kind.opcode := by
    cases m.kind with
    | text => exact .inl rfl
    | binary => exact .inr rfl
  exact recvLoop_pieces none opens m.nonempty m.fits cuts

theorem wsRecvFrames_messages (messages : List Message)
    (cuts : Cuts pending (messages.flatMap Message.bytes ++ back)) :
    ∃ rest, Cuts rest back ∧
      wsRecvFrames messages.length pending =
        (messages.map fun m => some (payload m.pieces),
          ⟨none, rest, messages.flatMap fun m => pings m.pieces⟩) := by
  induction messages generalizing pending with
  | nil => exact ⟨pending, cuts, rfl⟩
  | cons m messages ih =>
    rw [List.flatMap_cons, List.append_assoc] at cuts
    obtain ⟨rest, cuts', read⟩ := wsRecvFrame_message m cuts
    obtain ⟨rest', cuts'', others⟩ := ih cuts'
    refine ⟨rest', cuts'', ?_⟩
    rw [List.length_cons, wsRecvFrames, read]
    dsimp only
    rw [others, List.map_cons, List.flatMap_cons]

end Messages

/-- The messages that a peer sends are delivered, each once and in order, however they are split
and masked, with control frames between the fragments and cut into chunks.  What follows on the
stream is left on it. -/
theorem delivers (messages : List Message) (pending : List Bytes) (back : Bytes)
    (cuts : Cuts pending (messages.flatMap Message.bytes ++ back)) :
    (wsRecvFrames messages.length pending).1 = messages.map (fun m => some (payload m.pieces)) ∧
      Cuts (wsRecvFrames messages.length pending).2.pending back ∧
      (wsRecvFrames messages.length pending).2.pongs =
        messages.flatMap (fun m => pings m.pieces) := by
  obtain ⟨rest, cuts', received⟩ := wsRecvFrames_messages messages cuts
  rw [received]
  exact ⟨rfl, cuts', rfl⟩

/-- `Hi` in two fragments, the second masked and after a masked ping. -/
def hi : Message where
  kind := .text
  pieces :=
    [⟨[], [72], none⟩,
      ⟨[⟨.ping, [1], some ⟨[1, 2, 3, 4], rfl⟩, by decide⟩], [105], some ⟨[5, 6, 7, 8], rfl⟩⟩]
  nonempty := nofun
  fits := by decide

theorem delivers_hi :
    (wsRecvFrames 1
      [[0x01], [0x01, 72, 0x89], [0x81, 1, 2], [3, 4, 0, 0x80, 0x81, 5, 6, 7, 8], [108]]).1 =
        [some [72, 105]] :=
  (delivers [hi] _ []
    ⟨by decide, by decide⟩).1

end Dux.Runtime.WebSocket
