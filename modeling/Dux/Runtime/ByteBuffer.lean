import Dux.Logic.BigEndian
import Dux.Runtime.StrBuild

/-!
# Byte buffers

`DuxBytes` of `src/runtime/bytes_rt.c`: bytes are pushed, appended from another buffer or
written as words of either byte order, and the memory grows by doubling.  Buffers are handles;
two handles of one call may be the same buffer.  What is no handle stands for a null pointer.
-/

namespace Dux.Runtime.ByteBuffer

open Logic
open Text (DuxStr Built strOf)

/-- The blocks that `malloc` and `realloc` can return.  No processor that the compiler
targets has addresses of more than 57 bits. -/
structure Malloc where
  grants : Nat → Bool
  addressable : ∀ size, grants size = true → size < 2 ^ 57

/-- `malloc`, with the check of its result. -/
def Malloc.alloc (m : Malloc) (size : Int) : Except Stop Block :=
  if m.grants size.toNat then .ok (Block.fresh size.toNat) else .error .abort

/-- `realloc`, with the check of its result. -/
def Malloc.realloc (m : Malloc) (data : Block) (size : Int) : Except Stop Block :=
  if m.grants size.toNat then .ok (data.resize size.toNat) else .error .abort

structure DuxBytes where
  data : Block
  len : Int
  cap : Int

variable (m : Malloc)

def duxrtBytesNew (cap : Int) : Except Stop DuxBytes := do
  let cap := if cap < 8 then 8 else cap
  let data ← m.alloc cap
  return { data := data, len := 0, cap := cap }

def duxrtBytesFromStr (s : Option DuxStr) : Except Stop DuxBytes :=
  match s with
  | none => duxrtBytesNew m 8
  | some s => do
      let b ← duxrtBytesNew m (s.len + 1)
      let data ← b.data.memcpy 0 s.chars s.len
      return { b with data := data, len := s.len }

def duxrtBytesToStr (b : Option DuxBytes) : Except Stop Built :=
  match b with
  | none => Text.duxrtStrNew (some []) 0
  | some b =>
      if b.len = 0 then Text.duxrtStrNew (some []) 0
      else do
        let src ← b.data.read 0 b.len.toNat
        Text.duxrtStrNew (some src) b.len

/-- Store a byte at the end: `b->data[b->len++] = c`. -/
def pushByte (b : DuxBytes) (c : UInt8) : Except Stop DuxBytes := do
  let data ← b.data.write b.len [c]
  return { b with data := data, len := int64 (b.len + 1) }

def duxrtBytesPush (b : DuxBytes) (val : Int) : Except Stop DuxBytes :=
  if b.cap ≤ b.len then do
    let cap := int64 (b.cap * 2)
    let data ← m.realloc b.data cap
    pushByte { b with data := data, cap := cap } (byteOf val 0)
  else pushByte b (byteOf val 0)

/-- Grow to what is needed: the loop that doubles the capacity, and `realloc`. -/
def growTo (b : DuxBytes) (needed : Int) : Except Stop DuxBytes := do
  let cap ← doubled b.cap needed
  let data ← m.realloc b.data cap
  return { b with data := data, cap := cap }

def bytesEnsureCap (b : DuxBytes) (needed : Int) : Except Stop DuxBytes :=
  growTo m b (int64 (b.len + needed))

/-- What a `duxrt_bytes_write_*` does with the bytes of a word. -/
def writeBytes (b : DuxBytes) (bytes : List UInt8) : Except Stop DuxBytes := do
  let b ← bytesEnsureCap m b bytes.length
  bytes.foldlM pushByte b

def duxrtBytesWriteU8 (b : DuxBytes) (v : Int) := writeBytes m b [byteOf v 0]

def duxrtBytesWriteU16Le (b : DuxBytes) (v : Int) := writeBytes m b [byteOf v 0, byteOf v 1]

def duxrtBytesWriteU16Be (b : DuxBytes) (v : Int) := writeBytes m b [byteOf v 1, byteOf v 0]

def duxrtBytesWriteU32Le (b : DuxBytes) (v : Int) :=
  writeBytes m b [byteOf v 0, byteOf v 1, byteOf v 2, byteOf v 3]

def duxrtBytesWriteU32Be (b : DuxBytes) (v : Int) :=
  writeBytes m b [byteOf v 3, byteOf v 2, byteOf v 1, byteOf v 0]

def duxrtBytesWriteU64Le (b : DuxBytes) (v : Int) :=
  writeBytes m b ((List.range 8).map (byteOf v))

def duxrtBytesWriteU64Be (b : DuxBytes) (v : Int) :=
  writeBytes m b ((List.range 8).reverse.map (byteOf v))

def duxrtBytesSlice (b : Option DuxBytes) (start endPos : Int) : Except Stop DuxBytes :=
  match b with
  | none => duxrtBytesNew m 8
  | some b =>
      let start := if start < 0 then 0 else start
      let endPos := if b.len < endPos then b.len else endPos
      if endPos ≤ start then duxrtBytesNew m 8
      else do
        let n := int64 (endPos - start)
        let out ← duxrtBytesNew m n
        let src ← b.data.read start n.toNat
        let data ← out.data.memcpy 0 src n
        return { out with data := data, len := n }

/-! ## Reading -/

/-- The bytes from an offset on, each one read by itself. -/
def readBytes (b : DuxBytes) (off : Int) : Nat → Except Stop (List UInt8)
  | 0 => .ok []
  | n + 1 => do
      let c ← b.data.read off 1
      let rest ← readBytes b (int64 (off + 1)) n
      return c ++ rest

/-- What a `duxrt_bytes_read_*` of several bytes does: the guard, and the bytes put together. -/
def readWord (b : Option DuxBytes) (off : Int) (width : Nat) (value : List UInt8 → Int) :
    Except Stop Int :=
  match b with
  | none => .ok 0
  | some b =>
      if off < 0 ∨ b.len < int64 (off + width) then .ok 0
      else do
        let bytes ← readBytes b off width
        return value bytes

def duxrtBytesReadU8 (b : Option DuxBytes) (off : Int) : Except Stop Int :=
  match b with
  | none => .ok 0
  | some b =>
      if off < 0 ∨ b.len ≤ off then .ok 0
      else do
        let bytes ← readBytes b off 1
        return shiftIn 0 bytes

def duxrtBytesReadU16Le (b : Option DuxBytes) (off : Int) :=
  readWord b off 2 fun bytes => orIn bytes

def duxrtBytesReadU16Be (b : Option DuxBytes) (off : Int) :=
  readWord b off 2 fun bytes => shiftIn 0 bytes

def duxrtBytesReadU32Le (b : Option DuxBytes) (off : Int) :=
  readWord b off 4 fun bytes => orIn bytes

def duxrtBytesReadU32Be (b : Option DuxBytes) (off : Int) :=
  readWord b off 4 fun bytes => shiftIn 0 bytes

def duxrtBytesReadU64Le (b : Option DuxBytes) (off : Int) :=
  readWord b off 8 fun bytes => int64 (orIn bytes)

def duxrtBytesReadU64Be (b : Option DuxBytes) (off : Int) :=
  readWord b off 8 fun bytes => int64 (shiftIn 0 bytes)

/-- The words that are written and read. -/
inductive Kind
  | u8
  | u16Le
  | u16Be
  | u32Le
  | u32Be
  | u64Le
  | u64Be
  deriving DecidableEq, Repr

namespace Kind

/-- `duxrt_bytes_write_*`. -/
def write : Kind → DuxBytes → Int → Except Stop DuxBytes
  | u8 => duxrtBytesWriteU8 m
  | u16Le => duxrtBytesWriteU16Le m
  | u16Be => duxrtBytesWriteU16Be m
  | u32Le => duxrtBytesWriteU32Le m
  | u32Be => duxrtBytesWriteU32Be m
  | u64Le => duxrtBytesWriteU64Le m
  | u64Be => duxrtBytesWriteU64Be m

/-- `duxrt_bytes_read_*`. -/
def read : Kind → Option DuxBytes → Int → Except Stop Int
  | u8 => duxrtBytesReadU8
  | u16Le => duxrtBytesReadU16Le
  | u16Be => duxrtBytesReadU16Be
  | u32Le => duxrtBytesReadU32Le
  | u32Be => duxrtBytesReadU32Be
  | u64Le => duxrtBytesReadU64Le
  | u64Be => duxrtBytesReadU64Be

def width : Kind → Nat
  | u8 => 1
  | u16Le | u16Be => 2
  | u32Le | u32Be => 4
  | u64Le | u64Be => 8

/-- Whether the lowest byte comes first. -/
def little : Kind → Bool
  | u8 | u16Be | u32Be | u64Be => false
  | u16Le | u32Le | u64Le => true

def encode (k : Kind) (v : Int) : List UInt8 :=
  if k.little then littleBytes k.width v else (littleBytes k.width v).reverse

def decode : Kind → List UInt8 → Int
  | u8, bytes | u16Be, bytes | u32Be, bytes => shiftIn 0 bytes
  | u16Le, bytes | u32Le, bytes => orIn bytes
  | u64Le, bytes => int64 (orIn bytes)
  | u64Be, bytes => int64 (shiftIn 0 bytes)

end Kind

/-! ## What a buffer holds -/

/-- The contents of a buffer, inside of the memory that it was given. -/
structure DuxBytes.Holds (b : DuxBytes) (data : Bytes) : Prop where
  holds : b.data.Holds data
  len : b.len = data.length
  cap : (b.data.length : Int) = b.cap
  positive : 8 ≤ b.cap
  addressable : b.cap < 2 ^ 57

/-- The program is aborted, for lack of memory, or the result has a property. -/
def OrAborts {α : Type} (run : Except Stop α) (P : α → Prop) : Prop :=
  run = .error .abort ∨ ∃ a, run = .ok a ∧ P a

theorem OrAborts.bind {α β : Type} {run : Except Stop α} {P : α → Prop} {f : α → Except Stop β}
    {Q : β → Prop} (first : OrAborts run P) (next : ∀ a, P a → OrAborts (f a) Q) :
    OrAborts (run >>= f) Q := by
  rcases first with aborts | ⟨a, runs, holds⟩
  · rw [aborts]
    exact .inl rfl
  · rw [runs]
    exact next a holds

theorem OrAborts.imp {α : Type} {run : Except Stop α} {P Q : α → Prop} (first : OrAborts run P)
    (weaker : ∀ a, P a → Q a) : OrAborts run Q :=
  first.imp_right fun ⟨a, runs, holds⟩ => ⟨a, runs, weaker a holds⟩

namespace DuxBytes.Holds

variable {m : Malloc} {b : DuxBytes} {data : Bytes}

theorem length_le (holds : b.Holds data) : (data.length : Int) ≤ b.cap := by
  have inside := holds.holds.length_le
  have cap := holds.cap
  omega

theorem small (holds : b.Holds data) : data.length < 2 ^ 57 := by
  have inside := holds.length_le
  have addressable := holds.addressable
  omega

theorem realloc (holds : b.Holds data) {cap : Int} (above : b.cap ≤ cap) :
    OrAborts (m.realloc b.data cap) fun block =>
      DuxBytes.Holds { b with data := block, cap := cap } data := by
  rw [Malloc.realloc]
  split
  · next granted =>
    have addressable := m.addressable _ granted
    have inside := holds.length_le
    have positive := holds.positive
    refine .inr ⟨_, rfl, holds.holds.resize (by omega), holds.len, ?_, ?_, ?_⟩
    · rw [Block.length_resize]
      exact Int.toNat_of_nonneg (by omega)
    · exact Int.le_trans positive above
    · dsimp only
      omega
  · exact .inl rfl

theorem growTo (holds : b.Holds data) {needed : Nat} (small : needed ≤ 2 ^ 62) :
    OrAborts (growTo m b needed) fun b' => b'.Holds data ∧ (needed : Int) ≤ b'.cap := by
  obtain ⟨cap, runs, above, enough, -⟩ :=
    @doubled_of_le b.cap needed (by have := holds.positive; omega) (by omega)
  rw [ByteBuffer.growTo, runs, ok_bind]
  exact (holds.realloc above).bind fun block holds' => .inr ⟨_, rfl, holds', enough⟩

theorem ensureCap (holds : b.Holds data) {n : Nat} (few : n ≤ 8) :
    OrAborts (bytesEnsureCap m b n) fun b' =>
      b'.Holds data ∧ ((data.length + n : Nat) : Int) ≤ b'.cap := by
  have small := holds.small
  have needed : int64 (b.len + n) = (data.length + n : Nat) := by
    rw [holds.len]
    exact int64_of_natCast (n := data.length + n) (by omega)
  rw [bytesEnsureCap, needed]
  exact holds.growTo (by omega)

theorem pushByte (holds : b.Holds data) {c : UInt8} (room : (data.length + 1 : Int) ≤ b.cap) :
    ∃ b', pushByte b c = .ok b' ∧ b'.Holds (data ++ [c]) ∧ b'.cap = b.cap := by
  have cap := holds.cap
  have small := holds.small
  obtain ⟨block, written, holds', length⟩ := holds.holds.write [c] (by
    rw [List.length_singleton]
    omega)
  have next : int64 (b.len + 1) = (data ++ [c]).length := by
    rw [holds.len, List.length_append]
    exact int64_of_natCast (n := data.length + 1) (by omega)
  rw [ByteBuffer.pushByte, holds.len, written, ok_bind, ← holds.len, next]
  exact ⟨_, rfl, ⟨holds', rfl, (congrArg _ length).trans cap, holds.positive, holds.addressable⟩,
    rfl⟩

theorem pushBytes (holds : b.Holds data) (bytes : List UInt8)
    (room : ((data.length + bytes.length : Nat) : Int) ≤ b.cap) :
    ∃ b', bytes.foldlM ByteBuffer.pushByte b = .ok b' ∧ b'.Holds (data ++ bytes) := by
  induction bytes generalizing b data with
  | nil =>
    rw [List.append_nil]
    exact ⟨b, rfl, holds⟩
  | cons c bytes ih =>
    rw [List.length_cons] at room
    obtain ⟨b₁, pushed, holds₁, cap⟩ := holds.pushByte (c := c) (by omega)
    obtain ⟨b', runs, holds'⟩ := ih holds₁ (by
      rw [cap, List.length_append, List.length_singleton]
      omega)
    rw [List.append_assoc, List.singleton_append] at holds'
    rw [List.foldlM_cons, pushed]
    exact ⟨b', runs, holds'⟩

theorem writeBytes (holds : b.Holds data) {bytes : List UInt8} (few : bytes.length ≤ 8) :
    OrAborts (writeBytes m b bytes) fun b' => b'.Holds (data ++ bytes) :=
  (holds.ensureCap few).bind fun _ ⟨holds', room⟩ => .inr (holds'.pushBytes bytes room)

theorem push (holds : b.Holds data) (val : Int) :
    OrAborts (duxrtBytesPush m b val) fun b' => b'.Holds (data ++ [byteOf val 0]) := by
  have positive := holds.positive
  have addressable := holds.addressable
  have length := holds.len
  rw [duxrtBytesPush]
  split
  · have twice : int64 (b.cap * 2) = b.cap * 2 := int64_eq_self_iff.2 (by omega)
    rw [twice]
    refine (holds.realloc (by omega)).bind fun block holds' => .inr ?_
    have inside := holds.length_le
    obtain ⟨b', pushed, holds'', -⟩ := holds'.pushByte (c := byteOf val 0) (by
      dsimp only
      omega)
    exact ⟨b', pushed, holds''⟩
  · obtain ⟨b', pushed, holds', -⟩ := holds.pushByte (c := byteOf val 0) (by omega)
    exact .inr ⟨b', pushed, holds'⟩

end DuxBytes.Holds

theorem Kind.write_eq (k : Kind) (b : DuxBytes) (v : Int) :
    k.write m b v = writeBytes m b (k.encode v) := by
  cases k <;> rfl

theorem Kind.length_encode (k : Kind) (v : Int) : (k.encode v).length = k.width := by
  rw [Kind.encode]
  split
  · exact length_littleBytes _ _
  · rw [List.length_reverse, length_littleBytes]

theorem holds_duxrtBytesNew (cap : Int) :
    OrAborts (duxrtBytesNew m cap) fun b => b.Holds [] ∧ cap ≤ b.cap := by
  rw [duxrtBytesNew]
  generalize isSize : (if cap < 8 then 8 else cap) = size
  have bounds : 8 ≤ size ∧ cap ≤ size := by
    rw [← isSize]
    split <;> omega
  rw [Malloc.alloc]
  split
  · next granted =>
    have addressable := m.addressable _ granted
    refine .inr ⟨_, rfl, ⟨Block.holds_nil _, rfl, ?_, bounds.1, ?_⟩, bounds.2⟩
    · rw [Block.length_fresh]
      exact Int.toNat_of_nonneg (by omega)
    · dsimp only
      omega
  · exact .inl rfl

theorem DuxBytes.Holds.fill {b : DuxBytes} (holds : b.Holds []) (src : Bytes)
    (room : (src.length : Int) ≤ b.cap) :
    ∃ block, b.data.memcpy 0 src src.length = .ok block ∧
      DuxBytes.Holds { b with data := block, len := src.length } src := by
  have cap := holds.cap
  obtain ⟨block, written, holds', length⟩ := holds.holds.write src (by
    rw [List.length_nil]
    omega)
  rw [List.length_nil, Nat.cast_zero] at written
  rw [Block.memcpy_self]
  exact ⟨block, written, holds', rfl, (congrArg _ length).trans cap, holds.positive,
    holds.addressable⟩

theorem holds_duxrtBytesFromStr (s : Option DuxStr) :
    OrAborts (duxrtBytesFromStr m s) fun b => b.Holds (DuxStr.text s) := by
  cases s with
  | none => exact (holds_duxrtBytesNew m 8).imp fun _ => And.left
  | some s =>
    refine (holds_duxrtBytesNew m (s.len + 1)).bind fun b ⟨holds, room⟩ => .inr ?_
    obtain ⟨block, copied, holds'⟩ := holds.fill s.chars (by
      rw [DuxStr.len] at room
      omega)
    rw [DuxStr.len, copied]
    exact ⟨_, rfl, holds'⟩

theorem DuxBytes.Holds.toStr {b : DuxBytes} {data : Bytes} (holds : b.Holds data) :
    duxrtBytesToStr (some b) = strOf data := by
  have read : b.data.read 0 data.length = .ok data :=
    Block.Holds.read [] data [] (by
      rw [List.append_nil]
      exact holds.holds)
  rw [duxrtBytesToStr]
  split
  · next empty =>
    rw [holds.len, Nat.cast_eq_zero, List.length_eq_zero_iff] at empty
    rw [empty]
    exact Text.duxrtStrNew_some []
  · rw [holds.len, Int.toNat_natCast, read, ok_bind, Text.duxrtStrNew_some]

/-- The part of a text between two positions. -/
def sliceOf (data : Bytes) (start endPos : Int) : Bytes :=
  (data.take (min endPos data.length).toNat).drop start.toNat

theorem DuxBytes.Holds.slice {b : DuxBytes} {data : Bytes} (holds : b.Holds data)
    (start endPos : Int) :
    OrAborts (duxrtBytesSlice m (some b) start endPos) fun out =>
      out.Holds (sliceOf data start endPos) := by
  have small := holds.small
  rw [duxrtBytesSlice]
  dsimp only
  generalize isFirst : (if start < 0 then 0 else start) = first
  generalize isLast : (if b.len < endPos then b.len else endPos) = last
  have first_eq : first = start.toNat := by
    rw [← isFirst]
    split <;> omega
  have last_eq : last = min endPos data.length := by
    rw [← isLast, holds.len]
    split <;> omega
  split
  · next empty =>
    refine (holds_duxrtBytesNew m 8).imp fun out made => ?_
    have nothing : sliceOf data start endPos = [] := by
      rw [sliceOf, ← last_eq, List.drop_eq_nil_iff, List.length_take]
      omega
    rw [nothing]
    exact made.1
  · next more =>
    obtain ⟨i, rfl⟩ : ∃ i : Nat, first = i := ⟨_, first_eq⟩
    obtain ⟨j, rfl⟩ : ∃ j : Nat, last = j := ⟨last.toNat, by omega⟩
    have inside : j ≤ data.length := by omega
    have slice : sliceOf data start endPos = (data.take j).drop i := by
      rw [sliceOf, ← last_eq, Int.toNat_natCast, ← Nat.cast_inj.1 first_eq]
    have length : ((data.take j).drop i).length = j - i := by
      rw [List.length_drop, List.length_take_of_le inside]
    have parts : data = data.take i ++ ((data.take j).drop i ++ data.drop j) := by
      rw [← List.append_assoc]
      conv_lhs => rw [← List.take_append_drop j data]
      conv_lhs =>
        rw [← List.take_append_drop i (data.take j), List.take_take, Nat.min_eq_left (by omega)]
    have n : int64 ((j : Int) - i) = ((data.take j).drop i).length := by
      rw [length, ← Nat.cast_sub (by omega)]
      exact int64_of_natCast (by omega)
    have read : b.data.read i ((data.take j).drop i).length = .ok ((data.take j).drop i) := by
      have front : (data.take i).length = i := List.length_take_of_le (by omega)
      have held := holds.holds
      rw [parts] at held
      have readAt := held.read
      rwa [front] at readAt
    rw [n, slice]
    refine (holds_duxrtBytesNew m _).bind fun out ⟨made, room⟩ => .inr ?_
    obtain ⟨block, copied, holds'⟩ := made.fill ((data.take j).drop i) room
    rw [Int.toNat_natCast, read, ok_bind, copied]
    exact ⟨_, rfl, holds'⟩

end Dux.Runtime.ByteBuffer
