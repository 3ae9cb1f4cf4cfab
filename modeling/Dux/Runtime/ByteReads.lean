import Dux.Runtime.ByteBuffer

/-!
# Reads of a byte buffer

A typed read adds the width of the word to the offset before it compares with the length.
Offsets are 64-bit words, and behind the last one that the width can be added to, the sum is
negative and passes the guard.
-/

namespace Dux.Runtime.ByteBuffer

open Logic

structure Buffer where
  bytes : DuxBytes
  contents : Bytes
  holds : bytes.Holds contents

namespace Buffer

/-- What the functions get; a null pointer for no buffer. -/
def handle (b : Option Buffer) : Option DuxBytes := b.map bytes

def data (b : Option Buffer) : Bytes := b.elim [] contents

end Buffer

theorem Kind.read_eq {k : Kind} (several : k ≠ .u8) (b : Option DuxBytes) (off : Int) :
    k.read b off = readWord b off k.width k.decode := by
  cases k with
  | u8 => exact absurd rfl several
  | u16Le | u16Be | u32Le | u32Be | u64Le | u64Be => rfl

namespace DuxBytes.Holds

variable {b : DuxBytes} {data : Bytes}

theorem readBytes (holds : b.Holds data) {i n : Nat} (inside : i + n ≤ data.length) :
    readBytes b i n = .ok ((data.drop i).take n) := by
  induction n generalizing i with
  | zero =>
    rw [List.take_zero]
    rfl
  | succ n ih =>
    have here : i < data.length := by omega
    have small := holds.small
    have read : b.data.read i 1 = .ok [data[i]] := by
      have held : b.data.Holds (data.take i ++ ([data[i]] ++ data.drop (i + 1))) := by
        rw [List.singleton_append, ← List.drop_eq_getElem_cons here, List.take_append_drop]
        exact holds.holds
      have readAt := held.read
      rwa [List.length_take_of_le (by omega)] at readAt
    have next : int64 ((i : Int) + 1) = (i + 1 : Nat) := int64_of_natCast (n := i + 1) (by omega)
    rw [ByteBuffer.readBytes, read, ok_bind, next, ih (by omega), ok_bind,
      List.drop_eq_getElem_cons here, List.take_succ_cons]
    rfl

theorem readWord (holds : b.Holds data) {off : Int} {width : Nat} (value : List UInt8 → Int)
    (fits : off + width < 2 ^ 63) :
    readWord (some b) off width value =
      if 0 ≤ off ∧ off + width ≤ data.length then
        .ok (value ((data.drop off.toNat).take width))
      else .ok 0 := by
  rw [ByteBuffer.readWord]
  by_cases negative : off < 0
  · rw [if_pos (.inl negative), if_neg (by omega)]
  · rw [int64_eq_self_iff.2 (by omega), holds.len]
    by_cases inside : off + width ≤ data.length
    · obtain ⟨i, rfl⟩ : ∃ i : Nat, off = i := ⟨off.toNat, by omega⟩
      rw [if_neg (by omega), if_pos ⟨by omega, inside⟩, Int.toNat_natCast,
        holds.readBytes (by omega), ok_bind, pure_eq_ok]
    · rw [if_pos (by omega), if_neg (by omega)]

theorem readWord_fault (holds : b.Holds data) {off : Int} {width : Nat} (value : List UInt8 → Int)
    (small : width ≤ 8) (offset : off < 2 ^ 63) (wraps : 2 ^ 63 ≤ off + width) :
    ByteBuffer.readWord (some b) off width value = .error .fault := by
  have addressable := holds.addressable
  have cap := holds.cap
  have passes : ¬(off < 0 ∨ b.len < int64 (off + width)) := by
    rw [holds.len, int64, Int.bmod_def]
    omega
  obtain ⟨n, rfl⟩ : ∃ n, width = n + 1 := ⟨width - 1, by omega⟩
  rw [ByteBuffer.readWord, if_neg passes, ByteBuffer.readBytes, Block.read_fault (by omega),
    error_bind, error_bind]

theorem readU8 (holds : b.Holds data) (off : Int) :
    duxrtBytesReadU8 (some b) off =
      if 0 ≤ off ∧ off + 1 ≤ data.length then
        .ok (shiftIn 0 ((data.drop off.toNat).take 1) : Int)
      else .ok 0 := by
  rw [duxrtBytesReadU8, holds.len]
  by_cases inside : 0 ≤ off ∧ off + 1 ≤ data.length
  · obtain ⟨i, rfl⟩ : ∃ i : Nat, off = i := ⟨off.toNat, by omega⟩
    rw [if_neg (by omega), if_pos inside, Int.toNat_natCast, holds.readBytes (by omega), ok_bind,
      pure_eq_ok]
  · rw [if_pos (by omega), if_neg inside]

theorem read (holds : b.Holds data) (k : Kind) {off : Int}
    (fits : k = .u8 ∨ off + k.width < 2 ^ 63) :
    k.read (some b) off =
      if 0 ≤ off ∧ off + k.width ≤ data.length then
        .ok (k.decode ((data.drop off.toNat).take k.width))
      else .ok 0 := by
  by_cases single : k = .u8
  · subst single
    exact holds.readU8 off
  · rw [Kind.read_eq single]
    exact holds.readWord _ (fits.resolve_left single)

end DuxBytes.Holds

/-- The sum that the guard of a read computes, where it gets that far. -/
def Kind.guardSum (k : Kind) (b : Option Buffer) (off : Int) : Option Int :=
  if b.isNone ∨ off < 0 ∨ k = .u8 then none else some (off + k.width)

/-- A read returns the word at an offset inside of the contents, or zero without reading, and
its sums do not overflow. -/
structure Kind.ReadSafe (k : Kind) (b : Option Buffer) (off : Int) : Prop where
  inside : 0 ≤ off ∧ off + k.width ≤ (Buffer.data b).length →
    k.read (Buffer.handle b) off = .ok (k.decode (((Buffer.data b).drop off.toNat).take k.width))
  outside : ¬(0 ≤ off ∧ off + k.width ≤ (Buffer.data b).length) →
    k.read (Buffer.handle b) off = .ok 0
  sums : ∀ x ∈ k.guardSum b off, int64 x = x

theorem Kind.width_pos (k : Kind) : 0 < k.width := by
  cases k <;> decide

/-- A read is safe exactly up to the last offset that the width can be added to. -/
theorem Kind.readSafe_iff (k : Kind) (b : Option Buffer) (off : Int) :
    k.ReadSafe b off ↔ b = none ∨ k = .u8 ∨ off + k.width < 2 ^ 63 := by
  have positive := k.width_pos
  cases b with
  | none =>
    refine iff_of_true ⟨fun inside => ?_, fun _ => ?_, fun x isSum => ?_⟩ (.inl rfl)
    · have empty : (Buffer.data none).length = 0 := rfl
      omega
    · cases k <;> rfl
    · rw [guardSum, if_pos (.inl rfl)] at isSum
      cases isSum
  | some b =>
    constructor
    · intro safe
      refine .inr (or_iff_not_imp_left.2 fun wide => ?_)
      by_cases negative : off < 0
      · have small : k.width ≤ 8 := by
          cases k <;> decide
        omega
      · have sum := safe.sums (off + k.width) (if_neg (by
          rintro (isNone | below | isU8)
          · cases isNone
          · exact negative below
          · exact wide isU8))
        exact (int64_eq_self_iff.1 sum).2
    · rintro (isNone | fits)
      · cases isNone
      · have reads := b.holds.read k fits
        refine ⟨fun inside => reads.trans (if_pos inside), fun outside =>
          reads.trans (if_neg outside), fun x isSum => ?_⟩
        rw [guardSum] at isSum
        split at isSum
        · cases isSum
        · next reached =>
          rw [not_or, not_or] at reached
          cases isSum
          exact int64_eq_self_iff.2 (by
            have bound := fits.resolve_left reached.2.2
            omega)

def Buffer.empty : Buffer where
  bytes := ⟨Block.fresh 8, 0, 8⟩
  contents := []
  holds := ⟨Block.holds_nil _, rfl, rfl, by decide, by decide⟩

/-- The largest offset of all. -/
theorem Kind.not_readSafe_last : Kind.u16Le.read (Buffer.handle (some Buffer.empty)) (2 ^ 63 - 1) =
    .error .fault ∧ ¬Kind.u16Le.ReadSafe (some Buffer.empty) (2 ^ 63 - 1) := by
  have leaves : Kind.u16Le.read (Buffer.handle (some Buffer.empty)) (2 ^ 63 - 1) =
      .error .fault := by
    rw [Kind.read_eq (by decide)]
    exact Buffer.empty.holds.readWord_fault _ (by decide) (by decide) (by decide)
  refine ⟨leaves, fun safe => ?_⟩
  have zero := safe.outside (by decide)
  rw [leaves] at zero
  cases zero

end Dux.Runtime.ByteBuffer
