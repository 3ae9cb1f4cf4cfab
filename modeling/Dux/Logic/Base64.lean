import Dux.Logic.CText

/-!
# Base 64

The encoding of RFC 4648, and its inverse: three bytes are a number of 24 bits, which is written
in base 64.
-/

namespace Dux.Logic.Base64

def alphabet : List UInt8 :=
  ascii "ABCDEFGHIJKLMNOPQRSTUVWXYZabcdefghijklmnopqrstuvwxyz0123456789+/"

def pad : UInt8 := 0x3d

def character (n place : Nat) : UInt8 := alphabet.getD (n / 64 ^ place % 64) pad

def value (b : UInt8) : Option Nat := alphabet.idxOf? b

/-- The encoding; the last group is filled up. -/
def encode : List UInt8 → List UInt8
  | [] => []
  | [a] =>
      let n := a.toNat * 65536
      [character n 3, character n 2, pad, pad]
  | [a, b] =>
      let n := a.toNat * 65536 + b.toNat * 256
      [character n 3, character n 2, character n 1, pad]
  | a :: b :: c :: rest =>
      let n := a.toNat * 65536 + b.toNat * 256 + c.toNat
      character n 3 :: character n 2 :: character n 1 :: character n 0 :: encode rest

/-- The number of a group. -/
def group (w x y z : Nat) : Nat := w * 64 ^ 3 + x * 64 ^ 2 + y * 64 + z

/-- The bytes that a text encodes. -/
def decode : List UInt8 → Option (List UInt8)
  | [] => some []
  | w :: x :: y :: z :: rest =>
      if z = pad ∧ rest = [] then
        if y = pad then do
          let n := group (← value w) (← value x) 0 0
          return [UInt8.ofNat (n / 65536)]
        else do
          let n := group (← value w) (← value x) (← value y) 0
          return [UInt8.ofNat (n / 65536), UInt8.ofNat (n / 256)]
      else do
        let n := group (← value w) (← value x) (← value y) (← value z)
        return UInt8.ofNat (n / 65536) :: UInt8.ofNat (n / 256) :: UInt8.ofNat n :: (← decode rest)
  | _ => none

theorem value_getD : ∀ i < 64, value (alphabet.getD i pad) = some i := by
  decide +kernel

theorem value_character (n place : Nat) : value (character n place) = some (n / 64 ^ place % 64) :=
  value_getD _ (Nat.mod_lt _ (by decide))

theorem character_ne_pad (n place : Nat) : character n place ≠ pad := by
  intro isPad
  have found := value_character n place
  rw [isPad] at found
  cases found

theorem group_digits {n : Nat} (small : n < 64 ^ 4) :
    group (n / 64 ^ 3 % 64) (n / 64 ^ 2 % 64) (n / 64 ^ 1 % 64) (n / 64 ^ 0 % 64) = n := by
  rw [group]
  omega

theorem ofNat_eq {a : UInt8} {n : Nat} (same : n % 256 = a.toNat) : UInt8.ofNat n = a := by
  rw [← UInt8.toNat_inj, UInt8.toNat_ofNat', same]

theorem length_encode (bytes : List UInt8) :
    (encode bytes).length = 4 * ((bytes.length + 2) / 3) := by
  induction bytes using encode.induct with
  | case1 => rfl
  | case2 a => simp only [encode, List.length_cons, List.length_nil]
  | case3 a b => simp only [encode, List.length_cons, List.length_nil]
  | case4 a b c rest ih =>
    simp only [encode, List.length_cons, ih]
    omega

theorem group_digits_two {n : Nat} (small : n < 64 ^ 4) (low : n % 64 ^ 2 = 0) :
    group (n / 64 ^ 3 % 64) (n / 64 ^ 2 % 64) 0 0 = n := by
  rw [group]
  omega

theorem group_digits_three {n : Nat} (small : n < 64 ^ 4) (low : n % 64 = 0) :
    group (n / 64 ^ 3 % 64) (n / 64 ^ 2 % 64) (n / 64 ^ 1 % 64) 0 = n := by
  rw [group]
  omega

theorem decode_encode (bytes : List UInt8) : decode (encode bytes) = some bytes := by
  induction bytes using encode.induct with
  | case1 => rfl
  | case2 a =>
    have boundA := a.toNat_lt
    rw [encode, decode, if_pos ⟨rfl, rfl⟩, if_pos rfl, value_character, value_character]
    change some [UInt8.ofNat (group _ _ 0 0 / 65536)] = _
    rw [group_digits_two (by omega) (by omega), ofNat_eq]
    omega
  | case3 a b =>
    have boundA := a.toNat_lt
    have boundB := b.toNat_lt
    rw [encode, decode, if_pos ⟨rfl, rfl⟩, if_neg (character_ne_pad _ _), value_character,
      value_character, value_character]
    change some [UInt8.ofNat (group _ _ _ 0 / 65536), UInt8.ofNat (group _ _ _ 0 / 256)] = _
    rw [group_digits_three (by omega) (by omega)]
    congr 2
    · exact ofNat_eq (by omega)
    · congr 1
      exact ofNat_eq (by omega)
  | case4 a b c rest ih =>
    have boundA := a.toNat_lt
    have boundB := b.toNat_lt
    have boundC := c.toNat_lt
    rw [encode, decode, if_neg fun last => character_ne_pad _ _ last.1, value_character,
      value_character, value_character, value_character, ih]
    change some (UInt8.ofNat (group _ _ _ _ / 65536) :: UInt8.ofNat (group _ _ _ _ / 256) ::
      UInt8.ofNat (group _ _ _ _) :: rest) = _
    rw [group_digits (by omega)]
    congr 2
    · exact ofNat_eq (by omega)
    · congr 1
      · exact ofNat_eq (by omega)
      · congr 1
        exact ofNat_eq (by omega)

end Dux.Logic.Base64
