import Dux.Logic.BigEndian
import Dux.Logic.CText
import Dux.Runtime.Str

/-!
# The accept value of a WebSocket handshake

`ws_accept_key` of `src/runtime/ws_rt.c` appends a fixed text to the key of a client, and encodes
the SHA-1 digest of that in base 64.
-/

namespace Dux.Runtime.WebSocket

open Logic (ascii bigEndian)

/-! ## Base 64 -/

def b64Table : Bytes :=
  ascii "ABCDEFGHIJKLMNOPQRSTUVWXYZabcdefghijklmnopqrstuvwxyz0123456789+/"

/-- A character of `b64_table`. -/
def b64 (i : UInt8) : UInt8 := b64Table.getD i.toNat 0

def base64Encode : Bytes → Bytes
  | [] => []
  | [a] => [b64 (a >>> 2), b64 ((a &&& 3) <<< 4), 0x3d, 0x3d]
  | [a, b] => [b64 (a >>> 2), b64 ((a &&& 3) <<< 4 ||| b >>> 4), b64 ((b &&& 0xF) <<< 2), 0x3d]
  | a :: b :: c :: rest =>
      b64 (a >>> 2) :: b64 ((a &&& 3) <<< 4 ||| b >>> 4) :: b64 ((b &&& 0xF) <<< 2 ||| c >>> 6) ::
        b64 (c &&& 0x3F) :: base64Encode rest

/-! ## SHA-1 -/

def rotl32 (v n : UInt32) : UInt32 := v <<< n ||| v >>> (32 - n)

/-- The five words of a digest. -/
structure Words where
  a : UInt32
  b : UInt32
  c : UInt32
  d : UInt32
  e : UInt32

structure Sha1 where
  h : Words
  len : UInt64
  buf : Bytes

def sha1Init : Sha1 := ⟨⟨0x67452301, 0xEFCDAB89, 0x98BADCFE, 0x10325476, 0xC3D2E1F0⟩, 0, []⟩

/-- The words of a block and those made of them. -/
def schedule (block : Bytes) : List UInt32 :=
  let first := (List.range 16).map fun i =>
    (block.getD (i * 4) 0).toUInt32 <<< 24 ||| (block.getD (i * 4 + 1) 0).toUInt32 <<< 16 |||
      (block.getD (i * 4 + 2) 0).toUInt32 <<< 8 ||| (block.getD (i * 4 + 3) 0).toUInt32
  (List.range' 16 64).foldl
    (fun w i =>
      w ++ [rotl32 (w.getD (i - 3) 0 ^^^ w.getD (i - 8) 0 ^^^ w.getD (i - 14) 0 ^^^
        w.getD (i - 16) 0) 1])
    first

/-- `f` and `k` of a round of `sha1_compress`, added up. -/
def sha1Mix (s : Words) (i : Nat) : UInt32 :=
  if i < 20 then (s.b &&& s.c ||| ~~~s.b &&& s.d) + 0x5A827999
  else if i < 40 then (s.b ^^^ s.c ^^^ s.d) + 0x6ED9EBA1
  else if i < 60 then (s.b &&& s.c ||| s.b &&& s.d ||| s.c &&& s.d) + 0x8F1BBCDC
  else (s.b ^^^ s.c ^^^ s.d) + 0xCA62C1D6

/-- One round of `sha1_compress`. -/
def sha1Round (w : List UInt32) (s : Words) (i : Nat) : Words :=
  ⟨rotl32 s.a 5 + sha1Mix s i + s.e + w.getD i 0, s.a, rotl32 s.b 30, s.c, s.d⟩

def sha1Compress (h : Words) (block : Bytes) : Words :=
  let s := (List.range 80).foldl (sha1Round (schedule block)) h
  ⟨h.a + s.a, h.b + s.b, h.c + s.c, h.d + s.d, h.e + s.e⟩

def sha1Update (s : Sha1) (data : Bytes) : Sha1 :=
  data.foldl
    (fun s b =>
      let buf := s.buf ++ [b]
      if buf.length = 64 then ⟨sha1Compress s.h buf, s.len + 1, []⟩ else ⟨s.h, s.len + 1, buf⟩)
    s

/-- `sha1_final`.  Zeros are added up to the last eight bytes of a block. -/
def sha1Final (s : Sha1) : Bytes :=
  let bitlen := s.len * 8
  let s := sha1Update s [0x80]
  let s := sha1Update s (List.replicate ((120 - s.buf.length) % 64) 0)
  let s := sha1Update s (bigEndian 8 bitlen.toNat)
  [s.h.a, s.h.b, s.h.c, s.h.d, s.h.e].flatMap fun h => bigEndian 4 h.toNat

def wsAcceptKey (clientKey : Bytes) : Bytes :=
  let s := sha1Update sha1Init clientKey
  let s := sha1Update s (ascii "258EAFA5-E914-47DA-95CA-C5AB0DC85B11")
  base64Encode (sha1Final s)

example :
    wsAcceptKey (ascii "dGhlIHNhbXBsZSBub25jZQ==") = ascii "s3pPLMBiTxaQ9kYGzzhZRbK+xOo=" := by
  decide +kernel

end Dux.Runtime.WebSocket
