-- SHA-256 of a byte string, as hexadecimal text.
import FlynnAgents.Lib.Machine

namespace Sha256

def roundConstants : List UInt32 := [
  0x428a2f98, 0x71374491, 0xb5c0fbcf, 0xe9b5dba5, 0x3956c25b, 0x59f111f1, 0x923f82a4, 0xab1c5ed5,
  0xd807aa98, 0x12835b01, 0x243185be, 0x550c7dc3, 0x72be5d74, 0x80deb1fe, 0x9bdc06a7, 0xc19bf174,
  0xe49b69c1, 0xefbe4786, 0x0fc19dc6, 0x240ca1cc, 0x2de92c6f, 0x4a7484aa, 0x5cb0a9dc, 0x76f988da,
  0x983e5152, 0xa831c66d, 0xb00327c8, 0xbf597fc7, 0xc6e00bf3, 0xd5a79147, 0x06ca6351, 0x14292967,
  0x27b70a85, 0x2e1b2138, 0x4d2c6dfc, 0x53380d13, 0x650a7354, 0x766a0abb, 0x81c2c92e, 0x92722c85,
  0xa2bfe8a1, 0xa81a664b, 0xc24b8b70, 0xc76c51a3, 0xd192e819, 0xd6990624, 0xf40e3585, 0x106aa070,
  0x19a4c116, 0x1e376c08, 0x2748774c, 0x34b0bcb5, 0x391c0cb3, 0x4ed8aa4a, 0x5b9cca4f, 0x682e6ff3,
  0x748f82ee, 0x78a5636f, 0x84c87814, 0x8cc70208, 0x90befffa, 0xa4506ceb, 0xbef9a3f7, 0xc67178f2]

/-- The eight working words. -/
structure Words where
  a : UInt32
  b : UInt32
  c : UInt32
  d : UInt32
  e : UInt32
  f : UInt32
  g : UInt32
  h : UInt32

def initial : Words :=
  ⟨0x6a09e667, 0xbb67ae85, 0x3c6ef372, 0xa54ff53a, 0x510e527f, 0x9b05688c, 0x1f83d9ab, 0x5be0cd19⟩

def rotr (x n : UInt32) : UInt32 := (x >>> n) ||| (x <<< (32 - n))

/-- One more word of the message schedule; the words stand newest first. -/
def extend (ws : List UInt32) : List UInt32 :=
  let x := ws.getD 14 0
  let y := ws.getD 1 0
  let s0 := rotr x 7 ^^^ rotr x 18 ^^^ (x >>> 3)
  let s1 := rotr y 17 ^^^ rotr y 19 ^^^ (y >>> 10)
  (ws.getD 15 0 + s0 + ws.getD 6 0 + s1) :: ws

def round (v : Words) (kw : UInt32 × UInt32) : Words :=
  let s1 := rotr v.e 6 ^^^ rotr v.e 11 ^^^ rotr v.e 25
  let ch := (v.e &&& v.f) ^^^ ((v.e ^^^ 0xffffffff) &&& v.g)
  let t1 := v.h + s1 + ch + kw.1 + kw.2
  let s0 := rotr v.a 2 ^^^ rotr v.a 13 ^^^ rotr v.a 22
  let maj := (v.a &&& v.b) ^^^ (v.a &&& v.c) ^^^ (v.b &&& v.c)
  ⟨t1 + (s0 + maj), v.a, v.b, v.c, v.d + t1, v.e, v.f, v.g⟩

/-- One block of sixteen words. -/
def block (v : Words) (ws : List UInt32) : Words :=
  let schedule := ((List.range 48).foldl (fun ws _ => extend ws) ws.reverse).reverse
  let w := (roundConstants.zip schedule).foldl round v
  ⟨v.a + w.a, v.b + w.b, v.c + w.c, v.d + w.d, v.e + w.e, v.f + w.f, v.g + w.g, v.h + w.h⟩

/-- The bytes of a number, big endian, in `n` bytes. -/
def bigEndian (n x : Nat) : List Nat := (List.range n).reverse.map (fun i => x / 256 ^ i % 256)

def pad (bytes : List Nat) : List Nat :=
  let n := bytes.length
  bytes ++ 0x80 :: List.replicate ((119 - n % 64) % 64) 0 ++ bigEndian 8 (8 * n)

/-- Four bytes to a word, as many as there are. -/
def toWords : List Nat → List UInt32
  | a :: b :: c :: d :: rest => UInt32.ofNat (((a * 256 + b) * 256 + c) * 256 + d) :: toWords rest
  | _ => []

/-- The blocks of sixteen words, by the number of blocks. -/
def blocks : Nat → List UInt32 → List (List UInt32)
  | 0, _ => []
  | n + 1, ws => ws.take 16 :: blocks n (ws.drop 16)

def digit (n : Nat) : Char := if n < 10 then Char.ofNat (48 + n) else Char.ofNat (87 + n)

def hexWord (w : UInt32) : List Char :=
  (bigEndian 4 w.toNat).flatMap (fun b => [digit (b / 16), digit (b % 16)])

/-- `hashlib.sha256(data).hexdigest()` -/
def hexdigest (bytes : List Nat) : String :=
  let ws := toWords (pad bytes)
  let v := (blocks (ws.length / 16) ws).foldl block initial
  String.ofList ([v.a, v.b, v.c, v.d, v.e, v.f, v.g, v.h].flatMap hexWord)

/-- A lowercase hexadecimal digit. -/
def isHexDigit (c : Char) : Bool := "0123456789abcdef".toList.contains c

theorem digit_isHexDigit {n : Nat} (h : n < 16) : isHexDigit (digit n) = true := by
  revert n
  decide

theorem bigEndian_lt {n x b : Nat} (h : b ∈ bigEndian n x) : b < 256 := by
  simp only [bigEndian, List.mem_map] at h
  obtain ⟨i, _, rfl⟩ := h
  exact Nat.mod_lt _ (by decide)

theorem hexWord_isHexDigit {w : UInt32} {c : Char} (h : c ∈ hexWord w) : isHexDigit c = true := by
  simp only [hexWord, List.mem_flatMap, List.mem_cons, List.not_mem_nil, or_false] at h
  obtain ⟨b, hb, rfl | rfl⟩ := h
  · have := bigEndian_lt hb
    exact digit_isHexDigit (by omega)
  · exact digit_isHexDigit (by omega)

theorem hexWord_length (w : UInt32) : (hexWord w).length = 8 := by
  simp [hexWord, bigEndian, List.range, List.range.loop]

/-- A digest is made of lowercase hexadecimal digits. -/
theorem hexdigest_isHexDigit {bytes : List Nat} {c : Char}
    (h : c ∈ (hexdigest bytes).toList) : isHexDigit c = true := by
  simp only [hexdigest, String.toList_ofList, List.mem_flatMap] at h
  obtain ⟨w, _, hc⟩ := h
  exact hexWord_isHexDigit hc

theorem hexdigest_length (bytes : List Nat) : (hexdigest bytes).toList.length = 64 := by
  simp [hexdigest, hexWord_length]

example : hexdigest [97, 98, 99] =
    "ba7816bf8f01cfea414140de5dae2223b00361a396177a9cb410ff61f20015ad" := by decide +kernel

end Sha256
