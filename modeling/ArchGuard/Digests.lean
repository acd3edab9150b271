import Mathlib.Tactic

/-! SHA-256 and MD5 over byte lists. -/
namespace Sha256

/-- The eight working variables of the compression function. -/
structure Regs where
  a : UInt32
  b : UInt32
  c : UInt32
  d : UInt32
  e : UInt32
  f : UInt32
  g : UInt32
  h : UInt32

def initial : Regs :=
  ⟨0x6a09e667, 0xbb67ae85, 0x3c6ef372, 0xa54ff53a, 0x510e527f, 0x9b05688c, 0x1f83d9ab, 0x5be0cd19⟩

def roundConstants : List UInt32 := [
    0x428a2f98, 0x71374491, 0xb5c0fbcf, 0xe9b5dba5, 0x3956c25b, 0x59f111f1, 0x923f82a4,
    0xab1c5ed5, 0xd807aa98, 0x12835b01, 0x243185be, 0x550c7dc3, 0x72be5d74, 0x80deb1fe,
    0x9bdc06a7, 0xc19bf174, 0xe49b69c1, 0xefbe4786, 0x0fc19dc6, 0x240ca1cc, 0x2de92c6f,
    0x4a7484aa, 0x5cb0a9dc, 0x76f988da, 0x983e5152, 0xa831c66d, 0xb00327c8, 0xbf597fc7,
    0xc6e00bf3, 0xd5a79147, 0x06ca6351, 0x14292967, 0x27b70a85, 0x2e1b2138, 0x4d2c6dfc,
    0x53380d13, 0x650a7354, 0x766a0abb, 0x81c2c92e, 0x92722c85, 0xa2bfe8a1, 0xa81a664b,
    0xc24b8b70, 0xc76c51a3, 0xd192e819, 0xd6990624, 0xf40e3585, 0x106aa070, 0x19a4c116,
    0x1e376c08, 0x2748774c, 0x34b0bcb5, 0x391c0cb3, 0x4ed8aa4a, 0x5b9cca4f, 0x682e6ff3,
    0x748f82ee, 0x78a5636f, 0x84c87814, 0x8cc70208, 0x90befffa, 0xa4506ceb, 0xbef9a3f7,
    0xc67178f2]

def rotr (n x : UInt32) : UInt32 := (x >>> n) ||| (x <<< (32-n))

def round (r : Regs) (k w : UInt32) : Regs :=
  let s1 := rotr 6 r.e ^^^ rotr 11 r.e ^^^ rotr 25 r.e
  let ch := (r.e &&& r.f) ^^^ (~~~r.e &&& r.g)
  let t1 := r.h+s1+ch+k+w
  let s0 := rotr 2 r.a ^^^ rotr 13 r.a ^^^ rotr 22 r.a
  let maj := (r.a &&& r.b) ^^^ (r.a &&& r.c) ^^^ (r.b &&& r.c)
  ⟨t1+(s0+maj), r.a, r.b, r.c, r.d+t1, r.e, r.f, r.g⟩

/-- The next word of the message schedule, from a window of sixteen. -/
def expand (ws : List UInt32) : UInt32 :=
  let w (i : ℕ) := ws.getD i 0
  let s0 := rotr 7 (w 1) ^^^ rotr 18 (w 1) ^^^ (w 1 >>> 3)
  let s1 := rotr 17 (w 14) ^^^ rotr 19 (w 14) ^^^ (w 14 >>> 10)
  w 0+s0+w 9+s1

def rounds : List UInt32 → List UInt32 → Regs → Regs
  | k :: ks, w :: ws, r => rounds ks (ws ++ [expand (w :: ws)]) (round r k w)
  | _, _, r => r

def compress (r : Regs) (block : List UInt32) : Regs :=
  let s := rounds roundConstants block r
  ⟨r.a+s.a, r.b+s.b, r.c+s.c, r.d+s.d, r.e+s.e, r.f+s.f, r.g+s.g, r.h+s.h⟩

def bigEndian (n : ℕ) (width : ℕ) : List UInt8 :=
  (List.range width).map fun i => UInt8.ofNat (n/256^(width-1-i))

def pad (m : List UInt8) : List UInt8 :=
  m ++ 0x80 :: List.replicate ((119-m.length%64)%64) 0 ++ bigEndian (8*m.length) 8

def words : List UInt8 → List UInt32
  | a :: b :: c :: d :: rest => UInt32.ofNat
      (((a.toNat*256+b.toNat)*256+c.toNat)*256+d.toNat) :: words rest
  | _ => []

def blocks : ℕ → List UInt32 → List (List UInt32)
  | 0, _ => []
  | n+1, ws => ws.take 16 :: blocks n (ws.drop 16)

def Regs.bytes (r : Regs) : List UInt8 :=
  [r.a, r.b, r.c, r.d, r.e, r.f, r.g, r.h].flatMap fun w => bigEndian w.toNat 4

def sha256 (m : List UInt8) : List UInt8 :=
  let ws := words (pad m)
  ((blocks (ws.length/16) ws).foldl compress initial).bytes

theorem length_sha256 (m : List UInt8) : (sha256 m).length = 32 := by
  simp only [sha256, Regs.bytes, bigEndian, List.length_flatMap, List.map_cons, List.map_nil,
    List.length_map, List.length_range, List.sum_cons, List.sum_nil, Nat.reduceAdd]

example : sha256 [0x61, 0x62, 0x63] =
    [0xba, 0x78, 0x16, 0xbf, 0x8f, 0x01, 0xcf, 0xea, 0x41, 0x41, 0x40, 0xde, 0x5d, 0xae, 0x22, 0x23,
     0xb0, 0x03, 0x61, 0xa3, 0x96, 0x17, 0x7a, 0x9c, 0xb4, 0x10, 0xff, 0x61, 0xf2, 0x00, 0x15, 0xad]
    := by
  decide +kernel

end Sha256

namespace Md5

/-- The four working variables of the compression function. -/
structure Regs where
  a : UInt32
  b : UInt32
  c : UInt32
  d : UInt32

def initial : Regs := ⟨0x67452301, 0xefcdab89, 0x98badcfe, 0x10325476⟩

def sines : List UInt32 := [
    0xd76aa478, 0xe8c7b756, 0x242070db, 0xc1bdceee, 0xf57c0faf, 0x4787c62a, 0xa8304613,
    0xfd469501, 0x698098d8, 0x8b44f7af, 0xffff5bb1, 0x895cd7be, 0x6b901122, 0xfd987193,
    0xa679438e, 0x49b40821, 0xf61e2562, 0xc040b340, 0x265e5a51, 0xe9b6c7aa, 0xd62f105d,
    0x02441453, 0xd8a1e681, 0xe7d3fbc8, 0x21e1cde6, 0xc33707d6, 0xf4d50d87, 0x455a14ed,
    0xa9e3e905, 0xfcefa3f8, 0x676f02d9, 0x8d2a4c8a, 0xfffa3942, 0x8771f681, 0x6d9d6122,
    0xfde5380c, 0xa4beea44, 0x4bdecfa9, 0xf6bb4b60, 0xbebfbc70, 0x289b7ec6, 0xeaa127fa,
    0xd4ef3085, 0x04881d05, 0xd9d4d039, 0xe6db99e5, 0x1fa27cf8, 0xc4ac5665, 0xf4292244,
    0x432aff97, 0xab9423a7, 0xfc93a039, 0x655b59c3, 0x8f0ccc92, 0xffeff47d, 0x85845dd1,
    0x6fa87e4f, 0xfe2ce6e0, 0xa3014314, 0x4e0811a1, 0xf7537e82, 0xbd3af235, 0x2ad7d2bb,
    0xeb86d391]

/-- The four rounds: the word that step `i` takes, how far it rotates, and its mixing function. -/
structure Round where
  word : ℕ → ℕ
  shifts : List UInt32
  mix : UInt32 → UInt32 → UInt32 → UInt32

def roundOf (i : ℕ) : Round :=
  match i/16 with
  | 0 => ⟨id, [7, 12, 17, 22], fun b c d => (b &&& c) ||| (~~~b &&& d)⟩
  | 1 => ⟨fun i => (5*i+1)%16, [5, 9, 14, 20], fun b c d => (d &&& b) ||| (~~~d &&& c)⟩
  | 2 => ⟨fun i => (3*i+5)%16, [4, 11, 16, 23], fun b c d => b ^^^ c ^^^ d⟩
  | _ => ⟨fun i => (7*i)%16, [6, 10, 15, 21], fun b c d => c ^^^ (b ||| ~~~d)⟩

def rotl (n x : UInt32) : UInt32 := (x <<< n) ||| (x >>> (32-n))

def step (block : List UInt32) (r : Regs) (k : UInt32 × ℕ) : Regs :=
  let i := k.2
  let round := roundOf i
  let sum := r.a+round.mix r.b r.c r.d+k.1+block.getD (round.word i) 0
  ⟨r.d, r.b+rotl (round.shifts.getD (i%4) 0) sum, r.b, r.c⟩

def compress (r : Regs) (block : List UInt32) : Regs :=
  let s := sines.zipIdx.foldl (step block) r
  ⟨r.a+s.a, r.b+s.b, r.c+s.c, r.d+s.d⟩

def littleEndian (n : ℕ) (width : ℕ) : List UInt8 :=
  (List.range width).map fun i => UInt8.ofNat (n/256^i)

def pad (m : List UInt8) : List UInt8 :=
  m ++ 0x80 :: List.replicate ((119-m.length%64)%64) 0 ++ littleEndian (8*m.length) 8

def words : List UInt8 → List UInt32
  | a :: b :: c :: d :: rest => UInt32.ofNat
      (((d.toNat*256+c.toNat)*256+b.toNat)*256+a.toNat) :: words rest
  | _ => []

def blocks : ℕ → List UInt32 → List (List UInt32)
  | 0, _ => []
  | n+1, ws => ws.take 16 :: blocks n (ws.drop 16)

def Regs.bytes (r : Regs) : List UInt8 :=
  [r.a, r.b, r.c, r.d].flatMap fun w => littleEndian w.toNat 4

def md5 (m : List UInt8) : List UInt8 :=
  let ws := words (pad m)
  ((blocks (ws.length/16) ws).foldl compress initial).bytes

example : md5 [0x61, 0x62, 0x63] =
    [0x90, 0x01, 0x50, 0x98, 0x3c, 0xd2, 0x4f, 0xb0, 0xd6, 0x96, 0x3f, 0x7d, 0x28, 0xe1, 0x7f, 0x72] := by
  decide +kernel

end Md5
