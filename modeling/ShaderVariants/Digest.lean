import ShaderVariants.Text.Hex

/-! Digests of byte strings: 128-bit XXH3 without a seed. Inputs up to 16, up to 240 and above 240
bytes are mixed in different ways. -/
namespace ShaderVariants

structure Digest where
  high : UInt64
  low : UInt64
  deriving DecidableEq, Inhabited

namespace Digest

def secret : Array UInt8 :=
  #[0xB8, 0xFE, 0x6C, 0x39, 0x23, 0xA4, 0x4B, 0xBE, 0x7C, 0x01, 0x81, 0x2C, 0xF7, 0x21, 0xAD, 0x1C,
   0xDE, 0xD4, 0x6D, 0xE9, 0x83, 0x90, 0x97, 0xDB, 0x72, 0x40, 0xA4, 0xA4, 0xB7, 0xB3, 0x67, 0x1F,
   0xCB, 0x79, 0xE6, 0x4E, 0xCC, 0xC0, 0xE5, 0x78, 0x82, 0x5A, 0xD0, 0x7D, 0xCC, 0xFF, 0x72, 0x21,
   0xB8, 0x08, 0x46, 0x74, 0xF7, 0x43, 0x24, 0x8E, 0xE0, 0x35, 0x90, 0xE6, 0x81, 0x3A, 0x26, 0x4C,
   0x3C, 0x28, 0x52, 0xBB, 0x91, 0xC3, 0x00, 0xCB, 0x88, 0xD0, 0x65, 0x8B, 0x1B, 0x53, 0x2E, 0xA3,
   0x71, 0x64, 0x48, 0x97, 0xA2, 0x0D, 0xF9, 0x4E, 0x38, 0x19, 0xEF, 0x46, 0xA9, 0xDE, 0xAC, 0xD8,
   0xA8, 0xFA, 0x76, 0x3F, 0xE3, 0x9C, 0x34, 0x3F, 0xF9, 0xDC, 0xBB, 0xC7, 0xC7, 0x0B, 0x4F, 0x1D,
   0x8A, 0x51, 0xE0, 0x4B, 0xCD, 0xB4, 0x59, 0x31, 0xC8, 0x9F, 0x7E, 0xC9, 0xD9, 0x78, 0x73, 0x64,
   0xEA, 0xC5, 0xAC, 0x83, 0x34, 0xD3, 0xEB, 0xC3, 0xC5, 0x81, 0xA0, 0xFF, 0xFA, 0x13, 0x63, 0xEB,
   0x17, 0x0D, 0xDD, 0x51, 0xB7, 0xF0, 0xDA, 0x49, 0xD3, 0x16, 0x55, 0x26, 0x29, 0xD4, 0x68, 0x9E,
   0x2B, 0x16, 0xBE, 0x58, 0x7D, 0x47, 0xA1, 0xFC, 0x8F, 0xF8, 0xB8, 0xD1, 0x7A, 0xD0, 0x31, 0xCE,
   0x45, 0xCB, 0x3A, 0x8F, 0x95, 0x16, 0x04, 0x28, 0xAF, 0xD7, 0xFB, 0xCA, 0xBB, 0x4B, 0x40, 0x7E]

def prime32A : UInt64 := 0x9E3779B1
def prime32B : UInt64 := 0x85EBCA77
def prime32C : UInt64 := 0xC2B2AE3D
def primeA : UInt64 := 0x9E3779B185EBCA87
def primeB : UInt64 := 0xC2B2AE3D27D4EB4F
def primeC : UInt64 := 0x165667B19E3779F9
def primeD : UInt64 := 0x85EBCA77C2B2AE63
def primeE : UInt64 := 0x27D4EB2F165667C5

/-- The little-endian number in the `n` bytes from `i`. -/
def readBytes (bytes : Array UInt8) (i n : Nat) : UInt64 :=
  (List.range n).foldr (fun k w => w <<< 8 ||| (bytes.getD (i + k) 0).toUInt64) 0

def word (bytes : Array UInt8) (i : Nat) : UInt64 := readBytes bytes i 8

def half (bytes : Array UInt8) (i : Nat) : UInt64 := readBytes bytes i 4

def secretWord (i : Nat) : UInt64 := word secret i

def lowHalf (w : UInt64) : UInt64 := w &&& 0xFFFFFFFF

/-- The bytes of the lowest `n` in reverse. -/
def swapBytes (n : Nat) (w : UInt64) : UInt64 :=
  (List.range n).foldl (fun r k => r <<< 8 ||| (w >>> (8 * k).toUInt64 &&& 0xFF)) 0

/-- The 128-bit product of two words. -/
def product (a b : UInt64) : Digest :=
  let p := a.toNat * b.toNat
  ⟨UInt64.ofNat (p >>> 64), UInt64.ofNat p⟩

def foldedProduct (a b : UInt64) : UInt64 :=
  let p := product a b
  p.low ^^^ p.high

def avalanche (h : UInt64) : UInt64 :=
  let h := (h ^^^ h >>> 37) * 0x165667919E3779F9
  h ^^^ h >>> 32

def strongAvalanche (h : UInt64) : UInt64 :=
  let h := (h ^^^ h >>> 33) * primeB
  let h := (h ^^^ h >>> 29) * primeC
  h ^^^ h >>> 32

def ofNone : Digest :=
  ⟨strongAvalanche (secretWord 80 ^^^ secretWord 88),
    strongAvalanche (secretWord 64 ^^^ secretWord 72)⟩

/-- One to three bytes: the first, the middle, the last and the length. -/
def ofTiny (bytes : Array UInt8) : Digest :=
  let n := bytes.size
  let byte (i : Nat) := (bytes.getD i 0).toUInt64
  let low := byte 0 <<< 16 ||| byte (n / 2) <<< 24 ||| byte (n - 1) ||| n.toUInt64 <<< 8
  let swapped := swapBytes 4 low
  let high := lowHalf (swapped <<< 13) ||| swapped >>> 19
  ⟨strongAvalanche (high ^^^ (half secret 8 ^^^ half secret 12)),
    strongAvalanche (low ^^^ (half secret 0 ^^^ half secret 4))⟩

/-- Four to eight bytes: the first and the last four. -/
def ofSmall (bytes : Array UInt8) : Digest :=
  let n := bytes.size
  let input := half bytes 0 ||| half bytes (n - 4) <<< 32
  let m := product (input ^^^ (secretWord 16 ^^^ secretWord 24)) (primeA + n.toUInt64 <<< 2)
  let high := m.high + m.low <<< 1
  let low := m.low ^^^ high >>> 3
  let low := (low ^^^ low >>> 35) * 0x9FB21C651E98DF25
  ⟨avalanche high, low ^^^ low >>> 28⟩

/-- Nine to sixteen bytes: the first and the last eight. -/
def ofMiddling (bytes : Array UInt8) : Digest :=
  let n := bytes.size
  let first := word bytes 0
  let last := word bytes (n - 8)
  let m := product (first ^^^ last ^^^ (secretWord 32 ^^^ secretWord 40)) primeA
  let low := m.low + (n - 1).toUInt64 <<< 54
  let last := last ^^^ (secretWord 48 ^^^ secretWord 56)
  let high := m.high + last + lowHalf last * (prime32B - 1)
  let h := product (low ^^^ swapBytes 8 high) primeB
  ⟨avalanche (h.high + high * primeB), avalanche h.low⟩

def mixPair (bytes : Array UInt8) (i key : Nat) : UInt64 :=
  foldedProduct (word bytes i ^^^ secretWord key) (word bytes (i + 8) ^^^ secretWord (key + 8))

/-- Mixes the sixteen bytes from `i` and those from `j` into an accumulator. -/
def mixChunks (bytes : Array UInt8) (acc : Digest) (i j key : Nat) : Digest :=
  ⟨(acc.high + mixPair bytes j (key + 16)) ^^^ (word bytes i + word bytes (i + 8)),
    (acc.low + mixPair bytes i key) ^^^ (word bytes j + word bytes (j + 8))⟩

def finish (acc : Digest) (n : Nat) : Digest :=
  ⟨0 - avalanche (acc.low * primeA + acc.high * primeD + n.toUInt64 * primeB),
    avalanche (acc.low + acc.high)⟩

/-- 17 to 128 bytes: chunks from both ends, the inner ones first. -/
def ofMedium (bytes : Array UInt8) : Digest :=
  let n := bytes.size
  let rounds := ((List.range 4).filter fun r => r = 0 ∨ 32 * r < n).reverse
  let acc := rounds.foldl
    (fun acc r => mixChunks bytes acc (16 * r) (n - 16 * (r + 1)) (32 * r))
    ⟨0, n.toUInt64 * primeA⟩
  finish acc n

/-- 129 to 240 bytes: chunks from the front, with the last 32 bytes once more. -/
def ofLarge (bytes : Array UInt8) : Digest :=
  let n := bytes.size
  let mix (key : Nat → Nat) (acc : Digest) (r : Nat) :=
    mixChunks bytes acc (32 * r) (32 * r + 16) (key r)
  let acc := (List.range 4).foldl (mix (32 * ·)) ⟨0, n.toUInt64 * primeA⟩
  let acc : Digest := ⟨avalanche acc.high, avalanche acc.low⟩
  let later := (List.range (n / 32)).drop 4
  let acc := later.foldl (mix fun r => 3 + 32 * (r - 4)) acc
  finish (mixChunks bytes acc (n - 16) (n - 32) 103) n

/-- The eight lanes of a long input. -/
abbrev Lanes := List UInt64

def startLanes : Lanes :=
  [prime32C, primeA, primeB, primeC, primeD, prime32B, primeE, prime32A]

/-- Takes the 64 bytes from `i` into the lanes; a word itself goes to the neighbour lane. -/
def takeStripe (bytes : Array UInt8) (lanes : Lanes) (i key : Nat) : Lanes :=
  lanes.mapIdx fun k (lane : UInt64) =>
    let keyed := word bytes (i + 8 * k) ^^^ secretWord (key + 8 * k)
    let neighbour := if k % 2 = 0 then k + 1 else k - 1
    lane + word bytes (i + 8 * neighbour) + lowHalf keyed * (keyed >>> 32)

def takeStripes (bytes : Array UInt8) (lanes : Lanes) (start count : Nat) : Lanes :=
  (List.range count).foldl
    (fun lanes s => takeStripe bytes lanes (start + 64 * s) (8 * s)) lanes

def scramble (lanes : Lanes) : Lanes :=
  lanes.mapIdx fun k (lane : UInt64) => (lane ^^^ lane >>> 47 ^^^ secretWord (128 + 8 * k)) * prime32A

def mergeLanes (lanes : Lanes) (start : UInt64) (key : Nat) : UInt64 :=
  let lane (k : Nat) := lanes.getD k 0 ^^^ secretWord (key + 8 * k)
  avalanche ((List.range 4).foldl
    (fun sum k => sum + foldedProduct (lane (2 * k)) (lane (2 * k + 1))) start)

/-- More than 240 bytes: blocks of sixteen stripes, the stripes of the last block, and the last
64 bytes once more. -/
def ofLong (bytes : Array UInt8) : Digest :=
  let n := bytes.size
  let blocks := (n - 1) / 1024
  let lanes := (List.range blocks).foldl
    (fun lanes b => scramble (takeStripes bytes lanes (1024 * b) 16)) startLanes
  let lanes := takeStripes bytes lanes (1024 * blocks) ((n - 1 - 1024 * blocks) / 64)
  let lanes := takeStripe bytes lanes (n - 64) 121
  ⟨mergeLanes lanes (~~~ (n.toUInt64 * primeB)) 117, mergeLanes lanes (n.toUInt64 * primeA) 11⟩

/-- All 128 bits as hexadecimal digits. -/
def text (d : Digest) : String :=
  String.ofList (Text.hexPadded 16 d.high.toNat ++ Text.hexPadded 16 d.low.toNat)

def ofBytes (bytes : Array UInt8) : Digest :=
  let n := bytes.size
  if n = 0 then ofNone
  else if n ≤ 3 then ofTiny bytes
  else if n ≤ 8 then ofSmall bytes
  else if n ≤ 16 then ofMiddling bytes
  else if n ≤ 128 then ofMedium bytes
  else if n ≤ 240 then ofLarge bytes
  else ofLong bytes

end Digest
end ShaderVariants
