import ShaderVariants.Text.Hex

/-! Sets of feature bits as little-endian 64-bit words. The last word is never zero, so two sets
with the same bits are equal; `contains` is the view that the operations are described by. -/
namespace ShaderVariants

structure FeatureSet where
  words : List UInt64
  last_ne_zero : words.getLast? ≠ some 0
  deriving DecidableEq

namespace FeatureSet

/-- A word in front of canonical words; a zero word in front of nothing disappears. -/
def consWord (w : UInt64) (ws : List UInt64) : List UInt64 :=
  if ws = [] ∧ w = 0 then [] else w :: ws

def trimWords (ws : List UInt64) : List UInt64 := ws.foldr consWord []

theorem getLast?_trimWords (ws : List UInt64) : (trimWords ws).getLast? ≠ some 0 := by
  induction ws with
  | nil => simp [trimWords]
  | cons w ws ih =>
    change (consWord w (trimWords ws)).getLast? ≠ some 0
    unfold consWord
    split
    · simp
    · cases h : trimWords ws with
      | nil => simp_all
      | cons v vs => simpa [h] using ih

/-- Word 0 holds bits 0 to 63. -/
def ofWords (ws : List UInt64) : FeatureSet := ⟨trimWords ws, getLast?_trimWords ws⟩

def empty : FeatureSet := ⟨[], by simp⟩

instance : Inhabited FeatureSet := ⟨empty⟩

def ofMask (mask : UInt64) : FeatureSet := ofWords [mask]

/-- Bits from here on are never inserted. -/
def bitLimit : Nat := 65536

def wordMask (bit : Nat) : UInt64 := 1 <<< (bit % 64).toUInt64

def hasBit (w : UInt64) (i : Nat) : Bool := w.toNat.testBit i

def contains (s : FeatureSet) (bit : Nat) : Bool :=
  match s.words[bit / 64]? with
  | some w => hasBit w (bit % 64)
  | none => false

/-- Replaces the word at an index by its image, after zero words up to there. -/
def alterWord (f : UInt64 → UInt64) : Nat → List UInt64 → List UInt64
  | 0, [] => [f 0]
  | 0, w :: ws => f w :: ws
  | i+1, [] => 0 :: alterWord f i []
  | i+1, w :: ws => w :: alterWord f i ws

def insert (s : FeatureSet) (bit : Nat) : FeatureSet :=
  if bit < bitLimit then ofWords (alterWord (· ||| wordMask bit) (bit / 64) s.words) else s

def remove (s : FeatureSet) (bit : Nat) : FeatureSet :=
  ofWords (s.words.modify (bit / 64) (· &&& ~~~ wordMask bit))

def ofBits (bits : List Nat) : FeatureSet := bits.foldl insert empty

/-- Drops the bits from `n` on. -/
def masked (s : FeatureSet) (n : Nat) : FeatureSet :=
  ofWords (s.words.take (n / 64) ++
    (s.words[n / 64]?.map (· &&& (wordMask (n % 64) - 1))).toList)

def union (s t : FeatureSet) : FeatureSet :=
  ofWords (List.zipWithAll (fun v w => v.getD 0 ||| w.getD 0) s.words t.words)

def wordBits (w : UInt64) : List Nat := (List.range 64).filter (hasBit w)

/-- The bits of words whose first bit has index `start`, in ascending order. -/
def bitsFrom : Nat → List UInt64 → List Nat
  | _, [] => []
  | start, w :: ws => (wordBits w).map (start + ·) ++ bitsFrom (start + 64) ws

def bits (s : FeatureSet) : List Nat := bitsFrom 0 s.words

def count (s : FeatureSet) : Nat :=
  s.words.foldr (fun w n => (List.range 64).countP (hasBit w) + n) 0

def isEmpty (s : FeatureSet) : Bool := s.words.isEmpty

/-- The words as one hexadecimal numeral, the most significant first; all but that one take
their full width. -/
def numeral (s : FeatureSet) : String :=
  match s.words.reverse with
  | [] => "0x0"
  | w :: ws => String.ofList ('0' :: 'x' :: Text.hexDigits w.toNat ++
      ws.flatMap fun v => Text.hexPadded 16 v.toNat)

/-- The bits between braces. -/
def setText (s : FeatureSet) : String :=
  "\x7b" ++ String.intercalate ", " (s.bits.map fun b => toString b) ++ "\x7d"

end FeatureSet
end ShaderVariants
