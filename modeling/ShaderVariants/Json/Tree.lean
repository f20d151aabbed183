import ShaderVariants.Json.Token
import ShaderVariants.Json.Value
import ShaderVariants.Decimal.Binary64

/-! JSON texts as trees of tokens. A tree follows the grammar only; `Tree.value?` is where depth,
surrogates and the range of numbers are checked. -/
namespace ShaderVariants.Json

/-- Fields stay in the order of the text, repeated keys included. -/
inductive Tree
  | null
  | bool (b : Bool)
  | number (n : Number)
  | str (units : List StringUnit)
  | arr (items : List Tree)
  | obj (fields : List (List StringUnit × Tree))
  deriving Inhabited

namespace Tree

/-- A container that is still open, with its members so far in reverse. -/
inductive Frame
  | arr (done : List Tree)
  | obj (done : List (List StringUnit × Tree)) (key : List StringUnit)

/-- What the grammar allows next. After an opening bracket a value or a key may be missing. -/
inductive Expecting
  | value (orClose : Bool)
  | key (done : List (List StringUnit × Tree)) (orClose : Bool)
  | colon (done : List (List StringUnit × Tree)) (key : List StringUnit)
  | separator (last : Tree)

/-- The open containers, the innermost first. -/
structure State where
  expecting : Expecting
  frames : List Frame

def start : State := ⟨.value false, []⟩

/-- Takes an opening bracket or a scalar where a value may stand. -/
def beginValue (frames : List Frame) : Token → Option State
  | .openArr => some ⟨.value true, .arr [] :: frames⟩
  | .openObj => some ⟨.key [] true, frames⟩
  | .null => some ⟨.separator .null, frames⟩
  | .bool b => some ⟨.separator (.bool b), frames⟩
  | .number n => some ⟨.separator (.number n), frames⟩
  | .str u => some ⟨.separator (.str u), frames⟩
  | _ => none

def step (s : State) (t : Token) : Option State :=
  match s.expecting, t, s.frames with
  | .value true, .closeArr, .arr done :: frames => some ⟨.separator (.arr done.reverse), frames⟩
  | .value _, t, frames => beginValue frames t
  | .key done true, .closeObj, frames => some ⟨.separator (.obj done.reverse), frames⟩
  | .key done _, .str k, frames => some ⟨.colon done k, frames⟩
  | .colon done k, .colon, frames => some ⟨.value false, .obj done k :: frames⟩
  | .separator v, .comma, .arr done :: frames => some ⟨.value false, .arr (v :: done) :: frames⟩
  | .separator v, .closeArr, .arr done :: frames =>
    some ⟨.separator (.arr (v :: done).reverse), frames⟩
  | .separator v, .comma, .obj done k :: frames => some ⟨.key ((k, v) :: done) false, frames⟩
  | .separator v, .closeObj, .obj done k :: frames =>
    some ⟨.separator (.obj ((k, v) :: done).reverse), frames⟩
  | _, _, _ => none

/-- The tree of a text that holds one value and nothing else. -/
def read (text : List Char) : Option Tree :=
  match (tokens text).bind (·.foldlM step start) with
  | some ⟨.separator v, []⟩ => some v
  | _ => none

end Tree

def isLowSurrogate (n : Nat) : Bool := 0xDC00 ≤ n && n < 0xE000

def isSurrogate (n : Nat) : Bool := 0xD800 ≤ n && n < 0xE000

/-- The characters that the units of a string stand for, unless a surrogate stands alone. -/
def decodeUnits : List StringUnit → Option (List Char)
  | [] => some []
  | .char c :: r => (decodeUnits r).map (c :: ·)
  | .code n :: r =>
    if isSurrogate n then
      match r with
      | .code l :: r =>
        if !isLowSurrogate n && isLowSurrogate l then
          (decodeUnits r).map
            (Char.ofNat (0x10000 + (n - 0xD800) * 0x400 + (l - 0xDC00)) :: ·)
        else none
      | _ => none
    else (decodeUnits r).map (Char.ofNat n :: ·)

def unitsText? (units : List StringUnit) : Option String :=
  (decodeUnits units).map String.ofList

def digitsValue (ds : List Char) : Nat :=
  ds.foldl (fun n c => 10 * n + (c.toNat - '0'.toNat)) 0

namespace Number

def exponentValue (n : Number) : Int :=
  match n.exponent with
  | none => 0
  | some (negative, ds) => if negative then - (digitsValue ds : Int) else digitsValue ds

/-- The nearest binary64 number, unless it is beyond the largest one. -/
def float? (n : Number) : Option Value :=
  let fraction := n.fraction.getD []
  (Decimal.bitsOfDecimal? (digitsValue (n.whole ++ fraction))
    (n.exponentValue - fraction.length)).map fun bits =>
      .float (UInt64.ofNat (if n.negative then Decimal.signBit + bits else bits))

/-- Digits alone are an integer if 64 bits hold it; minus zero is not one. -/
def value? (n : Number) : Option Value :=
  if n.fraction = none ∧ n.exponent = none then
    let w := digitsValue n.whole
    if n.negative then
      if 0 < w ∧ w ≤ 0x8000000000000000 then some (.int (-w)) else n.float?
    else if w ≤ 0xFFFFFFFFFFFFFFFF then some (.int w) else n.float?
  else n.float?

end Number

namespace Tree

mutual

/-- The value of a tree with at most `depth` containers inside each other. -/
def value? (depth : Nat) : Tree → Option Value
  | null => some .null
  | bool b => some (.bool b)
  | number n => n.value?
  | str u => (unitsText? u).map .str
  | arr items =>
    if depth = 0 then none else (itemValues? (depth - 1) items).map .arr
  | obj fields =>
    if depth = 0 then none
    else (fieldValues? (depth - 1) fields).map fun fs => .obj (Keyed.ofList fs)

def itemValues? (depth : Nat) : List Tree → Option (List Value)
  | [] => some []
  | t :: ts => (value? depth t).bind fun v => (itemValues? depth ts).map (v :: ·)

def fieldValues? (depth : Nat) : List (List StringUnit × Tree) → Option Fields
  | [] => some []
  | (k, t) :: ts => (unitsText? k).bind fun k => (value? depth t).bind fun v =>
    (fieldValues? depth ts).map ((k, v) :: ·)

end

/-- The text of a string tree. -/
def text? : Tree → Option String
  | str u => unitsText? u
  | _ => none

/-- Whether a tree is the name of a choice: the string, or an object with that one key and the
value `null`. -/
def choiceName? : Tree → Option String
  | str u => unitsText? u
  | obj [(k, null)] => unitsText? k
  | _ => none

/-- The first choice whose name the tree is. -/
def choice? {α : Type} (name : α → String) (choices : List α) (t : Tree) : Option α :=
  t.choiceName?.bind fun s => choices.find? fun a => name a = s

/-- The fields of an object with decoded keys, or `none` for any other tree. -/
def fields? : Tree → Option (List (String × Tree))
  | obj fields => fields.mapM fun p => (unitsText? p.1).map (·, p.2)
  | _ => none

end Tree

end ShaderVariants.Json
