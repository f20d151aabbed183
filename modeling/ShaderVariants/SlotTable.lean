/-! Tables with keys that are never issued twice. A slot that becomes free is used again in a
later round, and a key names both the slot and the round; the slot freed last is used first. -/
namespace ShaderVariants

structure SlotKey where
  index : Nat
  round : Nat
  deriving DecidableEq

/-- Tables that give a key to every item. -/
class KeyTable (T : Type → Type) where
  empty {α : Type} : T α
  /-- The key of the next item. -/
  nextKey {α : Type} (t : T α) : SlotKey
  insert {α : Type} (t : T α) (a : α) : T α
  get? {α : Type} (t : T α) (k : SlotKey) : Option α
  set {α : Type} (t : T α) (k : SlotKey) (a : α) : T α
  remove {α : Type} (t : T α) (k : SlotKey) : T α
  map {α : Type} (f : α → α) (t : T α) : T α

/-- `round` is the round of the item, or that of the next item in a free slot. -/
structure Slot (α : Type) where
  round : Nat
  item : Option α

structure SlotTable (α : Type) where
  slots : List (Slot α)
  free : List Nat

namespace SlotTable

variable {α : Type}

def empty : SlotTable α := ⟨[], []⟩

/-- The key of the next item. -/
def nextKey (t : SlotTable α) : SlotKey :=
  match t.free with
  | [] => ⟨t.slots.length, 0⟩
  | i :: _ => ⟨i, (t.slots[i]?.map (·.round)).getD 0⟩

/-- Puts an item under the next key. -/
def insert (t : SlotTable α) (a : α) : SlotTable α :=
  match t.free with
  | [] => { t with slots := t.slots ++ [⟨0, some a⟩] }
  | i :: free => ⟨t.slots.modify i fun s => { s with item := some a }, free⟩

def get? (t : SlotTable α) (k : SlotKey) : Option α :=
  match t.slots[k.index]? with
  | some s => if s.round = k.round then s.item else none
  | none => none

/-- Replaces the item of a key that is in use. -/
def set (t : SlotTable α) (k : SlotKey) (a : α) : SlotTable α :=
  match t.get? k with
  | some _ => { t with slots := t.slots.modify k.index fun s => { s with item := some a } }
  | none => t

def remove (t : SlotTable α) (k : SlotKey) : SlotTable α :=
  match t.get? k with
  | some _ => ⟨t.slots.modify k.index fun s => ⟨s.round + 1, none⟩, k.index :: t.free⟩
  | none => t

/-- The items in the order of their slots. -/
def items (t : SlotTable α) : List α := t.slots.filterMap (·.item)

def size (t : SlotTable α) : Nat := t.items.length

def map (f : α → α) (t : SlotTable α) : SlotTable α :=
  { t with slots := t.slots.map fun s => { s with item := s.item.map f } }

instance : KeyTable SlotTable := ⟨empty, nextKey, insert, get?, set, remove, map⟩

end SlotTable
end ShaderVariants
