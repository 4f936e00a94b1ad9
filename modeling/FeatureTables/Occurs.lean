/-!
How often a part of a content model may occur. Counts are 32-bit: products stop at the largest one.
-/

namespace FeatureTables

/-- The largest count. -/
def countMax : Nat := 4294967295

/-- The product of two counts. -/
def countTimes (a b : Nat) : Nat := min (a * b) countMax

/-! ### The upper bound -/

inductive MaxOccurs where
  | bounded (n : Nat)
  | unbounded
deriving DecidableEq, Inhabited

namespace MaxOccurs

def isMany : MaxOccurs → Bool
  | bounded n => 1 < n
  | unbounded => true

/-- `count` occurrences stay within the bound. -/
def allows : MaxOccurs → Nat → Bool
  | bounded n, count => count ≤ n
  | unbounded, _ => true

/-- The bound of a part that occurs within another; zero wins over no bound. -/
def times : MaxOccurs → MaxOccurs → MaxOccurs
  | bounded a, bounded b => bounded (countTimes a b)
  | bounded a, unbounded => if a = 0 then bounded 0 else unbounded
  | unbounded, bounded b => if b = 0 then bounded 0 else unbounded
  | unbounded, unbounded => unbounded

/-- The wider of two bounds. -/
def join : MaxOccurs → MaxOccurs → MaxOccurs
  | bounded a, bounded b => bounded (max a b)
  | _, _ => unbounded

def toText : MaxOccurs → String
  | bounded n => toString n
  | unbounded => "unbounded"

end MaxOccurs

/-! ### Both bounds -/

structure Occurs where
  min : Nat
  max : MaxOccurs
deriving DecidableEq, Inhabited

namespace Occurs

def once : Occurs := ⟨1, .bounded 1⟩

/-- The bounds of a part seen from outside of the group that holds it. -/
def within (o outer : Occurs) : Occurs := ⟨countTimes o.min outer.min, o.max.times outer.max⟩

/-- The same upper bound, and nothing required. -/
def optionalized (o : Occurs) : Occurs := { o with min := 0 }

end Occurs
end FeatureTables
