import FeatureTables.Error

/-!
The limits that keep deep, large or endless inputs out, and the four checks against them.
-/

namespace FeatureTables

structure Limits where
  /-- How deep elements may nest. -/
  depth : Nat := 1000
  /-- Bytes of a document. -/
  size : Nat := 104857600
  /-- Attributes of one element, without namespace declarations. -/
  attributes : Nat := 1000
  /-- Documents of one schema closure. -/
  schemaDocuments : Nat := 1000
deriving DecidableEq, Inhabited

namespace Limits

def strict : Limits := ⟨100, 10485760, 100, 100⟩

def permissive : Limits := ⟨10000, 1073741824, 10000, 100000⟩

/-- Fails with `excess` when `found` is above `max`. -/
def guardAtMost (found max : Nat) (excess : Nat → Nat → Excess) : Except Error Unit :=
  if max < found then .error (.limitExceeded (excess found max)) else .ok ()

def checkDepth (l : Limits) (found : Nat) : Except Error Unit := guardAtMost found l.depth .depth

def checkSize (l : Limits) (found : Nat) : Except Error Unit := guardAtMost found l.size .size

def checkAttributes (l : Limits) (found : Nat) : Except Error Unit :=
  guardAtMost found l.attributes .attributes

def checkSchemaDocuments (l : Limits) (found : Nat) : Except Error Unit :=
  guardAtMost found l.schemaDocuments .schemaDocuments

theorem guardAtMost_eq_ok_iff {found max : Nat} {excess : Nat → Nat → Excess} :
    guardAtMost found max excess = .ok () ↔ found ≤ max := by
  unfold guardAtMost
  split <;> simp <;> omega

end Limits
end FeatureTables
