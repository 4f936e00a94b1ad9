/-!
Maps that keep their keys in the order in which these came first. A value that is put under a known
key takes the place of the old one.
-/

namespace FeatureTables

structure OrderedMap (κ α : Type) where
  entries : List (κ × α) := []
deriving Inhabited, DecidableEq

namespace OrderedMap

variable {κ α : Type} [DecidableEq κ]

def empty : OrderedMap κ α := {}

def get? (m : OrderedMap κ α) (k : κ) : Option α := m.entries.lookup k

def contains (m : OrderedMap κ α) (k : κ) : Bool := (m.get? k).isSome

def keys (m : OrderedMap κ α) : List κ := m.entries.map (·.1)

def values (m : OrderedMap κ α) : List α := m.entries.map (·.2)

def size (m : OrderedMap κ α) : Nat := m.entries.length

/-- Sets the value of a key in a list of entries. -/
def putIn (k : κ) (v : α) : List (κ × α) → List (κ × α)
  | [] => [(k, v)]
  | (k', v') :: es => if k' = k then (k, v) :: es else (k', v') :: putIn k v es

def put (m : OrderedMap κ α) (k : κ) (v : α) : OrderedMap κ α := ⟨putIn k v m.entries⟩

/-- Changes the value of a key, if the key is there. -/
def modify (m : OrderedMap κ α) (k : κ) (f : α → α) : OrderedMap κ α :=
  ⟨m.entries.map fun (k', v) => (k', if k' = k then f v else v)⟩

/-- Puts all entries of the second map into the first. -/
def putAll (m : OrderedMap κ α) (es : List (κ × α)) : OrderedMap κ α :=
  es.foldl (fun m (k, v) => m.put k v) m

def ofList (es : List (κ × α)) : OrderedMap κ α := putAll {} es

def mapValues {β : Type} (m : OrderedMap κ α) (f : α → β) : OrderedMap κ β :=
  ⟨m.entries.map fun (k, v) => (k, f v)⟩

/-! ### What putting changes -/

theorem lookup_cons_ite {κ α : Type} [BEq κ] [LawfulBEq κ] [DecidableEq κ] (k k' : κ) (v : α)
    (es : List (κ × α)) : ((k, v) :: es).lookup k' = if k' = k then some v else es.lookup k' := by
  rw [List.lookup_cons]
  by_cases h : k' = k
  · rw [beq_iff_eq.2 h, if_pos h]
  · rw [beq_false_of_ne h, if_neg h]

theorem lookup_putIn (k k' : κ) (v : α) (es : List (κ × α)) :
    (putIn k v es).lookup k' = if k' = k then some v else es.lookup k' := by
  induction es with
  | nil => simp [putIn, lookup_cons_ite]
  | cons e es ih =>
    obtain ⟨a, b⟩ := e
    by_cases ha : a = k
    · subst ha
      simp only [putIn, if_true, lookup_cons_ite]
      split <;> rfl
    · simp only [putIn, ha, if_false, lookup_cons_ite, ih]
      by_cases h : k' = a
      · simp [h, ha]
      · simp [h]

theorem get?_put (m : OrderedMap κ α) (k k' : κ) (v : α) :
    (m.put k v).get? k' = if k' = k then some v else m.get? k' :=
  lookup_putIn k k' v m.entries

end OrderedMap
end FeatureTables
