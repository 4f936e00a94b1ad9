import FeatureTables.Xml.Element

/-!
What is known of the elements of a document, by their numbers.
-/

namespace FeatureTables.Xml

/-- Values by nodes; of two values of one node the first counts. -/
structure NodeMap (α : Type) where
  entries : List (NodeId × α) := []
deriving Inhabited

namespace NodeMap

variable {α : Type}

def empty : NodeMap α := {}

def get? (m : NodeMap α) (id : NodeId) : Option α := m.entries.lookup id

def put (m : NodeMap α) (id : NodeId) (v : α) : NodeMap α := ⟨(id, v) :: m.entries⟩

def ofList (es : List (NodeId × α)) : NodeMap α := es.foldl (fun m (id, v) => m.put id v) {}

@[simp] theorem get?_empty (id : NodeId) : (empty : NodeMap α).get? id = none := rfl

theorem get?_put (m : NodeMap α) (id id' : NodeId) (v : α) :
    (m.put id v).get? id' = if id' = id then some v else m.get? id' := by
  by_cases h : id' = id
  · simp [get?, put, h]
  · have : (id' == id) = false := by simpa using h
    simp [get?, put, List.lookup_cons, h, this]

end NodeMap
end FeatureTables.Xml
