import Mathlib.Data.List.Basic
import FeatureTables.Proofs.Geometry.Wkt

/-!
The texts of shapes, read again. The text of a shape is read as the tree of the shape (`read?_wkt`),
whatever its numbers are. This is the tree of a geometry of the name of the shape (`isGeometry_node`,
`name_node`), and its tuples are the positions of the shape (`tuples_node`).
-/

namespace FeatureTables

open Number

/-! ### The trees of shapes -/

namespace Shape

open Wkt
open Wkt.Node (isTuple isPosition isSequence isSeries isBody areGeometries_iff)

def tupleNode (c : Coord) : Node := .tuple (c.map Binary64.plain)

/-- Parts of a shape in parentheses. -/
def listNode {α : Type} (partNode : α → Node) (parts : List α) : Node := .list [] (parts.map partNode)

/-- The words in front of the parts of a shape. -/
def headWords (dimension : Nat) (name : String) : List String :=
  if dimension = 3 then [name, "Z"] else [name]

mutual
/-- The tree of a shape whose positions have `dimension` numbers. -/
def node (dimension : Nat) : Shape → Node
  | point c => .list (headWords dimension "POINT") [tupleNode c]
  | line cs => .list (headWords dimension "LINESTRING") (cs.map tupleNode)
  | polygon rings => .list (headWords dimension "POLYGON") (rings.map (listNode tupleNode))
  | multiPoint cs =>
    .list (headWords dimension "MULTIPOINT") (cs.map fun c => .list [] [tupleNode c])
  | multiLine lines => .list (headWords dimension "MULTILINESTRING") (lines.map (listNode tupleNode))
  | multiPolygon polygons =>
    .list (headWords dimension "MULTIPOLYGON") (polygons.map (listNode (listNode tupleNode)))
  | collection parts => .list ["GEOMETRYCOLLECTION"] (nodes dimension parts)
def nodes (dimension : Nat) : List Shape → List Node
  | [] => []
  | s :: ss => node dimension s :: nodes dimension ss
end

mutual
/-- Lines have two positions at least and rings four, and there are parts wherever there may be several. -/
def Sound : Shape → Prop
  | point _ => True
  | line cs => 2 ≤ cs.length
  | polygon rings => rings ≠ [] ∧ ∀ cs ∈ rings, 4 ≤ cs.length
  | multiPoint cs => cs ≠ []
  | multiLine lines => lines ≠ [] ∧ ∀ cs ∈ lines, 2 ≤ cs.length
  | multiPolygon polygons =>
    polygons ≠ [] ∧ ∀ rings ∈ polygons, rings ≠ [] ∧ ∀ cs ∈ rings, 4 ≤ cs.length
  | collection parts => parts ≠ [] ∧ AllSound parts
def AllSound : List Shape → Prop
  | [] => True
  | s :: ss => Sound s ∧ AllSound ss
end

mutual
/-- The positions of a shape, in the order of its text. -/
def positions : Shape → List Coord
  | point c => [c]
  | line cs | multiPoint cs => cs
  | polygon lines | multiLine lines => lines.flatten
  | multiPolygon polygons => polygons.flatMap List.flatten
  | collection parts => positionsAmong parts
def positionsAmong : List Shape → List Coord
  | [] => []
  | s :: ss => positions s ++ positionsAmong ss
end

section Collections

variable {dimension : Nat} {parts : List Shape}

theorem wkts_eq (ss : List Shape) : wkts dimension ss = ss.map (wkt dimension) := by
  induction ss with
  | nil => rfl
  | cons s ss ih => rw [wkts, ih, List.map_cons]

theorem wkt_collection : (collection parts).wkt dimension =
    "GEOMETRYCOLLECTION " ++ listText (parts.map (wkt dimension)) := by
  rw [← wkts_eq]
  rfl

theorem listText_singleton (text : String) : listText [text] = "(" ++ text ++ ")" := by
  rw [listText, String.intercalate_singleton]

theorem wkt_point (c : Coord) :
    (point c).wkt dimension = "POINT" ++ tag dimension ++ listText [coordText c] := by
  unfold wkt
  simp only [listText_singleton, String.append_assoc]

theorem wkt_line (cs : List Coord) :
    (line cs).wkt dimension = "LINESTRING" ++ tag dimension ++ listText (cs.map coordText) := by
  unfold wkt
  rfl

theorem wkt_polygon (rings : List (List Coord)) :
    (polygon rings).wkt dimension = "POLYGON" ++ tag dimension ++ listText (rings.map lineText) := by
  unfold wkt
  rfl

theorem wkt_multiPoint (cs : List Coord) : (multiPoint cs).wkt dimension =
    "MULTIPOINT" ++ tag dimension ++ listText (cs.map fun c => "(" ++ coordText c ++ ")") := by
  unfold wkt
  rfl

theorem wkt_multiLine (lines : List (List Coord)) : (multiLine lines).wkt dimension =
    "MULTILINESTRING" ++ tag dimension ++ listText (lines.map lineText) := by
  unfold wkt
  rfl

theorem wkt_multiPolygon (polygons : List (List (List Coord))) :
    (multiPolygon polygons).wkt dimension =
      "MULTIPOLYGON" ++ tag dimension ++ listText (polygons.map polygonText) := by
  unfold wkt
  rfl

theorem nodes_eq (ss : List Shape) : nodes dimension ss = ss.map (node dimension) := by
  induction ss with
  | nil => rfl
  | cons s ss ih => rw [nodes, ih, List.map_cons]

theorem node_collection : (collection parts).node dimension =
    .list ["GEOMETRYCOLLECTION"] (parts.map (node dimension)) := by
  rw [node, nodes_eq]

theorem allSound_iff {ss : List Shape} : AllSound ss ↔ ∀ s ∈ ss, Sound s := by
  induction ss with
  | nil => simp [AllSound]
  | cons s ss ih => rw [AllSound, ih, List.forall_mem_cons]

theorem sound_collection : (collection parts).Sound ↔ parts ≠ [] ∧ ∀ s ∈ parts, s.Sound := by
  rw [Sound, allSound_iff]

theorem positions_collection : (collection parts).positions = parts.flatMap positions := by
  rw [positions]
  induction parts with
  | nil => rfl
  | cons s ss ih => rw [positionsAmong, ih, List.flatMap_cons]

end Collections

/-- A shape that is no collection. -/
def IsSimple : Shape → Prop
  | collection _ => False
  | _ => True

mutual
theorem induct {P : Shape → Prop} (hsimple : ∀ s, s.IsSimple → P s)
    (hcollection : ∀ parts, (∀ s ∈ parts, P s) → P (collection parts)) : ∀ s, P s
  | collection parts => hcollection parts (induct_parts hsimple hcollection parts)
  | point c => hsimple (point c) trivial
  | line cs => hsimple (line cs) trivial
  | polygon rings => hsimple (polygon rings) trivial
  | multiPoint cs => hsimple (multiPoint cs) trivial
  | multiLine lines => hsimple (multiLine lines) trivial
  | multiPolygon polygons => hsimple (multiPolygon polygons) trivial
theorem induct_parts {P : Shape → Prop} (hsimple : ∀ s, s.IsSimple → P s)
    (hcollection : ∀ parts, (∀ s ∈ parts, P s) → P (collection parts)) :
    ∀ ss : List Shape, ∀ s ∈ ss, P s
  | [] => by simp
  | s :: ss => List.forall_mem_cons.2
    ⟨induct hsimple hcollection s, induct_parts hsimple hcollection ss⟩
end

/-! ### The text of a shape is read as its tree -/

section Reading

variable {dimension : Nat} {s : Shape}

theorem mark?_eq_none {c : Char} (h : c.isAlphanum = true ∨ c = '.' ∨ c = '-') : mark? c = none := by
  unfold mark?
  split <;> simp_all

theorem lexes_coordText (c : Coord) : Lexes (coordText c).toList (tupleNode c).tokens := by
  have hword : ∀ x ∈ c, Lexes x.plain.toList [.word x.plain] := by
    intro x _
    obtain ⟨hne, hplain⟩ := x.mem_plain
    have hisWord := isWord_iff.2 ⟨hne, fun c hc => mark?_eq_none (hplain c hc)⟩
    simpa using lexes_word hisWord
  have hwords : Lexes (coordText c).toList ([].intercalate (c.map fun x => [.word x.plain])) :=
    lexes_intercalate (fun {a b ts vs} ha hb => by simpa using ha.mark (c := ' ') rfl hb) hword
  have hmap : ∀ xs : List Binary64,
      [].intercalate (xs.map fun x => [Token.word x.plain]) = xs.map fun x => .word x.plain := by
    intro xs
    induction xs with
    | nil => rfl
    | cons x xs ih => cases xs <;> simp_all
  rw [hmap] at hwords
  simpa [tupleNode, Node.tokens, Function.comp_def] using hwords

section Lists

variable {α : Type} {text : α → String} {partNode : α → Node} {parts : List α}

theorem lexes_listNode (h : ∀ x ∈ parts, Lexes (text x).toList (partNode x).tokens) :
    Lexes (listText (parts.map text)).toList (listNode partNode parts).tokens := by
  rw [listNode, Node.tokens_list, List.map_map]
  exact lexes_listText h

theorem lexes_named (dimension : Nat) (name : String) (hname : isWord name.toList = true)
    (h : ∀ x ∈ parts, Lexes (text x).toList (partNode x).tokens) :
    Lexes (name ++ tag dimension ++ listText (parts.map text)).toList
      (Node.list (headWords dimension name) (parts.map partNode)).tokens := by
  have hlist := lexes_listNode h
  have hword := lexes_word hname
  rw [String.ofList_toList] at hword
  rw [Node.tokens_list, List.map_map]
  rw [listNode, Node.tokens_list, List.map_map] at hlist
  unfold tag headWords
  split
  · have hz : Lexes ['Z'] [.word "Z"] := lexes_word (by decide)
    simpa using hword.mark (c := ' ') rfl (hz.mark (c := ' ') rfl hlist)
  · simpa using hword.mark (c := ' ') rfl hlist

end Lists

theorem lexes_wkt (dimension : Nat) (s : Shape) :
    Lexes (s.wkt dimension).toList (s.node dimension).tokens := by
  have hcoord : ∀ cs : List Coord, ∀ c ∈ cs, Lexes (coordText c).toList (tupleNode c).tokens :=
    fun _ c _ => lexes_coordText c
  have hline : ∀ lines : List (List Coord), ∀ cs ∈ lines,
      Lexes (lineText cs).toList (listNode tupleNode cs).tokens :=
    fun _ cs _ => lexes_listNode (hcoord cs)
  have hpolygon : ∀ polygons : List (List (List Coord)), ∀ rings ∈ polygons,
      Lexes (polygonText rings).toList (listNode (listNode tupleNode) rings).tokens :=
    fun _ rings _ => lexes_listNode (hline rings)
  have hposition : ∀ cs : List Coord, ∀ c ∈ cs,
      Lexes ("(" ++ coordText c ++ ")").toList (Node.list [] [tupleNode c]).tokens := by
    intro _ c _
    have h := lexes_listNode (hcoord [c])
    rwa [List.map_singleton, listText_singleton] at h
  -- each text is rewritten to that of a named list, since unification would open the literals of names
  induction s using induct with
  | hcollection parts ih =>
    rw [wkt_collection, node_collection]
    exact lexes_named 2 "GEOMETRYCOLLECTION" (by decide) ih
  | hsimple s hs =>
    cases s with
    | collection parts => exact hs.elim
    | point c =>
      have h := lexes_named dimension "POINT" (by decide) (hcoord [c])
      rwa [List.map_singleton, ← wkt_point] at h
    | line cs =>
      rw [wkt_line]
      exact lexes_named dimension "LINESTRING" (by decide) (hcoord cs)
    | polygon rings =>
      rw [wkt_polygon]
      exact lexes_named dimension "POLYGON" (by decide) (hline rings)
    | multiPoint cs =>
      rw [wkt_multiPoint]
      exact lexes_named dimension "MULTIPOINT" (by decide) (hposition cs)
    | multiLine lines =>
      rw [wkt_multiLine]
      exact lexes_named dimension "MULTILINESTRING" (by decide) (hline lines)
    | multiPolygon polygons =>
      rw [wkt_multiPolygon]
      exact lexes_named dimension "MULTIPOLYGON" (by decide) (hpolygon polygons)

theorem full_named {α : Type} {head : List String} {partNode : α → Node} {parts : List α}
    (hne : parts ≠ []) (h : ∀ x ∈ parts, (partNode x).Full) :
    (Node.list head (parts.map partNode)).Full :=
  Node.full_list.2 ⟨by simpa using hne, by simpa using h⟩

theorem full_node (dimension : Nat) (h : s.Sound) : (s.node dimension).Full := by
  have htuple : ∀ c, (tupleNode c).Full := fun _ => trivial
  have hline : ∀ {least : Nat} {cs : List Coord}, 0 < least → least ≤ cs.length →
      (listNode tupleNode cs).Full :=
    fun hpos hcs => full_named (List.ne_nil_of_length_pos (by omega)) fun c _ => htuple c
  induction s using induct with
  | hcollection parts ih =>
    obtain ⟨hne, hparts⟩ := sound_collection.1 h
    rw [node_collection]
    exact full_named hne fun s hs => ih s hs (hparts s hs)
  | hsimple s hs =>
    cases s with
    | collection parts => exact hs.elim
    | point c => exact full_named (List.cons_ne_nil c []) fun c _ => htuple c
    | line cs =>
      exact full_named (List.ne_nil_of_length_pos (Nat.lt_of_lt_of_le (by decide) h))
        fun c _ => htuple c
    | polygon rings => exact full_named h.1 fun cs hcs => hline (by decide) (h.2 cs hcs)
    | multiPoint cs =>
      exact full_named h fun c _ => full_named (List.cons_ne_nil c []) fun c _ => htuple c
    | multiLine lines => exact full_named h.1 fun cs hcs => hline (by decide) (h.2 cs hcs)
    | multiPolygon polygons =>
      refine full_named h.1 fun rings hrings => ?_
      obtain ⟨hne, hrings⟩ := h.2 rings hrings
      exact full_named hne fun cs hcs => hline (by decide) (hrings cs hcs)

/-- The text of a shape is read as the tree of the shape, whatever the numbers in it are. -/
theorem read?_wkt (dimension : Nat) (h : s.Sound) :
    read? (s.wkt dimension) = some (s.node dimension) := by
  have hread := readBack (full_node dimension h)
    (2 * (s.node dimension).tokens.length + 1) [] (by omega) (Or.inl rfl)
  rw [List.append_nil] at hread
  rw [read?, (lexes_wkt dimension s).tokens, hread]

/-! ### What the tree of a shape holds -/

theorem flatMap_ne_nil {α : Type} {parts : List α} {positionsOf : α → List Coord} (hne : parts ≠ [])
    (h : ∀ x ∈ parts, positionsOf x ≠ []) : parts.flatMap positionsOf ≠ [] := by
  obtain ⟨x, hx⟩ := List.exists_mem_of_ne_nil parts hne
  exact fun hnil => h x hx (List.flatMap_eq_nil_iff.1 hnil x hx)

theorem positions_ne_nil (h : s.Sound) : s.positions ≠ [] := by
  have hlines : ∀ {least : Nat} {lines : List (List Coord)}, 0 < least → lines ≠ [] →
      (∀ cs ∈ lines, least ≤ cs.length) → lines.flatten ≠ [] := by
    intro least lines hpos hne hlength
    rw [← List.flatMap_id]
    refine flatMap_ne_nil hne fun cs hcs => List.ne_nil_of_length_pos ?_
    have := hlength cs hcs
    exact (by omega : 0 < cs.length)
  induction s using induct with
  | hcollection parts ih =>
    obtain ⟨hne, hparts⟩ := sound_collection.1 h
    rw [positions_collection]
    exact flatMap_ne_nil hne fun s hs => ih s hs (hparts s hs)
  | hsimple s hs =>
    cases s with
    | collection parts => exact hs.elim
    | point c => exact List.cons_ne_nil c []
    | line cs => exact List.ne_nil_of_length_pos (Nat.lt_of_lt_of_le (by decide) h)
    | multiPoint cs => exact h
    | polygon lines | multiLine lines => exact hlines (by decide) h.1 h.2
    | multiPolygon polygons =>
      exact flatMap_ne_nil h.1 fun rings hrings =>
        hlines (by decide) (h.2 rings hrings).1 (h.2 rings hrings).2

/-- The words of positions in the text. -/
def plainWords (cs : List Coord) : List (List String) := cs.map (·.map Binary64.plain)

theorem tuples_named {α : Type} {head : List String} {partNode : α → Node} {parts : List α}
    (positionsOf : α → List Coord) (h : ∀ x ∈ parts, (partNode x).tuples = plainWords (positionsOf x)) :
    (Node.list head (parts.map partNode)).tuples = plainWords (parts.flatMap positionsOf) := by
  rw [Node.tuples_list, List.flatMap_map, plainWords, List.map_flatMap]
  exact List.flatMap_congr h

theorem tuples_node (dimension : Nat) (s : Shape) :
    (s.node dimension).tuples = plainWords s.positions := by
  have htuples : ∀ (cs : List Coord) (head : List String),
      (Node.list head (cs.map tupleNode)).tuples = plainWords cs :=
    fun cs head => (tuples_named (fun c => [c]) fun c _ => rfl).trans
      (congrArg plainWords (List.flatMap_singleton' cs))
  have hlines : ∀ (lines : List (List Coord)) (head : List String),
      (Node.list head (lines.map (listNode tupleNode))).tuples = plainWords lines.flatten := by
    intro lines head
    rw [← List.flatMap_id]
    exact tuples_named id fun cs _ => htuples cs []
  induction s using induct with
  | hcollection parts ih =>
    rw [node_collection, positions_collection]
    exact tuples_named positions ih
  | hsimple s hs =>
    cases s with
    | collection parts => exact hs.elim
    | point c => exact htuples [c] _
    | line cs => exact htuples cs _
    | polygon lines | multiLine lines => exact hlines lines _
    | multiPoint cs =>
      exact (tuples_named (fun c => [c]) fun c _ => htuples [c] []).trans
        (congrArg plainWords (List.flatMap_singleton' cs))
    | multiPolygon polygons => exact tuples_named List.flatten fun rings _ => hlines rings []

section Parts

variable {ok : List String → Bool} {cs : List Coord}

theorem isPosition_node {c : Coord} :
    isPosition ok (listNode tupleNode [c]) = true ↔ ∀ x ∈ [c], ok (x.map Binary64.plain) = true := by
  rw [List.forall_mem_singleton]
  rfl

theorem isSequence_node {least : Nat} : isSequence least ok (listNode tupleNode cs) = true ↔
    least ≤ cs.length ∧ ∀ c ∈ cs, ok (c.map Binary64.plain) = true := by
  simp [isSequence, listNode, tupleNode, isTuple]

theorem isSeries_node {α : Type} {isPart : Node → Bool} {partNode : α → Node} {parts : List α}
    {positionsOf : α → List Coord} (hne : parts ≠ [])
    (h : ∀ x ∈ parts, (isPart (partNode x) = true ↔
      ∀ c ∈ positionsOf x, ok (c.map Binary64.plain) = true)) :
    isSeries isPart (listNode partNode parts) = true ↔
      ∀ c ∈ parts.flatMap positionsOf, ok (c.map Binary64.plain) = true := by
  have hparts : isSeries isPart (listNode partNode parts) = true ↔
      ∀ x ∈ parts, isPart (partNode x) = true := by
    simp [isSeries, listNode, hne]
  rw [hparts, List.forall_mem_flatMap]
  exact forall₂_congr h

/-- Lines and rings that are long enough. -/
theorem isSequences_node {least : Nat} {lines : List (List Coord)} (hne : lines ≠ [])
    (hlength : ∀ cs ∈ lines, least ≤ cs.length) :
    isSeries (isSequence least ok) (listNode (listNode tupleNode) lines) = true ↔
      ∀ c ∈ lines.flatten, ok (c.map Binary64.plain) = true := by
  rw [← List.flatMap_id]
  exact isSeries_node hne fun cs hcs => isSequence_node.trans (and_iff_right (hlength cs hcs))

end Parts

/-- The tree of a sound shape is that of a geometry, up to what is asked of its tuples. -/
theorem isGeometry_node {ok : Nat → List String → Bool} (hdimension : dimension = 2 ∨ dimension = 3)
    (h : s.Sound) : (s.node dimension).isGeometry ok = true ↔
      ∀ c ∈ s.positions, ok dimension (c.map Binary64.plain) = true := by
  have hbody : ∀ name parts, name ≠ "GEOMETRYCOLLECTION" →
      (Node.list (headWords dimension name) parts).isGeometry ok =
        isBody (ok dimension) name (.list [] parts) := by
    intro name parts hname
    rcases hdimension with rfl | rfl <;> simp [headWords, Node.isGeometry, hname]
  induction s using induct with
  | hcollection parts ih =>
    obtain ⟨hne, hparts⟩ := sound_collection.1 h
    have hempty : (!(parts.map (node dimension)).isEmpty) = true := by simpa using hne
    rw [node_collection, positions_collection, Node.isGeometry, if_pos rfl, hempty, Bool.true_and,
      areGeometries_iff, List.forall_mem_map, List.forall_mem_flatMap]
    exact forall₂_congr fun s hs => ih s hs (hparts s hs)
  | hsimple s hs =>
    cases s with
    | collection parts => exact hs.elim
    | point c =>
      rw [node, hbody _ _ (by decide)]
      exact isPosition_node
    | line cs =>
      rw [node, hbody _ _ (by decide)]
      exact isSequence_node.trans (and_iff_right h)
    | polygon lines | multiLine lines =>
      rw [node, hbody _ _ (by decide)]
      exact isSequences_node h.1 h.2
    | multiPoint cs =>
      rw [node, hbody _ _ (by decide)]
      have hposition : ∀ c ∈ cs, (isPosition (ok dimension) (listNode tupleNode [c]) = true ↔
          ∀ x ∈ [c], ok dimension (x.map Binary64.plain) = true) := fun c _ => isPosition_node
      have hseries := isSeries_node h hposition
      rwa [List.flatMap_singleton'] at hseries
    | multiPolygon polygons =>
      rw [node, hbody _ _ (by decide)]
      exact isSeries_node h.1 fun rings hrings =>
        isSequences_node (h.2 rings hrings).1 (h.2 rings hrings).2

theorem tag_node (hdimension : dimension = 2 ∨ dimension = 3) (h : s.Sound) (k : Nat) :
    (s.node dimension).isGeometry (fun d _ => d == k) = true ↔ dimension = k := by
  rw [isGeometry_node hdimension h]
  obtain ⟨c, hc⟩ := List.exists_mem_of_ne_nil _ (positions_ne_nil h)
  exact ⟨fun hall => eq_of_beq (hall c hc), fun heq _ _ => beq_iff_eq.2 heq⟩

/-- The name that the text of a shape starts with. -/
def typeName : Shape → String
  | point _ => "POINT"
  | line _ => "LINESTRING"
  | polygon _ => "POLYGON"
  | multiPoint _ => "MULTIPOINT"
  | multiLine _ => "MULTILINESTRING"
  | multiPolygon _ => "MULTIPOLYGON"
  | collection _ => "GEOMETRYCOLLECTION"

theorem name_node (dimension : Nat) (s : Shape) : (s.node dimension).name = s.typeName := by
  have hname : ∀ name parts, (Node.list (headWords dimension name) parts).name = name := by
    intro name parts
    unfold headWords
    split <;> rfl
  cases s with
  | collection parts => rfl
  | _ => exact hname _ _

end Reading

end Shape
end FeatureTables
