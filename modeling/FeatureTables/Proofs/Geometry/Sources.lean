import Mathlib.Data.List.Flatten
import Mathlib.Data.List.Perm.Subperm
import FeatureTables.Geometry
import FeatureTables.Proofs.Geometry.Reading
import FeatureTables.Proofs.Xml.Tree

/-!
Where the positions of a shape come from. Each kind of geometry looks for its parts in its own way; the
elements of the parts it finds, down to the last one, are `taken`, and the positions of the shape are
those that they hold (`shape?_shapeOf`). Nothing is taken twice, and what is left over is below the geometry
as well (`exists_left`).
-/

namespace FeatureTables.Geometry

open Number Text Xml
open Element (inner)

/-! ### Lists that are part of others -/

section Subperm

variable {α β : Type} {xs ys : List α} {f g : α → List β}

theorem subperm_flatMap (h : xs.Subperm ys) (f : α → List β) : (xs.flatMap f).Subperm (ys.flatMap f) := by
  obtain ⟨zs, hperm, hsub⟩ := h
  exact ⟨zs.flatMap f, hperm.flatMap_right f, hsub.flatMap f⟩

theorem flatMap_subperm (h : ∀ x ∈ xs, (f x).Subperm (g x)) : (xs.flatMap f).Subperm (xs.flatMap g) := by
  induction xs with
  | nil => exact List.Subperm.refl []
  | cons x xs ih =>
    obtain ⟨hx, hxs⟩ := List.forall_mem_cons.1 h
    exact hx.append (ih hxs)

theorem exists_perm_append (h : xs.Subperm ys) : ∃ zs, ys.Perm (xs ++ zs) := by
  obtain ⟨xs', hperm, hsub⟩ := h
  obtain ⟨zs, hzs⟩ := hsub.exists_perm_append
  exact ⟨zs, hzs.trans (hperm.append_right zs)⟩

end Subperm

/-- The children of different names are different children. -/
theorem subperm_childrenNamed (e : Element) {names : List String} (h : names.Nodup) :
    (names.flatMap e.childrenNamed).Subperm e.children := by
  suffices hfilter : (names.flatMap e.childrenNamed).Subperm
      (e.children.filter (names.contains ·.localName)) from
    hfilter.trans List.filter_sublist.subperm
  induction names with
  | nil => exact List.nil_subperm
  | cons name names ih =>
    obtain ⟨hname, hnames⟩ := List.nodup_cons.1 h
    have hrest : (e.children.filter (names.contains ·.localName)).Sublist
        ((e.children.filter ((name :: names).contains ·.localName)).filter
          fun c => !(c.localName == name)) := by
      rw [List.filter_filter]
      refine List.monotone_filter_right _ fun c hc => ?_
      have hmem : c.localName ∈ names := by simpa using hc
      have hne : c.localName ≠ name := fun heq => hname (heq ▸ hmem)
      simp [hmem, hne]
    have hfirst : e.childrenNamed name =
        (e.children.filter ((name :: names).contains ·.localName)).filter (·.localName == name) := by
      rw [List.filter_filter, Element.childrenNamed]
      exact List.filter_congr fun c _ => by by_cases hc : c.localName = name <;> simp [hc]
    rw [List.flatMap_cons, hfirst]
    exact ((List.Subperm.refl _).append ((ih hnames).trans hrest.subperm)).trans
      (List.filter_append_perm _ _).subperm

/-! ### What a geometry is read from -/

/-- The elements in the members of a collection. -/
def grandchildren (e : Element) : List Element := e.children.flatMap (·.children)

/-- The elements that the rings of a polygon or of a patch are read from. -/
def ringElements (e : Element) : List Element :=
  (e.childrenNamed "exterior" ++ e.childrenNamed "outerBoundaryIs").take 1 ++
    (e.childrenNamed "interior" ++ e.childrenNamed "innerBoundaryIs")

def takenByRings (e : Element) : List Element := (ringElements e).flatMap Element.descendants

def takenByPolygon (e : Element) : List Element :=
  if e.localName = "Surface" then
    ((e.descendants.find? (·.localName == "PolygonPatch")).map takenByRings).getD []
  else takenByRings e

def takenBySimple (e : Element) : List Element :=
  match e.localName with
  | "Point" | "LineString" | "LinearRing" | "Curve" | "OrientableCurve" => e.descendants
  | "Polygon" | "Surface" | "PolygonPatch" => takenByPolygon e
  | "MultiPoint" => (members ["Point"] e).flatMap Element.descendants
  | "MultiLineString" | "MultiCurve" =>
    (members ["LineString", "Curve", "LinearRing", "OrientableCurve"] e).flatMap Element.descendants
  | "MultiPolygon" | "MultiSurface" => (members ["Polygon", "Surface"] e).flatMap takenByPolygon
  | _ => []

mutual
/-- The elements that the parts of a geometry are read from, down to the last one. -/
def taken : Element → List Element
  | ⟨id, name, attributes, text?, children, scope⟩ =>
    if name.localName = "MultiGeometry" then takenByMembers children
    else takenBySimple ⟨id, name, attributes, text?, children, scope⟩
def takenByMembers : List Element → List Element
  | [] => []
  | ⟨_, _, _, _, children, _⟩ :: members => takenByEach children ++ takenByMembers members
def takenByEach : List Element → List Element
  | [] => []
  | e :: es => taken e ++ takenByEach es
end

section Collections

variable {dimension : Nat} {e : Element} {s : Shape}

theorem induct_grandchildren {P : Element → Prop}
    (h : ∀ e, (∀ g ∈ grandchildren e, P g) → P e) (e : Element) : P e := by
  suffices hboth : P e ∧ ∀ c ∈ e.children, P c from hboth.1
  induction e using Element.induct_tree with
  | h e ih =>
    refine ⟨h e fun g hg => ?_, fun c hc => (ih c hc).1⟩
    obtain ⟨c, hc, hgc⟩ := List.mem_flatMap.1 hg
    exact (ih c hc).2 g hgc

theorem takenByEach_eq (es : List Element) : takenByEach es = es.flatMap taken := by
  induction es with
  | nil => rfl
  | cons e es ih => rw [takenByEach, ih, List.flatMap_cons]

theorem takenByMembers_eq (es : List Element) :
    takenByMembers es = (es.flatMap (·.children)).flatMap taken := by
  induction es with
  | nil => rfl
  | cons e es ih =>
    obtain ⟨id, name, attributes, text?, children, scope⟩ := e
    rw [takenByMembers, ih, takenByEach_eq, List.flatMap_cons, List.flatMap_append]

theorem taken_collection (h : e.localName = "MultiGeometry") :
    taken e = (grandchildren e).flatMap taken := by
  obtain ⟨id, name, attributes, text?, children, scope⟩ := e
  rw [taken]
  exact (if_pos h).trans (takenByMembers_eq children)

theorem taken_simple (h : e.localName ≠ "MultiGeometry") : taken e = takenBySimple e := by
  obtain ⟨id, name, attributes, text?, children, scope⟩ := e
  rw [taken]
  exact if_neg h

theorem shapes?_eq (es : List Element) : shapes? dimension es = es.mapM (shape? dimension) := by
  induction es with
  | nil => rfl
  | cons e es ih =>
    rw [shapes?, ih, List.mapM_cons]
    cases shape? dimension e <;> cases es.mapM (shape? dimension) <;> rfl

theorem memberShapes?_eq (es : List Element) :
    memberShapes? dimension es = (es.flatMap (·.children)).mapM (shape? dimension) := by
  induction es with
  | nil => rfl
  | cons e es ih =>
    obtain ⟨id, name, attributes, text?, children, scope⟩ := e
    rw [memberShapes?, ih, shapes?_eq, List.flatMap_cons, List.mapM_append]
    cases children.mapM (shape? dimension) <;>
      cases (es.flatMap (·.children)).mapM (shape? dimension) <;> rfl

theorem shape?_collection (h : e.localName = "MultiGeometry") (hs : shape? dimension e = some s) :
    ∃ parts, (grandchildren e).mapM (shape? dimension) = some parts ∧ parts ≠ [] ∧
      s = .collection parts := by
  obtain ⟨id, name, attributes, text?, children, scope⟩ := e
  rw [shape?, memberShapes?_eq] at hs
  replace hs := (if_pos h).symm.trans hs
  split at hs
  · cases hs
  · cases hs
  · next parts hne hparts => exact ⟨parts, hparts, hne, (Option.some.inj hs).symm⟩

theorem shape?_simple (h : e.localName ≠ "MultiGeometry") :
    shape? dimension e = simple? dimension e := by
  obtain ⟨id, name, attributes, text?, children, scope⟩ := e
  rw [shape?]
  exact if_neg h

end Collections

/-! ### What the positions are -/

/-- The positions that these elements hold themselves. -/
def positionsOf? (dimension : Nat) (xs : List Element) : Option (List Coord) :=
  (xs.mapM (ownPositions? dimension)).map List.flatten

/-- The positions that an element holds itself, none if they cannot be read. -/
def own (dimension : Nat) (x : Element) : List Coord := (ownPositions? dimension x).getD []

section Positions

variable {dimension : Nat} {e : Element} {xs ys : List Element} {as bs cs : List Coord}

theorem positionsOf?_cons (x : Element) (xs : List Element) : positionsOf? dimension (x :: xs) =
    (ownPositions? dimension x).bind fun as => (positionsOf? dimension xs).map (as ++ ·) := by
  rw [positionsOf?, positionsOf?, List.mapM_cons]
  cases ownPositions? dimension x <;> cases xs.mapM (ownPositions? dimension) <;> rfl

theorem positionsOf?_eq_some_iff : positionsOf? dimension xs = some cs ↔
    (∀ x ∈ xs, (ownPositions? dimension x).isSome = true) ∧ cs = xs.flatMap (own dimension) := by
  induction xs generalizing cs with
  | nil => simp [positionsOf?, eq_comm (a := [])]
  | cons x xs ih =>
    rw [positionsOf?_cons, List.forall_mem_cons, List.flatMap_cons]
    constructor
    · intro h
      obtain ⟨as, hx, h⟩ := Option.bind_eq_some_iff.1 h
      obtain ⟨bs, hxs, rfl⟩ := Option.map_eq_some_iff.1 h
      obtain ⟨hread, rfl⟩ := ih.1 hxs
      exact ⟨⟨by rw [hx]; rfl, hread⟩, by rw [own, hx]; rfl⟩
    · rintro ⟨⟨hx, hread⟩, rfl⟩
      obtain ⟨as, hx⟩ := Option.isSome_iff_exists.1 hx
      rw [hx, ih.2 ⟨hread, rfl⟩, own, hx]
      rfl

theorem positionsOf?_append (hxs : positionsOf? dimension xs = some as)
    (hys : positionsOf? dimension ys = some bs) :
    positionsOf? dimension (xs ++ ys) = some (as ++ bs) := by
  obtain ⟨hx, rfl⟩ := positionsOf?_eq_some_iff.1 hxs
  obtain ⟨hy, rfl⟩ := positionsOf?_eq_some_iff.1 hys
  exact positionsOf?_eq_some_iff.2
    ⟨List.forall_mem_append.2 ⟨hx, hy⟩, List.flatMap_append.symm⟩

theorem positionsOf?_perm (h : xs.Perm ys) (hxs : positionsOf? dimension xs = some as) :
    ∃ bs, positionsOf? dimension ys = some bs ∧ as.Perm bs := by
  obtain ⟨hread, rfl⟩ := positionsOf?_eq_some_iff.1 hxs
  exact ⟨_, positionsOf?_eq_some_iff.2 ⟨fun y hy => hread y (h.mem_iff.2 hy), rfl⟩,
    h.flatMap_right _⟩

theorem mapM_cons_eq_some {α : Type} {read : Element → Option α} {x : Element} {parts : List α} :
    (x :: xs).mapM read = some parts ↔
      ∃ a rest, read x = some a ∧ xs.mapM read = some rest ∧ parts = a :: rest := by
  rw [List.mapM_cons]
  cases read x <;> cases xs.mapM read <;> simp [eq_comm]

/-- The positions of parts that are read one by one. -/
theorem positionsOf?_flatMap {α : Type} {read : Element → Option α} {parts : List α}
    {f : Element → List Element} {g : α → List Coord} (hparts : xs.mapM read = some parts)
    (h : ∀ x ∈ xs, ∀ a, read x = some a → positionsOf? dimension (f x) = some (g a)) :
    positionsOf? dimension (xs.flatMap f) = some (parts.flatMap g) := by
  induction xs generalizing parts with
  | nil =>
    obtain rfl : [] = parts := by simpa using hparts
    rfl
  | cons x xs ih =>
    obtain ⟨a, rest, ha, hrest, rfl⟩ := mapM_cons_eq_some.1 hparts
    obtain ⟨hx, hxs⟩ := List.forall_mem_cons.1 h
    exact positionsOf?_append (hx a ha) (ih hrest hxs)

theorem exists_of_mapM {α : Type} {read : Element → Option α} {parts : List α} {a : α}
    (hparts : xs.mapM read = some parts) (ha : a ∈ parts) : ∃ x ∈ xs, read x = some a := by
  induction xs generalizing parts with
  | nil =>
    obtain rfl : [] = parts := by simpa using hparts
    cases ha
  | cons x xs ih =>
    obtain ⟨b, rest, hb, hrest, rfl⟩ := mapM_cons_eq_some.1 hparts
    rcases List.mem_cons.1 ha with rfl | ha
    · exact ⟨x, List.mem_cons_self, hb⟩
    · obtain ⟨y, hy, hread⟩ := ih hrest ha
      exact ⟨y, List.mem_cons_of_mem _ hy, hread⟩

end Positions

section Parts

variable {dimension : Nat} {e : Element} {c : Coord} {cs : List Coord} {rings : List (List Coord)}

theorem coordinates?_eq_some_iff : coordinates? dimension e = some cs ↔
    positionsOf? dimension e.descendants = some cs ∧ cs ≠ [] := by
  rw [coordinates?, positionsOf?]
  cases e.descendants.mapM (ownPositions? dimension) with
  | none => simp
  | some css =>
    change (if css.flatten.isEmpty then none else some css.flatten) = some cs ↔ _
    rw [Option.map_some, Option.some.injEq]
    split
    · next hempty =>
      rw [List.isEmpty_iff.1 hempty]
      exact ⟨nofun, fun ⟨heq, hne⟩ => (hne heq.symm).elim⟩
    · next hempty =>
      rw [Option.some.injEq]
      exact (and_iff_left_of_imp fun heq => heq ▸ mt List.isEmpty_iff.2 hempty).symm

theorem point?_positions (h : point? dimension e = some c) :
    positionsOf? dimension e.descendants = some [c] := by
  obtain ⟨cs, hcs, hc⟩ := Option.bind_eq_some_iff.1 h
  split at hc
  · obtain rfl := Option.some.inj hc
    exact (coordinates?_eq_some_iff.1 hcs).1
  · cases hc

theorem line?_positions (h : line? dimension e = some cs) :
    positionsOf? dimension e.descendants = some cs ∧ 2 ≤ cs.length := by
  obtain ⟨hcs, hlength⟩ := Option.filter_eq_some_iff.1 h
  exact ⟨(coordinates?_eq_some_iff.1 hcs).1, of_decide_eq_true hlength⟩

theorem ring?_positions (h : ring? dimension e = some cs) :
    positionsOf? dimension e.descendants = some cs ∧ 4 ≤ cs.length := by
  obtain ⟨hcs, hlength⟩ := Option.filter_eq_some_iff.1 h
  exact ⟨(coordinates?_eq_some_iff.1 hcs).1, of_decide_eq_true hlength⟩

/-- Rings with the positions of these elements. -/
structure RingsOf (dimension : Nat) (xs : List Element) (rings : List (List Coord)) : Prop where
  positions : positionsOf? dimension xs = some rings.flatten
  ne_nil : rings ≠ []
  length : ∀ cs ∈ rings, 4 ≤ cs.length

theorem rings?_positions (h : rings? dimension e = some rings) :
    RingsOf dimension (takenByRings e) rings := by
  obtain ⟨exterior, hexterior, hrings⟩ := Option.bind_eq_some_iff.1 h
  have helements : ringElements e =
      exterior :: (e.childrenNamed "interior" ++ e.childrenNamed "innerBoundaryIs") := by
    rw [ringElements, List.take_one, hexterior]
    rfl
  change (exterior :: _).mapM _ = some rings at hrings
  rw [← helements] at hrings
  refine ⟨?_, ?_, fun cs hcs => ?_⟩
  · rw [takenByRings, ← List.flatMap_id]
    exact positionsOf?_flatMap hrings fun x _ cs hx => (ring?_positions hx).1
  · rw [helements] at hrings
    obtain ⟨cs, rest, -, -, rfl⟩ := mapM_cons_eq_some.1 hrings
    exact List.cons_ne_nil cs rest
  · obtain ⟨x, -, hx⟩ := exists_of_mapM hrings hcs
    exact (ring?_positions hx).2

theorem polygon?_positions (h : polygon? dimension e = some rings) :
    RingsOf dimension (takenByPolygon e) rings := by
  unfold polygon? at h
  unfold takenByPolygon
  split at h
  · next hsurface =>
    obtain ⟨patch, hpatch, hrings⟩ := Option.bind_eq_some_iff.1 h
    rw [if_pos hsurface, hpatch]
    exact rings?_positions hrings
  · next hsurface =>
    rw [if_neg hsurface]
    exact rings?_positions h

theorem parts?_eq_some {α : Type} {kinds : List String} {read : Element → Option α} {parts : List α}
    (h : parts? kinds read e = some parts) :
    (members kinds e).mapM read = some parts ∧ parts ≠ [] := by
  obtain ⟨as, has, heq⟩ := Option.bind_eq_some_iff.1 h
  split at heq
  · cases heq
  · next hne =>
    obtain rfl := Option.some.inj heq
    exact ⟨has, by simpa using hne⟩

end Parts

/-! ### What the shape of an element holds -/

/-- The shape is one of the kind of the element, with the positions of what is taken from it. -/
structure ShapeOf (dimension : Nat) (e : Element) (s : Shape) : Prop where
  sound : s.Sound
  positions : positionsOf? dimension (taken e) = some s.positions
  name : s.typeName = wktType e.localName

section Shapes

variable {dimension : Nat} {e : Element} {s : Shape}

theorem simple?_shapeOf (hne : e.localName ≠ "MultiGeometry") (h : simple? dimension e = some s) :
    ShapeOf dimension e s := by
  have htaken := taken_simple hne
  unfold takenBySimple at htaken
  unfold simple? at h
  split at h
  case h_1 hname =>
    simp only [hname] at htaken
    obtain ⟨c, hc, rfl⟩ := Option.map_eq_some_iff.1 h
    exact ⟨trivial, htaken ▸ point?_positions hc, by rw [hname]; rfl⟩
  case h_2 hname | h_3 hname | h_4 hname | h_5 hname =>
    simp only [hname] at htaken
    obtain ⟨cs, hcs, rfl⟩ := Option.map_eq_some_iff.1 h
    obtain ⟨hpositions, hlength⟩ := line?_positions hcs
    exact ⟨hlength, htaken ▸ hpositions, by rw [hname]; rfl⟩
  case h_6 hname | h_7 hname | h_8 hname =>
    simp only [hname] at htaken
    obtain ⟨rings, hrings, rfl⟩ := Option.map_eq_some_iff.1 h
    have hof := polygon?_positions hrings
    exact ⟨⟨hof.ne_nil, hof.length⟩, htaken ▸ hof.positions, by rw [hname]; rfl⟩
  case h_9 hname =>
    simp only [hname] at htaken
    obtain ⟨cs, hcs, rfl⟩ := Option.map_eq_some_iff.1 h
    obtain ⟨hread, hcne⟩ := parts?_eq_some hcs
    refine ⟨hcne, ?_, by rw [hname]; rfl⟩
    have hpositions := positionsOf?_flatMap (g := fun c => [c]) hread
      fun x _ c hc => point?_positions (e := x) hc
    rwa [List.flatMap_singleton', ← htaken] at hpositions
  case h_10 hname | h_11 hname =>
    simp only [hname] at htaken
    obtain ⟨lines, hlines, rfl⟩ := Option.map_eq_some_iff.1 h
    obtain ⟨hread, hlne⟩ := parts?_eq_some hlines
    refine ⟨⟨hlne, fun cs hcs => ?_⟩, ?_, by rw [hname]; rfl⟩
    · obtain ⟨x, -, hx⟩ := exists_of_mapM hread hcs
      exact (line?_positions hx).2
    · rw [htaken, Shape.positions, ← List.flatMap_id]
      exact positionsOf?_flatMap hread fun x _ cs hx => (line?_positions hx).1
  case h_12 hname | h_13 hname =>
    simp only [hname] at htaken
    obtain ⟨polygons, hpolygons, rfl⟩ := Option.map_eq_some_iff.1 h
    obtain ⟨hread, hpne⟩ := parts?_eq_some hpolygons
    refine ⟨⟨hpne, fun rings hrings => ?_⟩, ?_, by rw [hname]; rfl⟩
    · obtain ⟨x, -, hx⟩ := exists_of_mapM hread hrings
      exact ⟨(polygon?_positions hx).ne_nil, (polygon?_positions hx).length⟩
    · rw [htaken]
      exact positionsOf?_flatMap hread fun x _ rings hx => (polygon?_positions hx).positions
  case h_14 => cases h

theorem shape?_shapeOf (h : shape? dimension e = some s) : ShapeOf dimension e s := by
  induction e using induct_grandchildren generalizing s with
  | h e ih =>
    by_cases hname : e.localName = "MultiGeometry"
    · obtain ⟨parts, hparts, hne, rfl⟩ := shape?_collection hname h
      refine ⟨Shape.sound_collection.2 ⟨hne, fun s hs => ?_⟩, ?_, by rw [hname]; rfl⟩
      · obtain ⟨x, hx, hread⟩ := exists_of_mapM hparts hs
        exact (ih x hx hread).sound
      · rw [taken_collection hname, Shape.positions_collection]
        exact positionsOf?_flatMap hparts fun x hx s hread => (ih x hx hread).positions
    · exact simple?_shapeOf hname (shape?_simple hname ▸ h)

end Shapes

/-! ### Nothing is taken twice -/

section Left

variable {dimension : Nat} {e : Element}

theorem subperm_grandchildren (e : Element) :
    ((grandchildren e).flatMap Element.descendants).Subperm e.inner := by
  have hinner : (grandchildren e).flatMap Element.descendants = e.children.flatMap inner :=
    List.flatMap_assoc
  rw [hinner]
  refine flatMap_subperm fun c _ => ?_
  rw [Element.descendants_eq_inner]
  exact (List.sublist_cons_self _ _).subperm

theorem subperm_members (kinds : List String) (e : Element) :
    ((members kinds e).flatMap Element.descendants).Subperm e.inner :=
  (subperm_flatMap List.filter_sublist.subperm _).trans (subperm_grandchildren e)

theorem takenByRings_subperm (e : Element) : (takenByRings e).Subperm e.inner := by
  have helements : (ringElements e).Subperm
      (["exterior", "outerBoundaryIs", "interior", "innerBoundaryIs"].flatMap e.childrenNamed) := by
    have hsub := ((List.take_sublist 1 (e.childrenNamed "exterior" ++
      e.childrenNamed "outerBoundaryIs")).append (List.Sublist.refl
        (e.childrenNamed "interior" ++ e.childrenNamed "innerBoundaryIs"))).subperm
    simpa [ringElements] using hsub
  exact subperm_flatMap (helements.trans (subperm_childrenNamed e (by decide))) _

theorem inner_sublist (e : Element) : e.inner.Sublist e.descendants := by
  rw [Element.descendants_eq_inner]
  exact List.sublist_cons_self _ _

theorem takenByPolygon_subperm (e : Element) : (takenByPolygon e).Subperm e.descendants := by
  unfold takenByPolygon
  split
  · cases hpatch : e.descendants.find? (·.localName == "PolygonPatch") with
    | none => exact List.nil_subperm
    | some patch =>
      have hmem : patch ∈ e.descendants := List.mem_of_find?_eq_some hpatch
      exact (takenByRings_subperm patch).trans
        ((inner_sublist patch).trans (Element.sublist_descendants hmem)).subperm
  · exact (takenByRings_subperm e).trans (inner_sublist e).subperm

theorem taken_subperm (e : Element) : (taken e).Subperm e.descendants := by
  induction e using induct_grandchildren with
  | h e ih =>
    have hinner := (inner_sublist e).subperm
    -- members of members, and kinds among them, are different elements below the geometry
    by_cases hname : e.localName = "MultiGeometry"
    · rw [taken_collection hname]
      exact (flatMap_subperm ih).trans ((subperm_grandchildren e).trans hinner)
    · rw [taken_simple hname]
      unfold takenBySimple
      split
      case h_1 | h_2 | h_3 | h_4 | h_5 => exact List.Subperm.refl _
      case h_6 | h_7 | h_8 => exact takenByPolygon_subperm e
      case h_9 | h_10 | h_11 => exact (subperm_members _ e).trans hinner
      case h_12 | h_13 =>
        exact (flatMap_subperm fun x _ => takenByPolygon_subperm x).trans
          ((subperm_members _ e).trans hinner)
      case h_14 => exact List.nil_subperm

/-- What is below a geometry is taken from it or left over. -/
theorem exists_left (e : Element) : ∃ left, e.descendants.Perm (taken e ++ left) :=
  exists_perm_append (taken_subperm e)

end Left

end FeatureTables.Geometry
