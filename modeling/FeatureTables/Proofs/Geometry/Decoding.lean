import FeatureTables.Proofs.Geometry.Sources
import FeatureTables.Xml.Document

/-!
What a decoded text says. The text is always that of a geometry with long enough lines and rings; its
tuples are as wide as its dimension, and of finite numbers, exactly when the positions that were taken from
the element are (`wellFormed_iff`), and it holds all positions below the element exactly when there are none
in what was left over (`holds_all_iff`).
-/

namespace FeatureTables.Geometry

open Number Xml

/-- The dimension that a geometry is decoded in. -/
def decodedDimension (e : Element) : Nat := (dimension? e).getD 2

section Decoding

variable {e : Element} {n srid : Int} {text : String}

theorem decodedDimension_cases (e : Element) : decodedDimension e = 2 ∨ decodedDimension e = 3 := by
  have hcases : ∀ stated : Option Nat, (stated.filter fun d => d = 2 ∨ d = 3).getD 2 = 2 ∨
      (stated.filter fun d => d = 2 ∨ d = 3).getD 2 = 3 := by
    intro stated
    cases hd : stated.filter fun d => d = 2 ∨ d = 3 with
    | none => exact Or.inl rfl
    | some d => exact of_decide_eq_true (Option.filter_eq_some_iff.1 hd).2
  exact hcases _

/-- A decoded text is that of a shape with the positions of what is taken from the element. -/
theorem decode?_eq_some (h : decode? n e = some (text, srid)) : ∃ s,
    ShapeOf (decodedDimension e) e s ∧ Wkt.read? text = some (s.node (decodedDimension e)) ∧
      srid = (srid? e).getD n := by
  obtain ⟨s, hs, heq⟩ := Option.map_eq_some_iff.1 h
  obtain ⟨rfl, rfl⟩ := Prod.mk.inj heq
  have hof : ShapeOf (decodedDimension e) e s := shape?_shapeOf hs
  exact ⟨s, hof, s.read?_wkt _ hof.sound, rfl⟩

/-! ### Tuples -/

/-- A decoded text is that of a geometry. Each of its tuples has as many numbers as the tag says, all of
them finite, exactly when this holds of the positions that the element was read from. -/
theorem wellFormed_iff (h : decode? n e = some (text, srid)) : ∃ t,
    Wkt.read? text = some t ∧ t.isGeometry (fun _ _ => true) = true ∧
      (t.isWellFormed = true ↔ ∀ x ∈ taken e, ∀ c ∈ own (decodedDimension e) x,
        c.length = decodedDimension e ∧ ∀ v ∈ c, v.isFinite = true) := by
  obtain ⟨s, hof, hread, -⟩ := decode?_eq_some h
  have hdimension := decodedDimension_cases e
  refine ⟨_, hread, (s.isGeometry_node hdimension hof.sound).2 fun _ _ => rfl, ?_⟩
  obtain ⟨-, hpositions⟩ := positionsOf?_eq_some_iff.1 hof.positions
  rw [Wkt.Node.isWellFormed, s.isGeometry_node hdimension hof.sound, hpositions,
    List.forall_mem_flatMap]
  refine forall₂_congr fun x _ => forall₂_congr fun c _ => ?_
  simp [Binary64.isNumeral_plain]

/-- A line of three dimensions. -/
def lineDocument : String := "<LineString srsDimension='3'><posList>0 0 0 1 1 1</posList></LineString>"

/-- All tuples of this line have three numbers. -/
theorem wellFormed_line : ∃ d text srid, Document.ofText lineDocument = .ok d ∧
    decode? 4326 d.root = some (text, srid) ∧ ∃ t, Wkt.read? text = some t ∧
      t.isGeometry (fun _ _ => true) = true ∧ t.isWellFormed = true := by
  have heval : ((Document.ofText lineDocument).toOption.bind fun d =>
      (decode? 4326 d.root).map fun r => decide (∀ x ∈ taken d.root,
        ∀ c ∈ own (decodedDimension d.root) x,
          c.length = decodedDimension d.root ∧ ∀ v ∈ c, v.isFinite = true)) = some true := by
    decide +kernel
  obtain ⟨d, hd, heval⟩ := Option.bind_eq_some_iff.1 heval
  obtain ⟨⟨text, srid⟩, hdecoded, htrue⟩ := Option.map_eq_some_iff.1 heval
  obtain ⟨t, hread, hgeometry, hiff⟩ := wellFormed_iff hdecoded
  exact ⟨d, text, srid, toOption_eq_some_iff.1 hd, hdecoded, t, hread, hgeometry,
    hiff.2 (of_decide_eq_true htrue)⟩

/-- The document is decoded to a text with a tuple that is not as wide as its geometry, or with a number
that is not finite. -/
def IsMalformed (xml : String) : Prop := ∃ d text srid t, Document.ofText xml = .ok d ∧
  decode? 4326 d.root = some (text, srid) ∧ Wkt.read? text = some t ∧ t.isWellFormed = false

/-- A point of one number, one of numbers that are not finite, one of one number in two dimensions and one
of none. -/
theorem malformed_points : IsMalformed "<Point><coordinates>1</coordinates></Point>" ∧
    IsMalformed "<Point><pos>NaN inf</pos></Point>" ∧
    IsMalformed "<Point srsDimension='2'><pos srsDimension='1'>5</pos></Point>" ∧
    IsMalformed "<Point><coord/></Point>" := by
  have hmalformed : ∀ xml, ((Document.ofText xml).toOption.bind fun d =>
      (decode? 4326 d.root).bind fun r => (Wkt.read? r.1).map Wkt.Node.isWellFormed) = some false →
      IsMalformed xml := by
    intro xml heval
    obtain ⟨d, hd, heval⟩ := Option.bind_eq_some_iff.1 heval
    obtain ⟨⟨text, srid⟩, hdecoded, heval⟩ := Option.bind_eq_some_iff.1 heval
    obtain ⟨t, hread, hfalse⟩ := Option.map_eq_some_iff.1 heval
    exact ⟨d, text, srid, t, toOption_eq_some_iff.1 hd, hdecoded, hread, hfalse⟩
  exact ⟨hmalformed _ (by decide +kernel), hmalformed _ (by decide +kernel),
    hmalformed _ (by decide +kernel), hmalformed _ (by decide +kernel)⟩

/-! ### Parts -/

/-- A decoded text holds all positions below the element exactly when what was left over holds none, and
nothing unreadable. -/
theorem holds_all_iff (h : decode? n e = some (text, srid)) : ∃ t left,
    Wkt.read? text = some t ∧ e.descendants.Perm (taken e ++ left) ∧
      ((∃ cs, coordinates? (decodedDimension e) e = some cs ∧
          t.tuples.Perm (cs.map (·.map Binary64.plain))) ↔
        ∀ x ∈ left, ownPositions? (decodedDimension e) x = some []) := by
  obtain ⟨s, hof, hread, -⟩ := decode?_eq_some h
  obtain ⟨left, hleft⟩ := exists_left e
  refine ⟨_, left, hread, hleft, ?_⟩
  obtain ⟨-, hpositions⟩ := positionsOf?_eq_some_iff.1 hof.positions
  rw [s.tuples_node]
  constructor
  · rintro ⟨cs, hcs, htuples⟩ x hx
    obtain ⟨cs', hcs', hperm⟩ := positionsOf?_perm hleft (coordinates?_eq_some_iff.1 hcs).1
    obtain ⟨hreadable, rfl⟩ := positionsOf?_eq_some_iff.1 hcs'
    -- as many positions are below the element as are taken from it, so that nothing else holds one
    have hlength := hperm.length_eq.symm.trans (by simpa [Shape.plainWords] using htuples.length_eq.symm)
    rw [List.flatMap_append, ← hpositions, List.length_append] at hlength
    have hnil : left.flatMap (own (decodedDimension e)) = [] := List.length_eq_zero_iff.1 (by omega)
    obtain ⟨as, has⟩ := Option.isSome_iff_exists.1 (hreadable x (List.mem_append_right _ hx))
    have hown := List.flatMap_eq_nil_iff.1 hnil x hx
    rw [own, has, Option.getD_some] at hown
    rw [has, hown]
  · intro hown
    have hnone : positionsOf? (decodedDimension e) left = some [] :=
      positionsOf?_eq_some_iff.2 ⟨fun x hx => by rw [hown x hx]; rfl,
        (List.flatMap_eq_nil_iff.2 fun x hx => by rw [own, hown x hx]; rfl).symm⟩
    obtain ⟨cs, hcs, hperm⟩ := positionsOf?_perm hleft.symm (positionsOf?_append hof.positions hnone)
    rw [List.append_nil] at hperm
    have hne : cs ≠ [] := fun hnil =>
      Shape.positions_ne_nil hof.sound (List.perm_nil.1 (hnil ▸ hperm))
    exact ⟨cs, coordinates?_eq_some_iff.2 ⟨hcs, hne⟩, hperm.map _⟩

/-- A line that holds all positions of its segments. -/
theorem line_holds_all : ∃ d text srid, Document.ofText lineDocument = .ok d ∧
    decode? 4326 d.root = some (text, srid) ∧ ∃ t cs, Wkt.read? text = some t ∧
      coordinates? (decodedDimension d.root) d.root = some cs ∧
      t.tuples.Perm (cs.map (·.map Binary64.plain)) := by
  have heval : ((Document.ofText lineDocument).toOption.bind fun d =>
      (decode? 4326 d.root).map fun _ =>
        decide ((taken d.root).length = d.root.descendants.length)) = some true := by
    decide +kernel
  obtain ⟨d, hd, heval⟩ := Option.bind_eq_some_iff.1 heval
  obtain ⟨⟨text, srid⟩, hdecoded, htrue⟩ := Option.map_eq_some_iff.1 heval
  obtain ⟨t, left, hread, hleft, hiff⟩ := holds_all_iff hdecoded
  have hlength := hleft.length_eq
  rw [List.length_append, of_decide_eq_true htrue] at hlength
  have hnil : left = [] := List.length_eq_zero_iff.1 (by omega)
  obtain ⟨cs, hcs, hperm⟩ := hiff.2 fun x hx => absurd hx (hnil ▸ List.not_mem_nil)
  exact ⟨d, text, srid, toOption_eq_some_iff.1 hd, hdecoded, t, cs, hread, hcs, hperm⟩

/-- The document is decoded to a text that lacks positions of the document. -/
def IsPartial (xml : String) : Prop := ∃ d text srid t cs, Document.ofText xml = .ok d ∧
  decode? 4326 d.root = some (text, srid) ∧ Wkt.read? text = some t ∧
  coordinates? (decodedDimension d.root) d.root = some cs ∧ t.tuples.length < cs.length

/-- A surface of two patches is decoded to the first of them, points to those that are called so, and a
polygon of two exteriors to the first one. -/
theorem partial_geometries :
    IsPartial ("<Surface>" ++
      "<PolygonPatch><exterior><posList>0 0 1 0 1 1 0 0</posList></exterior></PolygonPatch>" ++
      "<PolygonPatch><exterior><posList>5 5 6 5 6 6 5 5</posList></exterior></PolygonPatch>" ++
      "</Surface>") ∧
    IsPartial ("<MultiPoint><pointMember><Point><pos>1 2</pos></Point></pointMember>" ++
      "<pointMember><Foo><pos>3 4</pos></Foo></pointMember></MultiPoint>") ∧
    IsPartial ("<Polygon><exterior><posList>0 0 1 0 1 1 0 0</posList></exterior>" ++
      "<exterior><posList>5 5 6 5 6 6 5 5</posList></exterior></Polygon>") := by
  have hpartial : ∀ xml, ((Document.ofText xml).toOption.bind fun d =>
      (decode? 4326 d.root).bind fun r => (Wkt.read? r.1).bind fun t =>
        (coordinates? (decodedDimension d.root) d.root).map fun cs =>
          decide (t.tuples.length < cs.length)) = some true → IsPartial xml := by
    intro xml heval
    obtain ⟨d, hd, heval⟩ := Option.bind_eq_some_iff.1 heval
    obtain ⟨⟨text, srid⟩, hdecoded, heval⟩ := Option.bind_eq_some_iff.1 heval
    obtain ⟨t, hread, heval⟩ := Option.bind_eq_some_iff.1 heval
    obtain ⟨cs, hcs, hlt⟩ := Option.map_eq_some_iff.1 heval
    exact ⟨d, text, srid, t, cs, toOption_eq_some_iff.1 hd, hdecoded, hread, hcs,
      of_decide_eq_true hlt⟩
  exact ⟨hpartial _ (by decide +kernel), hpartial _ (by decide +kernel),
    hpartial _ (by decide +kernel)⟩

end Decoding

end FeatureTables.Geometry
