import FeatureTables.Proofs.Conversion.History
import FeatureTables.Proofs.Geometry.Decoding
import FeatureTables.Proofs.Layout.Steps

/-!
What the tables say of a geometry, and what its text says. Both are read from the same element, type name
and reference system by the same means; the dimension of the field follows the default of the options, that
of the text is two unless the geometry states one, and a list of numbers may state one of its own
(`metadata_iff`).
-/

namespace FeatureTables

open Number Text Xml

namespace Geometry

/-! ### Lists of numbers -/

/-- An element whose numbers are cut into positions. -/
def IsNumberList (x : Element) : Prop := x.localName = "pos" ∨ x.localName = "posList"

instance (x : Element) : Decidable (IsNumberList x) := inferInstanceAs (Decidable (_ ∨ _))

/-- The dimension that a list of numbers states for itself. -/
def ownDimension? (x : Element) : Option Nat :=
  (x.attribute? "srsDimension").bind (readNat? (Nat.pow 2 64 - 1))

section Lists

variable {dimension : Nat} {x : Element}

theorem length_of_mem_groups {α : Type} {n : Nat} {xs g : List α} (h : xs.length % (n + 1) = 0)
    (hg : g ∈ groups n xs) : g.length = n + 1 := by
  fun_induction groups n xs with
  | case1 => cases hg
  | case2 x r ih =>
    rw [List.length_cons] at h
    have hle : n + 1 ≤ r.length + 1 := Nat.le_of_dvd (Nat.succ_pos _) (Nat.dvd_of_mod_eq_zero h)
    rcases List.mem_cons.1 hg with rfl | hg
    · rw [List.length_cons, List.length_take]
      omega
    · refine ih ?_ hg
      rw [List.length_drop, show r.length - n = r.length + 1 - (n + 1) by omega,
        ← Nat.mod_eq_sub_mod hle, h]

theorem length_of_mem_own (hx : IsNumberList x) {c : Coord} (hc : c ∈ own dimension x) :
    c.length = (ownDimension? x).getD dimension := by
  have hown : own dimension x = (positions? dimension x).getD [] := by
    rcases hx with hx | hx <;> simp [own, ownPositions?, hx]
  rw [hown] at hc
  cases hp : positions? dimension x with
  | none => simp [hp] at hc
  | some cs =>
    rw [hp, Option.getD_some] at hc
    obtain ⟨text, -, hp⟩ := Option.bind_eq_some_iff.1 hp
    obtain ⟨values, -, hp⟩ := Option.bind_eq_some_iff.1 hp
    split at hp
    · cases hp
    · next hwidth =>
      obtain rfl := Option.some.inj hp
      obtain ⟨hpos, hmod⟩ := not_or.1 hwidth
      have hpred : (ownDimension? x).getD dimension - 1 + 1 = (ownDimension? x).getD dimension :=
        Nat.succ_pred hpos
      rw [← hpred]
      refine length_of_mem_groups ?_ hc
      rw [hpred]
      exact not_not.1 hmod

/-- Positions as wide as asked for, unless the list states another width. -/
theorem forall_length_iff (hx : IsNumberList x) :
    (∀ c ∈ own dimension x, c.length = dimension) ↔
      (own dimension x ≠ [] → ∀ k, ownDimension? x = some k → k = dimension) := by
  constructor
  · intro h hne k hk
    obtain ⟨c, hc⟩ := List.exists_mem_of_ne_nil _ hne
    have hlength := length_of_mem_own hx hc
    rw [hk, Option.getD_some] at hlength
    exact hlength.symm.trans (h c hc)
  · intro h c hc
    rw [length_of_mem_own hx hc]
    cases hk : ownDimension? x with
    | none => rfl
    | some k => exact h (List.ne_nil_of_mem hc) k hk

end Lists

end Geometry

namespace Conversion

open FeatureTables.Geometry Layout

section Metadata

variable {c : Conversion} {s : Setting} {name : String} {parent e : Element} {b b' : Layout.Building}
  {fields : String → BuildM (List Field)} {fs : List Field} {t : NodeTyping} {text : String} {srid : Int}

/-- The field that building gives a geometry states the type and the reference system of the decoded text.
The dimension it states is that of the text, and of all positions that were cut out of lists of numbers,
exactly when the geometry states one itself or the default of the options is two, and no list states
another one. -/
theorem metadata_iff (ht : typingOf s e = .ok t) (hgeometry : t.isGeometry = true)
    (hbuilt : Leads (childFields s name parent e fields) b fs b')
    (hdecoded : (c.withOptions s.options).codec e = some (text, srid)) :
    ∃ f node, fs = [.geometry f] ∧ Wkt.read? text = some node ∧
      node.name = f.type ∧ srid = f.srid ∧
      (node.isGeometry (fun dimension _ => dimension == f.dimension) = true ∧
          (∀ x ∈ taken e, IsNumberList x → ∀ p ∈ own (decodedDimension e) x, p.length = f.dimension) ↔
        ((dimension? e).isSome = true ∨ s.options.defaultDimension = 2) ∧
          ∀ x ∈ taken e, IsNumberList x → own (decodedDimension e) x ≠ [] →
            ∀ k, ownDimension? x = some k → k = f.dimension) := by
  obtain ⟨t', ht', hcases⟩ := childFields_judged hbuilt
  obtain rfl : t = t' := Except.ok.inj (ht.symm.trans ht')
  have hfs : fs = [geometryField s.options e t.isOptional] := by
    rcases hcases with ⟨-, -, hfs⟩ | ⟨hnot, -⟩ | ⟨hnot, -⟩ | ⟨hnot, -⟩
    · exact hfs
    all_goals simp [hgeometry] at hnot
  obtain ⟨shape, hof, hread, hsrid⟩ := decode?_eq_some hdecoded
  refine ⟨_, _, hfs, hread, (shape.name_node _).trans hof.name, hsrid, ?_⟩
  have hdimension : decodedDimension e = (dimension? e).getD s.options.defaultDimension ↔
      (dimension? e).isSome = true ∨ s.options.defaultDimension = 2 := by
    unfold decodedDimension
    cases dimension? e <;> simp [eq_comm]
  rw [shape.tag_node (decodedDimension_cases e) hof.sound, ← hdimension]
  refine and_congr_right fun heq => ?_
  rw [← heq]
  exact forall₂_congr fun x _ => forall_congr' fun hx => forall_length_iff hx

end Metadata

/-- Lines inside of another element. -/
def lineSchema : String :=
  "<xs:schema xmlns:xs='http://www.w3.org/2001/XMLSchema' xmlns='http://www.opengis.net/gml/3.2'" ++
  " targetNamespace='http://www.opengis.net/gml/3.2'><xs:complexType name='LineStringType'/>" ++
  "<xs:element name='LineString' type='LineStringType'/><xs:element name='a'><xs:complexType>" ++
  "<xs:sequence><xs:element ref='LineString'/></xs:sequence></xs:complexType></xs:element></xs:schema>"

/-- A line of three dimensions that says so. -/
def statedLine : String :=
  "<a xmlns='http://www.opengis.net/gml/3.2'>" ++
  "<LineString srsDimension='3'><posList>0 0 0 1 1 1</posList></LineString></a>"

/-- A line of as many dimensions as the options say. -/
def unstatedLine : String :=
  "<a xmlns='http://www.opengis.net/gml/3.2'><LineString><posList>0 0 0 1 1 1</posList></LineString></a>"

/-- A line that states its dimension has the text and the field of this dimension. -/
theorem stated_line_agrees : ∃ d typing e t fs b' f text srid node,
    Document.ofText statedLine = .ok d ∧
    Typing.ofRoot (ofText lineSchema).catalog d.root = .ok typing ∧ e ∈ d.root.children ∧
    typingOf ⟨typing, {}⟩ e = .ok t ∧ t.isGeometry = true ∧
    Leads (childFields ⟨typing, {}⟩ "a" d.root e fun _ => pure []) { model := {} } fs b' ∧
    ((ofText lineSchema).withOptions {}).codec e = some (text, srid) ∧
    fs = [.geometry f] ∧ Wkt.read? text = some node ∧ node.name = f.type ∧ srid = f.srid ∧
    node.isGeometry (fun dimension _ => dimension == f.dimension) = true := by
  have heval : ((Document.ofText statedLine).toOption.bind fun d =>
      (Typing.ofRoot (ofText lineSchema).catalog d.root).toOption.bind fun typing =>
      d.root.children.head?.bind fun e => (typingOf ⟨typing, {}⟩ e).toOption.bind fun t =>
      ((childFields ⟨typing, {}⟩ "a" d.root e fun _ => pure []).run { model := {} }).toOption.bind
        fun _ => (((ofText lineSchema).withOptions {}).codec e).map fun _ =>
          decide (t.isGeometry = true ∧ (dimension? e).isSome = true ∧
            ∀ x ∈ taken e, IsNumberList x → ownDimension? x = none)) = some true := by
    decide +kernel
  obtain ⟨d, hd, heval⟩ := Option.bind_eq_some_iff.1 heval
  obtain ⟨typing, htyping, heval⟩ := Option.bind_eq_some_iff.1 heval
  obtain ⟨e, he, heval⟩ := Option.bind_eq_some_iff.1 heval
  obtain ⟨t, ht, heval⟩ := Option.bind_eq_some_iff.1 heval
  obtain ⟨⟨fs, b'⟩, hbuilt, heval⟩ := Option.bind_eq_some_iff.1 heval
  obtain ⟨⟨text, srid⟩, hdecoded, heval⟩ := Option.map_eq_some_iff.1 heval
  rw [toOption_eq_some_iff] at hd htyping ht hbuilt
  obtain ⟨hgeometry, hstated, hnone⟩ := of_decide_eq_true heval
  obtain ⟨f, node, hfs, hread, hname, hsrid, hiff⟩ := metadata_iff ht hgeometry hbuilt hdecoded
  have hagrees := hiff.2 ⟨Or.inl hstated, fun x hx hlist _ k hk => by simp [hnone x hx hlist] at hk⟩
  exact ⟨d, typing, e, t, fs, b', f, text, srid, node, hd, htyping, List.mem_of_head? he, ht,
    hgeometry, hbuilt, hdecoded, hfs, hread, hname, hsrid, hagrees.1⟩

/-- The dimension of the field of a geometry. -/
def dimensionOf? : Field → Option Nat
  | .geometry f => some f.dimension
  | _ => none

/-- A line of three dimensions by default is decoded as one of two. -/
theorem default_dimension_ignored : ∃ d m n a f e, Document.ofText unstatedLine = .ok d ∧
    (ofText lineSchema { defaultDimension := 3 }).document {} d = .ok (m, n) ∧
    m.table? "a" = some a ∧ a.fields.get? Key.geometry = some (.geometry f) ∧ f.dimension = 3 ∧
    e ∈ d.root.children ∧ (ofText lineSchema { defaultDimension := 3 }).codec e =
      some ("LINESTRING (0 0, 0 1, 1 1)", 4326) := by
  have heval : ((Document.ofText unstatedLine).toOption.bind fun d =>
      ((ofText lineSchema { defaultDimension := 3 }).document {} d).toOption.bind fun r =>
      (r.1.table? "a").bind fun a => (a.fields.get? Key.geometry).bind fun field =>
      d.root.children.head?.map fun e =>
        (dimensionOf? field, (ofText lineSchema { defaultDimension := 3 }).codec e)) =
      some (some 3, some ("LINESTRING (0 0, 0 1, 1 1)", 4326)) := by
    decide +kernel
  obtain ⟨d, hd, heval⟩ := Option.bind_eq_some_iff.1 heval
  obtain ⟨⟨m, n⟩, hm, heval⟩ := Option.bind_eq_some_iff.1 heval
  obtain ⟨a, ha, heval⟩ := Option.bind_eq_some_iff.1 heval
  obtain ⟨field, hfield, heval⟩ := Option.bind_eq_some_iff.1 heval
  obtain ⟨e, he, heval⟩ := Option.map_eq_some_iff.1 heval
  obtain ⟨hdimension, hdecoded⟩ := Prod.mk.inj heval
  rw [toOption_eq_some_iff] at hd hm
  cases field with
  | geometry f =>
    exact ⟨d, m, n, a, f, e, hd, hm, ha, hfield, Option.some.inj hdimension, List.mem_of_head? he,
      hdecoded⟩
  | _ => cases hdimension

end Conversion
end FeatureTables
