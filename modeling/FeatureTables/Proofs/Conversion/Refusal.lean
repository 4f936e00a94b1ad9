import FeatureTables.Proofs.Conversion.Parents
import FeatureTables.Proofs.Layout.Coverage
import FeatureTables.Proofs.Layout.Leading
import FeatureTables.Proofs.Population.Refusal
import FeatureTables.Proofs.Xml.Numbering

/-!
How a document fails whose elements are typed. It is built, with a place for each element that is not
inside of a geometry, and then it can only break bounds (`converts_or_breaks_bounds`). But a root that
is a geometry is built like any other root, and what is inside of it has no typing.
-/

namespace FeatureTables.Conversion

open Layout Population Xml Element

section Stepping

variable {c : Conversion} {m n : Model} {d : Document} {r : Run}

theorem run_stepping (hm : AllFields Field.Steps m)
    (hnames : ∀ y ∈ d.root.descendants, StepName y.localName) (h : c.run m d = .ok r) :
    AllFields Field.Steps r.setting.model := by
  obtain ⟨typing, built, -, hbuilt, hsetting, -⟩ := run_cases h
  have hstepping : AllFields Field.Steps built.model :=
    build_stepping (m := m.withoutRows) hm hnames hbuilt
  rw [hsetting]
  exact hstepping

theorem Brings.stepping (h : Brings m r n) (hs : AllFields Field.Steps r.setting.model) :
    AllFields Field.Steps n := by
  intro name u hu
  obtain ⟨t, k, ht, rfl⟩ := h.table_cases hu
  exact hs name t ht

/-- The keys of fields have steps in the models of a conversion. -/
theorem stepping_after {docs : List Document}
    (hnames : ∀ d ∈ docs, ∀ y ∈ d.root.descendants, StepName y.localName) :
    AllFields Field.Steps (c.after docs) :=
  after_induct docs (fun _ _ ht => by cases ht)
    fun d hd _ _ _ _ hr hbrings hm => hbrings.stepping (run_stepping hm (hnames d hd) hr)

end Stepping

section Refusal

variable {c : Conversion} {m : Model} {d : Document} {typing : Typing} {built : Outcome}

theorem document_error_cases (htyping : Typing.ofRoot c.catalog d.root = .ok typing)
    (hbuilt : build ⟨typing, c.options⟩ m.withoutRows d.root = .ok built) {err : Error}
    (h : c.document m d = .error err) : ∃ table, built.rootTable? = some table ∧
      ofRoot ⟨{ built.model with rows := m.rows }, built.layout, c.codec⟩ d.root table =
        .error err := by
  have hsetting : c.setting m d = .ok (⟨{ built.model with rows := m.rows }, built.layout, c.codec⟩,
      built.rootTable?) := by
    unfold setting
    rw [htyping, ok_bind, hbuilt]
    rfl
  rw [document_eq, hsetting, ok_bind] at h
  cases htable : built.rootTable? with
  | none =>
    rw [htable] at h
    cases h
  | some table =>
    refine ⟨table, rfl, ?_⟩
    simp only [htable] at h
    cases hrows : ofRoot ⟨{ built.model with rows := m.rows }, built.layout, c.codec⟩ d.root table with
    | error e =>
      rw [hrows] at h
      cases h
      rfl
    | ok p =>
      rw [hrows] at h
      cases h

/-- Rows are populated in a sturdy setting. -/
theorem sturdy_of_build (hd : d.root.Distinct) (hm : m.Sound) (hsteps : AllFields Field.Steps m)
    (hnames : ∀ y ∈ d.root.descendants, StepName y.localName)
    (htyping : Typing.ofRoot c.catalog d.root = .ok typing)
    (hbuilt : build ⟨typing, c.options⟩ m.withoutRows d.root = .ok built) :
    Setting.Sturdy ⟨{ built.model with rows := m.rows }, built.layout, c.codec⟩ where
  tables i name hi := by
    obtain ⟨x, hx, rfl, -⟩ := (build_covers hd htyping hbuilt i).1 (by
      rw [show built.layout.get? i = some (.table name) from hi]
      rfl)
    obtain ⟨t, ht, -⟩ := build_equipped hd hbuilt x hx name hi
    exact ⟨t, ht⟩
  links name t ht key l hl := by
    have hbefore : m.withoutRows.Sound := ⟨hm.nodup, hm.named, hm.tables⟩
    have hsound := ((build_grows hbuilt).sound hbefore).tables name t ht
    have hget := OrderedMap.get?_of_mem_entries hsound.nodup hl
    exact Key.steps_ne_nil (build_stepping (m := m.withoutRows) hsteps hnames hbuilt name t ht key _
      hget (hsound.ne_uid_of_link hget))

/-- A document whose elements are typed is built, with places for the elements that are not inside of a
geometry, and it is converted or breaks bounds; unless its root is a geometry with something inside, of
which the first element ends the conversion as it has no typing. -/
theorem converts_or_breaks_bounds (c : Conversion) (docs : List Document) {limits : Limits}
    {bytes : Bytes} {d : Document} (hd : Document.parse limits bytes = .ok d) {typing : Typing}
    (htyping : Typing.ofRoot c.catalog d.root = .ok typing) :
    (∀ child rest, typing.HasGeometry d.root → d.root.children = child :: rest →
      build ⟨typing, c.options⟩ (c.after docs).withoutRows d.root =
          .error (.schemaResolution .untyped { tag? := some child.name.toText }) ∧
        c.document (c.after docs) d =
          .error (.schemaResolution .untyped { tag? := some child.name.toText })) ∧
    (¬ (typing.HasGeometry d.root ∧ d.root.children ≠ []) →
      (∃ built, build ⟨typing, c.options⟩ (c.after docs).withoutRows d.root = .ok built ∧
        ∀ i, (built.layout.get? i).isSome = true ↔
          ∃ x ∈ d.root.descendants, x.id = i ∧ ¬ typing.InGeometry d.root x) ∧
      ((∀ d' ∈ d :: docs, ∀ y ∈ d'.root.descendants, StepName y.localName) →
        ∀ err, c.document (c.after docs) d = .error err → err.IsCardinality)) := by
  have hdistinct := (Document.numbered_parse hd).distinct
  refine ⟨fun child rest hgeometry hchildren => ?_, fun hno => ?_⟩
  · have hbuild := build_untyped c.options (c.after docs).withoutRows hdistinct
      htyping hgeometry hchildren
    refine ⟨hbuild, ?_⟩
    rw [document_eq, setting, htyping, ok_bind, hbuild]
    rfl
  · obtain ⟨built, hbuilt⟩ := (build_ok_iff c.options (c.after docs).withoutRows
      hdistinct htyping).2 hno
    refine ⟨⟨built, hbuilt, build_covers hdistinct htyping hbuilt⟩, fun hnames err herr => ?_⟩
    have hsturdy := sturdy_of_build hdistinct (sound_after docs)
      (stepping_after fun d' hd' => hnames d' (List.mem_cons_of_mem _ hd'))
      (hnames d List.mem_cons_self) htyping hbuilt
    obtain ⟨table, htable, hrows⟩ := document_error_cases htyping hbuilt herr
    exact ofRoot_refuses hsturdy ((build_places hdistinct hbuilt).table table htable) hrows

end Refusal

/-- Points, by themselves and inside of an element. -/
def pointSchema : String :=
  "<xs:schema xmlns:xs='http://www.w3.org/2001/XMLSchema' xmlns='http://www.opengis.net/gml/3.2'" ++
  " targetNamespace='http://www.opengis.net/gml/3.2'><xs:complexType name='PointType'/>" ++
  "<xs:element name='Point' type='PointType'/><xs:element name='r'><xs:complexType><xs:sequence>" ++
  "<xs:element ref='Point'/></xs:sequence></xs:complexType></xs:element></xs:schema>"

/-- A point inside of another element has its place, and nothing inside of the point has. -/
theorem point_inside_placed : ∃ d typing built,
    Document.ofText "<r xmlns='http://www.opengis.net/gml/3.2'><Point><pos>1 2</pos></Point></r>" =
      .ok d ∧
    Typing.ofRoot (ofText pointSchema).catalog d.root = .ok typing ∧
    build ⟨typing, (ofText pointSchema).options⟩ {} d.root = .ok built ∧
    (∀ i, (built.layout.get? i).isSome = true ↔
      ∃ x ∈ d.root.descendants, x.id = i ∧ ¬ typing.InGeometry d.root x) ∧
    ∀ err, (ofText pointSchema).document {} d = .error err → err.IsCardinality := by
  have heval : ((Document.ofText
        "<r xmlns='http://www.opengis.net/gml/3.2'><Point><pos>1 2</pos></Point></r>").toOption.bind
      fun d => (Typing.ofRoot (ofText pointSchema).catalog d.root).toOption.map fun typing =>
        ((typing.get? d.root.id).map (·.isGeometry),
          decide (∀ y ∈ d.root.descendants, StepName y.localName))) = some (some false, true) := by
    decide +kernel
  obtain ⟨d, hd, heval⟩ := Option.bind_eq_some_iff.1 heval
  obtain ⟨typing, htyping, heval⟩ := Option.map_eq_some_iff.1 heval
  rw [toOption_eq_some_iff] at hd htyping
  simp only [Prod.mk.injEq, decide_eq_true_iff] at heval
  obtain ⟨hroot, hnames⟩ := heval
  obtain ⟨⟨built, hbuilt, hcovers⟩, hrefuses⟩ := (converts_or_breaks_bounds (ofText pointSchema) [] hd
    htyping).2 (by
      rintro ⟨⟨t, ht, hg⟩, -⟩
      simp [ht, hg] at hroot)
  exact ⟨d, typing, built, hd, htyping, hbuilt, hcovers,
    hrefuses fun d' hd' => by rw [List.mem_singleton.1 hd']; exact hnames⟩

/-- A document of one point is typed, and is not built for want of a typing inside of the point. -/
theorem point_root_refused : ∃ d typing,
    Document.ofText "<Point xmlns='http://www.opengis.net/gml/3.2'><pos>1 2</pos></Point>" = .ok d ∧
    Typing.ofRoot (ofText pointSchema).catalog d.root = .ok typing ∧
    build ⟨typing, (ofText pointSchema).options⟩ {} d.root =
      .error (.schemaResolution .untyped { tag? := some "\x7bhttp://www.opengis.net/gml/3.2\x7dpos" }) ∧
    (ofText pointSchema).document {} d =
      .error (.schemaResolution .untyped { tag? := some "\x7bhttp://www.opengis.net/gml/3.2\x7dpos" }) := by
  have heval : ((Document.ofText
        "<Point xmlns='http://www.opengis.net/gml/3.2'><pos>1 2</pos></Point>").toOption.bind
      fun d => (Typing.ofRoot (ofText pointSchema).catalog d.root).toOption.map fun typing =>
        ((match build ⟨typing, (ofText pointSchema).options⟩ {} d.root with
            | .error err => some err
            | .ok _ => none),
          match (ofText pointSchema).document {} d with
            | .error err => some err
            | .ok _ => none)) =
      some (some (.schemaResolution .untyped
          { tag? := some "\x7bhttp://www.opengis.net/gml/3.2\x7dpos" }),
        some (.schemaResolution .untyped
          { tag? := some "\x7bhttp://www.opengis.net/gml/3.2\x7dpos" })) := by
    decide +kernel
  obtain ⟨d, hd, heval⟩ := Option.bind_eq_some_iff.1 heval
  obtain ⟨typing, htyping, heval⟩ := Option.map_eq_some_iff.1 heval
  rw [toOption_eq_some_iff] at hd htyping
  obtain ⟨hbuild, hdocument⟩ := Prod.mk.inj heval
  refine ⟨d, typing, hd, htyping, ?_, ?_⟩
  · split at hbuild
    · rename_i err herr
      rw [herr, Option.some.inj hbuild]
    · cases hbuild
  · split at hdocument
    · rename_i err herr
      rw [herr, Option.some.inj hdocument]
    · cases hdocument

end FeatureTables.Conversion
