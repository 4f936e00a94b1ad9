import FeatureTables.Proofs.Conversion.History
import FeatureTables.Proofs.Layout.Provenance
import FeatureTables.Proofs.Layout.Requirements
import FeatureTables.Proofs.Xml.Numbering

/-!
When a document is refused as incomplete. An element in whose row something is missing lacks a step that
its own types require, or differs from another one of its table: in the types on the way, or in where the
step leads to (`missing_cases`). So a complete document may be refused, as a child that says nothing is
not where a link looks for it.
-/

namespace FeatureTables

open Layout Population Schema Xml

namespace Conversion

/-- Some element that the steps of a key lead to lacks the next step, which its type requires. -/
def Justified (c : Catalog) (typing : Typing) (x : Element) (key : String) : Prop :=
  ∃ before step after e t, Key.steps key = before ++ step :: after ∧ Reaches x before e ∧
    typing.get? e.id = some t ∧ Lacks c typing t.type e step

/-- The steps of a key lead from two elements to two others, of which the first lacks what only the
type of the second one requires, or has it placed in another way. -/
def Differ (c : Catalog) (typing : Typing) (l : Layout) (x y : Element) (key : String) : Prop :=
  ∃ before step after e e', Key.steps key = before ++ step :: after ∧ Reaches x before e ∧
    Reaches y before e' ∧ ((∃ t t', typing.get? e.id = some t ∧ typing.get? e'.id = some t' ∧
      t.type ≠ t'.type ∧ Lacks c typing t'.type e step) ∨ Diverges l e e' step)

section Missing

variable {c : Catalog} {typing : Typing} {l : Layout} {x y : Element} {key : String}

theorem justified_or_differ (h : PartAt c typing l x y key) :
    Justified c typing x key ∨ Differ c typing l x y key := by
  obtain ⟨before, step, after, e, e', hsteps, he, he', ⟨t, ht⟩, hgap⟩ := h
  rcases hgap with ⟨t', ht', hlacks⟩ | hdiverges
  · by_cases htype : t.type = t'.type
    · exact Or.inl ⟨before, step, after, e, t, hsteps, he, ht, htype ▸ hlacks⟩
    · exact Or.inr ⟨before, step, after, e, e', hsteps, he, he',
        Or.inl ⟨t, t', ht, ht', htype, hlacks⟩⟩
  · exact Or.inr ⟨before, step, after, e, e', hsteps, he, he', Or.inr hdiverges⟩

/-- A document that is refused because something is missing has a row whose element lacks what its
types require, or which differs from a row of its table on the way of the key. -/
theorem missing_cases (c : Conversion) {limits : Limits} {bytes : Bytes} {d : Document}
    (hd : Document.parse limits bytes = .ok d) (hplain : PlainNames d.root) {typing : Typing}
    (htyping : Typing.ofRoot c.catalog d.root = .ok typing) {built : Outcome}
    (hbuilt : build ⟨typing, c.options⟩ {} d.root = .ok built) {table : String}
    (htable : built.rootTable? = some table) {cause : Violation} (hcause : cause.IsMissing)
    {place : Place} (h : ofRoot ⟨built.model, built.layout, c.codec⟩ d.root table =
      .error (.cardinality cause place)) :
    ∃ x ∈ d.root.descendants, ∃ name key, built.layout.get? x.id = some (.table name) ∧
      place = { tag? := some x.name.toText, table? := some name, xpath? := some key } ∧
      (Justified c.catalog typing x key ∨ ∃ y ∈ d.root.descendants,
        built.layout.get? y.id = some (.table name) ∧
          Differ c.catalog typing built.layout x y key) := by
  have hdistinct := (Document.numbered_parse hd).distinct
  have hsound := (build_grows hbuilt).sound Model.sound_empty
  have hroot := (build_places hdistinct hbuilt).table table htable
  obtain ⟨x, hx, name, t, key, f, hname, ht, hmisses⟩ := populate_fails hcause
    (s := ⟨built.model, built.layout, c.codec⟩) (Element.mem_descendants_self d.root) hroot
    (ofRoot_fails h)
  have hf := OrderedMap.get?_of_mem_entries (hsound.tables name t ht).nodup hmisses.field
  have hkeyed := (hsound.tables name t ht).keyed key f hf
  refine ⟨x, hx, name, key, hname, ?_, ?_⟩
  · rw [hmisses.place, hkeyed, hsound.named name t ht]
  · rcases (build_records hdistinct hbuilt).traced name t key f ht hf hmisses.key with
      ⟨b, rfl⟩ | ⟨y, hy, hyname, g, hg, hgkey, hgrows⟩
    · cases hmisses.required
    · -- the field has come from another row, of which the types require it
      have hrequired : g.isOptional = false :=
        Bool.eq_false_iff.2 fun hg => Bool.false_ne_true (hmisses.required ▸ hgrows.isOptional hg)
      obtain ⟨tx, htx, -⟩ := build_typed hbuilt hname
      have hpart := hg.partAt ((typedBy_ofRoot hdistinct htyping c.options).of_mem hy)
        (fun z hz => (Typing.ofRoot_typed hdistinct htyping).2 z (Element.mem_descendants_trans hz hy))
        (hplain.of_mem hy)
        (fun i p hp => by
          obtain ⟨ti, hti, hgeometry, -⟩ := build_typed hbuilt hp
          exact ⟨ti, hti, hgeometry⟩)
        hrequired ⟨tx, htx⟩ fun hfinds => hmisses.nothing (hfinds.grows hgrows)
      rw [hgkey] at hpart
      exact (justified_or_differ hpart).imp id fun hdiffer => ⟨y, hy, hyname, hdiffer⟩

/-- Where a key is one plain name and a child has that name, nothing is lacking. -/
theorem not_justified_of_child (hkey : Key.Plain key) {child : Element} (hc : child ∈ x.children)
    (htag : Layout.hasTag child key = true) : ¬ Justified c typing x key := by
  rintro ⟨before, step, after, e, t, hsteps, hreaches, -, hlacks⟩
  rw [Key.steps_of_plain hkey] at hsteps
  cases before with
  | nil =>
    obtain ⟨rfl, rfl⟩ := List.cons.inj hsteps
    cases hreaches
    rw [hlacks.2 child hc] at htag
    cases htag
  | cons first before => simp at hsteps

end Missing

/-- An element with texts below it, both of which may be repeated. -/
def hollowSchema : String :=
  "<xs:schema xmlns:xs='http://www.w3.org/2001/XMLSchema'><xs:element name='r'><xs:complexType>" ++
  "<xs:sequence><xs:element name='a' maxOccurs='unbounded'><xs:complexType><xs:sequence>" ++
  "<xs:element name='b' type='xs:string' maxOccurs='unbounded'/></xs:sequence></xs:complexType>" ++
  "</xs:element></xs:sequence></xs:complexType></xs:element></xs:schema>"

theorem plain_b : Key.Plain "b" :=
  Key.plain_of_ends (by decide) (by decide) (c := 'b') (by decide) (by decide) (by decide)

/-- The place of the second row, in which the link finds nothing. -/
def hollowPlace : Place := { tag? := some "a", table? := some "r_a", xpath? := some "b" }

/-- The document is refused at a row of which the element has the child. -/
theorem hollow_refused : ∃ d typing built table,
    Document.ofText "<r><a><b>x</b></a><a><b/></a></r>" = .ok d ∧ PlainNames d.root ∧
    Typing.ofRoot (ofText hollowSchema).catalog d.root = .ok typing ∧
    build ⟨typing, (ofText hollowSchema).options⟩ {} d.root = .ok built ∧
    built.rootTable? = some table ∧
    ofRoot ⟨built.model, built.layout, (ofText hollowSchema).codec⟩ d.root table =
      .error (.cardinality .childMissing hollowPlace) ∧
    ∀ x ∈ d.root.descendants, built.layout.get? x.id = some (.table "r_a") →
      ∃ child ∈ x.children, Layout.hasTag child "b" = true := by
  have heval : ((Document.ofText "<r><a><b>x</b></a><a><b/></a></r>").toOption.bind fun d =>
      (Typing.ofRoot (ofText hollowSchema).catalog d.root).toOption.bind fun typing =>
        (build ⟨typing, (ofText hollowSchema).options⟩ {} d.root).toOption.bind fun built =>
          built.rootTable?.map fun table =>
            ((match ofRoot ⟨built.model, built.layout, (ofText hollowSchema).codec⟩ d.root table with
              | .error err => some err
              | .ok _ => none),
            decide (∀ x ∈ d.root.descendants, built.layout.get? x.id = some (.table "r_a") →
              ∃ child ∈ x.children, Layout.hasTag child "b" = true),
            decide (PlainNames d.root))) =
      some (some (.cardinality .childMissing hollowPlace), true, true) := by
    decide +kernel
  obtain ⟨d, hd, heval⟩ := Option.bind_eq_some_iff.1 heval
  obtain ⟨typing, htyping, heval⟩ := Option.bind_eq_some_iff.1 heval
  obtain ⟨built, hbuilt, heval⟩ := Option.bind_eq_some_iff.1 heval
  obtain ⟨table, htable, heval⟩ := Option.map_eq_some_iff.1 heval
  rw [toOption_eq_some_iff] at hd htyping hbuilt
  simp only [Prod.mk.injEq, decide_eq_true_iff] at heval
  obtain ⟨hrefused, hchild, hplain⟩ := heval
  refine ⟨d, typing, built, table, hd, hplain, htyping, hbuilt, htable, ?_, hchild⟩
  split at hrefused
  · rename_i err herr
    rw [herr, Option.some.inj hrefused]
  · cases hrefused

/-- The row that is refused differs from another one of its table. -/
theorem hollow_child_differs : ∃ d typing built,
    Document.ofText "<r><a><b>x</b></a><a><b/></a></r>" = .ok d ∧
    Typing.ofRoot (ofText hollowSchema).catalog d.root = .ok typing ∧
    build ⟨typing, (ofText hollowSchema).options⟩ {} d.root = .ok built ∧
    ∃ x ∈ d.root.descendants, built.layout.get? x.id = some (.table "r_a") ∧
      ∃ y ∈ d.root.descendants, built.layout.get? y.id = some (.table "r_a") ∧
        Differ (ofText hollowSchema).catalog typing built.layout x y "b" := by
  obtain ⟨d, typing, built, table, hd, hplain, htyping, hbuilt, htable, hrefused, hchild⟩ :=
    hollow_refused
  obtain ⟨x, hx, name, key, hname, hplace, hcases⟩ := missing_cases (ofText hollowSchema) hd hplain
    htyping hbuilt htable (by exact trivial) hrefused
  obtain ⟨-, rfl, rfl⟩ : _ ∧ "r_a" = name ∧ "b" = key := by
    simpa [hollowPlace] using hplace
  obtain ⟨child, hc, htag⟩ := hchild x hx hname
  exact ⟨d, typing, built, hd, htyping, hbuilt, x, hx, hname,
    hcases.resolve_left (not_justified_of_child plain_b hc htag)⟩

/-- The row of an element that has the child is refused, as the child says nothing and the child of
another row is a row. -/
theorem hollow_child_refused : ∃ d typing built table,
    Document.ofText "<r><a><b>x</b></a><a><b/></a></r>" = .ok d ∧
    Typing.ofRoot (ofText hollowSchema).catalog d.root = .ok typing ∧
    build ⟨typing, (ofText hollowSchema).options⟩ {} d.root = .ok built ∧
    built.rootTable? = some table ∧
    ofRoot ⟨built.model, built.layout, (ofText hollowSchema).codec⟩ d.root table =
      .error (.cardinality .childMissing
        { tag? := some "a", table? := some "r_a", xpath? := some "b" }) ∧
    ∀ x ∈ d.root.descendants, built.layout.get? x.id = some (.table "r_a") →
      ¬ Justified (ofText hollowSchema).catalog typing x "b" := by
  obtain ⟨d, typing, built, table, hd, -, htyping, hbuilt, htable, hrefused, hchild⟩ := hollow_refused
  refine ⟨d, typing, built, table, hd, htyping, hbuilt, htable, hrefused, fun x hx hname => ?_⟩
  obtain ⟨child, hc, htag⟩ := hchild x hx hname
  exact not_justified_of_child plain_b hc htag

end Conversion

end FeatureTables
