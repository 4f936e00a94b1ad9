import FeatureTables.Proofs.Layout.Provenance
import FeatureTables.Proofs.Layout.Way

/-!
The links that building makes. An element brings a link to each row next below it, under the path of
the way there (`Way.carries`), so the table of the element has a field of this key in the end
(`build_keyed`).
-/

namespace FeatureTables.Layout

open Xml Element

/-- An element has a link to the row at the end of a way. -/
theorem Way.carries {s : Setting} {l : Layout} {e x : Element} {names : List String}
    (h : Way l e names x)
    (htyped : ∀ y ∈ e.inner, (l.get? y.id).isSome = true → ∃ t, typingOf s y = .ok t) :
    ∃ k : Link, Carries s l e (.link k) ∧ k.key = Key.path names := by
  induction h with
  | row hc htable =>
    obtain ⟨t, ht⟩ := htyped _ (mem_inner_of_mem_children hc) (by rw [htable]; rfl)
    exact ⟨_, .row hc htable ht, rfl⟩
  | part hc hpasses hway ih =>
    have hmem := mem_inner_of_mem_children hc
    obtain ⟨t, ht⟩ := htyped _ hmem hpasses.isSome
    obtain ⟨k, hk, hkey⟩ := ih fun y hy => htyped y
      (mem_inner_of_descendants (mem_descendants_iff.2 (Or.inr hy)) hmem)
    refine ⟨_, .part hc hpasses ht hk, ?_⟩
    rw [Key.path_cons hway.ne_nil, ← hkey]

/-- The table in which an element was placed has the keys of the ways to the rows next below it. -/
def Keyed (m : Model) (l : Layout) (e : Element) : Prop :=
  ∀ name, l.get? e.id = some (.table name) → ∃ t, m.table? name = some t ∧
    ∀ names x, Way l e names x → t.HasKey (Key.path names)

/-- In the end, the table of each row has the keys of the ways to the rows next below it. -/
theorem build_keyed {s : Setting} {m : Model} {root : Element} {o : Outcome} (hd : root.Distinct)
    (h : build s m root = .ok o) : ∀ y ∈ root.descendants, Keyed o.model o.layout y := by
  intro y hy name hname
  obtain ⟨t, ht, hcovers⟩ := build_equipped hd h y hy name hname
  refine ⟨t, ht, fun names x hway => ?_⟩
  obtain ⟨k, hk, hkey⟩ := hway.carries (s := s) fun z _ hz => by
    obtain ⟨p, hp⟩ := Option.isSome_iff_exists.1 hz
    obtain ⟨t, ht, -⟩ := build_typed h hp
    exact ⟨t, typingOf_eq_ok_iff.2 ht⟩
  exact hkey ▸ (hcovers _ hk).hasKey

end FeatureTables.Layout
