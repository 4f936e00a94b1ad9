import FeatureTables.Proofs.Layout.Closure

/-!
The keys of fields have steps. A key is made of the names of elements, so it leads somewhere as soon as
each name has something else than slashes (`build_stepping`). A key without steps leads from an element
to the element itself, and rows without end would follow from a link with such a key.
-/

namespace FeatureTables

/-- Something else than slashes stands in the name. -/
def StepName (s : String) : Prop := ∃ c ∈ s.toList, c ≠ '/'

instance (s : String) : Decidable (StepName s) :=
  List.decidableBEx (fun c => c ≠ '/') s.toList

/-- The key of the field has steps. -/
def Field.Steps (f : Field) : Prop := StepName f.key

theorem Field.lasts_steps : Field.Lasts Field.Steps where
  join {f} g hf := by
    unfold Field.Steps
    rw [Field.key_join]
    exact hf
  relaxed {f} hf := by
    unfold Field.Steps
    rw [Field.key_relaxed]
    exact hf

theorem StepName.append {s : String} (h : StepName s) (before : String) :
    StepName (before ++ s) := by
  obtain ⟨c, hc, hne⟩ := h
  exact ⟨c, by simp [hc], hne⟩

theorem Field.steps_backLink (b : BackLink) : (Field.backLink b).Steps :=
  ⟨'b', by simp [Field.key, BackLink.keyFor], by decide⟩

theorem Field.Steps.under {f : Field} (h : f.Steps) (step : String) (optional : Bool) :
    (f.under step optional).Steps := by
  cases f with
  | backLink b => exact h
  | _ => exact StepName.append h _

namespace Layout

open Xml Element

theorem stepName_keyStep (parent : Element) {child : Element} (h : StepName child.localName) :
    StepName (keyStep parent child) := by
  rcases keyStep_cases parent child with hstep | ⟨label, -, hstep⟩
  · exact hstep ▸ h
  · exact hstep ▸ h.append _

theorem invariant_stepping : Invariant (fun e => StepName e.localName) (fun _ => True)
    (AllFields Field.Steps) fun _ f => f.Steps where
  next _ _ _ _ := trivial
  grows _ _ hf := hf
  started natural hm _ hnone := hm.started natural hnone
  extended hm hfs := hm.modify fun _ ht => ht.extend Field.lasts_steps hfs
  own {m e t f} hf := by
    rcases mem_ownFields hf with ⟨name, _, -, rfl⟩ | ⟨_, rfl⟩
    · exact ⟨'@', by simp [Field.key], by decide⟩
    · exact ⟨'t', by simp [Field.key, Key.text], by decide⟩
  geometry := ⟨'g', by simp [Field.key, geometryField, Key.geometry], by decide⟩
  link {m parent e _ _ _ _} he _ := stepName_keyStep parent he
  under step optional hf := hf.under step optional

/-- The keys of fields have steps in the model of a document, if they had in the model before. -/
theorem build_stepping {s : Setting} {m : Model} {root : Element} {o : Outcome}
    (hm : AllFields Field.Steps m) (hnames : ∀ y ∈ root.descendants, StepName y.localName)
    (h : build s m root = .ok o) : AllFields Field.Steps o.model := by
  obtain ⟨b, hb, -, hmodel⟩ := build_eq_ok_iff.1 h
  have hbuilt : AllFields Field.Steps b.model := invariant_stepping.buildTable trivial
    (fun y hy => hnames y (mem_descendants_iff.2 (Or.inr hy))) hm hb
  have hrooted : AllFields Field.Steps
      { b.model with rootTable? := b.model.rootTable?.or o.rootTable? } := hbuilt
  rw [hmodel]
  exact hrooted.settling Field.lasts_steps fun _ _ => Field.steps_backLink _

end Layout

end FeatureTables
