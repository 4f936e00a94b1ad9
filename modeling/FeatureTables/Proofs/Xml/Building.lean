import FeatureTables.Proofs.Xml.Tree
import FeatureTables.Xml.Document
import Mathlib.Data.List.Induction

/-!
What the tokens of a document do to the tree under construction. One token opens an element, closes one,
adds to its text or changes nothing (`Building.Steps`); what each token keeps holds of the tree that all of
them build (`Building.run_induct`).
-/

namespace FeatureTables.Xml

open Element

/-! ### An element that is opened -/

/-- What the element of a tag is made of: its names are resolved with its own declarations, and it is
within the limits. -/
theorem openElement_cases {limits : Limits} {depth : Nat} {bs bs' : Bindings} {scope : Scope}
    {id : NodeId} {body : Bytes} {e : Element}
    (h : openElement limits depth bs scope id body = .ok (e, bs')) :
    ∃ ns? localName opening, bs.addAttributes (bodyAttributes body).1 = .ok bs' ∧
      bs'.namespace? (splitName (bodyName body)).1 = .ok ns? ∧
      Text.fromUtf8? (splitName (bodyName body)).2 = some localName ∧
      Opening.addAll bs' { scope } (bodyAttributes body).1 = .ok opening ∧
      limits.checkDepth (depth + 1) = .ok () ∧
      limits.checkAttributes opening.attributes.length = .ok () ∧
      e = { id, name := ⟨ns?, localName⟩, attributes := opening.attributes.reverse,
            scope := opening.scope } := by
  simp only [openElement, bind_eq_ok_iff, mapError_eq_ok_iff] at h
  obtain ⟨bs₁, hbs, ns?, hns, _, hdepth, h⟩ := h
  cases hname : Text.fromUtf8? (splitName (bodyName body)).2 with
  | none => simp [hname] at h
  | some localName =>
    simp only [hname, bind_eq_ok_iff, mapError_eq_ok_iff] at h
    obtain ⟨opening, hopening, h⟩ := h
    split at h
    · simp [throw, throwThe, MonadExceptOf.throw, bind, Except.bind] at h
    · simp only [bind_eq_ok_iff, pure, Except.pure, Except.ok.injEq, Prod.mk.injEq] at h
      obtain ⟨_, hcount, rfl, rfl⟩ := h
      exact ⟨ns?, localName, opening, hbs, hns, rfl, hopening, hdepth, hcount, rfl⟩

/-- A start tag, an empty-element tag or an end tag. -/
def Token.isTag : Token → Bool
  | .start _ | .empty _ | .stop _ => true
  | .text _ | .cdata _ | .skipped => false

/-- A start tag or an empty-element tag. -/
def Token.opens : Token → Bool
  | .start _ | .empty _ => true
  | .stop _ | .text _ | .cdata _ | .skipped => false

theorem Token.opens_of_plain {t : Token} (h : t.isTag = false) : t.opens = false := by
  cases t with
  | start body => cases h
  | empty body => cases h
  | stop name => rfl
  | text raw => rfl
  | cdata raw => rfl
  | skipped => rfl

namespace Building

variable {limits : Limits} {b b' : Building} {e : Element} {t : Token} {bs : Bindings} {body : Bytes}

theorem enter_eq (h : b.enter limits body = .ok (e, bs)) : e.id = b.nextId ∧ e.children = [] := by
  obtain ⟨_, _, _, -, -, -, -, -, -, rfl⟩ := openElement_cases h
  exact ⟨rfl, rfl⟩

/-- An element that is finished becomes the last child of the innermost open one, or the root. -/
theorem attach_cases (h : b.attach e = .ok b') :
    (∃ o stack, b.stack = o :: stack ∧
      b' = { b with stack := { o with children := e :: o.children } :: stack }) ∨
    b.stack = [] ∧ b.root? = none ∧ b' = { b with root? := some e } := by
  obtain ⟨stack, root?, nextId⟩ := b
  cases stack with
  | cons o stack =>
    cases h
    exact Or.inl ⟨o, stack, rfl, rfl⟩
  | nil =>
    cases root? with
    | none =>
      cases h
      exact Or.inr ⟨rfl, rfl, rfl⟩
    | some root => cases h

/-- What one token does. -/
inductive Steps (limits : Limits) : Building → Token → Building → Prop
  | start {b : Building} {body : Bytes} {e : Element} {bs : Bindings}
      (enter : b.enter limits body = .ok (e, bs)) : Steps limits b (.start body)
      { b with stack := { element := e, tag := bodyName body, bindings := bs } :: b.stack,
               nextId := b.nextId + 1 }
  | empty {b b' : Building} {body : Bytes} {e : Element} {bs : Bindings}
      (enter : b.enter limits body = .ok (e, bs))
      (attach : { b with nextId := b.nextId + 1 }.attach e = .ok b') :
      Steps limits b (.empty body) b'
  | stop {o : Open} {stack : List Open} {root? : Option Element} {nextId : NodeId} {b' : Building}
      (attach : Building.attach ⟨stack, root?, nextId⟩ o.close = .ok b') :
      Steps limits ⟨o :: stack, root?, nextId⟩ (.stop o.tag) b'
  | text {o : Open} {stack : List Open} {root? : Option Element} {nextId : NodeId} {t : Token}
      (text : List String) (plain : t.isTag = false) :
      Steps limits ⟨o :: stack, root?, nextId⟩ t ⟨{ o with text } :: stack, root?, nextId⟩
  | pass {b : Building} {t : Token} (plain : t.isTag = false) : Steps limits b t b

theorem steps_of_step (h : b.step limits t = .ok b') : Steps limits b t b' := by
  obtain ⟨stack, root?, nextId⟩ := b
  cases t with
  | skipped =>
    cases h
    exact .pass rfl
  | start body =>
    simp only [Building.step, bind_eq_ok_iff, pure, Except.pure, Except.ok.injEq] at h
    obtain ⟨⟨e, bs⟩, henter, rfl⟩ := h
    exact .start henter
  | empty body =>
    simp only [Building.step, bind_eq_ok_iff] at h
    obtain ⟨⟨e, bs⟩, henter, hattach⟩ := h
    exact .empty henter hattach
  | stop name =>
    cases stack with
    | nil => cases h
    | cons o stack =>
      unfold Building.step at h
      dsimp only at h
      split at h
      · next htag =>
        subst htag
        exact .stop h
      · cases h
  | text raw =>
    cases stack with
    | nil =>
      cases h
      exact .pass rfl
    | cons o stack =>
      simp only [Building.step, bind_eq_ok_iff, pure, Except.pure, Except.ok.injEq] at h
      obtain ⟨text, -, rfl⟩ := h
      exact .text _ rfl
  | cdata raw =>
    cases stack with
    | nil =>
      cases h
      exact .pass rfl
    | cons o stack =>
      cases h
      exact .text _ rfl

/-- What holds before the first token and is kept by each one holds after all of them. -/
theorem run_induct {P : List Token → Building → Prop} (start : P [] {})
    (step : ∀ ts t b b', Steps limits b t b' → P ts b → P (ts ++ [t]) b') {tokens : List Token}
    (h : tokens.foldlM (Building.step limits) {} = .ok b) : P tokens b := by
  induction tokens using List.reverseRecOn generalizing b with
  | nil =>
    cases h
    exact start
  | append_singleton ts t ih =>
    rw [List.foldlM_append, bind_eq_ok_iff] at h
    obtain ⟨b₁, hb₁, h⟩ := h
    rw [List.foldlM_cons, bind_eq_ok_iff] at h
    obtain ⟨b₂, hstep, h⟩ := h
    cases h
    exact step ts t b₁ b (steps_of_step hstep) (ih hb₁)

/-! ### What holds of all elements -/

/-- All elements so far have a property, the open ones without what is inside of them. -/
structure All (P : Element → Prop) (b : Building) : Prop where
  root : ∀ e ∈ b.root?, ∀ d ∈ e.descendants, P d
  elements : ∀ o ∈ b.stack, P o.element
  children : ∀ o ∈ b.stack, ∀ c ∈ o.children, ∀ d ∈ c.descendants, P d

section All

variable {P : Element → Prop}

theorem All.attach (h : b.All P) (he : ∀ d ∈ e.descendants, P d) (hattach : b.attach e = .ok b') :
    b'.All P := by
  rcases attach_cases hattach with ⟨o, stack, hstack, rfl⟩ | ⟨-, -, rfl⟩
  · obtain ⟨helement, helements⟩ := List.forall_mem_cons.1 (hstack ▸ h.elements)
    obtain ⟨hchild, hchildren⟩ := List.forall_mem_cons.1 (hstack ▸ h.children)
    exact ⟨h.root, List.forall_mem_cons.2 ⟨helement, helements⟩,
      List.forall_mem_cons.2 ⟨List.forall_mem_cons.2 ⟨he, hchild⟩, hchildren⟩⟩
  · refine ⟨fun e' he' => ?_, h.elements, h.children⟩
    exact Option.some.inj he' ▸ he

theorem All.push {o : Open} (h : b.All P) (ho : P o.element)
    (hchildren : ∀ c ∈ o.children, ∀ d ∈ c.descendants, P d) {nextId : NodeId} :
    All P ⟨o :: b.stack, b.root?, nextId⟩ where
  root := h.root
  elements := List.forall_mem_cons.2 ⟨ho, h.elements⟩
  children := List.forall_mem_cons.2 ⟨hchildren, h.children⟩

/-- A property that children and text have no part in is kept, if the element that is opened has it. -/
theorem All.steps (h : b.All P) (hP : ∀ e children text?, P e → P { e with children, text? })
    (hstep : Steps limits b t b')
    (hopened : ∀ body e bs, t = .start body ∨ t = .empty body → b.enter limits body = .ok (e, bs) →
      P e) : b'.All P := by
  cases hstep with
  | start enter => exact h.push (hopened _ _ _ (Or.inl rfl) enter) fun c hc => by cases hc
  | @empty _ _ _ e _ enter attach =>
    have hleaf : ∀ d ∈ e.descendants, P d := by
      intro d hd
      rw [descendants_eq, (enter_eq enter).2] at hd
      exact List.mem_singleton.1 hd ▸ hopened _ _ _ (Or.inr rfl) enter
    have hnext : All P { b with nextId := b.nextId + 1 } := ⟨h.root, h.elements, h.children⟩
    exact hnext.attach hleaf attach
  | @stop o stack root? nextId _ attach =>
    obtain ⟨helement, helements⟩ := List.forall_mem_cons.1 h.elements
    obtain ⟨hchild, hchildren⟩ := List.forall_mem_cons.1 h.children
    have hclosed : ∀ d ∈ o.close.descendants, P d := by
      intro d hd
      rcases mem_descendants_iff.1 hd with rfl | hd
      · exact hP _ _ _ helement
      · obtain ⟨c, hc, hd⟩ := mem_inner_iff.1 hd
        exact hchild c (List.mem_reverse.1 hc) d hd
    have hrest : All P ⟨stack, root?, nextId⟩ := ⟨h.root, helements, hchildren⟩
    exact hrest.attach hclosed attach
  | text text plain =>
    obtain ⟨helement, helements⟩ := List.forall_mem_cons.1 h.elements
    obtain ⟨hchild, hchildren⟩ := List.forall_mem_cons.1 h.children
    exact ⟨h.root, List.forall_mem_cons.2 ⟨helement, helements⟩,
      List.forall_mem_cons.2 ⟨hchild, hchildren⟩⟩
  | pass plain => exact h

end All

end Building

/-- A document that is accepted is what its tokens build, and there are tokens up to its end. -/
theorem Document.parse_cases {limits : Limits} {bytes : Bytes} {d : Document}
    (h : Document.parse limits bytes = .ok d) : ∃ built,
      (Token.scan (withoutMark bytes)).1.foldlM (Building.step limits) {} = .ok built ∧
      (Token.scan (withoutMark bytes)).2 = none ∧ built.root? = some d.root ∧
      built.nextId = d.nodeCount := by
  simp only [Document.parse, bind_eq_ok_iff] at h
  obtain ⟨_, -, built, hbuilt, h⟩ := h
  split at h
  · simp [throw, throwThe, MonadExceptOf.throw, bind, Except.bind] at h
  · next hend =>
    cases hroot : built.root? with
    | none => simp [hroot, throw, throwThe, MonadExceptOf.throw] at h
    | some root =>
      simp only [hroot, pure, Except.pure, Except.ok.injEq] at h
      subst h
      exact ⟨built, hbuilt, Option.eq_none_iff_forall_ne_some.2 hend, hroot, rfl⟩

end FeatureTables.Xml
