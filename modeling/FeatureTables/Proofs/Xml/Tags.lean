import FeatureTables.Proofs.Xml.Namespaces
import FeatureTables.Proofs.Xml.Numbering

/-!
The tags that the elements of a document come from. Tags have the numbers of their elements, and the
declarations in scope are those of the tags that are open around them (`Document.written_parse`). So the
names of all elements and attributes say as values what they say as names, where their prefixes are
declared without references (`Document.namespaces_agree_iff`). The invariant is about the tokens that are
left: their tags are those of the numbers from the next one on.
-/

namespace FeatureTables.Xml

open Text Element

/-! ### Tags with their declarations -/

/-- The tags of tokens, each with the declarations in scope, innermost first; `outer` has those of the
elements that are open. -/
def tagsFrom : List (List (Bytes × Bytes)) → List Token → List (Bytes × List (Bytes × Bytes))
  | _, [] => []
  | outer, .start body :: ts =>
    let ds := declarations body ++ outer.headD []
    (body, ds) :: tagsFrom (ds :: outer) ts
  | outer, .empty body :: ts => (body, declarations body ++ outer.headD []) :: tagsFrom outer ts
  | outer, .stop _ :: ts => tagsFrom outer.tail ts
  | outer, .text _ :: ts | outer, .cdata _ :: ts | outer, .skipped :: ts => tagsFrom outer ts

/-- The tags of an input, in their order, each with the declarations in scope. -/
def tags (bytes : Bytes) : List (Bytes × List (Bytes × Bytes)) :=
  tagsFrom [] (Token.scan (withoutMark bytes)).1

/-- The element is the one of the tag of its number. -/
def Written (ts : List (Bytes × List (Bytes × Bytes))) (e : Element) : Prop :=
  ∃ body ds bs, ts[e.id]? = some (body, ds) ∧ e.ReadFrom body ds bs

namespace Building

/-- The open elements have their namespaces from the declarations around them. -/
def Scoped (stack : List Open) (outer : List (List (Bytes × Bytes))) : Prop :=
  List.Forall₂ (fun o ds => Declares ds o.bindings o.element.scope) stack outer

/-- The rest of the tokens has the tags that are still to come, and the open elements have their
namespaces from the declarations around them. -/
structure Follows (ts : List (Bytes × List (Bytes × Bytes))) (b : Building)
    (outer : List (List (Bytes × Bytes))) (tokens : List Token) : Prop where
  tags : tagsFrom outer tokens = ts.drop b.nextId
  stack : Scoped b.stack outer
  all : b.All (Written ts)

section Follows

variable {limits : Limits} {ts : List (Bytes × List (Bytes × Bytes))} {b b' : Building}
  {outer : List (List (Bytes × Bytes))} {tokens : List Token} {t : Token} {e : Element}

theorem written_with {children : List Element} {text? : Option String} (h : Written ts e) :
    Written ts { e with children, text? } := by
  obtain ⟨body, ds, bs, htag, hread⟩ := h
  exact ⟨body, ds, bs, htag, hread.declares, hread.localName, hread.ns, hread.attributes⟩

theorem Scoped.attach (h : Scoped b.stack outer) (hattach : b.attach e = .ok b') :
    Scoped b'.stack outer := by
  obtain ⟨stack, root?, nextId⟩ := b
  cases stack with
  | cons o stack =>
    cases hattach
    cases h with
    | cons ho hstack => exact .cons ho hstack
  | nil =>
    cases root? with
    | none =>
      cases hattach
      exact h
    | some root => cases hattach

theorem drop_eq_cons {α : Type} {xs rest : List α} {n : ℕ} {x : α} (h : x :: rest = xs.drop n) :
    xs[n]? = some x ∧ rest = xs.drop (n + 1) := by
  constructor
  · rw [← List.head?_drop, ← h]
    rfl
  · rw [← List.tail_drop, ← h]
    rfl

/-- The namespaces in which an element is entered. -/
theorem Follows.outermost (h : Follows ts b outer tokens) :
    Declares (outer.headD []) ((b.stack.head?.map (·.bindings)).getD .initial)
      ((b.stack.head?.map (·.element.scope)).getD {}) := by
  have hstack := h.stack
  generalize b.stack = stack at hstack
  cases hstack with
  | nil => exact .start
  | cons ho _ => exact ho

/-- An element that is entered is the one of the next tag. -/
theorem Follows.enter (h : Follows ts b outer tokens) {body : Bytes} {bs : Bindings}
    {rest : List (Bytes × List (Bytes × Bytes))}
    (hnext : (body, declarations body ++ outer.headD []) :: rest = ts.drop b.nextId)
    (henter : b.enter limits body = .ok (e, bs)) :
    Written ts e ∧ e.children = [] ∧ Declares (declarations body ++ outer.headD []) bs e.scope ∧
      rest = ts.drop (b.nextId + 1) := by
  obtain ⟨hid, hchildren⟩ := enter_eq henter
  have hread := openElement_readFrom h.outermost henter
  obtain ⟨htag, hrest⟩ := drop_eq_cons hnext
  exact ⟨⟨body, _, bs, by rw [hid]; exact htag, hread⟩, hchildren, hread.declares, hrest⟩

/-- What is no tag has no part in the tags to come. -/
theorem tagsFrom_plain (h : t.isTag = false) : tagsFrom outer (t :: tokens) = tagsFrom outer tokens := by
  cases t with
  | start body => cases h
  | empty body => cases h
  | stop name => cases h
  | text raw => rfl
  | cdata raw => rfl
  | skipped => rfl

theorem Follows.step (h : Follows ts b outer (t :: tokens)) (hstep : Steps limits b t b') :
    ∃ outer', Follows ts b' outer' tokens := by
  have hall : b'.All (Written ts) := by
    refine h.all.steps (fun _ _ _ => written_with) hstep fun body e bs ht henter => ?_
    rcases ht with rfl | rfl
    · exact (h.enter h.tags henter).1
    · exact (h.enter h.tags henter).1
  cases hstep with
  | start enter =>
    obtain ⟨-, -, hdeclares, hrest⟩ := h.enter h.tags enter
    exact ⟨_, hrest, .cons hdeclares h.stack, hall⟩
  | empty enter attach =>
    obtain ⟨-, -, -, hrest⟩ := h.enter h.tags enter
    have hstack := Scoped.attach (b := { b with nextId := b.nextId + 1 }) h.stack attach
    refine ⟨outer, ?_, hstack, hall⟩
    rw [(attach_numbers attach).2]
    exact hrest
  | @stop o stack root? nextId _ attach =>
    cases h.stack with
    | cons _ hstack =>
      have hstack := Scoped.attach (b := ⟨stack, root?, nextId⟩) hstack attach
      refine ⟨_, ?_, hstack, hall⟩
      rw [(attach_numbers attach).2]
      exact h.tags
  | text text plain =>
    have htags := (tagsFrom_plain plain).symm.trans h.tags
    cases h.stack with
    | cons ho hstack => exact ⟨_, htags, .cons ho hstack, hall⟩
  | pass plain => exact ⟨outer, (tagsFrom_plain plain).symm.trans h.tags, h.stack, hall⟩

theorem Follows.foldlM (h : Follows ts b outer tokens)
    (hfold : tokens.foldlM (Building.step limits) b = .ok b') : b'.All (Written ts) := by
  induction tokens generalizing b outer with
  | nil =>
    cases hfold
    exact h.all
  | cons t tokens ih =>
    rw [List.foldlM_cons, bind_eq_ok_iff] at hfold
    obtain ⟨b₁, hstep, hfold⟩ := hfold
    obtain ⟨outer', h₁⟩ := h.step (steps_of_step hstep)
    exact ih h₁ hfold

end Follows

end Building

/-! ### Documents -/

section Documents

variable {limits : Limits} {bytes : Bytes} {d : Document}

/-- The elements of a document are those of the tags of its text. -/
theorem Document.written_parse (h : Document.parse limits bytes = .ok d) :
    ∀ e ∈ d.root.descendants, Written (tags bytes) e := by
  obtain ⟨built, hbuilt, -, hroot, -⟩ := Document.parse_cases h
  have hstart : Building.Follows (tags bytes) {} [] (Token.scan (withoutMark bytes)).1 :=
    ⟨rfl, .nil, ⟨by simp, by simp, by simp⟩⟩
  exact (hstart.foldlM hbuilt).root d.root hroot

/-- Tags and values agree on a prefix if and only if it is declared without references, in the scope of
each element: the tag read as a value gives the name of the element, as do the written names of its
attributes with a prefix, and a value with the prefix of the tag has the namespace of the element. This
is where prefixes are texts, of which only that of the default is empty, and names have no blanks at
their ends. -/
theorem Document.namespaces_agree_iff (h : Document.parse limits bytes = .ok d) :
    ∀ e ∈ d.root.descendants, ∃ body ds, (tags bytes)[e.id]? = some (body, ds) ∧
      ((∀ a ∈ ds, Regular a) →
        (∀ u, utf8 u = bodyName body → trim u = u →
          (e.scope.resolve u = .ok e.name ↔ Agrees ds (splitName (bodyName body)).1)) ∧
        (∀ u l, (splitName (utf8 u)).1 = (splitName (bodyName body)).1 → trim u = u →
          fromUtf8? (splitName (utf8 u)).2 = some l →
          (e.scope.resolve u = .ok ⟨e.name.ns?, l⟩ ↔ Agrees ds (splitName (bodyName body)).1)) ∧
        List.Forall₂ (fun key a => ∀ u, utf8 u = key → trim u = u → (splitName key).1.isSome →
          (e.scope.resolve u = .ok a.name ↔ Agrees ds (splitName key).1))
          (attributeNames body) e.attributes) := by
  intro e he
  obtain ⟨body, ds, bs, htag, hread⟩ := Document.written_parse h e he
  refine ⟨body, ds, htag, fun hregular => ⟨?_, ?_, ?_⟩⟩
  · intro u hu htrim
    have hns := hread.ns
    have hlocal := hread.localName
    rw [← hu] at hns hlocal ⊢
    exact hread.declares.resolve_iff hregular htrim hns hlocal
  · intro u l hlabel htrim hlocal
    have hns := hread.ns
    rw [← hlabel] at hns ⊢
    exact hread.declares.resolve_iff hregular htrim hns hlocal
  · refine hread.attributes.imp fun key a hnames u hu htrim hlabel => ?_
    obtain ⟨hlocal, hns⟩ := hnames
    obtain ⟨label, hlabel⟩ := Option.isSome_iff_exists.1 hlabel
    have hns : bs.namespace? (splitName key).1 = .ok a.name.ns? := by
      rw [hlabel] at hns ⊢
      exact hns
    subst hu
    exact hread.declares.resolve_iff hregular htrim hns hlocal

/-- A tag in a namespace, with an attribute in it. -/
def boundText : String := "<a:r xmlns:a='urn:x' a:k='1'/>"

theorem boundText_agrees : ∃ d ds, Document.ofText boundText = .ok d ∧
    tags (utf8 boundText) = [(utf8 "a:r xmlns:a='urn:x' a:k='1'", ds)] ∧
    ds = [(utf8 "xmlns:a", utf8 "urn:x")] ∧ (∀ a ∈ ds, Regular a) ∧ Agrees ds (some (utf8 "a")) ∧
    d.root.name = ⟨some "urn:x", "r"⟩ ∧ d.root.scope.resolve "a:r" = .ok d.root.name := by
  have heval : (Document.ofText boundText).toOption.map (fun d =>
      decide (d.root.id = 0 ∧ d.root.name = ⟨some "urn:x", "r"⟩)) = some true := by
    decide +kernel
  obtain ⟨d, hd, heval⟩ := Option.map_eq_some_iff.1 heval
  obtain ⟨hid, hname⟩ := of_decide_eq_true heval
  have hd := toOption_eq_some_iff.1 hd
  have htags : tags (utf8 boundText) =
      [(utf8 "a:r xmlns:a='urn:x' a:k='1'", [(utf8 "xmlns:a", utf8 "urn:x")])] := by
    decide +kernel
  obtain ⟨body, ds, htag, hagree⟩ := Document.namespaces_agree_iff hd d.root (mem_descendants_self _)
  rw [hid, htags] at htag
  obtain ⟨rfl, rfl⟩ := Prod.mk.inj (Option.some.inj htag)
  have hregular : ∀ a ∈ [(utf8 "xmlns:a", utf8 "urn:x")], Regular a := by
    intro a ha
    obtain rfl := List.mem_singleton.1 ha
    exact ⟨"a", by decide +kernel, Or.inr (by decide)⟩
  have hplain : ¬ Escaped (utf8 "urn:x") := by
    rintro ⟨s, hs, hmem⟩
    obtain rfl := Option.some.inj ((fromUtf8?_utf8 _).symm.trans hs)
    exact absurd hmem (by decide)
  have hdeclared : declared? [(utf8 "xmlns:a", utf8 "urn:x")] (utf8 "a") = some (utf8 "urn:x") := by
    decide +kernel
  have hagrees : Agrees [(utf8 "xmlns:a", utf8 "urn:x")] (some (utf8 "a")) :=
    ⟨by decide +kernel, (unescaped_iff hdeclared).2 hplain⟩
  have hlabel : (splitName (bodyName (utf8 "a:r xmlns:a='urn:x' a:k='1'"))).1 = some (utf8 "a") := by
    decide +kernel
  have hresolve := (hagree hregular).1 "a:r" (by decide +kernel) (by decide +kernel)
  rw [hlabel] at hresolve
  exact ⟨d, _, hd, htags, rfl, hregular, hagrees, hname, hresolve.2 hagrees⟩

/-- A tag in a namespace of which the declaration has a reference. -/
def escapedText : String := "<a:r xmlns:a='urn:x&amp;y'/>"

/-- The tag has the namespace as it is written, and a value in its scope the one that is meant. -/
theorem escapedText_disagrees : ∃ d, Document.ofText escapedText = .ok d ∧
    d.root.name = ⟨some "urn:x&amp;y", "r"⟩ ∧
    d.root.scope.resolve "a:r" = .ok ⟨some "urn:x&y", "r"⟩ := by
  have heval : (Document.ofText escapedText).toOption.map (fun d =>
      decide (d.root.name = ⟨some "urn:x&amp;y", "r"⟩ ∧
        (d.root.scope.resolve "a:r").toOption = some ⟨some "urn:x&y", "r"⟩)) = some true := by
    decide +kernel
  obtain ⟨d, hd, heval⟩ := Option.map_eq_some_iff.1 heval
  obtain ⟨hname, hresolve⟩ := of_decide_eq_true heval
  exact ⟨d, toOption_eq_some_iff.1 hd, hname, toOption_eq_some_iff.1 hresolve⟩

end Documents

end FeatureTables.Xml
