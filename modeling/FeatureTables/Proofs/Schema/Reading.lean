import FeatureTables.Schema.Declaration

/-!
What the declarations of a schema document depend on. The location of the document is for messages
only, and its number is only to tell anonymous types apart: neither decides whether the document can be
read, nor what other documents it refers to (`read_alike`).
-/

namespace FeatureTables.Schema

open Xml

/-! ### Results that agree -/

section Alike

variable {α β γ δ : Type} {r : α → β → Prop} {s : γ → δ → Prop}

/-- Both results are errors, or both are values in a relation. -/
def Alike (r : α → β → Prop) : Except Error α → Except Error β → Prop
  | .ok a, .ok b => r a b
  | .error _, .error _ => True
  | _, _ => False

theorem Alike.bind {x : Except Error α} {y : Except Error β} {f : α → Except Error γ}
    {g : β → Except Error δ} (h : Alike r x y) (hfg : ∀ a b, r a b → Alike s (f a) (g b)) :
    Alike s (x >>= f) (y >>= g) := by
  cases x with
  | error e =>
    cases y with
    | error e' => exact trivial
    | ok b => exact h.elim
  | ok a =>
    cases y with
    | error e' => exact h.elim
    | ok b => exact hfg a b h

theorem Alike.map {x : Except Error α} {y : Except Error β} {f : α → γ} {g : β → δ}
    (h : Alike r x y) (hfg : ∀ a b, r a b → s (f a) (g b)) : Alike s (x.map f) (y.map g) := by
  cases x with
  | error e =>
    cases y with
    | error e' => exact trivial
    | ok b => exact h.elim
  | ok a =>
    cases y with
    | error e' => exact h.elim
    | ok b => exact hfg a b h

theorem alike_eq (x : Except Error α) : Alike Eq x x := by
  cases x with
  | error e => exact trivial
  | ok a => exact rfl

theorem alike_foldlM {xs : List γ} {f : α → γ → Except Error α} {g : β → γ → Except Error β}
    (hfg : ∀ x ∈ xs, ∀ a b, r a b → Alike r (f a x) (g b x)) {a : α} {b : β} (h : r a b) :
    Alike r (xs.foldlM f a) (xs.foldlM g b) := by
  induction xs generalizing a b with
  | nil => exact h
  | cons x xs ih =>
    rw [List.foldlM_cons, List.foldlM_cons]
    exact (hfg x List.mem_cons_self a b h).bind
      fun a b hab => ih (fun y hy => hfg y (List.mem_cons_of_mem _ hy)) hab

end Alike

/-! ### Contexts that agree -/

/-- The contexts say the same of names. If `same`, they are of documents of one number. -/
structure Context.Like (same : Prop) (c c' : Context) : Prop where
  target : c.target? = c'.target?
  adopts : c.adopts = c'.adopts
  elements : c.elementsQualified = c'.elementsQualified
  attributes : c.attributesQualified = c'.attributesQualified
  document : same → c.document = c'.document

/-- The values are the same, if `same`. -/
def Same {α : Type} (same : Prop) (a b : α) : Prop := same → a = b

/-- Both are there or neither is, and they are the same, if `same`. -/
def SameSome {α : Type} (same : Prop) (a b : Option α) : Prop := Same same a b ∧ a.isSome = b.isSome

section Like

variable {same : Prop} {c c' : Context}

theorem Context.Like.globalName (h : c.Like same c') (e : Element) :
    Alike Eq (c.globalName e) (c'.globalName e) := by
  unfold Context.globalName
  rw [h.target]
  cases e.attribute? "name" with
  | none => exact trivial
  | some name => exact rfl

theorem Context.Like.reference? (h : c.Like same c') (e : Element) (key : String) :
    Alike Eq (c.reference? e key) (c'.reference? e key) := by
  unfold Context.reference?
  cases e.attribute? key with
  | none => exact rfl
  | some written =>
    dsimp only [Context.resolve]
    rw [h.target, h.adopts]
    generalize e.scope.resolve written = resolved
    cases resolved with
    | error _ => exact trivial
    | ok name => exact rfl

theorem Context.Like.ownName (h : c.Like same c') (e : Element) (qualified : Bool) (name : String) :
    c.ownName e qualified name = c'.ownName e qualified name := by
  unfold Context.ownName
  rw [h.target]

/-! ### One more level of nesting -/

/-- Reading agrees on what nests at most `n` deep. -/
structure Reads (same : Prop) (c c' : Context) (n : Nat) : Prop where
  inlineType : ∀ e, Alike (Same same) (inlineType? c n e) (inlineType? c' n e)
  typeOf : ∀ key e, Alike (Same same) (typeOf? c n key e) (typeOf? c' n key e)
  simpleType : ∀ e name?, Alike (Same same) (simpleType c n e name?) (simpleType c' n e name?)
  complexType : ∀ e name?, Alike (Same same) (complexType c n e name?) (complexType c' n e name?)
  attributes : ∀ e, Alike (Same same) (attributesOf c n e) (attributesOf c' n e)
  contentModel : ∀ es, Alike (SameSome same) (contentModel? c n es) (contentModel? c' n es)
  particle : ∀ e, Alike (SameSome same) (particle? c n e) (particle? c' n e)
  element : ∀ isGlobal e, Alike (Same same) (elementDecl c n isGlobal e) (elementDecl c' n isGlobal e)

variable {n : Nat} (hc : c.Like same c') (h : Reads same c c' n)

include h in
theorem Reads.inlineType_succ (e : Element) :
    Alike (Same same) (inlineType? c (n + 1) e) (inlineType? c' (n + 1) e) := by
  simp only [inlineType?]
  cases e.children.find? fun d => d.localName == "complexType" || d.localName == "simpleType" with
  | none => exact fun _ => rfl
  | some d =>
    dsimp only
    split
    · exact (h.complexType d none).map fun _ _ hab hs => by rw [hab hs]
    · exact (h.simpleType d none).map fun _ _ hab hs => by rw [hab hs]

include hc h in
theorem Reads.typeOf_succ (key : String) (e : Element) :
    Alike (Same same) (typeOf? c (n + 1) key e) (typeOf? c' (n + 1) key e) := by
  simp only [typeOf?]
  refine (hc.reference? e key).bind ?_
  rintro name? _ rfl
  cases name? with
  | some name => exact fun _ => rfl
  | none => exact h.inlineType e

include hc h in
theorem Reads.simpleType_succ (e : Element) (name? : Option QName) :
    Alike (Same same) (Schema.simpleType c (n + 1) e name?) (Schema.simpleType c' (n + 1) e name?) := by
  simp only [Schema.simpleType]
  refine alike_foldlM (fun d _ t t' ht => ?_) fun hs => by rw [hc.document hs]
  split
  · refine (h.typeOf "base" d).bind fun a b hab hs => ?_
    rw [ht hs, hab hs]
  · refine (h.typeOf "itemType" d).bind fun a b hab hs => ?_
    rw [ht hs, hab hs]
  · exact fun hs => by rw [ht hs]
  · exact ht

include hc h in
theorem Reads.attributes_succ (e : Element) :
    Alike (Same same) (attributesOf c (n + 1) e) (attributesOf c' (n + 1) e) := by
  simp only [attributesOf]
  refine alike_foldlM (fun d _ g g' hg => ?_) fun hs => rfl
  split
  · split
    · exact hg
    · refine (hc.reference? d "ref").bind ?_
      rintro ref? _ rfl
      cases ref? with
      | some name => exact fun hs => by rw [hg hs]
      | none =>
        cases d.attribute? "name" with
        | none => exact trivial
        | some name =>
          refine (h.typeOf "type" d).bind fun a b hab hs => ?_
          rw [hg hs, hab hs, hc.ownName, hc.attributes]
  · refine (hc.reference? d "ref").bind ?_
    rintro ref? _ rfl
    cases ref? with
    | some name => exact fun hs => by rw [hg hs]
    | none => exact hg
  · exact fun hs => by rw [hg hs]
  · exact hg

include h in
/-- The rest of a complex type behind its base: what is made of the particle and the attributes. -/
theorem Reads.complexBody {isSimple : Prop} [Decidable isSimple] {body : Element}
    {make make' : Option Particle → AttributeGroup → ComplexType}
    (hmake : ∀ p g, Same same (make p g) (make' p g)) : Alike (Same same)
      (if isSimple then do
        let particle? ← pure none
        let group ← attributesOf c n body
        pure (make particle? group)
      else do
        let particle? ← contentModel? c n body.children
        let group ← attributesOf c n body
        pure (make particle? group))
      (if isSimple then do
        let particle? ← pure none
        let group ← attributesOf c' n body
        pure (make' particle? group)
      else do
        let particle? ← contentModel? c' n body.children
        let group ← attributesOf c' n body
        pure (make' particle? group)) := by
  split
  · refine Alike.bind (alike_eq _) ?_
    rintro p _ rfl
    exact (h.attributes body).bind fun g g' hg hs => by rw [hg hs, hmake p g' hs]
  · refine (h.contentModel body.children).bind fun p p' hp => ?_
    exact (h.attributes body).bind fun g g' hg hs => by rw [hp.1 hs, hg hs, hmake p' g' hs]

include hc h in
theorem Reads.complexType_succ (e : Element) (name? : Option QName) : Alike (Same same)
    (Schema.complexType c (n + 1) e name?) (Schema.complexType c' (n + 1) e name?) := by
  simp only [Schema.complexType]
  generalize bodyOf _ e = body
  obtain ⟨body, deriving?⟩ := body
  cases deriving? with
  | none =>
    refine Alike.bind (alike_eq _) ?_
    rintro base _ rfl
    exact h.complexBody fun p g hs => by rw [hc.document hs]
  | some d =>
    refine (hc.reference? d "base").bind ?_
    rintro name _ rfl
    refine Alike.bind (alike_eq _) ?_
    rintro base _ rfl
    exact h.complexBody fun p g hs => by rw [hc.document hs]

include h in
theorem Reads.contentModel_succ (es : List Element) : Alike (SameSome same)
    (contentModel? c (n + 1) es) (contentModel? c' (n + 1) es) := by
  cases es with
  | nil => exact ⟨fun _ => rfl, rfl⟩
  | cons e es =>
    simp only [contentModel?]
    refine (h.particle e).bind fun p p' hp => ?_
    cases p with
    | none =>
      cases p' with
      | none => exact h.contentModel es
      | some p' => cases hp.2
    | some p =>
      cases p' with
      | none => cases hp.2
      | some p' => exact ⟨fun hs => hp.1 hs, rfl⟩

include hc h in
theorem Reads.element_succ (isGlobal : Bool) (e : Element) : Alike (Same same)
    (elementDecl c (n + 1) isGlobal e) (elementDecl c' (n + 1) isGlobal e) := by
  simp only [elementDecl]
  cases e.attribute? "name" with
  | none => exact trivial
  | some name =>
    refine (h.typeOf "type" e).bind fun a b hab => ?_
    refine (hc.reference? e "substitutionGroup").bind ?_
    rintro head? _ rfl hs
    rw [hab hs, hc.target, hc.ownName, hc.elements]

include hc h in
theorem Reads.particle_succ (e : Element) : Alike (SameSome same)
    (particle? c (n + 1) e) (particle? c' (n + 1) e) := by
  have hmembers : Alike (Same same)
      (e.children.foldlM (fun ps d => do return ps ++ (← particle? c n d).toList) ([] : List Particle))
      (e.children.foldlM (fun ps d => do return ps ++ (← particle? c' n d).toList) []) := by
    refine alike_foldlM (fun d _ ps ps' hps => ?_) fun _ => rfl
    exact (h.particle d).bind fun p p' hp hs => by rw [hps hs, hp.1 hs]
  have hsome : ∀ {α : Type} {x y : Except Error α} (f : α → Term), Alike (Same same) x y →
      Alike (SameSome same) (do return some (Particle.mk (occursOf e) (f (← x))))
        (do return some (Particle.mk (occursOf e) (f (← y)))) := by
    intro α x y f hxy
    exact hxy.bind fun a b hab => ⟨fun hs => by rw [hab hs], rfl⟩
  simp only [particle?]
  split
  · refine (hc.reference? e "ref").bind ?_
    rintro ref? _ rfl
    cases ref? with
    | some name => exact ⟨fun _ => rfl, rfl⟩
    | none => exact hsome (fun d => .element (.inPlace d)) (h.element false e)
  · exact hsome .sequence hmembers
  · exact hsome .choice hmembers
  · exact hsome .all hmembers
  · refine (hc.reference? e "ref").bind ?_
    rintro ref? _ rfl
    exact ⟨fun _ => rfl, rfl⟩
  · exact ⟨fun _ => rfl, rfl⟩
  · exact ⟨fun _ => rfl, rfl⟩

end Like

theorem reads {same : Prop} {c c' : Context} (hc : c.Like same c') (n : Nat) : Reads same c c' n := by
  induction n with
  | zero => constructor <;> intros <;> trivial
  | succ n h =>
    exact ⟨h.inlineType_succ, h.typeOf_succ hc, h.simpleType_succ hc, h.complexType_succ hc,
      h.attributes_succ hc, h.contentModel_succ, h.particle_succ hc, h.element_succ hc⟩

/-! ### Documents -/

/-- The declarations refer to the same documents, and are the same, if `same`. -/
structure Declarations.Like (same : Prop) (d d' : Declarations) : Prop where
  target : d.target? = d'.target?
  imports : d.imports = d'.imports
  includes : d.includes = d'.includes
  eq : Same same d d'

section Documents

variable {same : Prop} {c c' : Context}

theorem add_alike (hc : c.Like same c') (n : Nat) {d d' : Declarations} (hd : d.Like same d')
    (e : Element) : Alike (Declarations.Like same) (d.add c n e) (d'.add c' n e) := by
  have h := reads hc n
  unfold Declarations.add
  split
  · refine (h.element true e).bind fun a b hab => ⟨hd.target, hd.imports, hd.includes, fun hs => ?_⟩
    rw [hd.eq hs, hab hs]
  · refine (hc.globalName e).bind ?_
    rintro name _ rfl
    refine (h.complexType e (some name)).bind fun a b hab =>
      ⟨hd.target, hd.imports, hd.includes, fun hs => ?_⟩
    rw [hd.eq hs, hab hs]
  · refine (hc.globalName e).bind ?_
    rintro name _ rfl
    refine (h.simpleType e (some name)).bind fun a b hab =>
      ⟨hd.target, hd.imports, hd.includes, fun hs => ?_⟩
    rw [hd.eq hs, hab hs]
  · refine (hc.globalName e).bind ?_
    rintro name _ rfl
    refine (h.typeOf "type" e).bind fun a b hab => ⟨hd.target, hd.imports, hd.includes, fun hs => ?_⟩
    rw [hd.eq hs, hab hs]
  · refine (hc.globalName e).bind ?_
    rintro name _ rfl
    refine (h.attributes e).bind fun a b hab => ⟨hd.target, hd.imports, hd.includes, fun hs => ?_⟩
    rw [hd.eq hs, hab hs]
  · refine (hc.globalName e).bind ?_
    rintro name _ rfl
    refine (h.contentModel e.children).bind fun a b hab =>
      ⟨hd.target, hd.imports, hd.includes, fun hs => ?_⟩
    rw [hd.eq hs, hab.1 hs]
  · exact ⟨hd.target, by simp only [hd.imports], hd.includes, fun hs => by rw [hd.eq hs]⟩
  · cases e.attribute? "schemaLocation" with
    | none => exact trivial
    | some l => exact ⟨hd.target, hd.imports, by simp only [hd.includes], fun hs => by rw [hd.eq hs]⟩
  · cases e.attribute? "schemaLocation" with
    | none => exact trivial
    | some l => exact ⟨hd.target, hd.imports, by simp only [hd.includes], fun hs => by rw [hd.eq hs]⟩
  · exact hd

/-- Whether a document can be read depends neither on its number nor on its location, nor do the
documents that it refers to. The number is in what it declares, and the location is not. -/
theorem read_alike (n n' : Nat) (location location' : String) (includer? : Option String)
    (root : Element) : Alike (Declarations.Like (n = n'))
      (Declarations.read n location includer? root)
      (Declarations.read n' location' includer? root) := by
  unfold Declarations.read
  split
  · exact trivial
  · dsimp only
    refine alike_foldlM (fun e _ d d' hd => add_alike ?_ _ hd e) ⟨rfl, rfl, rfl, fun _ => rfl⟩
    exact ⟨rfl, rfl, rfl, rfl, fun hs => hs⟩

end Documents

end FeatureTables.Schema
