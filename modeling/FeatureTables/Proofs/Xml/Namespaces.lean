import FeatureTables.OrderedMap
import FeatureTables.Proofs.Text.Pieces
import FeatureTables.Proofs.Text.Utf8
import FeatureTables.Proofs.Xml.Building

/-!
Namespace declarations. A tag is resolved with the bytes of a declaration as they are written, a value
with what the declaration says when its references are replaced. The two agree on a prefix if and only if
there are no references in its declaration (`Declares.resolve_iff`); the prefix `xmlns` is bound for tags
only.
-/

namespace FeatureTables.Xml

open OrderedMap (lookup_cons_ite)
open Text

/-! ### Texts with references -/

theorem expand_of_not_mem {s : List Char} (h : '&' ∉ s) : expand s = .ok s := by
  induction s with
  | nil => rw [expand]
  | cons c s ih =>
    rw [List.mem_cons, not_or] at h
    rw [expand, if_neg (Ne.symm h.1), ih h.2]
    rfl

/-- A reference is longer than what stands for it. -/
theorem expand_length {s r : List Char} (h : expand s = .ok r) :
    r.length ≤ s.length ∧ ('&' ∈ s → r.length < s.length) := by
  fun_induction expand s generalizing r with
  | case1 =>
    obtain rfl := Except.ok.inj h
    exact ⟨Nat.le_refl _, fun h => by cases h⟩
  | case2 => cases h
  | case3 => cases h
  | case4 t name rest hname x _ ih =>
    obtain ⟨r', hr', rfl⟩ := map_eq_ok_iff.1 h
    have hle := (ih hr').1
    have hlt := referenceName?_length hname
    simp only [List.length_cons]
    exact ⟨by omega, fun _ => by omega⟩
  | case5 c t hc ih =>
    obtain ⟨r', hr', rfl⟩ := map_eq_ok_iff.1 h
    obtain ⟨hle, hlt⟩ := ih hr'
    simp only [List.length_cons]
    refine ⟨by omega, fun hmem => ?_⟩
    have := hlt ((List.mem_cons.1 hmem).resolve_left (Ne.symm hc))
    omega

theorem expand_eq_self_iff {s r : List Char} (h : expand s = .ok r) : r = s ↔ '&' ∉ s := by
  constructor
  · rintro rfl hmem
    exact Nat.lt_irrefl _ ((expand_length h).2 hmem)
  · intro hmem
    rw [expand_of_not_mem hmem] at h
    exact (Except.ok.inj h).symm

theorem expand_eq_nil_iff {s r : List Char} (h : expand s = .ok r) : r = [] ↔ s = [] := by
  constructor
  · rintro rfl
    cases s with
    | nil => rfl
    | cons c s =>
      rw [expand] at h
      split at h
      · split at h
        · cases h
        · split at h
          · cases h
          · obtain ⟨_, -, hcons⟩ := map_eq_ok_iff.1 h
            cases hcons
      · obtain ⟨_, -, hcons⟩ := map_eq_ok_iff.1 h
        cases hcons
  · rintro rfl
    rw [expand] at h
    exact (Except.ok.inj h).symm

/-- The text of a raw value has references in it. -/
def Escaped (raw : Bytes) : Prop := ∃ s, fromUtf8? raw = some s ∧ '&' ∈ s.toList

theorem decodeValue_eq_ok_iff {raw : Bytes} {value : String} : decodeValue raw = .ok value ↔
    ∃ s, fromUtf8? raw = some s ∧ expand s.toList = .ok value.toList := by
  unfold decodeValue
  cases fromUtf8? raw with
  | none => simp
  | some s =>
    rw [mapError_eq_ok_iff, map_eq_ok_iff]
    constructor
    · rintro ⟨r, hr, rfl⟩
      exact ⟨s, rfl, by rw [hr, String.toList_ofList]⟩
    · rintro ⟨s', hs, hr⟩
      obtain rfl := Option.some.inj hs
      exact ⟨_, hr, String.ofList_toList⟩

/-- What a value says is what its bytes say, if it has no references. -/
theorem value_eq_lossy_iff {raw : Bytes} {value : String} (h : decodeValue raw = .ok value) :
    value = fromUtf8Lossy raw ↔ ¬ Escaped raw := by
  obtain ⟨s, hs, hexpand⟩ := decodeValue_eq_ok_iff.1 h
  rw [fromUtf8Lossy_of_fromUtf8? hs]
  have hescaped : Escaped raw ↔ '&' ∈ s.toList := by
    constructor
    · rintro ⟨s', hs', hmem⟩
      exact Option.some.inj (hs.symm.trans hs') ▸ hmem
    · exact fun hmem => ⟨s, hs, hmem⟩
  rw [hescaped, ← expand_eq_self_iff hexpand, String.toList_inj]

/-! ### Written names -/

theorem cutAt_append {b : UInt8} {x : Bytes} (h : b ∉ x) (y : Bytes) :
    cutAt b (x ++ b :: y) = (x, y) := by
  induction x with
  | nil => simp [cutAt]
  | cons c x ih =>
    rw [List.mem_cons, not_or] at h
    have hc : (c == b) = false := beq_false_of_ne (Ne.symm h.1)
    rw [List.cons_append, cutAt, ih h.2, hc]
    rfl

/-- A written name is cut at the colon, as text or as bytes. -/
theorem splitName_utf8 (t : String) : splitName (utf8 t) =
    match splitOnce ':' t with
    | none => (none, utf8 t)
    | some (label, localName) => (some (utf8 label), utf8 localName) := by
  by_cases hmem : ':' ∈ t.toList
  · obtain ⟨label, localName, ht, hlabel⟩ := List.eq_append_cons_of_mem hmem
    have ht : t = String.ofList label ++ String.singleton ':' ++ String.ofList localName := by
      rw [← String.toList_inj, ht]
      simp
    have hlabel : ':' ∉ (String.ofList label).toList := by rwa [String.toList_ofList]
    have hbytes : utf8 t =
        utf8 (String.ofList label) ++ byte ':' :: utf8 (String.ofList localName) := by
      rw [ht, utf8_append, utf8_append, List.append_assoc]
      rfl
    have hcut := cutAt_append (byte_not_mem_utf8 (by decide) hlabel) (utf8 (String.ofList localName))
    have hcolon : (utf8 t).contains (byte ':') = true := by
      rw [hbytes]
      simp
    rw [splitName, if_pos hcolon, hbytes, hcut, ht, splitOnce_append hlabel]
  · have hbyte := byte_not_mem_utf8 (by decide) hmem
    rw [splitOnce_of_not_mem hmem, splitName, if_neg]
    simpa using hbyte

/-! ### Declarations -/

/-- The namespace declarations in a tag body, last ones first: their names and raw values. -/
def declarations (body : Bytes) : List (Bytes × Bytes) :=
  ((bodyAttributes body).1.filter fun a => (bound? a.1).isSome).reverse

/-- The names of the other attributes in a tag body. -/
def attributeNames (body : Bytes) : List Bytes :=
  ((bodyAttributes body).1.filter fun a => (bound? a.1).isNone).map (·.1)

/-- The raw value of the first declaration of a prefix; the empty prefix is the default. -/
def declared? (ds : List (Bytes × Bytes)) (label : Bytes) : Option Bytes :=
  (ds.find? fun d => bound? d.1 == some label).map (·.2)

/-- The scope that a declaration makes of another one. -/
def declareIn (s : Scope) (key label : Bytes) (value : String) : Scope :=
  if key.length = 5 then s.bindDefault value else s.bind (fromUtf8Lossy label) value

/-- The namespaces that declarations, innermost first, give to tags and to values. -/
inductive Declares : List (Bytes × Bytes) → Bindings → Scope → Prop
  | start : Declares [] .initial {}
  | declare {ds : List (Bytes × Bytes)} {bs bs' : Bindings} {s : Scope} {key raw label : Bytes}
      {value : String} : Declares ds bs s → bound? key = some label →
    bs.addAttribute key raw = .ok bs' → decodeValue raw = .ok value →
    Declares ((key, raw) :: ds) bs' (declareIn s key label value)

/-- A written attribute has this name. -/
def Bindings.Names (bs : Bindings) (key : Bytes) (name : QName) : Prop :=
  fromUtf8? (splitName key).2 = some name.localName ∧
    match (splitName key).1 with
    | none => name.ns? = none
    | some label => bs.namespace? (some label) = .ok name.ns?

section Tags

variable {bs bs' bs₀ : Bindings} {o o' : Opening} {key raw : Bytes} {ds pairs : List (Bytes × Bytes)}

theorem Opening.add_eq (h : Opening.add bs o key raw = .ok o') : ∃ value, decodeValue raw = .ok value ∧
    ((∃ label, bound? key = some label ∧ o'.attributes = o.attributes ∧
        o'.scope = declareIn o.scope key label value) ∨
      bound? key = none ∧ o'.scope = o.scope ∧
        ∃ name, bs.Names key name ∧ o'.attributes = ⟨name, value⟩ :: o.attributes) := by
  unfold Opening.add at h
  split at h
  · cases h
  obtain ⟨value, hvalue, h⟩ := bind_eq_ok_iff.1 h
  refine ⟨value, hvalue, ?_⟩
  cases hbound : bound? key with
  | some label =>
    rw [hbound] at h
    refine Or.inl ⟨label, rfl, ?_⟩
    unfold declareIn
    dsimp only at h
    split at h
    · next hlength =>
      cases h
      exact ⟨rfl, (if_pos hlength).symm⟩
    · next hlength =>
      cases h
      exact ⟨rfl, (if_neg hlength).symm⟩
  | none =>
    rw [hbound] at h
    refine Or.inr ⟨rfl, ?_⟩
    dsimp only at h
    unfold Bindings.Names
    cases hlocal : fromUtf8? (splitName key).2 with
    | none =>
      rw [hlocal] at h
      split at h
      · cases h
      · obtain ⟨_, -, h⟩ := bind_eq_ok_iff.1 h
        cases h
    | some localName =>
      rw [hlocal] at h
      cases hlabel : (splitName key).1 with
      | none =>
        rw [hlabel] at h
        cases h
        exact ⟨rfl, ⟨none, localName⟩, ⟨rfl, rfl⟩, rfl⟩
      | some label =>
        rw [hlabel] at h
        obtain ⟨ns?, hns, h⟩ := bind_eq_ok_iff.1 h
        cases h
        exact ⟨rfl, ⟨ns?, localName⟩, ⟨rfl, hns⟩, rfl⟩

/-- The declarations of a tag are for the tag itself and for its values. -/
theorem Declares.addAll (h : Declares ds bs o.scope) (hbs : bs.addAttributes pairs = .ok bs')
    (ho : Opening.addAll bs₀ o pairs = .ok o') :
    Declares ((pairs.filter fun a => (bound? a.1).isSome).reverse ++ ds) bs' o'.scope := by
  induction pairs generalizing ds bs o with
  | nil =>
    cases hbs
    cases ho
    exact h
  | cons pair pairs ih =>
    obtain ⟨key, raw⟩ := pair
    rw [Bindings.addAttributes, List.foldlM_cons, bind_eq_ok_iff] at hbs
    rw [Opening.addAll, List.foldlM_cons, bind_eq_ok_iff] at ho
    obtain ⟨bs₁, hbs₁, hbs⟩ := hbs
    obtain ⟨o₁, ho₁, ho⟩ := ho
    obtain ⟨value, hvalue, ⟨label, hlabel, -, hscope⟩ | ⟨hnone, hscope, -⟩⟩ := Opening.add_eq ho₁
    · have h₁ : Declares ((key, raw) :: ds) bs₁ o₁.scope := hscope ▸ h.declare hlabel hbs₁ hvalue
      have hrest := ih h₁ hbs ho
      rwa [List.filter_cons_of_pos (by rw [hlabel]; rfl), List.reverse_cons, List.append_assoc]
    · have hsame : bs₁ = bs := by
        simp only [Bindings.addAttribute, hnone] at hbs₁
        exact (Except.ok.inj hbs₁).symm
      have h₁ : Declares ds bs₁ o₁.scope := by rwa [hscope, hsame]
      have hrest := ih h₁ hbs ho
      rwa [List.filter_cons_of_neg (by rw [hnone]; exact Bool.false_ne_true)]

/-- The attributes that are no declarations have their written names, in the order of the tag. -/
theorem addAll_names (ho : Opening.addAll bs o pairs = .ok o') : ∃ as : List Attribute,
    o'.attributes = as.reverse ++ o.attributes ∧
    List.Forall₂ (fun key a => bs.Names key a.name)
      ((pairs.filter fun a => (bound? a.1).isNone).map (·.1)) as := by
  induction pairs generalizing o with
  | nil =>
    cases ho
    exact ⟨[], rfl, .nil⟩
  | cons pair pairs ih =>
    obtain ⟨key, raw⟩ := pair
    rw [Opening.addAll, List.foldlM_cons, bind_eq_ok_iff] at ho
    obtain ⟨o₁, ho₁, ho⟩ := ho
    obtain ⟨as, has, hnames⟩ := ih ho
    obtain ⟨value, hvalue, ⟨label, hlabel, hsame, -⟩ | ⟨hnone, -, name, hname, hattributes⟩⟩ :=
      Opening.add_eq ho₁
    · rw [List.filter_cons_of_neg (by rw [hlabel]; exact Bool.false_ne_true)]
      exact ⟨as, hsame ▸ has, hnames⟩
    · rw [List.filter_cons_of_pos (by rw [hnone]; rfl)]
      refine ⟨⟨name, value⟩ :: as, ?_, .cons hname hnames⟩
      rw [has, hattributes, List.reverse_cons, List.append_assoc]
      rfl

end Tags

/-- An element has its namespaces from the declarations in scope, and its names are those of its tag. -/
structure Element.ReadFrom (e : Element) (body : Bytes) (ds : List (Bytes × Bytes)) (bs : Bindings) :
    Prop where
  declares : Declares ds bs e.scope
  localName : fromUtf8? (splitName (bodyName body)).2 = some e.name.localName
  ns : bs.namespace? (splitName (bodyName body)).1 = .ok e.name.ns?
  attributes : List.Forall₂ (fun key a => bs.Names key a.name) (attributeNames body) e.attributes

theorem openElement_readFrom {limits : Limits} {depth : Nat} {bs bs' : Bindings} {scope : Scope}
    {id : NodeId} {body : Bytes} {e : Element} {ds : List (Bytes × Bytes)} (h : Declares ds bs scope)
    (hopen : openElement limits depth bs scope id body = .ok (e, bs')) :
    e.ReadFrom body (declarations body ++ ds) bs' := by
  obtain ⟨ns?, localName, opening, hbs, hns, hname, hopening, -, -, rfl⟩ := openElement_cases hopen
  obtain ⟨as, has, hnames⟩ := addAll_names hopening
  have hattributes : opening.attributes.reverse = as := by
    rw [has, List.append_nil, List.reverse_reverse]
  exact ⟨Declares.addAll (o := { scope }) h hbs hopening, hname, hns, hattributes ▸ hnames⟩

/-! ### What declarations say -/

section Declared

variable {ds : List (Bytes × Bytes)} {bs : Bindings} {s : Scope} {label raw : Bytes} {p : String}

theorem declared?_cons {key label' : Bytes} (hbound : bound? key = some label') :
    declared? ((key, raw) :: ds) label = if label = label' then some raw else declared? ds label := by
  unfold declared?
  rw [List.find?_cons, hbound]
  by_cases h : label = label'
  · subst h
    simp
  · have hne : (some label' == some label) = false := by simpa using Ne.symm h
    rw [hne, if_neg h]

/-- The label of a declaration is empty in the name `xmlns`. -/
theorem bound?_of_length {key : Bytes} (hbound : bound? key = some label) (h : key.length = 5) :
    label = [] := by
  unfold bound? at hbound
  split at hbound
  · rw [List.drop_eq_nil_of_le (Nat.le_of_eq h)] at hbound
    exact (Option.some.inj hbound).symm
  · cases hbound

/-- What a declaration adds to the bindings of tags: nothing, if it says again what `xml` is. -/
theorem addAttribute_cases {bs' : Bindings} {key : Bytes} (hbound : bound? key = some label)
    (h : bs.addAttribute key raw = .ok bs') :
    (label = utf8 "xml" ∧ raw = utf8 xmlNamespace ∧ bs' = bs) ∨
      label ≠ utf8 "xml" ∧ label ≠ utf8 "xmlns" ∧ bs' = (label, raw) :: bs := by
  unfold Bindings.addAttribute at h
  rw [hbound] at h
  dsimp only at h
  split at h
  · next hlength =>
    cases h
    rw [bound?_of_length hbound hlength]
    exact Or.inr ⟨by decide +kernel, by decide +kernel, rfl⟩
  · split at h
    · next hxml =>
      split at h
      · next hraw =>
        cases h
        exact Or.inl ⟨beq_iff_eq.1 hxml, beq_iff_eq.1 hraw, rfl⟩
      · cases h
    · next hxml =>
      split at h
      · cases h
      · next hxmlns =>
        split at h
        · cases h
        · cases h
          refine Or.inr ⟨fun heq => hxml (beq_iff_eq.2 heq), fun heq => hxmlns (beq_iff_eq.2 heq), rfl⟩

/-- Tags have the innermost declaration of a prefix that is no reserved one. -/
theorem Declares.lookup (h : Declares ds bs s) (hxml : label ≠ utf8 "xml")
    (hxmlns : label ≠ utf8 "xmlns") : bs.lookup label = declared? ds label := by
  induction h with
  | start =>
    unfold Bindings.initial
    rw [lookup_cons_ite, lookup_cons_ite, if_neg hxmlns, if_neg hxml]
    rfl
  | declare _ hbound hadd _ ih =>
    rw [declared?_cons hbound]
    rcases addAttribute_cases hbound hadd with ⟨rfl, -, rfl⟩ | ⟨-, -, rfl⟩
    · rw [if_neg hxml, ih]
    · rw [lookup_cons_ite, ih]

/-- The prefix `xml` stands for its own namespace, and nothing else is declared for it. -/
theorem Declares.xml (h : Declares ds bs s) : bs.lookup (utf8 "xml") = some (utf8 xmlNamespace) ∧
    ∀ raw, declared? ds (utf8 "xml") = some raw → raw = utf8 xmlNamespace := by
  induction h with
  | start => exact ⟨by decide +kernel, fun raw hraw => by cases hraw⟩
  | declare _ hbound hadd _ ih =>
    rw [declared?_cons hbound]
    rcases addAttribute_cases hbound hadd with ⟨rfl, rfl, rfl⟩ | ⟨hne, -, rfl⟩
    · rw [if_pos rfl]
      exact ⟨ih.1, fun raw hraw => (Option.some.inj hraw).symm⟩
    · rw [lookup_cons_ite, if_neg (Ne.symm hne), if_neg (Ne.symm hne)]
      exact ih

/-- Nothing is declared for the prefix `xmlns`. -/
theorem Declares.xmlns (h : Declares ds bs s) : declared? ds (utf8 "xmlns") = none := by
  induction h with
  | start => rfl
  | declare _ hbound hadd _ ih =>
    rw [declared?_cons hbound]
    rcases addAttribute_cases hbound hadd with ⟨rfl, -, -⟩ | ⟨-, hne, -⟩
    · rw [if_neg (by decide +kernel)]
      exact ih
    · rw [if_neg (Ne.symm hne)]
      exact ih

theorem Declares.decodes (h : Declares ds bs s) (hraw : declared? ds label = some raw) :
    ∃ value, decodeValue raw = .ok value := by
  induction h with
  | start => cases hraw
  | declare _ hbound _ hvalue ih =>
    rw [declared?_cons hbound] at hraw
    split at hraw
    · obtain rfl := Option.some.inj hraw
      exact ⟨_, hvalue⟩
    · exact ih hraw

/-! ### Where both agree -/

/-- The declaration is of a text as prefix, which is empty in the name `xmlns` only. -/
def Regular (d : Bytes × Bytes) : Prop :=
  ∃ p : String, bound? d.1 = some (utf8 p) ∧ (d.1.length = 5 ∨ p ≠ "")

theorem utf8_ne_nil (hp : p ≠ "") : utf8 p ≠ [] := fun h => hp (utf8_injective (h.trans rfl))

/-- Values have the innermost declaration of a prefix that is no reserved one, as a text. -/
theorem Declares.namespace? (h : Declares ds bs s) (hregular : ∀ d ∈ ds, Regular d) (hp : p ≠ "")
    (hxml : p ≠ "xml") :
    s.namespace? p = (declared? ds (utf8 p)).bind fun raw => (decodeValue raw).toOption := by
  rw [Scope.namespace?, if_neg hxml]
  induction h with
  | start => rfl
  | @declare ds bs bs' s key raw label value _ hbound _ hvalue ih =>
    have ih := ih fun d hd => hregular d (List.mem_cons_of_mem _ hd)
    obtain ⟨p', hp', hempty⟩ := hregular _ List.mem_cons_self
    obtain rfl := Option.some.inj (hbound.symm.trans hp')
    rw [declared?_cons hbound]
    unfold declareIn
    split
    · next hlength =>
      rw [bound?_of_length hbound hlength, if_neg (utf8_ne_nil hp)]
      exact ih
    · rw [fromUtf8Lossy_of_fromUtf8? (fromUtf8?_utf8 p')]
      unfold Scope.bind
      rw [lookup_cons_ite]
      by_cases heq : p = p'
      · rw [if_pos heq, if_pos (congrArg utf8 heq), Option.bind_some, hvalue]
        rfl
      · rw [if_neg heq, if_neg fun h => heq (utf8_injective h)]
        exact ih

/-- The default of values is that of the innermost declaration, if it is not empty. -/
theorem Declares.default? (h : Declares ds bs s) (hregular : ∀ d ∈ ds, Regular d) :
    s.default? = ((declared? ds []).bind fun raw => (decodeValue raw).toOption).filter
      (!·.isEmpty) := by
  induction h with
  | start => rfl
  | @declare ds bs bs' s key raw label value _ hbound _ hvalue ih =>
    have ih := ih fun d hd => hregular d (List.mem_cons_of_mem _ hd)
    obtain ⟨p', hp', hempty⟩ := hregular _ List.mem_cons_self
    obtain rfl := Option.some.inj (hbound.symm.trans hp')
    rw [declared?_cons hbound]
    unfold declareIn
    split
    · next hlength =>
      rw [bound?_of_length hbound hlength, if_pos rfl, Option.bind_some, hvalue]
      unfold Scope.bindDefault
      cases hvalue : value.isEmpty <;> simp [Except.toOption, Option.filter, hvalue]
    · next hlength =>
      have hp' := utf8_ne_nil (hempty.resolve_left hlength)
      rw [if_neg (Ne.symm hp')]
      exact ih

/-- The value of a declaration is empty if it is written so. -/
theorem decodeValue_isEmpty {value : String} (h : decodeValue raw = .ok value) :
    value.isEmpty = raw.isEmpty := by
  obtain ⟨s, hs, hexpand⟩ := decodeValue_eq_ok_iff.1 h
  rw [Bool.eq_iff_iff, String.isEmpty_iff, List.isEmpty_iff, ← String.toList_eq_nil_iff,
    expand_eq_nil_iff hexpand, String.toList_eq_nil_iff]
  exact fromUtf8?_eq_empty_iff hs

/-- The declaration of a prefix, if there is one, has no references in its value. -/
def Unescaped (ds : List (Bytes × Bytes)) (label : Bytes) : Prop :=
  ∀ raw, declared? ds label = some raw → ¬ Escaped raw

theorem unescaped_iff (h : declared? ds label = some raw) : Unescaped ds label ↔ ¬ Escaped raw := by
  constructor
  · exact fun hall => hall raw h
  · intro hraw raw' hraw'
    exact Option.some.inj (h.symm.trans hraw') ▸ hraw

/-- A text without a prefix stands for what it stands for as a tag, unless the default is declared with
references. -/
theorem Declares.resolve_default_iff (h : Declares ds bs s) (hregular : ∀ d ∈ ds, Regular d)
    {u : String} {ns? : Option String} (htrim : trim u = u) (hsplit : splitOnce ':' u = none)
    (hns : bs.namespace? none = .ok ns?) :
    s.resolve u = .ok ⟨ns?, u⟩ ↔ Unescaped ds [] := by
  have hresolve : s.resolve u = .ok ⟨s.default?, u⟩ := by
    simp [Scope.resolve, htrim, hsplit]
  rw [hresolve, h.default? hregular, Except.ok.injEq, QName.mk.injEq, and_iff_left rfl]
  rw [Bindings.namespace?, h.lookup (by decide +kernel) (by decide +kernel)] at hns
  cases hraw : declared? ds [] with
  | none =>
    rw [hraw] at hns
    cases hns
    exact iff_of_true rfl fun raw h => by rw [hraw] at h; cases h
  | some raw =>
    obtain ⟨value, hvalue⟩ := h.decodes hraw
    have hempty := decodeValue_isEmpty hvalue
    rw [unescaped_iff hraw, ← value_eq_lossy_iff hvalue, Option.bind_some, hvalue]
    rw [hraw] at hns
    cases raw with
    | nil =>
      cases hns
      have : value = "" := String.isEmpty_iff.1 hempty
      subst this
      decide +kernel
    | cons b raw =>
      cases hns
      simp [Except.toOption, Option.filter, hempty]

theorem Declares.namespace?_xml (h : Declares ds bs s) :
    bs.namespace? (some (utf8 "xml")) = .ok (some xmlNamespace) := by
  rw [Bindings.namespace?, if_neg (by decide +kernel), h.xml.1]
  cases hbytes : utf8 xmlNamespace with
  | nil => exact absurd hbytes (utf8_ne_nil (by decide))
  | cons b bytes =>
    dsimp only
    rw [← hbytes, fromUtf8Lossy_of_fromUtf8? (fromUtf8?_utf8 _)]

theorem Declares.unescaped_xml (h : Declares ds bs s) : Unescaped ds (utf8 "xml") := by
  intro raw hraw hescaped
  obtain ⟨t, ht, hmem⟩ := hescaped
  rw [h.xml.2 raw hraw] at ht
  obtain rfl := Option.some.inj ((fromUtf8?_utf8 _).symm.trans ht)
  exact absurd hmem (by decide)

theorem Scope.resolve_prefixed {u p l : String} (htrim : trim u = u)
    (hsplit : splitOnce ':' u = some (p, l)) : s.resolve u =
      match s.namespace? p with
      | some ns => .ok ⟨some ns, l⟩
      | none => .error (p, u) := by
  cases hns : s.namespace? p <;> simp [Scope.resolve, htrim, hsplit, hns]

/-- A text with a prefix stands for what it stands for as a tag, unless the prefix is declared with
references. -/
theorem Declares.resolve_prefixed_iff (h : Declares ds bs s) (hregular : ∀ d ∈ ds, Regular d)
    {u p l : String} {ns? : Option String} (htrim : trim u = u)
    (hsplit : splitOnce ':' u = some (p, l)) (hxmlns : p ≠ "xmlns")
    (hns : bs.namespace? (some (utf8 p)) = .ok ns?) :
    s.resolve u = .ok ⟨ns?, l⟩ ↔ Unescaped ds (utf8 p) := by
  rw [Scope.resolve_prefixed htrim hsplit]
  by_cases hxml : p = "xml"
  · subst hxml
    obtain rfl := Except.ok.inj (hns.symm.trans h.namespace?_xml)
    exact iff_of_true rfl h.unescaped_xml
  · have hp : p ≠ "" := by
      rintro rfl
      cases hns
    have hbytes : ∀ q, p ≠ q → utf8 p ≠ utf8 q := fun q hne heq => hne (utf8_injective heq)
    rw [Bindings.namespace?, if_neg (by simpa using utf8_ne_nil hp),
      h.lookup (hbytes _ hxml) (hbytes _ hxmlns)] at hns
    rw [h.namespace? hregular hp hxml]
    cases hraw : declared? ds (utf8 p) with
    | none =>
      rw [hraw] at hns
      cases hns
    | some raw =>
      obtain ⟨value, hvalue⟩ := h.decodes hraw
      rw [unescaped_iff hraw, ← value_eq_lossy_iff hvalue, Option.bind_some, hvalue]
      rw [hraw] at hns
      cases raw with
      | nil => cases hns
      | cons b raw =>
        cases hns
        simp [Except.toOption]

/-- The prefix of a written name is not `xmlns`, and what declares it has no references. -/
def Agrees (ds : List (Bytes × Bytes)) (label? : Option Bytes) : Prop :=
  label? ≠ some (utf8 "xmlns") ∧ Unescaped ds (label?.getD [])

/-- A written name says the same as a text in scope and as a name of the input, if and only if its prefix
is declared without references. -/
theorem Declares.resolve_iff (h : Declares ds bs s) (hregular : ∀ d ∈ ds, Regular d) {u l : String}
    {ns? : Option String} (htrim : trim u = u)
    (hns : bs.namespace? (splitName (utf8 u)).1 = .ok ns?)
    (hl : fromUtf8? (splitName (utf8 u)).2 = some l) :
    s.resolve u = .ok ⟨ns?, l⟩ ↔ Agrees ds (splitName (utf8 u)).1 := by
  unfold Agrees
  rw [splitName_utf8] at hns hl ⊢
  cases hsplit : splitOnce ':' u with
  | none =>
    rw [hsplit] at hns hl
    obtain rfl := Option.some.inj ((fromUtf8?_utf8 u).symm.trans hl)
    rw [h.resolve_default_iff hregular htrim hsplit hns]
    exact (and_iff_right (Option.some_ne_none _).symm).symm
  | some parts =>
    obtain ⟨p, l'⟩ := parts
    rw [hsplit] at hns hl
    obtain rfl := Option.some.inj ((fromUtf8?_utf8 l').symm.trans hl)
    by_cases hp : p = "xmlns"
    · subst hp
      have hnone : s.namespace? "xmlns" = none := by
        rw [h.namespace? hregular (by decide) (by decide), h.xmlns]
        rfl
      refine iff_of_false ?_ fun hagrees => hagrees.1 rfl
      rw [Scope.resolve_prefixed htrim hsplit, hnone]
      intro heq
      cases heq
    · rw [h.resolve_prefixed_iff hregular htrim hsplit hp hns]
      refine (and_iff_right fun heq => hp ?_).symm
      exact utf8_injective (Option.some.inj heq)

end Declared

end FeatureTables.Xml
