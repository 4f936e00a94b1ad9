import FeatureTables.Proofs.Xml.Tags
import Mathlib.Tactic.TFAE

/-!
Documents that are read to their last tag. What is still open at the end of the input is dropped, also where
the root has been closed before: such an input is accepted with tags that are no elements. The outline of an
input, how many elements are open and how many are outside of all others, is compared with the stack and the
root after each token (`Building.outline_run`); a document is complete if and only if nothing is open at
the end, which is also when it has one outermost element (`Document.complete_tfae`).
-/

namespace FeatureTables.Xml

open Text Element

/-! ### Outlines -/

/-- How deep an input is after some of its tokens, and how many elements outside of all others it has
had so far. -/
structure Outline where
  depth : Nat := 0
  outermost : Nat := 0
deriving DecidableEq

namespace Outline

/-- An element that begins is outside of all others when none is open. -/
def begin (o : Outline) : Nat := if o.depth = 0 then o.outermost + 1 else o.outermost

def add (o : Outline) : Token → Outline
  | .start _ => ⟨o.depth + 1, o.begin⟩
  | .empty _ => ⟨o.depth, o.begin⟩
  | .stop _ => ⟨o.depth - 1, o.outermost⟩
  | .text _ | .cdata _ | .skipped => o

theorem add_plain (o : Outline) {t : Token} (h : t.isTag = false) : o.add t = o := by
  cases t with
  | start body => cases h
  | empty body => cases h
  | stop name => cases h
  | text raw => rfl
  | cdata raw => rfl
  | skipped => rfl

/-- The outline of a whole input. -/
def of (bytes : Bytes) : Outline := (Token.scan (withoutMark bytes)).1.foldl add {}

end Outline

namespace Building

variable {limits : Limits} {b b' : Building} {e : Element} {t : Token}

/-- How many elements outside of all others have been opened: the root, and the one at the bottom of the
stack. -/
def outermost (b : Building) : Nat := b.root?.toList.length + if b.stack = [] then 0 else 1

/-- The stack and the root of what is built. -/
def outline (b : Building) : Outline := ⟨b.stack.length, b.outermost⟩

/-- An element that is finished is one more outside of all others when none is open. -/
theorem attach_outline (h : b.attach e = .ok b') : b'.outline = ⟨b.outline.depth, b.outline.begin⟩ := by
  rcases attach_cases h with ⟨o, stack, hstack, rfl⟩ | ⟨hstack, hroot, rfl⟩
  · simp [outline, outermost, Outline.begin, hstack]
  · simp [outline, outermost, Outline.begin, hstack, hroot]

theorem Steps.outline (h : Steps limits b t b') : b'.outline = b.outline.add t := by
  cases h with
  | start enter =>
    by_cases hstack : b.stack = []
    · simp [Building.outline, outermost, Outline.add, Outline.begin, hstack]
    · simp [Building.outline, outermost, Outline.add, Outline.begin, hstack]
  | empty enter attach => exact attach_outline (b := { b with nextId := b.nextId + 1 }) attach
  | @stop o stack root? nextId _ attach =>
    refine (attach_outline attach).trans ?_
    by_cases hstack : stack = []
    · simp [Building.outline, outermost, Outline.add, Outline.begin, hstack]
    · simp [Building.outline, outermost, Outline.add, Outline.begin, hstack]
  | text text plain => exact (Outline.add_plain _ plain).symm
  | pass plain => exact (Outline.add_plain _ plain).symm

theorem outline_run {tokens : List Token} (h : tokens.foldlM (Building.step limits) {} = .ok b) :
    b.outline = tokens.foldl Outline.add {} := by
  refine run_induct (P := fun ts b => b.outline = ts.foldl Outline.add {}) rfl ?_ h
  intro ts t b b' hstep hb
  rw [hstep.outline, hb, List.foldl_append, List.foldl_cons, List.foldl_nil]

end Building

/-- There are as many tags as tokens that open an element. -/
theorem length_tagsFrom (outer : List (List (Bytes × Bytes))) (tokens : List Token) :
    (tagsFrom outer tokens).length = tokens.countP Token.opens := by
  induction tokens generalizing outer with
  | nil => rfl
  | cons t tokens ih =>
    cases t with
    | start body => rw [tagsFrom, List.length_cons, ih, List.countP_cons_of_pos rfl]
    | empty body => rw [tagsFrom, List.length_cons, ih, List.countP_cons_of_pos rfl]
    | stop name => rw [tagsFrom, ih, List.countP_cons_of_neg Bool.false_ne_true]
    | text raw => rw [tagsFrom, ih, List.countP_cons_of_neg Bool.false_ne_true]
    | cdata raw => rw [tagsFrom, ih, List.countP_cons_of_neg Bool.false_ne_true]
    | skipped => rw [tagsFrom, ih, List.countP_cons_of_neg Bool.false_ne_true]

namespace Document

variable {limits : Limits} {bytes : Bytes} {d : Document}

/-- A document counts the tags of its text, its elements are those of the first tags, and the elements that
are open at the end have the other ones. -/
theorem numbers_parse (h : Document.parse limits bytes = .ok d) :
    d.nodeCount = (tags bytes).length ∧ ∃ stack : List Open,
      d.root.numbers ++ stack.flatMap Open.numbers = List.range d.nodeCount ∧
      Outline.of bytes = ⟨stack.length, 1 + if stack = [] then 0 else 1⟩ := by
  obtain ⟨built, hbuilt, -, hroot, hnext⟩ := parse_cases h
  obtain ⟨hnumbers, hcount⟩ := Building.numbers_run hbuilt
  refine ⟨?_, built.stack.reverse, ?_, ?_⟩
  · rw [← hnext, hcount, tags, length_tagsFrom]
  · rw [← hnext, ← hnumbers, Building.numbers, hroot]
    simp
  · rw [Outline.of, ← Building.outline_run hbuilt]
    simp [Building.outline, Building.outermost, hroot]

/-- A document that is accepted counts all tags of its text, and its elements have the first numbers. That
each tag is an element, that the count is that of the elements, that the numbers are those below the count,
that one element of the text is outside of all others, and that none is open at its end, is the same. -/
theorem complete_tfae (h : Document.parse limits bytes = .ok d) :
    d.nodeCount = (tags bytes).length ∧
    d.root.numbers = List.range d.root.descendants.length ∧
    List.TFAE [
      ∀ i body ds, (tags bytes)[i]? = some (body, ds) →
        ∃ e ∈ d.root.descendants, e.id = i ∧ ∃ bs, e.ReadFrom body ds bs,
      d.nodeCount = d.root.descendants.length,
      d.root.numbers = List.range d.nodeCount,
      (Outline.of bytes).outermost = 1,
      (Outline.of bytes).depth = 0] := by
  obtain ⟨hcount, stack, hnumbers, houtline⟩ := numbers_parse h
  have hfirst : d.root.numbers = List.range d.root.descendants.length := by
    have htake := congrArg (List.take d.root.numbers.length) hnumbers
    have hle := congrArg List.length hnumbers
    rw [List.length_append, List.length_range] at hle
    rw [List.take_left, List.take_range, Nat.min_eq_left (by omega)] at htake
    rw [htake, numbers, List.length_map]
  refine ⟨hcount, hfirst, ?_⟩
  tfae_have 1 → 2 := by
    intro hall
    refine Nat.le_antisymm ?_ ?_
    · by_contra hlt
      have hlt : d.root.descendants.length < (tags bytes).length := hcount ▸ Nat.not_le.1 hlt
      -- the first tag without an element would have one
      obtain ⟨e, he, hid, -⟩ := hall _ _ _ (List.getElem?_eq_getElem hlt)
      have hmem : e.id ∈ d.root.numbers := List.mem_map_of_mem he
      rw [hfirst, hid] at hmem
      exact List.not_mem_range_self hmem
    · have hle := congrArg List.length hnumbers
      rw [List.length_append, List.length_range, numbers, List.length_map] at hle
      omega
  tfae_have 2 → 3 := fun heq => heq ▸ hfirst
  tfae_have 3 → 5 := by
    intro hrange
    rw [hrange, List.append_right_eq_self] at hnumbers
    cases stack with
    | nil => rw [houtline, List.length_nil]
    | cons o stack => cases hnumbers
  tfae_have 5 → 4 := by
    intro hdepth
    rw [houtline] at hdepth ⊢
    rw [if_pos (List.length_eq_zero_iff.1 hdepth)]
  tfae_have 4 → 1 := by
    intro hone i body ds htag
    have hstack : stack = [] := by
      by_contra hne
      rw [houtline, if_neg hne] at hone
      cases hone
    rw [hstack, List.flatMap_nil, List.append_nil, hcount] at hnumbers
    have hmem : i ∈ d.root.numbers :=
      hnumbers ▸ List.mem_range.2 (List.getElem?_eq_some_iff.1 htag).1
    obtain ⟨e, he, rfl⟩ := List.mem_map.1 hmem
    obtain ⟨body', ds', bs, htag', hread⟩ := written_parse h e he
    obtain ⟨rfl, rfl⟩ := Prod.mk.inj (Option.some.inj (htag.symm.trans htag'))
    exact ⟨e, he, rfl, bs, hread⟩
  tfae_finish

/-- A document of which the whole text has been read. -/
def wholeText : String := "<a><b/><c>x</c></a><!-- <d> -->"

theorem wholeText_complete : ∃ d, Document.ofText wholeText = .ok d ∧
    (Outline.of (utf8 wholeText)).outermost = 1 ∧ d.nodeCount = 3 ∧ d.root.numbers = [0, 1, 2] := by
  have heval : (Document.ofText wholeText).toOption.map (fun d => decide (d.nodeCount = 3)) =
      some true := by
    decide +kernel
  obtain ⟨d, hd, heval⟩ := Option.map_eq_some_iff.1 heval
  have hcount := of_decide_eq_true heval
  have hd := toOption_eq_some_iff.1 hd
  have hone : (Outline.of (utf8 wholeText)).outermost = 1 := by decide +kernel
  obtain ⟨-, -, htfae⟩ := complete_tfae hd
  have hnumbers := (htfae.out 3 2).1 hone
  exact ⟨d, hd, hone, hcount, hnumbers.trans (by rw [hcount]; rfl)⟩

/-- A text with a second outermost element, which is never closed. -/
def unclosedText : String := "<a/><b>"

/-- The text is accepted: the second tag is counted and is no element. The closed element is refused. -/
theorem unclosedText_accepted : (∃ d, Document.ofText unclosedText = .ok d ∧ d.nodeCount = 2 ∧
      d.root.numbers = [0] ∧ tags (utf8 unclosedText) = [(utf8 "a", []), (utf8 "b", [])] ∧
      (Outline.of (utf8 unclosedText)).outermost = 2) ∧
    (Document.ofText "<a/><b></b>").map (·.nodeCount) = .error (.xml .secondRoot) := by
  have heval : (Document.ofText unclosedText).toOption.map (fun d =>
      decide (d.nodeCount = 2 ∧ d.root.numbers = [0])) = some true := by
    decide +kernel
  obtain ⟨d, hd, heval⟩ := Option.map_eq_some_iff.1 heval
  obtain ⟨hcount, hnumbers⟩ := of_decide_eq_true heval
  refine ⟨⟨d, toOption_eq_some_iff.1 hd, hcount, hnumbers, by decide +kernel, by decide +kernel⟩, ?_⟩
  decide +kernel

end Document

end FeatureTables.Xml
