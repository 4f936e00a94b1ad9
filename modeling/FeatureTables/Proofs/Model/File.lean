import FeatureTables.Model.File
import FeatureTables.Proofs.Model.Data
import FeatureTables.Proofs.Text.Pieces
import FeatureTables.Proofs.Text.Utf8
import Mathlib.Data.List.TakeDrop

/-!
Model files give back the model that was written, if it is one that JSON keeps and the key does not end
with a carriage return; otherwise they are refused.
-/

namespace FeatureTables

namespace ModelFile

open Text

/-! ### Lines -/

theorem cutLine_utf8 {s : String} (h : '\n' ∉ s.toList) (bs : Bytes) :
    cutLine (utf8 (s ++ "\n") ++ bs) = (utf8 (s ++ "\n"), bs) := by
  have hline : ∀ b ∈ utf8 s, (b != 10) = true := fun b hb =>
    bne_iff_ne.2 fun hten => newline_not_mem_utf8 h (hten ▸ hb)
  have hend : utf8 "\n" = [10] := by decide
  rw [utf8_append, hend, List.append_assoc, cutLine, List.span_eq_takeWhile_dropWhile,
    List.takeWhile_append_of_pos hline, List.dropWhile_append_of_pos hline]
  simp

theorem line_utf8 {s : String} (h : '\n' ∉ s.toList) (bs : Bytes) :
    line (utf8 (s ++ "\n") ++ bs) = .ok (s ++ "\n", bs) := by
  rw [line, cutLine_utf8 h]
  simp only [fromUtf8?_utf8]

/-- A line is read without its end, unless it ends with a carriage return itself. -/
theorem content_eq_iff {s : String} (h : '\n' ∉ s.toList) :
    content (s ++ "\n") = s ↔ s.toList.getLast? ≠ some '\r' := by
  rw [← String.toList_inj, content, String.toList_ofList, String.toList_append, List.reverse_append]
  show (List.dropWhile _ ('\n' :: s.toList.reverse)).reverse = _ ↔ _
  rw [List.dropWhile_cons_of_pos (by decide), ← List.head?_reverse, ← List.reverse_inj, List.reverse_reverse]
  have hreverse : '\n' ∉ s.toList.reverse := fun hmem => h (List.mem_reverse.1 hmem)
  cases hlast : s.toList.reverse with
  | nil => simp
  | cons c cs =>
    have hc : c ≠ '\n' := fun hc => hreverse (hlast ▸ hc ▸ List.mem_cons_self)
    by_cases hreturn : c = '\r'
    · have hshort : (cs.dropWhile fun c => c == '\r' || c == '\n').length ≤ cs.length :=
        (List.dropWhile_sublist _).length_le
      rw [List.dropWhile_cons_of_pos (by simp [hreturn]), hreturn]
      refine iff_of_false (fun heq => ?_) (by simp)
      have := congrArg List.length heq
      simp only [List.length_cons] at this
      omega
    · rw [List.dropWhile_cons_of_neg (by simp [hreturn, hc])]
      simp [hreturn]

theorem keyLine_eq (key : String) :
    (keyLine key).toList = key.toList.map fun c => if c = '\n' then ' ' else c :=
  toList_replace '\n' ' ' key

theorem newline_not_mem_keyLine (key : String) : '\n' ∉ (keyLine key).toList := by
  rw [keyLine_eq, List.mem_map]
  rintro ⟨c, -, hc⟩
  split at hc
  · cases hc
  · contradiction

theorem getLast?_keyLine (key : String) :
    (keyLine key).toList.getLast? = some '\r' ↔ key.toList.getLast? = some '\r' := by
  rw [keyLine_eq, List.getLast?_map]
  cases key.toList.getLast? with
  | none => simp
  | some c =>
    by_cases hc : c = '\n'
    · simp [hc]
    · simp [hc]

/-! ### The whole file -/

/-- The lines in front are read as they were written: the rest decides, unless the key ends with a
carriage return. -/
theorem read_lines (key text : String) :
    read key (utf8 (magic ++ "\n" ++ toString version ++ "\n" ++ keyLine key ++ "\n" ++ text)) =
      if key.toList.getLast? = some '\r' then
        .error (.modelFile (.otherKey (withoutEnd (keyLine key ++ "\n"))))
      else match (Json.read? text).bind Model.ofJson? with
        | some m => .ok m
        | none => .error (.modelFile .payload) := by
  have hbytes : utf8 (magic ++ "\n" ++ toString version ++ "\n" ++ keyLine key ++ "\n" ++ text) =
      utf8 (magic ++ "\n") ++ (utf8 ("1" ++ "\n") ++ (utf8 (keyLine key ++ "\n") ++ utf8 text)) := by
    simp only [← utf8_append, String.append_assoc]
    rfl
  have hmagic : withoutEnd (magic ++ "\n") = magic := by decide
  have hversion : Number.readNat? (Nat.pow 2 32 - 1) (trim ("1" ++ "\n")) = some 1 := by decide
  have hcontent := content_eq_iff (newline_not_mem_keyLine key)
  rw [hbytes, read, line_utf8 (by decide)]
  simp only [bind, Except.bind, hmagic, ne_eq, not_true_eq_false, if_false,
    line_utf8 (show '\n' ∉ "1".toList by decide), hversion, version, Nat.lt_irrefl,
    line_utf8 (newline_not_mem_keyLine key), hcontent, getLast?_keyLine, fromUtf8?_utf8]
  by_cases hkey : key.toList.getLast? = some '\r'
  · rw [if_pos (not_not.2 hkey), if_pos hkey]
    rfl
  · rw [if_neg (not_not.2 hkey), if_neg hkey]
    rfl

/-- What is read back of a model is its JSON form as far as a text keeps it. -/
theorem read_text (key : String) {m : Model} (h : m.toJson.Exact) :
    read key (utf8 (write key m)) =
      if key.toList.getLast? = some '\r' then
        .error (.modelFile (.otherKey (withoutEnd (keyLine key ++ "\n"))))
      else match Model.ofJson? (m.toJson.reread 127) with
        | some m => .ok m
        | none => .error (.modelFile .payload) := by
  rw [write, read_lines, Json.read?_compact h, Option.bind_some]

theorem read_of_return {key : String} (m : Model) (hkey : key.toList.getLast? = some '\r') :
    read key (utf8 (write key m)) =
      .error (.modelFile (.otherKey (withoutEnd (keyLine key ++ "\n")))) := by
  rw [write, read_lines, if_pos hkey]

/-- A file that was written for the key is read, or refused as a model file. -/
theorem read_write_cases (key : String) (m : Model) :
    (∃ m', read key (utf8 (write key m)) = .ok m') ∨
    ∃ cause, read key (utf8 (write key m)) = .error (.modelFile cause) := by
  rw [write, read_lines]
  split
  · exact .inr ⟨_, rfl⟩
  · split
    · exact .inl ⟨_, rfl⟩
    · exact .inr ⟨_, rfl⟩

section

variable {key : String} {m : Model} (hm : m.InRange)
  (hreals : ∀ x, Value.real x ∈ m.cellValues → x.isFinite = true → x.ReadsBack)
include hm hreals

theorem read_of_kept (hkey : key.toList.getLast? ≠ some '\r') (hkept : m.Kept 122) :
    read key (utf8 (write key m)) = .ok m := by
  rw [read_text key (Model.exact_toJson hm hreals), if_neg hkey, (Model.settled hm 119).back hkept]

theorem read_of_not_kept (hkey : key.toList.getLast? ≠ some '\r') (hkept : ¬ m.Kept 122) :
    read key (utf8 (write key m)) = .error (.modelFile .payload) := by
  rw [read_text key (Model.exact_toJson hm hreals), if_neg hkey, (Model.settled hm 119).refused hkept]

end

/-- A model file gives back its model exactly if the key does not end with a carriage return, the binary
numbers of the model are finite, and no type of a field has more than 122 lists in each other. Otherwise
it is refused. The finite numbers are taken to be read as they are written. -/
theorem read_written (key : String) {m : Model} (hm : m.InRange)
    (hreals : ∀ x, Value.real x ∈ m.cellValues → x.isFinite = true → x.ReadsBack) :
    (read key (utf8 (write key m)) = .ok m ↔ key.toList.getLast? ≠ some '\r' ∧ m.Kept 122) ∧
    (key.toList.getLast? = some '\r' → read key (utf8 (write key m)) =
      .error (.modelFile (.otherKey (withoutEnd (keyLine key ++ "\n"))))) ∧
    (key.toList.getLast? ≠ some '\r' → ¬ m.Kept 122 →
      read key (utf8 (write key m)) = .error (.modelFile .payload)) := by
  refine ⟨⟨fun hok => ?_, fun ⟨h, hkept⟩ => read_of_kept hm hreals h hkept⟩,
    read_of_return m, read_of_not_kept hm hreals⟩
  have h : key.toList.getLast? ≠ some '\r' := fun h => by
    rw [read_of_return m h] at hok
    cases hok
  refine ⟨h, by_contra fun hkept => ?_⟩
  rw [read_of_not_kept hm hreals h hkept] at hok
  cases hok

/-- A table with a column of numbers, a link and a new name. -/
def numberTable : Table where
  name := "a"
  fields := ⟨[("x/text()", .column ⟨"x/text()", .real, false, false⟩),
    ("b", .link ⟨"b", "a_b", true, ⟨0, .bounded 1⟩, .list .int, some "g"⟩)]⟩
  uid := "x/text()"
  mergeable := true
  lastId := 1
  renamed := ⟨[("x/text()", "x_2")]⟩

/-- The table with a row that holds a value. -/
def numberModel (v : Value) : Model where
  tables := ⟨[("a", numberTable)]⟩
  rows := ⟨[("a", [⟨[("x_2", v)]⟩])]⟩
  rootTable? := some "a"

theorem cellValues_numberModel (v : Value) : (numberModel v).cellValues = [v] := rfl

theorem inRange_numberModel {v : Value} (h : v.InRange) : (numberModel v).InRange where
  tables := by
    refine List.forall_mem_singleton.2 ⟨?_, by decide, by decide, by decide⟩
    exact List.forall_mem_cons.2 ⟨trivial, List.forall_mem_singleton.2
      ⟨by decide, fun n hn => MaxOccurs.bounded.inj hn ▸ by decide⟩⟩
  tableNames := by
    show [_].Nodup
    simp
  values := by
    rw [cellValues_numberModel]
    exact List.forall_mem_singleton.2 h
  rowNames := by
    show [_].Nodup
    simp

theorem levels_numberModel (v : Value) : ∀ f ∈ (numberModel v).fields, f.levels ≤ 122 :=
  List.forall_mem_cons.2 ⟨by decide, List.forall_mem_singleton.2 (by decide)⟩

theorem number_read_back :
    let m := numberModel (.real (.ofDecimal false 15 (-1)))
    (m.InRange ∧ ∀ x, Value.real x ∈ m.cellValues → x.isFinite = true → x.ReadsBack) ∧
      read "a.gml" (utf8 (write "a.gml" m)) = .ok m := by
  intro m
  have hrange : m.InRange := inRange_numberModel trivial
  have hreals : ∀ x, Value.real x ∈ m.cellValues → x.isFinite = true → x.ReadsBack := by
    intro x hx _
    rw [cellValues_numberModel, List.mem_singleton] at hx
    have htext : (Number.Binary64.ofDecimal false 15 (-1)).dataText? = some "1.5" := by decide
    rw [Value.real.inj hx, Json.readsBack_iff htext]
    decide +kernel
  have hkept : m.Kept 122 := by
    refine ⟨levels_numberModel _, ?_⟩
    rw [cellValues_numberModel]
    exact List.forall_mem_singleton.2 (show Number.Binary64.isFinite _ = true by decide)
  exact ⟨⟨hrange, hreals⟩, (read_written "a.gml" hrange hreals).1.2 ⟨by decide, hkept⟩⟩

/-- A document can have a number that is none, and a model with it is refused. -/
theorem not_a_number_refused :
    let m := numberModel (.real .nan)
    SqlType.real.read "NaN" = .real .nan ∧ m.InRange ∧
      read "a.gml" (utf8 (write "a.gml" m)) = .error (.modelFile .payload) := by
  intro m
  have hrange : m.InRange := inRange_numberModel trivial
  have hexact : m.toJson.Exact := by
    refine Model.exact_toJson hrange fun x hx hfinite => ?_
    rw [cellValues_numberModel, List.mem_singleton] at hx
    rw [Value.real.inj hx] at hfinite
    cases hfinite
  have hlost : ¬ m.Kept 122 := fun h => by
    have hnan := h.values _ (List.mem_singleton_self _)
    cases hnan
  refine ⟨by decide, hrange, ?_⟩
  rw [read_text _ hexact, if_neg (by decide), (Model.settled hrange 119).refused hlost]

end ModelFile

end FeatureTables
