import JsonRules.Path

/-!
# Paths as text and in pieces

A path that has been split leads where its text leads (`Path.resolve?_ofString`) and is written as
the text that it was split from (`Path.toString_ofString`). The segments of texts with a dot between
them are those of the one and then those of the other, and a path is resolved segment by segment, so
a path can be cut at any of its dots (`Value.resolve?_append_dot`). Only the empty text stands apart:
it has no segments as a path, although it is one empty piece between dots.
-/

namespace JsonRules

namespace Path

theorem segments_ofString {text : String} (h : text ≠ "") :
    (ofString text).segments = dottedSegments text := by
  rw [ofString, if_neg h]

/-- A path resolves to the same whether it has been split before or not. -/
theorem resolve?_ofString (text : String) (data : Value) :
    (ofString text).resolve? data = data.resolve? text := by
  unfold ofString Value.resolve? resolve?
  split <;> rfl

/-- A path is written as the text that it was split from. -/
theorem toString_ofString (text : String) : (ofString text).toString = text := by
  by_cases h : text = ""
  · subst h
    rfl
  · have hmap : (dottedSegments text).map String.toList = Text.splitDots text.toList := by
      rw [dottedSegments, List.map_map]
      exact (List.map_congr_left fun cs _ => String.toList_ofList).trans (List.map_id _)
    rw [Path.toString, segments_ofString h, hmap, Text.join_split, String.ofList_toList]

theorem resolve?_append (p q : List String) (data : Value) :
    (Path.mk (p ++ q)).resolve? data = ((Path.mk p).resolve? data).bind (Path.mk q).resolve? :=
  List.foldlM_append

end Path

theorem dottedSegments_append_dot (text rest : String) :
    dottedSegments (text ++ "." ++ rest) = dottedSegments text ++ dottedSegments rest := by
  have htext : (text ++ "." ++ rest).toList = text.toList ++ '.' :: rest.toList := by
    rw [String.toList_append, String.toList_append, List.append_assoc]
    rfl
  rw [dottedSegments, htext, Text.splitDots_append_dot, List.map_append]
  rfl

namespace Value

variable {text rest : String}

theorem resolve?_of_ne_empty (h : text ≠ "") (data : Value) :
    data.resolve? text = (Path.mk (dottedSegments text)).resolve? data := by
  rw [resolve?, if_neg h]
  rfl

/-- A path with a dot in it is resolved in two stages, unless nothing stands on one side of the
dot. -/
theorem resolve?_append_dot (htext : text ≠ "") (hrest : rest ≠ "") (data : Value) :
    data.resolve? (text ++ "." ++ rest) =
      (data.resolve? text).bind fun found => found.resolve? rest := by
  have hne : text ++ "." ++ rest ≠ "" := by
    intro h
    exact htext (String.append_eq_empty_iff.1 (String.append_eq_empty_iff.1 h).1).1
  have hfound : (fun found : Value => found.resolve? rest) =
      (Path.mk (dottedSegments rest)).resolve? := by
    funext found
    exact resolve?_of_ne_empty hrest found
  rw [resolve?_of_ne_empty hne, resolve?_of_ne_empty htext, dottedSegments_append_dot,
    Path.resolve?_append, hfound]

end Value

/-! ## Both forms of a path -/

/-- A path means the same as text and in pieces: it leads to the same in any data, it is written as
the text that it was split from, and what stands behind a dot is resolved in what the path before the
dot leads to. -/
theorem Path.same_as_text (data : Value) (text : String) :
    (Path.ofString text).resolve? data = data.resolve? text ∧
      (Path.ofString text).toString = text ∧
      ∀ rest : String, text ≠ "" → rest ≠ "" →
        data.resolve? (text ++ "." ++ rest) =
          (data.resolve? text).bind fun found => found.resolve? rest :=
  ⟨resolve?_ofString text data, toString_ofString text,
    fun _ htext hrest => Value.resolve?_append_dot htext hrest data⟩

/-- A list behind keys, two of which are empty. -/
def keptList : Value :=
  .singleton "list" (.singleton "" (.singleton "" (.array [.null, .string "found"])))

theorem Path.same_as_text_keptList :
    "list." ≠ "" ∧ ".+1" ≠ "" ∧
      (Path.ofString "list.").segments = ["list", ""] ∧
      (Path.ofString "list.").resolve? keptList = keptList.resolve? "list." ∧
      (Path.ofString "list.").toString = "list." ∧
      keptList.resolve? "list...+1" = some (.string "found") := by
  obtain ⟨hresolve, htext, hcut⟩ := Path.same_as_text keptList "list."
  have hfound : (keptList.resolve? "list.").bind (fun found => found.resolve? ".+1") =
      some (.string "found") := by rfl
  have hjoined : keptList.resolve? "list...+1" = some (.string "found") :=
    (hcut ".+1" (by decide) (by decide)).trans hfound
  exact ⟨by decide, by decide, by rfl, hresolve, htext, hjoined⟩

end JsonRules
