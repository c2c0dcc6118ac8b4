import RouterPlan.Proofs.Lemmas.PairMarks
import RouterPlan.Proofs.Lemmas.StatementLines
import RouterPlan.Proofs.Lemmas.WrittenLines

/-!
# Which headers are read back

The header of a section is its path as it is written. A path that was read from a line may hold anything in its segments but slashes,
because the line may quote them, and it is written without quotes. Main statement: the written path is read as a header of the
same section exactly if no segment holds blanks, semicolons, quotes or backslashes and none is a verb, and then the lines after it
are read in that section (`ofLine_text_iff`).
-/

namespace RouterPlan

namespace Text

/-- The fields of a text hold no more than the text. -/
theorem countP_fields_le (p q : Char → Bool) (cs : List Char) :
    textCount q ((fields p cs).map String.ofList) ≤ cs.countP q := by
  have hcount : textCount q ((fields p cs).map String.ofList) = (pieces p cs).flatten.countP q := by
    have hflatten : (fields p cs).flatten = (pieces p cs).flatten := List.flatten_filter_not_isEmpty
    rw [← hflatten, List.countP_flatten, textCount, List.map_map]
    simp [Function.comp_def]
  rw [hcount]
  exact (flatten_pieces p cs).countP_le

end Text

namespace Statement

/-- The segments that a word gives. -/
def segmentsOf (word : Word) : List String :=
  (Text.fields (· == '/') word.text.toList).map String.ofList

/-- Where a line has no verb, its words give all segments. -/
theorem segments_of_splitPath {line : List Char} {segments : List String} {words : List Word} {path : Path}
    (h : splitPath line segments words = (path, none)) : path.segments = segments ++ words.flatMap segmentsOf := by
  induction words generalizing segments with
  | nil =>
    cases h
    exact (List.append_nil segments).symm
  | cons word words ih =>
    unfold splitPath at h
    dsimp only at h
    split at h
    · cases h
    · rw [ih h, List.append_assoc]
      rfl

/-- A line without a verb has none where one would count. -/
theorem not_verb_of_splitPath {line : List Char} {segments : List String} {word : Word} {words : List Word} {path : Path}
    (h : splitPath line segments (word :: words) = (path, none)) {slashes : List Char} {bare : String}
    (hspan : word.text.toList.span (· == '/') = (slashes, bare.toList)) (hplace : slashes = [] ∨ segments = []) :
    bare ∉ verbs ∧ splitPath line (segments ++ segmentsOf word) words = (path, none) := by
  unfold splitPath at h
  rw [hspan] at h
  dsimp only at h
  split at h
  · cases h
  · rename_i hverb
    refine ⟨fun hmem => hverb ?_, h⟩
    rw [String.ofList_toList, Bool.and_eq_true, Bool.or_eq_true, List.contains_iff_mem, List.isEmpty_iff, List.isEmpty_iff]
    exact ⟨hmem, hplace⟩

/-- The segments of a line hold no more than its words. -/
theorem textCount_segmentsOf_le (p : Char → Bool) (words : List Word) :
    textCount p (words.flatMap segmentsOf) ≤ Text.weight p words := by
  induction words with
  | nil => exact Nat.le_refl 0
  | cons word words ih =>
    have hword := Text.countP_fields_le (· == '/') p word.text.toList
    have hweight : Text.weight p (word :: words) = word.text.toList.countP p + Text.weight p words := by
      simp [Text.weight]
    rw [List.flatMap_cons, textCount_append, hweight]
    exact Nat.add_le_add hword ih

/-- The segments that a line gives are not empty and hold no slashes. -/
theorem segments_of_ofLine {current path : Path} {line : List Char} (h : ofLine current line = (path, .ok .enter)) :
    ∀ segment ∈ path.segments, segment.toList ≠ [] ∧ ∀ c ∈ segment.toList, (c == '/') = false := by
  obtain ⟨words, -, hsplit⟩ := exists_of_ofLine h
  intro segment hmem
  rw [segments_of_splitPath hsplit, List.nil_append] at hmem
  obtain ⟨word, -, hmem⟩ := List.mem_flatMap.1 hmem
  obtain ⟨field, hfield, rfl⟩ := List.mem_map.1 hmem
  rw [String.toList_ofList]
  exact Text.not_mem_fields hfield

/-- A written path holds what its segments hold, slashes and blanks apart. -/
theorem countP_text {p : Char → Bool} (hslash : p '/' = false) (hblank : p ' ' = false) (path : Path) :
    path.text.toList.countP p = textCount p path.segments := by
  have htext : path.text.toList = '/' :: (" ".intercalate path.segments).toList := by
    rw [Path.text, String.toList_append]
    rfl
  have hspaced : ∀ segments : List String, (Text.spaced (segments.map (·.toList))).countP p = textCount p segments := by
    intro segments
    induction segments with
    | nil => rfl
    | cons segment segments ih =>
      have hcons : Text.spaced ((segment :: segments).map (·.toList)) =
          ' ' :: (segment.toList ++ Text.spaced (segments.map (·.toList))) := by
        simp [Text.spaced]
      rw [hcons, List.countP_cons_of_neg (by simp [hblank]), List.countP_append, ih]
      simp [textCount]
  rw [htext, List.countP_cons_of_neg (by simp [hslash])]
  by_cases hne : path.segments = []
  · rw [hne]
    rfl
  · rw [← hspaced, ← Text.blank_intercalate hne, List.countP_cons_of_neg (by simp [hblank])]

/-- If a written path is read as a header of its section, then its segments stand for themselves. -/
theorem plainSegments_of_ofLine {current path : Path}
    (hsegments : ∀ segment ∈ path.segments, segment.toList ≠ [] ∧ ∀ c ∈ segment.toList, (c == '/') = false)
    (h : ofLine current path.text.toList = (path, .ok .enter)) : path.PlainSegments := by
  obtain ⟨words, hwords, hsplit⟩ := exists_of_ofLine h
  have hkept : ∀ p, textCount p path.segments ≤ Text.weight p words := by
    intro p
    rw [segments_of_splitPath hsplit, List.nil_append]
    exact textCount_segmentsOf_le p words
  have hmarks : ∀ c ∈ path.text.toList, Text.isMark c = false := by
    refine Text.unmarked_of_splitWords hwords ?_
    rw [countP_text (by decide) (by decide)]
    exact hkept Text.isMark
  have hnomarks : textCount Text.isMark path.segments = 0 := by
    rw [← countP_text (by decide) (by decide), Text.countP_eq_zero hmarks]
  have hnoseparators : textCount Text.isSeparator path.segments = 0 := by
    have hle := hkept Text.isSeparator
    rwa [Text.weight_of_unmarked Text.isSeparator_of_isPlain hmarks hwords, Nat.le_zero] at hle
  intro segment hmem
  refine ⟨(hsegments segment hmem).1, fun c hc => ?_⟩
  have hslash := (hsegments segment hmem).2 c hc
  have hsep := eq_false_of_textCount hnoseparators hmem c hc
  have hmark := eq_false_of_textCount hnomarks hmem c hc
  simp only [Text.isSeparator, Text.isMark, Bool.or_eq_false_iff, beq_eq_false_iff_ne, ne_eq] at hslash hsep hmark
  exact ⟨hsep.1, by simp [hslash, hsep.2, hmark.1, hmark.2]⟩

/-- A word without slashes is no verb on a line without a verb. -/
theorem not_verb_of_mem {line : List Char} {segments : List String} {words : List Word} {path : Path}
    (h : splitPath line segments words = (path, none)) : ∀ word ∈ words,
      (∀ c ∈ word.text.toList, (c == '/') = false) → word.text ∉ verbs := by
  induction words generalizing segments with
  | nil => exact List.forall_mem_nil _
  | cons word words ih =>
    refine List.forall_mem_cons.2 ⟨fun hslash => ?_, ?_⟩
    · have hspan : ([] ++ word.text.toList).span (· == '/') = ([], word.text.toList) :=
        Text.span_append (List.forall_mem_nil _) fun c hc => hslash c (List.mem_of_head? hc)
      exact (not_verb_of_splitPath h hspan (.inl rfl)).1
    · unfold splitPath at h
      dsimp only at h
      split at h
      · cases h
      · exact ih h

/-- If a written path is read as a header, then no segment of it is a verb. -/
theorem not_verb_of_ofLine {current path : Path} (hplain : path.PlainSegments)
    (h : ofLine current path.text.toList = (path, .ok .enter)) : ∀ segment ∈ path.segments, segment ∉ verbs := by
  obtain ⟨words, hwords, hsplit⟩ := exists_of_ofLine h
  obtain ⟨words', hwords', htexts⟩ := splitWords_text hplain
  cases hwords.symm.trans hwords'
  have hslash : ∀ segment ∈ path.segments, ∀ c ∈ segment.toList, (c == '/') = false := fun segment hmem =>
    not_slash (hplain segment hmem)
  rw [Path.words, Path.firstWord] at htexts
  cases hsegments : path.segments with
  | nil => exact List.forall_mem_nil _
  | cons first rest =>
    rw [hsegments] at htexts hslash
    obtain ⟨hfirst, hrest⟩ := List.forall_mem_cons.1 hslash
    cases words with
    | nil => cases htexts
    | cons word words =>
      obtain ⟨hword, htail⟩ := List.cons.inj htexts
      have hspan : word.text.toList.span (· == '/') = (['/'], first.toList) := by
        have htext : word.text.toList = ['/'] ++ first.toList :=
          (congrArg String.toList hword).trans String.toList_append
        rw [htext]
        exact Text.span_append (by simp) fun c hc => hfirst c (List.mem_of_head? hc)
      obtain ⟨hverb, hmore⟩ := not_verb_of_splitPath hsplit hspan (.inr rfl)
      refine List.forall_mem_cons.2 ⟨hverb, fun segment hmem => ?_⟩
      rw [List.tail_cons] at htail
      rw [← htail] at hmem
      obtain ⟨next, hnext, rfl⟩ := List.mem_map.1 hmem
      refine not_verb_of_mem hmore next hnext (hrest _ ?_)
      rw [← htail]
      exact List.mem_map.2 ⟨next, hnext, rfl⟩

/-- A path that was read from a line is read as a header of its section exactly if it is printable, and then the lines after the
header are read in that section. -/
theorem ofLine_text_iff {current path : Path} {line : List Char} (h : ofLine current line = (path, .ok .enter))
    (current' : Path) :
    (ofLine current' path.text.toList = (path, .ok .enter) ↔ path.Printable) ∧
      (path.Printable → ∀ number lines, ofLines current' ((number, path.text.toList) :: lines) =
        { line := number, text := path.text, path, content := .ok .enter } :: ofLines path lines) := by
  refine ⟨⟨fun hread => ?_, ofLine_text current'⟩, fun hprintable number lines => ?_⟩
  · have hplain := plainSegments_of_ofLine (segments_of_ofLine h) hread
    exact fun segment hmem => ⟨hplain segment hmem, not_verb_of_ofLine hplain hread segment hmem⟩
  · have hline := Path.isLine_text hprintable
    have hsome : path.text.toList.isEmpty = false :=
      List.isEmpty_eq_false_iff.2 (List.ne_nil_of_mem (List.mem_of_head? (head?_text path)))
    rw [ofLines]
    simp only [hline.trim_eq, hsome, ofLine_text current' hprintable, String.ofList_toList]
    rfl

/-- A quoted segment with a blank is read, but written without its quotes, so that two segments are read in its place. -/
theorem ofLine_text_blank :
    ofLine .root "/ip \"a b\"".toList = (⟨["ip", "a b"]⟩, .ok .enter) ∧
      ofLine .root (Path.text ⟨["ip", "a b"]⟩).toList ≠ (⟨["ip", "a b"]⟩, .ok .enter) := by
  have h : ofLine .root "/ip \"a b\"".toList = (⟨["ip", "a b"]⟩, .ok .enter) := by decide +kernel
  exact ⟨h, (ofLine_text_iff h .root).1.not.2 (by decide +kernel)⟩

end Statement

end RouterPlan
