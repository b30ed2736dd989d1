import IncrementalBuild.Text.Blank
import Mathlib.Data.List.DropRight
/-!
# The ends and the pieces of a text

## Main definitions

* `Blank.Strips` — what is left of a text without certain characters at its ends.

## Main results

* `Blank.strips_iff` — trimming strips a text, and nothing else does.
* `Blank.pieces_append_cons`, `Blank.pieces_eq_splitOnP` — the pieces between separators.
* `Blank.filterMap_lines` — the lines of a text are its pieces, for whoever ignores blank ends.
-/

namespace IncrementalBuild.Blank

variable {p : Char → Bool} {cs left : List Char}

/-! ### The ends of a text -/

/-- Trimming is dropping characters at both ends. -/
theorem trimWhere_eq (p : Char → Bool) (cs : List Char) :
    trimWhere p cs = (cs.dropWhile p).rdropWhile p := rfl

/-- A character in front is dropped from behind if it and all that follow it are. -/
theorem rdropWhile_cons (p : Char → Bool) (c : Char) (cs : List Char) :
    (c :: cs).rdropWhile p =
      if cs.rdropWhile p = [] ∧ p c = true then [] else c :: cs.rdropWhile p := by
  rw [List.rdropWhile, List.reverse_cons, List.dropWhile_append]
  by_cases hrest : cs.reverse.dropWhile p = []
  · by_cases hc : p c = true <;> simp [List.rdropWhile, hrest, hc]
  · simp [List.rdropWhile, hrest]

/-- It does not matter from which end characters are dropped first. -/
theorem dropWhile_rdropWhile (p : Char → Bool) (cs : List Char) :
    (cs.rdropWhile p).dropWhile p = (cs.dropWhile p).rdropWhile p := by
  induction cs with
  | nil => rfl
  | cons c rest ih =>
      rw [rdropWhile_cons]
      by_cases hc : p c = true
      · rw [List.dropWhile_cons_of_pos hc, ← ih]
        split
        · next h => rw [h.1]
        · rw [List.dropWhile_cons_of_pos hc]
      · rw [if_neg fun h => hc h.2, List.dropWhile_cons_of_neg hc, List.dropWhile_cons_of_neg hc,
          rdropWhile_cons, if_neg fun h => hc h.2]

/-- Blanks that were dropped from behind would have been trimmed. -/
theorem trim_rdropWhile (cs : List Char) : trim (cs.rdropWhile isBlank) = trim cs := by
  rw [trim, trim, trimWhere_eq, trimWhere_eq, dropWhile_rdropWhile, List.rdropWhile_idempotent]

/-- A text that starts with no blank is trimmed from behind. -/
theorem trim_cons {c : Char} (hc : isBlank c = false) (cs : List Char) :
    trim (c :: cs) = c :: cs.rdropWhile isBlank := by
  have hc' : ¬ isBlank c = true := by simp [hc]
  rw [trim, trimWhere_eq, List.dropWhile_cons_of_neg hc', rdropWhile_cons,
    if_neg fun h => hc' h.2]

/-- What is left of a text when all characters at its ends that satisfy `p` are gone. -/
structure Strips (p : Char → Bool) (cs left : List Char) : Prop where
  ends : ∃ before after, cs = before ++ left ++ after ∧ ∀ c ∈ before ++ after, p c = true
  head : ∀ c ∈ left.head?, p c = false
  last : ∀ c ∈ left.getLast?, p c = false

/-- Trimming strips a text. -/
theorem strips_trimWhere (p : Char → Bool) (cs : List Char) : Strips p cs (trimWhere p cs) := by
  rw [trimWhere_eq]
  have hsplit : cs.dropWhile p =
      (cs.dropWhile p).rdropWhile p ++ (cs.dropWhile p).rtakeWhile p := by
    rw [List.rdropWhile, List.rtakeWhile, ← List.reverse_append, List.takeWhile_append_dropWhile,
      List.reverse_reverse]
  refine ⟨⟨cs.takeWhile p, (cs.dropWhile p).rtakeWhile p, ?_, ?_⟩, fun c hc => ?_, fun c hc => ?_⟩
  · rw [List.append_assoc, ← hsplit, List.takeWhile_append_dropWhile]
  · intro c hc
    rcases List.mem_append.mp hc with hc | hc
    · exact List.mem_takeWhile_imp hc
    · exact List.mem_rtakeWhile_imp hc
  · have hhead : c ∈ (cs.dropWhile p).head? := by
      rw [hsplit, List.head?_append, Option.mem_def.mp hc]
      rfl
    have hnot := List.head?_dropWhile_not p cs
    rw [Option.mem_def.mp hhead] at hnot
    exact hnot
  · have hne : (cs.dropWhile p).rdropWhile p ≠ [] := by
      intro hnil
      rw [hnil] at hc
      exact absurd hc (by simp)
    have hlast := List.rdropWhile_last_not p _ hne
    rw [Option.mem_def, List.getLast?_eq_some_getLast hne] at hc
    rw [← Option.some.inj hc]
    exact Bool.eq_false_iff.mpr hlast

/-- A text that starts and ends with other characters is left alone. -/
theorem trimWhere_self (hhead : ∀ c ∈ cs.head?, p c = false)
    (hlast : ∀ c ∈ cs.getLast?, p c = false) : trimWhere p cs = cs := by
  cases cs with
  | nil => rfl
  | cons c rest =>
      have hc : ¬ p c = true := Bool.eq_false_iff.mp (hhead c rfl)
      rw [trimWhere_eq, List.dropWhile_cons_of_neg hc, List.rdropWhile_eq_self_iff]
      intro hne
      exact Bool.eq_false_iff.mp (hlast _ (List.getLast?_eq_some_getLast hne))

/-- Only what trimming leaves is left. -/
theorem Strips.eq (h : Strips p cs left) : trimWhere p cs = left := by
  obtain ⟨⟨before, after, rfl, hends⟩, hhead, hlast⟩ := h
  have hbefore : ∀ c ∈ before, p c = true := fun c hc => hends c (List.mem_append_left _ hc)
  have hafter : ∀ c ∈ after.reverse, p c = true := fun c hc =>
    hends c (List.mem_append_right _ (List.mem_reverse.mp hc))
  rw [trimWhere_eq, List.append_assoc, List.dropWhile_append_of_pos hbefore]
  cases left with
  | nil =>
      rw [List.nil_append, List.dropWhile_eq_nil_iff.mpr fun c hc =>
        hafter c (List.mem_reverse.mpr hc)]
      rfl
  | cons c rest =>
      have hc : ¬ p c = true := Bool.eq_false_iff.mp (hhead c rfl)
      have hself := trimWhere_self hhead hlast
      rw [trimWhere_eq, List.dropWhile_cons_of_neg hc] at hself
      rw [List.cons_append, List.dropWhile_cons_of_neg hc, ← List.cons_append, List.rdropWhile,
        List.reverse_append, List.dropWhile_append_of_pos hafter]
      exact hself

/-- **Stripping** is what trimming does, and nothing else. -/
theorem strips_iff : Strips p cs left ↔ trimWhere p cs = left :=
  ⟨Strips.eq, fun h => h ▸ strips_trimWhere p cs⟩

/-- A text that was trimmed is trimmed. -/
theorem trim_trim (cs : List Char) : trim (trim cs) = trim cs :=
  trimWhere_self (strips_trimWhere isBlank cs).head (strips_trimWhere isBlank cs).last

/-! ### Pieces -/

/-- The pieces of a text are those that it is split into. -/
theorem pieces_eq_splitOnP (sep : Char → Bool) (cs : List Char) :
    pieces sep cs = cs.splitOnP sep := by
  induction cs with
  | nil => rfl
  | cons c cs ih =>
      rw [pieces, List.splitOnP_cons_eq_if_modifyHead, ← ih]
      split
      · rfl
      · obtain ⟨piece, rest, hpieces⟩ := List.exists_cons_of_ne_nil (pieces_ne_nil sep cs)
        rw [hpieces]
        rfl

/-- Cutting at a separator cuts both sides on their own. -/
theorem pieces_append_cons {sep : Char → Bool} {c : Char} (hc : sep c = true)
    (a b : List Char) : pieces sep (a ++ c :: b) = pieces sep a ++ pieces sep b := by
  rw [pieces_eq_splitOnP, pieces_eq_splitOnP, pieces_eq_splitOnP, List.splitOnP_append_cons _ _ hc]

/-- There are no separators in pieces. -/
theorem eq_false_of_mem_pieces {sep : Char → Bool} {cs piece : List Char} {c : Char}
    (h : piece ∈ pieces sep cs) (hc : c ∈ piece) : sep c = false := by
  induction cs generalizing piece with
  | nil =>
      rw [List.mem_singleton.mp h] at hc
      exact absurd hc List.not_mem_nil
  | cons d cs ih =>
      obtain ⟨first, rest, hp⟩ := List.exists_cons_of_ne_nil (pieces_ne_nil sep cs)
      rw [pieces, hp] at h
      by_cases hd : sep d = true
      · rw [if_pos hd] at h
        rcases List.mem_cons.mp h with rfl | h
        · exact absurd hc List.not_mem_nil
        · exact ih (hp ▸ h) hc
      · rw [if_neg hd] at h
        rcases List.mem_cons.mp h with rfl | h
        · rcases List.mem_cons.mp hc with rfl | hc
          · exact Bool.eq_false_iff.mpr hd
          · exact ih (hp ▸ List.mem_cons_self) hc
        · exact ih (hp ▸ List.mem_cons_of_mem first h) hc

/-! ### Lines -/

/-- The carriage return at the end of a line is blank. -/
theorem trim_dropReturn (line : List Char) : trim (dropReturn line) = trim line := by
  rw [dropReturn]
  split
  · next hlast =>
      obtain ⟨front, rfl⟩ := List.getLast?_eq_some_iff.mp hlast
      have hdropped : (front ++ ['\r']).rdropWhile isBlank = front.rdropWhile isBlank :=
        List.rdropWhile_concat_pos _ _ _ (by decide)
      rw [List.dropLast_concat, ← trim_rdropWhile front, ← trim_rdropWhile (front ++ ['\r']),
        hdropped]
  · rfl

/-- What is told from lines without a look at their blank ends is told from the pieces between line
ends. -/
theorem filterMap_lines {α : Type} {f : List Char → Option α} (hnil : f [] = none)
    (htrim : ∀ line, f (trim line) = f line) (cs : List Char) :
    (lines cs).filterMap f = (pieces (· == '\n') cs).filterMap f := by
  have hreturn : ∀ line, f (dropReturn line) = f line := fun line => by
    rw [← htrim, trim_dropReturn, htrim]
  rw [lines]
  induction pieces (· == '\n') cs using linesOfPieces.induct with
  | case1 => rfl
  | case2 last hlast =>
      rw [List.isEmpty_iff] at hlast
      simp [linesOfPieces, hlast, hnil]
  | case3 last hlast => rw [linesOfPieces, if_neg hlast]
  | case4 line rest hrest ih =>
      rw [linesOfPieces, List.filterMap_cons, List.filterMap_cons, hreturn, ih]
      exact hrest

end IncrementalBuild.Blank
