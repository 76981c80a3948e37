import LintGate.Text.Lines
import Mathlib.Data.List.Basic

/-! # The lines of a text

No line of a text has a line break. Lines that have none, and that are not empty, are the lines of
the text that writes them with a line feed between any two.
-/

namespace LintGate.Text

def lineBreaks : List Char :=
  ['\n', '\x0b', '\x0c', '\r', '\x1c', '\x1d', '\x1e', '\u0085', '\u2028', '\u2029']

theorem isLineBreak_iff_mem {c : Char} : isLineBreak c = true ↔ c ∈ lineBreaks := by
  simp only [isLineBreak, lineBreaks, List.mem_cons, List.not_mem_nil, or_false, ← Char.toNat_inj,
    Bool.or_eq_true, Bool.and_eq_true, decide_eq_true_eq, beq_iff_eq]
  simp only [Char.reduceToNat]
  omega

/-- A line without a line break in it. -/
def IsLine (line : List Char) : Prop := ∀ c ∈ line, isLineBreak c = false

variable {c : Char} {line text : List Char} {lines : List (List Char)}

theorem takeWhile_append_cons {α : Type} [BEq α] [LawfulBEq α] {a : α} {front : List α}
    (h : a ∉ front) (rest : List α) : (front ++ a :: rest).takeWhile (· != a) = front := by
  have hpass : ∀ b ∈ front, (b != a) = true := fun b hb =>
    bne_iff_ne.mpr (ne_of_mem_of_not_mem hb h)
  rw [List.takeWhile_append_of_pos hpass]
  simp

theorem dropWhile_append_cons {α : Type} [BEq α] [LawfulBEq α] {a : α} {front : List α}
    (h : a ∉ front) (rest : List α) : (front ++ a :: rest).dropWhile (· != a) = a :: rest := by
  have hparts := List.takeWhile_append_dropWhile (p := (· != a)) (l := front ++ a :: rest)
  rw [takeWhile_append_cons h] at hparts
  exact List.append_cancel_left hparts

/-- A character that is in neither front divides equal texts at the same place. -/
theorem append_cons_inj {front front' rest rest' : List Char} (hfront : c ∉ front)
    (hfront' : c ∉ front') (h : front ++ c :: rest = front' ++ c :: rest') :
    front = front' ∧ rest = rest' := by
  have heq : front = front' := by
    rw [← takeWhile_append_cons hfront rest, h, takeWhile_append_cons hfront' rest']
  subst heq
  exact ⟨rfl, by simpa using List.append_cancel_left h⟩

theorem mem_consLine {c : Char} {lines : List (List Char)} (h : line ∈ consLine c lines) :
    line ∈ lines ∨ ∃ rest, line = c :: rest ∧ (rest = [] ∨ rest ∈ lines) := by
  cases lines with
  | nil => exact .inr ⟨[], by simpa [consLine] using h, .inl rfl⟩
  | cons first rest =>
    rcases List.mem_cons.mp h with rfl | h
    · exact .inr ⟨first, rfl, .inr (by simp)⟩
    · exact .inl (by simp [h])

theorem isLine_of_mem_splitLines (h : line ∈ splitLines text) : IsLine line := by
  fun_induction splitLines text generalizing line with
  | case1 => cases h
  | case2 rest ih =>
    rcases List.mem_cons.mp h with rfl | h
    · simp [IsLine]
    · exact ih h
  | case3 c rest hcrlf hbreak ih =>
    rcases List.mem_cons.mp h with rfl | h
    · simp [IsLine]
    · exact ih h
  | case4 c rest hcrlf hbreak ih =>
    rcases mem_consLine h with h | ⟨front, rfl, rfl | h⟩
    · exact ih h
    · simpa [IsLine] using hbreak
    · have hfront := ih h
      simp_all [IsLine]

theorem splitLines_of_ne_return (h : c ≠ '\r') (text : List Char) :
    splitLines (c :: text) =
      if isLineBreak c then [] :: splitLines text else consLine c (splitLines text) := by
  rw [splitLines]
  rintro _ rfl
  exact absurd rfl h

theorem splitLines_cons (h : isLineBreak c = false) (text : List Char) :
    splitLines (c :: text) = consLine c (splitLines text) := by
  have hreturn : c ≠ '\r' := by
    rintro rfl
    cases h
  rw [splitLines_of_ne_return hreturn, if_neg (by simp [h])]

theorem splitLines_return (h : ∀ rest, text = '\n' :: rest → False) :
    splitLines ('\r' :: text) = [] :: splitLines text := by
  rw [splitLines, if_pos (by decide)]
  intro rest _ htext
  exact h rest htext

theorem splitLines_append_cons (h : IsLine line) (text : List Char) :
    splitLines (line ++ '\n' :: text) = line :: splitLines text := by
  induction line with
  | nil => rfl
  | cons c line ih =>
    rw [List.cons_append, splitLines_cons (h c (by simp)), ih fun d hd => h d (by simp [hd])]
    rfl

theorem splitLines_eq_singleton (h : IsLine line) (hne : line ≠ []) : splitLines line = [line] := by
  induction line with
  | nil => exact absurd rfl hne
  | cons c line ih =>
    rw [splitLines_cons (h c (by simp))]
    cases line with
    | nil => rfl
    | cons d line => rw [ih (fun e he => h e (by simp_all)) (by simp)]; rfl

/-- Lines are read back from the text that writes them with line feeds between them. -/
theorem splitLines_intercalate (h : ∀ line ∈ lines, IsLine line ∧ line ≠ []) :
    splitLines (['\n'].intercalate lines) = lines := by
  induction lines with
  | nil => rfl
  | cons line rest ih =>
    obtain ⟨hline, hne⟩ := h line (by simp)
    cases rest with
    | nil => rw [List.intercalate_singleton, splitLines_eq_singleton hline hne]
    | cons next rest =>
      rw [List.intercalate_cons_cons, List.append_assoc, List.singleton_append,
        splitLines_append_cons hline, ih fun line hmem => h line (by simp_all)]

theorem mem_intercalate {sep : Char} (h : c ∈ [sep].intercalate lines) :
    c = sep ∨ ∃ line ∈ lines, c ∈ line := by
  induction lines with
  | nil => cases h
  | cons line rest ih =>
    cases rest with
    | nil => exact .inr ⟨line, by simp, by simpa using h⟩
    | cons next rest =>
      rw [List.intercalate_cons_cons, List.append_assoc, List.singleton_append, List.mem_append,
        List.mem_cons] at h
      rcases h with h | rfl | h
      · exact .inr ⟨line, by simp, h⟩
      · exact .inl rfl
      · rcases ih h with rfl | ⟨line', hline', h⟩
        · exact .inl rfl
        · exact .inr ⟨line', by simp [hline'], h⟩

theorem unifyNewlines_of_ne_return (h : c ≠ '\r') (text : List Char) :
    unifyNewlines (c :: text) = c :: unifyNewlines text := by
  rw [unifyNewlines, if_neg h]
  rintro _ rfl
  exact absurd rfl h

theorem unifyNewlines_eq_self (h : '\r' ∉ text) : unifyNewlines text = text := by
  induction text with
  | nil => rfl
  | cons c rest ih =>
    rw [List.mem_cons, not_or] at h
    rw [unifyNewlines_of_ne_return (Ne.symm h.1), ih h.2]

theorem unifyNewlines_intercalate (h : ∀ line ∈ lines, IsLine line) :
    unifyNewlines (['\n'].intercalate lines) = ['\n'].intercalate lines := by
  refine unifyNewlines_eq_self fun hreturn => ?_
  rcases mem_intercalate hreturn with heq | ⟨line, hline, hmem⟩
  · exact absurd heq (by decide)
  · exact absurd (h line hline '\r' hmem) (by decide)

end LintGate.Text
