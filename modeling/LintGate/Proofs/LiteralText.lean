import LintGate.Proofs.MarkupReading
import Mathlib.Data.List.DropRight

/-! # Text that is shown as it is

A console escapes a text by what it does to the first tag in it: the backslashes in front of the tag
are doubled and one is put behind them, and so on behind the tag; where no tag is left, a single
backslash at the end is doubled. An escaped text therefore shows itself up to the backslashes at its
end, and none of its brackets is read as one of a tag. What becomes of the backslashes at its end
depends on what is put behind it: the closing tag of a message takes them for its own.
-/

namespace LintGate

namespace Markup

def ending (text : List Char) : Nat := (text.rtakeWhile (· == '\\')).length

/-- A text without the backslashes that it ends in. -/
def front (text : List Char) : List Char := text.rdropWhile (· == '\\')

/-- How many backslashes an escaped text ends in. -/
def closing (text : List Char) : Nat := if ending text = 1 then 2 else ending text

def closingTag : List Char := ['[', '/', ']']

variable {c : Char} {text rest body before after : List Char}

theorem front_append_backslashes (text : List Char) :
    front text ++ backslashes (ending text) = text := by
  have hall : text.rtakeWhile (· == '\\') = backslashes (ending text) :=
    List.eq_replicate_of_mem fun c hc => by simpa using List.mem_rtakeWhile_imp hc
  rw [front, ← hall, List.rdropWhile_append_rtakeWhile]

theorem showAll_front (text : List Char) :
    showAll (front text) ++ showAll (backslashes (ending text)) = showAll text := by
  rw [← showAll_append, front_append_backslashes]

theorem ending_append_cons (before : List Char) (hc : c ≠ '\\') (after : List Char) :
    ending (before ++ c :: after) = ending after := by
  have h : (before ++ c :: after).rtakeWhile (· == '\\') = after.rtakeWhile (· == '\\') := by
    induction after using List.reverseRecOn with
    | nil => rw [List.rtakeWhile_concat_neg _ _ _ (by simpa using hc), List.rtakeWhile_nil]
    | append_singleton after d ih =>
      rw [← List.cons_append, ← List.append_assoc, List.rtakeWhile_concat, List.rtakeWhile_concat,
        ih]
  rw [ending, h, ending]

theorem front_append_cons (before : List Char) (hc : c ≠ '\\') (after : List Char) :
    front (before ++ c :: after) = before ++ c :: front after := by
  rw [front, front]
  induction after using List.reverseRecOn with
  | nil => rw [List.rdropWhile_concat_neg _ _ _ (by simpa using hc), List.rdropWhile_nil]
  | append_singleton after d ih =>
    rw [← List.cons_append, ← List.append_assoc, List.rdropWhile_concat, List.rdropWhile_concat, ih]
    split_ifs <;> simp

theorem front_getLast? (text : List Char) : (front text).getLast? ≠ some '\\' := by
  intro hlast
  obtain ⟨before, hbefore⟩ := List.getLast?_eq_some_iff.mp hlast
  have hself : front (front text) = front text := List.rdropWhile_idempotent _ text
  rw [hbefore, front, List.rdropWhile_concat_pos _ _ _ (by decide)] at hself
  have hlength := congrArg List.length hself
  have hle := (List.rdropWhile_prefix (· == '\\') before).length_le
  rw [List.length_append, List.length_singleton] at hlength
  omega

theorem HasTag.append (h : HasTag text) (rest : List Char) : HasTag (text ++ rest) := by
  obtain ⟨before, body, after, hbody, rfl⟩ := h
  exact ⟨before, body, after ++ rest, hbody, by simp⟩

theorem not_hasTag_front (h : ¬HasTag text) : ¬HasTag (front text) := by
  intro htag
  rw [← front_append_backslashes text] at h
  exact h (htag.append _)

/-- In a text with a tag, there is a first one. -/
theorem HasTag.exists_first (h : HasTag text) : ∃ before n body after, ¬HasTag before ∧
    before.getLast? ≠ some '\\' ∧ IsTag body ∧
    text = before ++ (backslashes n ++ '[' :: (body ++ ']' :: after)) := by
  have hfirst : ∃ untagged body after, ¬HasTag untagged ∧ IsTag body ∧
      text = untagged ++ '[' :: (body ++ ']' :: after) := by
    induction text with
    | nil => exact absurd h not_hasTag_nil
    | cons c rest ih =>
      by_cases hhere : c = '[' ∧ (tag? rest).isSome = true
      · obtain ⟨rfl, htag⟩ := hhere
        obtain ⟨body, hsome⟩ := Option.isSome_iff_exists.mp htag
        obtain ⟨hbody, after, rfl⟩ := tag?_eq_some_iff.mp hsome
        exact ⟨[], body, after, not_hasTag_nil, hbody, rfl⟩
      · obtain ⟨untagged, body, after, huntagged, hbody, rfl⟩ :=
          ih ((hasTag_cons.mp h).resolve_left hhere)
        refine ⟨c :: untagged, body, after, fun htag => ?_, hbody, rfl⟩
        obtain ⟨rfl, hsome⟩ := (hasTag_cons.mp htag).resolve_right huntagged
        obtain ⟨inner, heq⟩ := Option.isSome_iff_exists.mp hsome
        obtain ⟨hinner, behind, rfl⟩ := tag?_eq_some_iff.mp heq
        have hlonger : tag? (inner ++ ']' :: behind ++ '[' :: (body ++ ']' :: after)) =
            some inner := tag?_eq_some_iff.mpr ⟨hinner, _, List.append_assoc _ _ _⟩
        exact hhere ⟨rfl, by rw [hlonger]; rfl⟩
  obtain ⟨untagged, body, after, huntagged, hbody, rfl⟩ := hfirst
  refine ⟨front untagged, ending untagged, body, after, not_hasTag_front huntagged,
    front_getLast? untagged, hbody, ?_⟩
  rw [← List.append_assoc, front_append_backslashes]

/-- How a console escapes a text: without a tag, by one more backslash where it ends in exactly one;
with a tag, by twice as many backslashes in front of the first tag and one more, and what is behind
the tag in the same way. -/
structure Escapes (escape : String → String) : Prop where
  untagged : ∀ text, ¬HasTag text →
    (escape (String.ofList text)).toList = text ++ if ending text = 1 then ['\\'] else []
  first : ∀ before n body after, ¬HasTag before → before.getLast? ≠ some '\\' → IsTag body →
    (escape (String.ofList (before ++ (backslashes n ++ '[' :: (body ++ ']' :: after))))).toList =
      before ++ (backslashes (2 * n + 1) ++
        '[' :: (body ++ ']' :: (escape (String.ofList after)).toList))

namespace Escapes

variable {escape : String → String}

theorem escape_untagged (h : Escapes escape) (htext : ¬HasTag text) :
    (escape (String.ofList text)).toList = front text ++ backslashes (closing text) := by
  rw [h.untagged text htext, closing]
  nth_rewrite 1 [← front_append_backslashes text]
  split_ifs with hone
  · rw [hone, List.append_assoc]
    rfl
  · rw [List.append_nil]

theorem read_append (h : Escapes escape) (hrest : Seals rest) (text : List Char) :
    read ((escape (String.ofList text)).toList ++ rest) =
      showAll (front text) ++ readFrom false (closing text) rest := by
  -- The induction goes from a first tag to what is behind it.
  induction hlength : text.length using Nat.strongRecOn generalizing text with
  | ind length ih =>
    by_cases htag : HasTag text
    · obtain ⟨before, n, body, after, hbefore, hlast, hbody, rfl⟩ := htag.exists_first
      have hafter := ih after.length (by simp at hlength; omega) after rfl
      have hodd : (2 * n + 1) % 2 = 1 := by omega
      have hhalf : (2 * n + 1) / 2 = n := by omega
      have hfront : front (before ++ (backslashes n ++ '[' :: (body ++ ']' :: after))) =
          before ++ backslashes n ++ '[' :: (body ++ [']']) ++ front after := by
        have hsplit : before ++ (backslashes n ++ '[' :: (body ++ ']' :: after)) =
            (before ++ backslashes n ++ '[' :: body) ++ ']' :: after := by simp
        rw [hsplit, front_append_cons _ (by decide)]
        simp
      have hclosing : closing (before ++ (backslashes n ++ '[' :: (body ++ ']' :: after))) =
          closing after := by
        have hsplit : before ++ (backslashes n ++ '[' :: (body ++ ']' :: after)) =
            (before ++ backslashes n ++ '[' :: body) ++ ']' :: after := by simp
        rw [closing, closing, hsplit, ending_append_cons _ (by decide)]
      have hread := read_first hbefore hlast hbody (2 * n + 1)
        ((escape (String.ofList after)).toList ++ rest)
      rw [if_pos hodd, hhalf, hafter] at hread
      have hassoc (escaped : List Char) :
          before ++ (backslashes (2 * n + 1) ++ '[' :: (body ++ ']' :: escaped)) ++ rest =
            before ++ (backslashes (2 * n + 1) ++ '[' :: (body ++ ']' :: (escaped ++ rest))) := by
        simp
      rw [h.first before n body after hbefore hlast hbody, hfront, hclosing, hassoc, hread,
        showAll_append (before ++ backslashes n ++ _), showAll_append (before ++ backslashes n)]
      simp only [List.append_assoc]
    · rw [h.escape_untagged htag, List.append_assoc,
        Markup.read_append (Apart.of_seals (hrest.backslashes_append _) _) (front_getLast? text),
        read_eq_showAll_iff.mpr (not_hasTag_front htag)]
      rw [read, readFrom_backslashes, Nat.zero_add]

/-- An escaped text shows itself, unless it ends in one backslash: then it shows two. -/
theorem read_escape (h : Escapes escape) (text : List Char) :
    read (escape (String.ofList text)).toList =
      showAll (front text ++ backslashes (closing text)) := by
  have hnothing : Seals [] := by simp [Seals]
  have hread := h.read_append hnothing text
  rwa [List.append_nil, readFrom, ← showAll_append] at hread

theorem read_escape_eq_iff (h : Escapes escape) (text : List Char) :
    read (escape (String.ofList text)).toList = showAll text ↔ ending text ≠ 1 := by
  rw [h.read_escape, ← showAll_front text, showAll_append, List.append_cancel_left_eq, closing]
  split_ifs with hone
  · simp [hone, showAll, backslashes]
  · simp [hone]

/-- Before a closing tag only one in two backslashes at the end of a text is shown, and an odd one
makes the tag a text. -/
theorem read_escape_closed (h : Escapes escape) (text : List Char) :
    read ((escape (String.ofList text)).toList ++ closingTag) =
      showAll (front text ++ backslashes (closing text / 2)) ++
        if closing text % 2 = 1 then showAll closingTag else [.tag ['/']] := by
  have hseals : Seals closingTag := by
    rw [Seals]
    decide
  rw [h.read_append hseals, closingTag, readFrom_of_tag rfl, showAll_append,
    List.append_assoc]
  rfl

theorem read_escape_closed_eq_iff (h : Escapes escape) (text : List Char) :
    read ((escape (String.ofList text)).toList ++ closingTag) = showAll text ++ [.tag ['/']] ↔
      ending text ≤ 1 := by
  rw [h.read_escape_closed, ← showAll_front text, showAll_append, List.append_assoc,
    List.append_assoc, List.append_cancel_left_eq]
  constructor
  · intro hread
    by_contra hmany
    rw [closing, if_neg (by omega)] at hread
    split_ifs at hread
    · have hmem : Item.tag ['/'] ∈
          showAll (backslashes (ending text / 2)) ++ showAll closingTag := by simp [hread]
      simp [showAll] at hmem
    · have hlength := congrArg List.length hread
      simp at hlength
      omega
  · intro hle
    obtain hnone | hone : ending text = 0 ∨ ending text = 1 := by omega
    · rw [closing, hnone]
      rfl
    · rw [closing, hone]
      rfl

end Escapes

end Markup

end LintGate
