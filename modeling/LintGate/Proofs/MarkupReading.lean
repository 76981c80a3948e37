import LintGate.Console.Markup
import Mathlib.Data.List.Infix
import Mathlib.Data.List.TakeWhile

/-! # Reading markup

The first tag of a text divides it: what stands before is shown, of the backslashes right before the
tag one in two is, an odd one makes the tag a text too, and reading starts again behind the tag. A
text shows itself just if it has no tag.
-/

namespace LintGate.Markup

structure IsTag (body : List Char) : Prop where
  opens : ∃ c, body.head? = some c ∧ opensTag c = true
  inside : ∀ c ∈ body, inTag c = true

/-- A tag in its brackets stands somewhere in a text. -/
def HasTag (text : List Char) : Prop :=
  ∃ before body after, IsTag body ∧ text = before ++ '[' :: (body ++ ']' :: after)

/-- No bracket of a text is the beginning of a tag just because of what follows the text. -/
def Apart (text rest : List Char) : Prop := ∀ s, '[' :: s <:+ text → tag? (s ++ rest) = tag? s

/-- A text that ends no tag which begins before it. -/
def Seals (rest : List Char) : Prop := (rest.dropWhile inTag).head? ≠ some ']'

variable {c : Char} {text rest body before after : List Char} {pending : Nat}

theorem inTag_of_opensTag (h : opensTag c = true) : inTag c = true := by
  by_contra hnot
  have hc : c = '[' ∨ c = ']' := by
    simpa [inTag, Classical.or_iff_not_imp_left] using hnot
  rcases hc with rfl | rfl <;> exact absurd h (by decide)

theorem backslashes_add (m n : Nat) : backslashes (m + n) = backslashes m ++ backslashes n :=
  List.replicate_add ..

@[simp] theorem length_backslashes (n : Nat) : (backslashes n).length = n :=
  List.length_replicate ..

@[simp] theorem length_showAll (text : List Char) : (showAll text).length = text.length :=
  List.length_map ..

theorem showAll_append (a b : List Char) : showAll (a ++ b) = showAll a ++ showAll b :=
  List.map_append ..

theorem tag?_cons (c : Char) (rest : List Char) :
    tag? (c :: rest) =
      if opensTag c = true ∧ (rest.dropWhile inTag).head? = some ']' then
        some (c :: rest.takeWhile inTag)
      else none := by
  simp [tag?]

theorem tag?_eq_some_iff :
    tag? text = some body ↔ IsTag body ∧ ∃ after, text = body ++ ']' :: after := by
  constructor
  · intro h
    cases text with
    | nil => cases h
    | cons c rest =>
      rw [tag?_cons, Option.ite_none_right_eq_some, Option.some.injEq] at h
      obtain ⟨⟨hopens, hend⟩, rfl⟩ := h
      obtain ⟨after, hafter⟩ := List.head?_eq_some_iff.mp hend
      refine ⟨⟨⟨c, rfl, hopens⟩, ?_⟩, after, ?_⟩
      · intro d hd
        rcases List.mem_cons.mp hd with rfl | hd
        · exact inTag_of_opensTag hopens
        · exact List.mem_takeWhile_imp hd
      · rw [List.cons_append, ← hafter, List.takeWhile_append_dropWhile]
  · rintro ⟨⟨⟨c, hhead, hopens⟩, hinside⟩, after, rfl⟩
    obtain ⟨rest, rfl⟩ := List.head?_eq_some_iff.mp hhead
    have hrest : ∀ d ∈ rest, inTag d = true := fun d hd => hinside d (List.mem_cons_of_mem _ hd)
    have htake : (rest ++ ']' :: after).takeWhile inTag = rest := by
      rw [List.takeWhile_append_of_pos hrest, List.takeWhile_cons_of_neg (by decide),
        List.append_nil]
    have hdrop : (rest ++ ']' :: after).dropWhile inTag = ']' :: after := by
      rw [List.dropWhile_append_of_pos hrest, List.dropWhile_cons_of_neg (by decide)]
    rw [List.cons_append, tag?_cons, htake, hdrop, if_pos ⟨hopens, rfl⟩]

theorem Seals.tag?_eq_none (h : Seals text) : tag? text = none := by
  rw [← Option.not_isSome_iff_eq_none, Option.isSome_iff_exists]
  rintro ⟨body, htag⟩
  obtain ⟨⟨-, hbody⟩, after, rfl⟩ := tag?_eq_some_iff.mp htag
  rw [Seals, List.dropWhile_append_of_pos hbody, List.dropWhile_cons_of_neg (by decide)] at h
  exact h rfl

theorem Seals.backslashes_append (h : Seals rest) (n : Nat) : Seals (backslashes n ++ rest) := by
  rw [Seals, List.dropWhile_append_of_pos]
  · exact h
  · intro c hc
    rw [List.eq_of_mem_replicate hc]
    decide

theorem not_hasTag_nil : ¬ HasTag [] := by
  rintro ⟨before, body, after, -, h⟩
  simp at h

theorem hasTag_cons :
    HasTag (c :: rest) ↔ (c = '[' ∧ (tag? rest).isSome = true) ∨ HasTag rest := by
  constructor
  · rintro ⟨_ | ⟨d, before⟩, body, after, hbody, h⟩
    · obtain ⟨rfl, rfl⟩ := List.cons_eq_cons.mp h
      exact .inl ⟨rfl, by rw [tag?_eq_some_iff.mpr ⟨hbody, after, rfl⟩]; rfl⟩
    · obtain ⟨rfl, rfl⟩ := List.cons_eq_cons.mp h
      exact .inr ⟨before, body, after, hbody, rfl⟩
  · rintro (⟨rfl, htag⟩ | ⟨before, body, after, hbody, rfl⟩)
    · obtain ⟨body, htag⟩ := Option.isSome_iff_exists.mp htag
      obtain ⟨hbody, after, rfl⟩ := tag?_eq_some_iff.mp htag
      exact ⟨[], body, after, hbody, rfl⟩
    · exact ⟨c :: before, body, after, hbody, rfl⟩

/-- A character is a backslash, or begins a tag, or is shown. -/
theorem character_cases (c : Char) (rest : List Char) :
    c = '\\' ∨ (c = '[' ∧ ∃ body, tag? rest = some body) ∨
      c ≠ '\\' ∧ (c = '[' → tag? rest = none) := by
  cases htag : tag? rest with
  | none => by_cases hc : c = '\\' <;> simp [hc]
  | some body => by_cases hc : c = '[' <;> simp [hc, em]

theorem readFrom_backslash (pending : Nat) (rest : List Char) :
    readFrom false pending ('\\' :: rest) = readFrom false (pending + 1) rest := by
  rw [readFrom, if_pos rfl]

theorem readFrom_backslashes (pending n : Nat) (rest : List Char) :
    readFrom false pending (backslashes n ++ rest) = readFrom false (pending + n) rest := by
  induction n generalizing pending with
  | zero => rfl
  | succ n ih =>
    rw [backslashes, List.replicate_succ, List.cons_append, readFrom_backslash, ← backslashes, ih]
    congr 1
    omega

/-- What begins no tag is shown, with the backslashes before it. -/
theorem readFrom_of_no_tag (hc : c ≠ '\\') (h : c = '[' → tag? rest = none) :
    readFrom false pending (c :: rest) =
      showAll (backslashes pending) ++ .shown c :: readFrom false 0 rest := by
  have hnone : (if c = '[' then tag? rest else none) = none := by
    split_ifs with hbracket
    · exact h hbracket
    · rfl
  rw [readFrom, if_neg hc, hnone]

theorem readFrom_of_tag (h : tag? rest = some body) :
    readFrom false pending ('[' :: rest) =
      showAll (backslashes (pending / 2)) ++
        if pending % 2 = 1 then .shown '[' :: readFrom false 0 rest
        else .tag body :: readFrom true 0 rest := by
  rw [readFrom, if_neg (by decide), if_pos rfl, h]

theorem readFrom_inside (h : ∀ c ∈ body, inTag c = true) (after : List Char) :
    readFrom true 0 (body ++ ']' :: after) = readFrom false 0 after := by
  induction body with
  | nil => rfl
  | cons c body ih =>
    rw [List.forall_mem_cons] at h
    have hc : (c != ']') = true := by
      have hinside := h.1
      rw [inTag, Bool.and_eq_true] at hinside
      exact hinside.2
    rw [List.cons_append, readFrom, hc, ih h.2]

theorem readFrom_of_not_hasTag (h : ¬ HasTag text) (pending : Nat) :
    readFrom false pending text = showAll (backslashes pending ++ text) := by
  induction text generalizing pending with
  | nil => rw [readFrom, List.append_nil]
  | cons c rest ih =>
    have hrest : ¬ HasTag rest := fun hrest => h (hasTag_cons.mpr (.inr hrest))
    rcases character_cases c rest with rfl | ⟨rfl, body, htag⟩ | ⟨hc, hnone⟩
    · rw [readFrom_backslash, ih hrest, backslashes_add, List.append_assoc]
      rfl
    · exact absurd (hasTag_cons.mpr (.inl ⟨rfl, by rw [htag]; rfl⟩)) h
    · rw [readFrom_of_no_tag hc hnone, ih hrest]
      simp [showAll, backslashes]

theorem length_readFrom_le (inside : Bool) (pending : Nat) (text : List Char) :
    (readFrom inside pending text).length ≤ pending + text.length := by
  induction text generalizing inside pending with
  | nil => cases inside <;> simp [readFrom]
  | cons c rest ih =>
    have hshown := ih false 0
    have hinside := ih true 0
    cases inside with
    | true =>
      have hrest := ih (c != ']') 0
      rw [readFrom, List.length_cons]
      omega
    | false =>
      rcases character_cases c rest with rfl | ⟨rfl, body, htag⟩ | ⟨hc, hnone⟩
      · have hrest := ih false (pending + 1)
        rw [readFrom_backslash, List.length_cons]
        omega
      · rw [readFrom_of_tag htag]
        split_ifs <;> simp <;> omega
      · rw [readFrom_of_no_tag hc hnone]
        simp
        omega

/-- A tag is not shown as it is: one item stands for all of it, or a backslash is left out. -/
theorem length_readFrom_lt (h : HasTag text) (pending : Nat) :
    (readFrom false pending text).length < pending + text.length := by
  induction text generalizing pending with
  | nil => exact absurd h not_hasTag_nil
  | cons c rest ih =>
    have hrest (hnot : ¬ (c = '[' ∧ (tag? rest).isSome = true)) : HasTag rest :=
      (hasTag_cons.mp h).resolve_left hnot
    rcases character_cases c rest with rfl | ⟨rfl, body, htag⟩ | ⟨hc, hnone⟩
    · have hlt := ih (hrest (by simp)) (pending + 1)
      rw [readFrom_backslash, List.length_cons]
      omega
    · obtain ⟨⟨⟨c, hhead, -⟩, hinside⟩, after, rfl⟩ := tag?_eq_some_iff.mp htag
      have hbody : 0 < body.length := by
        cases body with
        | nil => cases hhead
        | cons c body => simp
      have hshown := length_readFrom_le false 0 (body ++ ']' :: after)
      have hafter := length_readFrom_le false 0 after
      rw [readFrom_of_tag htag]
      split_ifs with hodd
      · simp at hshown ⊢
        omega
      · rw [readFrom_inside hinside]
        simp
        omega
    · have hlt := ih (hrest fun ⟨hbracket, hsome⟩ => by
        rw [hnone hbracket] at hsome
        cases hsome) 0
      rw [readFrom_of_no_tag hc hnone]
      simp
      omega

/-- A text shows itself just if it has no tag. -/
theorem read_eq_showAll_iff : read text = showAll text ↔ ¬ HasTag text := by
  constructor
  · intro h htag
    have hlt := length_readFrom_lt htag 0
    rw [← read, h, length_showAll] at hlt
    omega
  · intro h
    exact readFrom_of_not_hasTag h 0

theorem tag?_append (h : ∃ d ∈ text, inTag d = false) (rest : List Char) :
    tag? (text ++ rest) = tag? text := by
  obtain ⟨d, hd, hnot⟩ := h
  cases text with
  | nil => cases hd
  | cons c text =>
    rw [List.cons_append, tag?_cons, tag?_cons]
    by_cases hopens : opensTag c = true
    · have hmem : d ∈ text := (List.mem_cons.mp hd).resolve_left fun hdc => by
        rw [hdc, inTag_of_opensTag hopens] at hnot
        cases hnot
      have hdrop : text.dropWhile inTag ≠ [] := fun hnil => by
        rw [List.dropWhile_eq_nil_iff.mp hnil d hmem] at hnot
        cases hnot
      have hbehind : (text ++ rest).dropWhile inTag = text.dropWhile inTag ++ rest := by
        rw [List.dropWhile_append, if_neg (by rwa [List.isEmpty_iff])]
      have hlength : (text.takeWhile inTag).length ≠ text.length := by
        have hsum := congrArg List.length (List.takeWhile_append_dropWhile (p := inTag) (l := text))
        have hpos := List.length_pos_iff.mpr hdrop
        rw [List.length_append] at hsum
        omega
      rw [hbehind, List.head?_append_of_ne_nil _ hdrop, List.takeWhile_append, if_neg hlength]
    · rw [if_neg (fun h => hopens h.1), if_neg (fun h => hopens h.1)]

namespace Apart

theorem of_cons (h : Apart (c :: text) rest) : Apart text rest := fun s hs =>
  h s (hs.trans (List.suffix_cons c text))

theorem of_seals (h : Seals rest) (text : List Char) : Apart text rest := by
  intro s _
  by_cases hclosed : ∃ d ∈ s, inTag d = false
  · exact tag?_append hclosed rest
  · have hinside : ∀ d ∈ s, inTag d = true := by simpa using hclosed
    have hdrop : Seals (s ++ rest) := by
      rw [Seals, List.dropWhile_append_of_pos hinside]
      exact h
    have hnil : Seals s := by simp [Seals, List.dropWhile_eq_nil_iff.mpr hinside]
    rw [hdrop.tag?_eq_none, hnil.tag?_eq_none]

/-- Behind a closing bracket, what follows begins no tag. -/
theorem of_closed (before : List Char) (h : '[' ∉ after) (rest : List Char) :
    Apart (before ++ ']' :: after) rest := by
  rintro s ⟨front, hs⟩
  refine tag?_append ⟨']', ?_, by decide⟩ rest
  rcases List.append_eq_append_iff.mp hs with ⟨between, -, hbetween⟩ | ⟨between, -, hbetween⟩
  · cases between with
    | nil => cases hbetween
    | cons c between =>
      rw [List.cons_append, List.cons_eq_cons] at hbetween
      simp [hbetween.2]
  · have hmem : '[' ∈ ']' :: after := by simp [hbetween]
    exact absurd ((List.mem_cons.mp hmem).resolve_left (by decide)) h

end Apart

/-- A text that ends in no backslash, and begins no tag that ends behind it, is read for itself. -/
theorem readFrom_append (hapart : Apart text rest) (hlast : text.getLast? ≠ some '\\')
    (inside : Bool) (hinside : inside = true → ']' ∈ text) (pending : Nat)
    (hpending : text = [] → pending = 0) :
    readFrom inside pending (text ++ rest) =
      readFrom inside pending text ++ readFrom false 0 rest := by
  induction text generalizing inside pending with
  | nil =>
    cases inside with
    | true => cases hinside rfl
    | false =>
      rw [hpending rfl]
      rfl
  | cons c text ih =>
    have hlast' : text.getLast? ≠ some '\\' := by
      cases text with
      | nil => simp
      | cons d text => simpa [List.getLast?_cons_cons] using hlast
    have hrest := ih hapart.of_cons hlast'
    cases inside with
    | true =>
      rw [List.cons_append, readFrom, readFrom]
      refine hrest _ (fun hc => ?_) 0 fun _ => rfl
      exact (List.mem_cons.mp (hinside rfl)).resolve_left (bne_iff_ne.mp hc).symm
    | false =>
      rw [List.cons_append]
      rcases character_cases c text with rfl | ⟨rfl, body, htag⟩ | ⟨hc, hnone⟩
      · rw [readFrom_backslash, readFrom_backslash]
        refine hrest _ (by simp) _ ?_
        rintro rfl
        exact absurd rfl hlast
      -- Inside the tag the reader goes by its bracket, which the text itself still has.
      · have hmem : ']' ∈ text := by
          obtain ⟨-, after, rfl⟩ := tag?_eq_some_iff.mp htag
          simp
        have hsame := (hapart text List.suffix_rfl).trans htag
        rw [readFrom_of_tag htag, readFrom_of_tag hsame, List.append_assoc]
        split_ifs
        · rw [hrest false (by simp) 0 fun _ => rfl, List.cons_append]
        · rw [hrest true (fun _ => hmem) 0 fun _ => rfl, List.cons_append]
      · have hsame : c = '[' → tag? (text ++ rest) = none := by
          rintro rfl
          rw [hapart text List.suffix_rfl, hnone rfl]
        rw [readFrom_of_no_tag hc hnone, readFrom_of_no_tag hc hsame,
          hrest false (by simp) 0 fun _ => rfl]
        simp

theorem read_append (hapart : Apart text rest) (hlast : text.getLast? ≠ some '\\') :
    read (text ++ rest) = read text ++ read rest :=
  readFrom_append hapart hlast false (by simp) 0 fun _ => rfl

theorem IsTag.not_hasTag_closed (h : IsTag body) : ¬ HasTag (body ++ [']']) := by
  have hbracket : '[' ∉ body := fun hmem => absurd (h.inside _ hmem) (by decide)
  rintro ⟨front, inner, behind, -, heq⟩
  have hmem : '[' ∈ body ++ [']'] := by simp [heq]
  simp [hbracket] at hmem

/-- The first tag divides a text: what is before it is shown, and half of the backslashes, of which
an odd one makes the tag a text. -/
theorem read_first (hbefore : ¬ HasTag before) (hlast : before.getLast? ≠ some '\\')
    (hbody : IsTag body) (n : Nat) (after : List Char) :
    read (before ++ (backslashes n ++ '[' :: (body ++ ']' :: after))) =
      showAll (before ++ backslashes (n / 2)) ++
        ((if n % 2 = 1 then showAll ('[' :: (body ++ [']'])) else [.tag body]) ++ read after) := by
  have hseals : Seals ('[' :: (body ++ ']' :: after)) := by
    rw [Seals, List.dropWhile_cons_of_neg (by decide)]
    simp
  have htag : tag? (body ++ ']' :: after) = some body := tag?_eq_some_iff.mpr ⟨hbody, after, rfl⟩
  rw [read_append (Apart.of_seals (hseals.backslashes_append n) before) hlast,
    read_eq_showAll_iff.mpr hbefore, read, readFrom_backslashes, Nat.zero_add, readFrom_of_tag htag]
  split_ifs
  · have hrest : readFrom false 0 (body ++ ']' :: after) =
        showAll (body ++ [']']) ++ read after := by
      have hclosed := Apart.of_closed body (List.not_mem_nil) after
      rw [List.append_cons, ← read, read_append hclosed (by simp),
        read_eq_showAll_iff.mpr hbody.not_hasTag_closed]
    rw [hrest]
    simp [showAll, backslashes]
  · rw [readFrom_inside hbody.inside]
    simp [showAll, backslashes, read]

end LintGate.Markup
