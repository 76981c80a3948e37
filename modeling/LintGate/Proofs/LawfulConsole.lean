import LintGate.Console.Terminal
import LintGate.Proofs.LiteralText

/-! # Lawful consoles

What the gate relies on in a console: how it escapes a text, that it shows an item if it can read
each of its texts, and that it reads a text in which tags nest and none in which a tag closes that
was never opened. The terminal keeps these laws: it escapes a text character by character, and each
tag in it anew.
-/

namespace LintGate

namespace Markup

/-- Every closing tag of a text has an opening one before it, and names no style. There are no tags
of actions. -/
def Nests (text : String) : Prop := nests 0 (read text.toList) = true

instance (text : String) : Decidable (Nests text) := inferInstanceAs (Decidable (_ = true))

/-- The first tag of a text is a closing one. -/
def ClosesFirst (text : String) : Prop :=
  ∃ before body rest, read text.toList = showAll before ++ .tag ('/' :: body) :: rest

variable {c : Char} {text rest before body after : List Char}

theorem nests_showAll_append (opened : Nat) (text : List Char) (items : List Item) :
    nests opened (showAll text ++ items) = nests opened items := by
  induction text with
  | nil => rfl
  | cons c text ih => exact ih

theorem nests_showAll (text : List Char) : nests 0 (showAll text) = true := by
  have hnothing := nests_showAll_append 0 text []
  rwa [List.append_nil] at hnothing

theorem Nests.of_not_hasTag {text : String} (h : ¬HasTag text.toList) : Nests text := by
  rw [Nests, read_eq_showAll_iff.mpr h, nests_showAll]

theorem Escapes.nests {escape : String → String} (h : Escapes escape) (text : String) :
    Nests (escape text) := by
  have hread := h.read_escape text.toList
  rw [String.ofList_toList] at hread
  rw [Nests, hread, nests_showAll]

theorem ClosesFirst.not_nests {text : String} (h : ClosesFirst text) : ¬Nests text := by
  obtain ⟨before, body, rest, hread⟩ := h
  rw [Nests, hread, nests_showAll_append, Markup.nests]
  split_ifs <;> simp

end Markup

namespace Console

/-- The console reads the text as markup, where the text stands alone. -/
def Reads (c : Console) (text : String) : Prop := c.refusal? (.marked text) = none

/-- How a console deals with markup: an item is refused for a text of it that cannot be read, and
for nothing else. -/
structure Lawful (c : Console) : Prop where
  escapes : Markup.Escapes c.escape
  nested : ∀ text, Markup.Nests text → c.Reads text
  closing : ∀ text, Markup.ClosesFirst text → ¬ c.Reads text
  items : ∀ item : Printed, c.refusal? item = none ↔ ∀ text ∈ item.texts, c.Reads text
  faults : ∀ item fault, c.refusal? item = some fault → fault.kind = .markup

variable {c : Console} {item : Printed} {items : List Printed} {fault : Fault}

/-- What is shown are the items before the first one that is refused. -/
theorem print_eq (c : Console) (items : List Printed) :
    c.print items =
      (items.takeWhile fun item => (c.refusal? item).isNone, items.findSome? c.refusal?) := by
  induction items with
  | nil => rfl
  | cons item items ih =>
    rw [print]
    cases hrefusal : c.refusal? item with
    | some fault => simp [hrefusal]
    | none => simp [hrefusal, ih]

theorem print_of_taken (h : ∀ item ∈ items, c.refusal? item = none) :
    c.print items = (items, none) := by
  rw [print_eq, List.takeWhile_eq_self_iff.mpr fun item hitem => by rw [h item hitem]; rfl,
    List.findSome?_eq_none_iff.mpr h]

theorem print_of_refused (h : c.refusal? item = some fault) (rest : List Printed) :
    c.print (item :: rest) = ([], some fault) := by
  rw [print, h]

/-- A text that cannot be read keeps the item that it is part of from being shown. -/
theorem Lawful.exists_refusal (h : c.Lawful) {text : String} (htext : text ∈ item.texts)
    (hreads : ¬ c.Reads text) :
    ∃ fault : Fault, fault.kind = .markup ∧ c.refusal? item = some fault := by
  have hrefused : c.refusal? item ≠ none := fun hnone =>
    hreads ((h.items item).mp hnone text htext)
  obtain ⟨fault, hfault⟩ := Option.ne_none_iff_exists'.mp hrefused
  exact ⟨fault, h.faults item fault hfault, hfault⟩

end Console

namespace Markup

theorem endsInOne_iff : endsInOne text = true ↔ ending text = 1 := by
  rw [ending, List.rtakeWhile, List.length_reverse, endsInOne]
  generalize text.reverse = back
  rcases back with _ | ⟨c, _ | ⟨d, back⟩⟩
  · simp
  · by_cases hc : c = '\\' <;> simp [hc]
  · by_cases hc : c = '\\' <;> by_cases hd : d = '\\' <;> simp [hc, hd]

theorem escape_eq (text : List Char) :
    escape text = escapeTags 0 text ++ if ending (escapeTags 0 text) = 1 then ['\\'] else [] := by
  rw [escape]
  simp only [endsInOne_iff]
  split_ifs
  · rfl
  · rw [List.append_nil]

theorem escapeTags_backslash (pending : Nat) (text : List Char) :
    escapeTags pending ('\\' :: text) = '\\' :: escapeTags (pending + 1) text := by
  rw [escapeTags, if_neg (by simp), if_pos rfl]

theorem escapeTags_backslashes (pending n : Nat) (text : List Char) :
    escapeTags pending (backslashes n ++ text) =
      backslashes n ++ escapeTags (pending + n) text := by
  induction n generalizing pending with
  | zero => rfl
  | succ n ih =>
    rw [backslashes, List.replicate_succ, List.cons_append, escapeTags_backslash, ← backslashes, ih,
      Nat.add_right_comm, ← Nat.add_assoc]
    rfl

theorem escapeTags_of_tag (h : tag? text = some body) (pending : Nat) :
    escapeTags pending ('[' :: text) = backslashes (pending + 1) ++ '[' :: escapeTags 0 text := by
  rw [escapeTags, if_pos (by simp [h])]

theorem escapeTags_of_no_tag (hc : c ≠ '\\') (h : c = '[' → tag? text = none) (pending : Nat) :
    escapeTags pending (c :: text) = c :: escapeTags 0 text := by
  rw [escapeTags, if_neg, if_neg hc]
  rw [Bool.and_eq_true, decide_eq_true_eq]
  rintro ⟨hbracket, htag⟩
  rw [h hbracket] at htag
  cases htag

/-- A text without tags that ends in no backslash stays as it is before any other. -/
theorem escapeTags_append (htext : ¬HasTag text) (hapart : Apart text rest)
    (hlast : text.getLast? ≠ some '\\') (pending : Nat) (hpending : text = [] → pending = 0) :
    escapeTags pending (text ++ rest) = text ++ escapeTags 0 rest := by
  induction text generalizing pending with
  | nil =>
    rw [hpending rfl]
    rfl
  | cons c text ih =>
    have hlast' : text.getLast? ≠ some '\\' := by
      cases text with
      | nil => simp
      | cons d text => simpa [List.getLast?_cons_cons] using hlast
    have hrest := ih (fun htag => htext (hasTag_cons.mpr (.inr htag))) hapart.of_cons hlast'
    rw [List.cons_append, List.cons_append]
    -- Backslashes are carried along, since what follows them decides whether they are doubled.
    rcases character_cases c text with rfl | ⟨rfl, body, htag⟩ | ⟨hc, hnone⟩
    · rw [escapeTags_backslash, hrest _ ?_]
      rintro rfl
      exact absurd rfl hlast
    · exact absurd (hasTag_cons.mpr (.inl ⟨rfl, by rw [htag]; rfl⟩)) htext
    · have hsame : c = '[' → tag? (text ++ rest) = none := by
        rintro rfl
        rw [hapart text List.suffix_rfl, hnone rfl]
      rw [escapeTags_of_no_tag hc hsame, hrest 0 fun _ => rfl]

theorem escapeTags_untagged (h : ¬HasTag text) : escapeTags 0 text = text := by
  have hnothing : Seals [] := by simp [Seals]
  have hbackslashes : escapeTags 0 (backslashes (ending text)) = backslashes (ending text) := by
    have hrow := escapeTags_backslashes 0 (ending text) []
    rwa [escapeTags, List.append_nil] at hrow
  have hseals := hnothing.backslashes_append (ending text)
  rw [List.append_nil] at hseals
  have happend := escapeTags_append (not_hasTag_front h) (Apart.of_seals hseals _)
    (front_getLast? text) 0 fun _ => rfl
  rwa [hbackslashes, front_append_backslashes] at happend

theorem escapeTags_first (hbefore : ¬HasTag before) (hlast : before.getLast? ≠ some '\\')
    (hbody : IsTag body) (n : Nat) (after : List Char) :
    escapeTags 0 (before ++ (backslashes n ++ '[' :: (body ++ ']' :: after))) =
      before ++ (backslashes (2 * n + 1) ++ '[' :: (body ++ ']' :: escapeTags 0 after)) := by
  have hseals : Seals ('[' :: (body ++ ']' :: after)) := by
    rw [Seals, List.dropWhile_cons_of_neg (by decide)]
    simp
  have htag : tag? (body ++ ']' :: after) = some body := tag?_eq_some_iff.mpr ⟨hbody, after, rfl⟩
  have hbehind : escapeTags 0 (body ++ ']' :: after) = body ++ ']' :: escapeTags 0 after := by
    have hclosed := Apart.of_closed body (List.not_mem_nil (a := '[')) after
    rw [List.append_cons, escapeTags_append hbody.not_hasTag_closed hclosed (by simp) 0
      fun _ => rfl, ← List.append_cons]
  have hdouble : n + (0 + n + 1) = 2 * n + 1 := by omega
  rw [escapeTags_append hbefore (Apart.of_seals (hseals.backslashes_append n) _) hlast 0
    fun _ => rfl, escapeTags_backslashes, escapeTags_of_tag htag, hbehind, ← List.append_assoc
    (backslashes n), ← backslashes_add, hdouble]

end Markup

theorem Console.terminal_reads {text : String} :
    Console.terminal.Reads text ↔ Markup.Nests text := by
  simp [Reads, terminal, Printed.marked, Printed.texts, Markup.Nests]

/-- The terminal escapes as it reads, and refuses nothing in which tags nest. -/
theorem Console.terminal_lawful : Console.terminal.Lawful where
  escapes := by
    refine ⟨fun text htext => ?_, fun before n body after hbefore hlast hbody => ?_⟩
    · rw [terminal, String.toList_ofList, String.toList_ofList, Markup.escape_eq,
        Markup.escapeTags_untagged htext]
    · have hsame (text : List Char) :
          Markup.ending (before ++ (Markup.backslashes (2 * n + 1) ++
            '[' :: (body ++ ']' :: text))) = Markup.ending text := by
        have hsplit : before ++ (Markup.backslashes (2 * n + 1) ++ '[' :: (body ++ ']' :: text)) =
            (before ++ Markup.backslashes (2 * n + 1) ++ '[' :: body) ++ ']' :: text := by simp
        rw [hsplit, Markup.ending_append_cons _ (by decide)]
      simp only [terminal, String.toList_ofList, Markup.escape_eq,
        Markup.escapeTags_first hbefore hlast hbody, hsame]
      simp only [List.append_assoc, List.cons_append]
  nested text h := terminal_reads.mpr h
  closing text h hreads := h.not_nests (terminal_reads.mp hreads)
  items item := by
    simp only [terminal_reads]
    rw [terminal, ite_eq_left_iff]
    simp [Markup.Nests]
  faults item fault h := by
    obtain ⟨-, hfault⟩ := Option.ite_none_left_eq_some.mp h
    cases hfault
    rfl

end LintGate
