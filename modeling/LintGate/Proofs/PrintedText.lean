import LintGate.Console.ReportTable
import LintGate.Console.Telemetry
import LintGate.Proofs.LawfulConsole

/-! # What the console makes of messages and reports

A message is read apart from what is put before it, but not from what is put behind it: a closing
tag takes backslashes at its end for its own. A report's diagnostics are escaped and have nothing
behind them; its cells are not escaped, and any tag in them is read.
-/

namespace LintGate

namespace Markup

variable {before after : List Char}

/-- What stands before a closing bracket has no influence on how the rest is read. -/
theorem read_append_of_closed (hopen : '[' ∉ after) (hlast : '\\' ∉ after) (rest : List Char) :
    read (before ++ ']' :: after ++ rest) = read (before ++ ']' :: after) ++ read rest := by
  refine read_append (Apart.of_closed before hopen rest) ?_
  rw [List.getLast?_append_of_ne_nil _ (by simp)]
  intro hend
  exact hlast ((List.mem_cons.mp (List.mem_of_getLast? hend)).resolve_left (by decide))

end Markup

namespace Telemetry

open Markup

def style (t : Telemetry) : Level → String
  | .step => t.color
  | .warning => "yellow"
  | .error => "bold red"
  | .debug => "dim"

/-- The sign of a level. The style of a step ends with its sign; the others hold for the message. -/
def sign : Level → String
  | .step => ">[/] "
  | .warning => "! "
  | .error => "x "
  | .debug => ""

def lead (t : Telemetry) (level : Level) : String := "[" ++ t.style level ++ "]" ++ sign level

def tail : Level → String
  | .step => ""
  | .warning | .error | .debug => "[/]"

/-- The sign of a level, as it is meant to be read. -/
def signItems : Level → List Item
  | .step => [.shown '>', .tag ['/'], .shown ' ']
  | .warning => [.shown '!', .shown ' ']
  | .error => [.shown 'x', .shown ' ']
  | .debug => []

def leadItems (t : Telemetry) (level : Level) : List Item :=
  .tag (t.style level).toList :: signItems level

def tailItems : Level → List Item
  | .step => []
  | .warning | .error | .debug => [.tag ['/']]

/-- What the console makes of an escaped message together with what is put behind it. -/
def toldItems (level : Level) (message : List Char) : List Item :=
  match level with
  | .step => showAll (front message ++ backslashes (closing message))
  | .warning | .error | .debug =>
    showAll (front message ++ backslashes (closing message / 2)) ++
      if closing message % 2 = 1 then showAll closingTag else [.tag ['/']]

/-- The messages whose last backslashes are shown as they are. A single one is doubled, which is
right only before a closing tag, and more are left alone, which is right only without one. -/
def Survives (level : Level) (message : List Char) : Prop :=
  match level with
  | .step => ending message ≠ 1
  | .warning | .error | .debug => ending message ≤ 1

variable {escape : String → String} (t : Telemetry)

theorem decorated_eq (escape : String → String) (level : Level) (message : String) :
    t.decorated escape level message = t.lead level ++ (escape message ++ tail level) := by
  rw [← String.toList_inj]
  cases level <;> simp [decorated, lead, style, sign, tail, toString]

theorem isTag_style (level : Level) (h : level = .step → IsTag t.color.toList) :
    IsTag (t.style level).toList := by
  cases level with
  | step => exact h rfl
  | warning => exact ⟨⟨'y', by simp [style], rfl⟩, List.all_eq_true.mp (by simp [style, inTag])⟩
  | error => exact ⟨⟨'b', by simp [style], rfl⟩, List.all_eq_true.mp (by simp [style, inTag])⟩
  | debug => exact ⟨⟨'d', by simp [style], rfl⟩, List.all_eq_true.mp (by simp [style, inTag])⟩

theorem toList_lead (level : Level) :
    (t.lead level).toList = '[' :: ((t.style level).toList ++ ']' :: (sign level).toList) := by
  simp [lead]

theorem read_sign (level : Level) : read (sign level).toList = signItems level := by
  cases level <;> decide

theorem read_lead (level : Level) (h : level = .step → IsTag t.color.toList) :
    read (t.lead level).toList = t.leadItems level := by
  have hread := read_first not_hasTag_nil (by simp) (t.isTag_style level h) 0 (sign level).toList
  rw [toList_lead, leadItems, ← read_sign]
  exact hread

theorem read_lead_append (level : Level) (rest : List Char) :
    read ((t.lead level).toList ++ rest) = read (t.lead level).toList ++ read rest := by
  have hsplit : ∃ before after,
      (t.lead level).toList = before ++ ']' :: after ∧ '[' ∉ after ∧ '\\' ∉ after := by
    rw [toList_lead]
    cases level with
    | step =>
      exact ⟨'[' :: (t.color.toList ++ "]>[/".toList), [' '], by simp [style, sign], by decide⟩
    | warning => exact ⟨'[' :: "yellow".toList, "! ".toList, rfl, by decide⟩
    | error => exact ⟨'[' :: "bold red".toList, "x ".toList, rfl, by decide⟩
    | debug => exact ⟨'[' :: "dim".toList, "".toList, rfl, by decide⟩
  obtain ⟨before, after, hlead, hopen, hlast⟩ := hsplit
  rw [hlead, read_append_of_closed hopen hlast]

theorem read_escaped_tail (h : Escapes escape) (level : Level) (message : String) :
    read (escape message ++ tail level).toList = toldItems level message.toList := by
  have hescaped := h.read_escape message.toList
  have hclosed := h.read_escape_closed message.toList
  rw [String.ofList_toList] at hescaped hclosed
  rw [String.toList_append]
  cases level with
  | step => rwa [tail, String.toList_empty, List.append_nil]
  | warning => exact hclosed
  | error => exact hclosed
  | debug => exact hclosed

/-- What the console makes of a message. -/
theorem read_decorated (h : Escapes escape) (level : Level) (message : String) :
    read (t.decorated escape level message).toList =
      read (t.lead level).toList ++ toldItems level message.toList := by
  rw [decorated_eq, String.toList_append, read_lead_append, read_escaped_tail h]

theorem toldItems_eq_iff (h : Escapes escape) (level : Level) (message : List Char) :
    toldItems level message = showAll message ++ tailItems level ↔ Survives level message := by
  have hescaped := h.read_escape_eq_iff message
  have hclosed := h.read_escape_closed_eq_iff message
  rw [h.read_escape] at hescaped
  rw [h.read_escape_closed] at hclosed
  cases level with
  | step => rwa [toldItems, tailItems, List.append_nil, Survives]
  | warning => exact hclosed
  | error => exact hclosed
  | debug => exact hclosed

end Telemetry

open Markup in
/-- No bracket of a message is read as a tag, and of what is put around a message only the closing
tag may be lost, to backslashes at the message's end: the message is read back as it is unless it
ends in two or more of them, or in exactly one where there is no closing tag. Of a report, the
diagnostics are read back as they are unless they end in one backslash, and the cells unless they
have a tag. -/
theorem printed_reads_back {escape : String → String} (h : Escapes escape) (t : Telemetry)
    (r : Report) :
    (∀ level, (level = .step → IsTag t.color.toList) →
        read (t.lead level).toList = t.leadItems level) ∧
      (∀ level message, t.shows level = true →
        ∃ text, t.printed escape (.told level message) = [.marked text] ∧
          read text.toList =
            read (t.lead level).toList ++ Telemetry.toldItems level message.toList ∧
          (read text.toList =
              read (t.lead level).toList ++
                (showAll message.toList ++ Telemetry.tailItems level) ↔
            Telemetry.Survives level message.toList)) ∧
      (∃ title columns, r.printed escape = .table title columns (r.outcomes.map Report.row) ::
        r.failures.map fun o => .marked (escape o.describe)) ∧
      ∀ o ∈ r.outcomes,
        (∃ cells, Report.row o = o.check.qualifiedName :: o.sample :: cells) ∧
          (∀ cell ∈ [o.check.qualifiedName, o.sample],
            read cell.toList = showAll cell.toList ↔ ¬ HasTag cell.toList) ∧
          read (escape o.describe).toList =
            showAll (front o.describe.toList ++ backslashes (closing o.describe.toList)) ∧
          (read (escape o.describe).toList = showAll o.describe.toList ↔
            ending o.describe.toList ≠ 1) := by
  refine ⟨t.read_lead, fun level message hshown => ?_, ⟨_, _, rfl⟩, fun o _ => ?_⟩
  · refine ⟨t.decorated escape level message, if_pos hshown, t.read_decorated h level message, ?_⟩
    rw [t.read_decorated h, List.append_cancel_left_eq, Telemetry.toldItems_eq_iff h]
  · have hread := h.read_escape o.describe.toList
    have hliteral := h.read_escape_eq_iff o.describe.toList
    rw [String.ofList_toList] at hread hliteral
    exact ⟨⟨_, rfl⟩, fun cell _ => read_eq_showAll_iff, hread, hliteral⟩

/-- A path in brackets is read back from the terminal as it is, also before a backslash, but not
before two. -/
theorem printed_reads_back_path :
    let t : Telemetry := ⟨"gate", "green", "", true⟩
    let told (message : String) := t.printed Console.terminal.escape (.told .debug message)
    (∃ text, told "[/tmp]\\" = [.marked text] ∧
        Markup.read text.toList =
          .tag "dim".toList :: Markup.showAll "[/tmp]\\".toList ++ [.tag ['/']]) ∧
      ∃ text, told "[/tmp]\\\\" = [.marked text] ∧
        Markup.read text.toList =
          .tag "dim".toList :: Markup.showAll "[/tmp]\\".toList ++ [.tag ['/']] := by
  intro t told
  obtain ⟨hlead, htold, -⟩ := printed_reads_back Console.terminal_lawful.escapes t ⟨[]⟩
  have hlead := hlead .debug nofun
  constructor
  · obtain ⟨text, htext, -, hread⟩ := htold .debug "[/tmp]\\" rfl
    refine ⟨text, htext, ?_⟩
    have hsurvives : Telemetry.Survives .debug "[/tmp]\\".toList :=
      show Markup.ending _ ≤ 1 by decide
    rw [hread.mpr hsurvives, hlead]
    rfl
  · obtain ⟨text, htext, hread, -⟩ := htold .debug "[/tmp]\\\\" rfl
    refine ⟨text, htext, ?_⟩
    rw [hread, hlead]
    rfl

end LintGate
