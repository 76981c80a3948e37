import LintGate.Proofs.Encoding
import LintGate.Proofs.Lines
import LintGate.Proofs.WrittenFile

/-! # Newline conventions

Each of the three newline conventions ends a line, and so does the line feed that `unifyNewlines`
writes in its place. The lines of a text and their numbers are therefore the same before and after,
whatever other line breaks stand beside them, and a file of expectations may be saved in any of the
conventions.
-/

namespace LintGate

namespace Text

/-- Unifying the newlines of a text leaves its lines as they are. -/
theorem splitLines_unifyNewlines (text : List Char) :
    splitLines (unifyNewlines text) = splitLines text := by
  fun_induction unifyNewlines text with
  | case1 => rfl
  | case2 rest ih =>
    rw [splitLines_of_ne_return (by decide), if_pos (by decide), ih, splitLines]
  | case3 c rest hcrlf ih =>
    by_cases hreturn : c = '\r'
    · rw [if_pos hreturn, splitLines_of_ne_return (by decide), if_pos (by decide), ih, hreturn,
        splitLines_return fun rest' => hcrlf rest' hreturn]
    · rw [if_neg hreturn, splitLines_of_ne_return hreturn, splitLines_of_ne_return hreturn, ih]

inductive Newline
  | lf
  | crlf
  | cr
  deriving DecidableEq, Repr

def Newline.chars : Newline → List Char
  | .lf => ['\n']
  | .crlf => ['\r', '\n']
  | .cr => ['\r']

/-- The text with each of its line feeds written in a newline convention. -/
def Newline.write (n : Newline) (text : List Char) : List Char :=
  text.flatMap fun c => if c = '\n' then n.chars else [c]

theorem Newline.write_cons (n : Newline) (c : Char) (text : List Char) :
    n.write (c :: text) = (if c = '\n' then n.chars else [c]) ++ n.write text := by
  rw [write, List.flatMap_cons]
  rfl

theorem Newline.lineFeed_not_mem_write_cr (text : List Char) : '\n' ∉ Newline.cr.write text := by
  rw [write, List.mem_flatMap]
  rintro ⟨c, -, hc⟩
  split_ifs at hc with hfeed
  · exact absurd hc (by decide)
  · exact hfeed (List.mem_singleton.mp hc).symm

theorem Newline.unifyNewlines_append (n : Newline) (text : List Char) :
    unifyNewlines (n.chars ++ n.write text) = '\n' :: unifyNewlines (n.write text) := by
  cases n with
  | lf => rw [chars, List.singleton_append, unifyNewlines_of_ne_return (by decide)]
  | crlf => rw [chars, List.cons_append, List.singleton_append, unifyNewlines]
  | cr =>
    rw [chars, List.singleton_append, unifyNewlines, if_pos rfl]
    intro rest _ htext
    exact lineFeed_not_mem_write_cr text (by rw [htext]; simp)

/-- Whatever convention a text without carriage returns is written in, the text comes back. -/
theorem Newline.unifyNewlines_write (n : Newline) {text : List Char} (h : '\r' ∉ text) :
    unifyNewlines (n.write text) = text := by
  induction text with
  | nil => rfl
  | cons c rest ih =>
    rw [List.mem_cons, not_or] at h
    rw [write_cons]
    by_cases hfeed : c = '\n'
    · rw [if_pos hfeed, unifyNewlines_append, ih h.2, hfeed]
    · rw [if_neg hfeed, List.singleton_append, unifyNewlines_of_ne_return (Ne.symm h.1), ih h.2]

end Text

namespace Expectation

/-- A text has the same expectations before and after its newlines are unified, or the same fault.
-/
theorem parse_unifyNewlines (text : List Char) (source : Option String) :
    parse (Text.unifyNewlines text) source = parse text source := by
  rw [parse, parse, Text.splitLines_unifyNewlines]

end Expectation

namespace Fixture

theorem expectations_of_look {f : Fixture} {t : FileTree} {content : List UInt8} {text : List Char}
    (hlook : t.look f.expectationsPath.toString = .ok (some (.file content)))
    (htext : Text.Utf8.decode content = .ok text) :
    f.expectations t = Expectation.parse text (some f.expectationsPath.toString) := by
  rw [expectations_eq, hlook]
  simp only [expectationsIn, htext, Expectation.parse_unifyNewlines]

/-- Expectations do not depend on the newline convention: unifying the newlines of a text changes
nothing of what is read in it, and a file without carriage returns may be saved in any convention.
-/
theorem expectations_newline :
    (∀ text source,
      Expectation.parse (Text.unifyNewlines text) source = Expectation.parse text source) ∧
    ∀ (f : Fixture) (t : FileTree) (content : List UInt8) (text : List Char),
      t.look f.expectationsPath.toString = .ok (some (.file content)) →
      Text.Utf8.decode content = .ok text → '\r' ∉ text → ∀ n : Text.Newline,
        ∃ saved, t.overwrite f.expectationsPath.toString
            (Text.Utf8.encode (n.write text)) = .ok saved ∧
          f.expectations saved = f.expectations t := by
  refine ⟨Expectation.parse_unifyNewlines, fun f t content text hlook htext hreturn n => ?_⟩
  have hends : FileTree.EndsIn f.expectationsPath.toString expectationsName :=
    Path.endsIn_div f.directory (by decide)
  obtain ⟨saved, hsaved, hfound⟩ :=
    FileTree.exists_overwrite hends (by decide) hlook (Text.Utf8.encode (n.write text))
  refine ⟨saved, hsaved, ?_⟩
  calc f.expectations saved
      = Expectation.parse (n.write text) (some f.expectationsPath.toString) :=
        expectations_of_look hfound (Text.Utf8.decode_encode _)
    _ = Expectation.parse (Text.unifyNewlines (n.write text)) _ :=
        (Expectation.parse_unifyNewlines _ _).symm
    _ = Expectation.parse text _ := by rw [n.unifyNewlines_write hreturn]
    _ = f.expectations t := (expectations_of_look hlook htext).symm

/-- Two expectations with an empty line between them, saved with two characters for each newline. -/
theorem expectations_newline_crlf :
    let f : Fixture := ⟨"UnusedImportRule", ⟨0, []⟩, ⟨0, ["config.toml"]⟩⟩
    let t : FileTree :=
      ⟨[(["violations.txt"], .file (Text.Utf8.encode "10:os\n\n2:sys\n".toList))], []⟩
    ∃ saved, t.overwrite "violations.txt"
        (Text.Utf8.encode "10:os\r\n\r\n2:sys\r\n".toList) = .ok saved ∧
      f.expectations saved = .ok [⟨10, "os"⟩, ⟨2, "sys"⟩] := by
  intro f t
  have hpath : f.expectationsPath.toString = "violations.txt" := by decide +kernel
  have hsaved : Text.Newline.crlf.write "10:os\n\n2:sys\n".toList =
      "10:os\r\n\r\n2:sys\r\n".toList := by decide +kernel
  have hread : f.expectations t = .ok [⟨10, "os"⟩, ⟨2, "sys"⟩] := by decide +kernel
  rw [← hpath, ← hsaved, ← hread]
  exact expectations_newline.2 f t (Text.Utf8.encode "10:os\n\n2:sys\n".toList) _
    (by decide +kernel) (by decide +kernel) (by decide +kernel) .crlf

end Fixture

end LintGate
