import LintGate.Proofs.EngineRuns
import LintGate.Proofs.MadeDirectories
import LintGate.Proofs.Agreement

/-! # A log that grows beside the fixtures

Runs of Ruff whose raw output is kept leave trees that have grown by log entries. Where every raw
output can be kept and no fixture changes by it, a gate of Ruff and Pylint is uniform over all of
these trees. This is so without a log, and also with one whose directory is there already: the
trees then differ in the content of one file, and no fixture has a file of that name.
-/

namespace LintGate

open Gate

namespace RawLog

structure Ready (log : RawLog) (engine : String) (t : FileTree) (place : Place) : Prop where
  directory : t.isDirectory log.directory = true
  above : (FileTree.splitDirectory log.directory.toList).1 = [] ∨
    t.contains (String.ofList (FileTree.splitDirectory log.directory.toList).1) = true
  parent : ∃ above last, t.parent (log.pathFor engine) = .ok (some (above, last)) ∧
    place = above ++ [last] ∧ last ≠ "." ∧ last ≠ ".."
  free : t.find? place ≠ some .directory

variable {log : RawLog} {engine : String} {t : FileTree} {place : Place}

theorem Ready.ne_nil (h : log.Ready engine t place) : place ≠ [] := by
  obtain ⟨above, last, -, rfl, -, -⟩ := h.parent
  simp

theorem Ready.put (h : log.Ready engine t place) (content : List UInt8) :
    log.Ready engine (t.put place (.file content)) place := by
  have hroot := h.ne_nil
  have hwithin := FileTree.within_put hroot h.free (.file content)
  obtain ⟨hdirectory, habove, ⟨above, last, hparent, hplace, hlast⟩, hfree⟩ := h
  refine ⟨hwithin.isDirectory hdirectory, habove.imp id hwithin.contains,
    ⟨above, last, hwithin.parent hparent, hplace, hlast⟩, ?_⟩
  rw [FileTree.find?_put hroot]
  simp

theorem Ready.makeDirectories (h : log.Ready engine t place) :
    t.makeDirectories log.directory.toList = (t, none) := by
  apply FileTree.makeDirectories_of_isDirectory
  · rw [String.ofList_toList]
    exact h.directory
  · exact h.above

/-- A run adds its entry to the log. -/
theorem Ready.append (h : log.Ready engine t place) (now : Instant)
    (stdout stderr config : String) :
    log.append t now engine stdout stderr config =
      (t.extend place (Text.Utf8.encode (entry now engine stdout stderr config).toList), none) := by
  obtain ⟨above, last, hparent, rfl, hpoint, hup⟩ := h.parent
  rw [RawLog.append, h.makeDirectories]
  simp only [FileTree.append, FileTree.change_of_parent hpoint hup hparent h.free]
  rfl

theorem endsIn_pathFor (log : RawLog) (engine : String) :
    FileTree.EndsIn (log.pathFor engine) ("raw_" ++ engine ++ ".log") := by
  rw [pathFor]
  split_ifs with h
  · refine ⟨log.directory.toList, by simp, ?_⟩
    simp only [Bool.or_eq_true, decide_eq_true_eq] at h
    rcases h with h | h
    · exact .inl (by rw [h]; rfl)
    · exact .inr (List.getLast?_eq_some_iff.mp h)
  · exact ⟨log.directory.toList ++ ['/'], by simp, .inr ⟨_, rfl⟩⟩

theorem Ready.own_name (h : log.Ready engine t place)
    (hname : FileTree.isPlain ("raw_" ++ engine ++ ".log") = true) :
    ∃ above, t.parent (log.pathFor engine) = .ok (some (above, "raw_" ++ engine ++ ".log")) ∧
      place = above ++ ["raw_" ++ engine ++ ".log"] := by
  obtain ⟨above, last, hparent, rfl, -, -⟩ := h.parent
  obtain ⟨-, hlast, -⟩ := FileTree.parent_eq_ok_iff.mp hparent
  obtain ⟨names, hroute⟩ := (endsIn_pathFor log engine).route hname t
  rw [hroute, List.getLast?_concat] at hlast
  cases hlast
  exact ⟨above, hparent, rfl⟩

end RawLog

namespace Fixtures

/-- A log that is written leaves every fixture as it is. -/
theorem agree_put {log : RawLog} {t : FileTree} {place : Place}
    (h : log.Ready Ruff.engineName t place) (fs : Fixtures) (check : Check)
    (content : List UInt8) : fs.Agree t (t.put place (.file content)) check := by
  obtain ⟨above, -, hplace⟩ := h.own_name (by decide)
  have hlook : ∀ (p : Path) (name : String), Path.ofString name = ⟨0, [name]⟩ →
      FileTree.isPlain name = true → name ≠ "raw_ruff.log" →
      (t.put place (.file content)).look (p / Path.ofString name).toString =
        t.look (p / Path.ofString name).toString := by
    intro p name hname hplain hne
    refine FileTree.look_put h.ne_nil h.free fun hresolve => hne ?_
    obtain ⟨above', -, hplace'⟩ := (Path.endsIn_div p hname).parent hplain hresolve
    rw [hplace] at hplace'
    exact (List.singleton_inj.mp (List.append_inj_right' hplace' rfl)).symm
  have hsample : ∀ stem, stem = Sample.invalid ∨ stem = Sample.valid → ∀ p : Path,
      (t.put place (.file content)).look
          (p / Path.ofString (stem ++ Fixture.sampleSuffix)).toString =
        t.look (p / Path.ofString (stem ++ Fixture.sampleSuffix)).toString := by
    rintro stem (rfl | rfl) p
    · exact hlook p _ (by decide) (by decide) (by decide)
    · exact hlook p _ (by decide) (by decide) (by decide)
  have hconfig := hlook (fs.directory check) Fixture.configName (by decide) (by decide) (by decide)
  refine ⟨?_, ?_, ?_, ?_⟩
  · rw [load, load, FileTree.requireDirectory_put h.ne_nil h.free, FileTree.requireFile,
      FileTree.requireFile, FileTree.require_congr hconfig]
  · intro f hf
    rw [load_eq_ok hf]
    exact hconfig
  · intro f hf stem hstem
    exact hsample stem hstem f.directory
  · intro f hf
    exact hlook f.directory _ (by decide) (by decide) (by decide)

end Fixtures

namespace Ruff

/-- The trees that come of a tree by runs whose raw output is kept. -/
inductive Grown (r : Ruff) (t : FileTree) : FileTree → Prop
  | start : r.Grown t t
  | keep {u v : FileTree} (grown : r.Grown t u) {config : Path} {result : ProcessResult}
      (kept : r.kept u config result = (v, none)) : r.Grown t v

/-- Every raw output can be kept, and the fixtures of the checks do not change by it. -/
structure KeepsApart (r : Ruff) (fs : Fixtures) (checks : List Check) (t : FileTree) : Prop where
  keeps : ∀ u, r.Grown t u → ∀ config result, (r.kept u config result).2 = none
  apart : ∀ check ∈ checks, ∀ u, r.Grown t u → fs.Agree t u check

variable {r : Ruff} {t u : FileTree}

def LogReady (r : Ruff) (t : FileTree) : Prop :=
  ∀ log, r.log = some log → ∃ place, log.Ready engineName t place

theorem LogReady.kept (h : r.LogReady t) (config : Path) (result : ProcessResult) :
    r.kept t config result = (t, none) ∨ ∃ log place content, r.log = some log ∧
      log.Ready engineName t place ∧
      r.kept t config result = (t.put place (.file content), none) := by
  cases hlog : r.log with
  | none => exact .inl (by rw [Ruff.kept, hlog])
  | some log =>
    obtain ⟨place, hready⟩ := h log hlog
    have happend := hready.append r.now result.stdout result.stderr config.toString
    obtain ⟨content, hkept⟩ : ∃ content,
        r.kept t config result = (t.put place (.file content), none) := by
      rw [Ruff.kept, hlog]
      simp only [happend, Option.map_none]
      exact ⟨_, rfl⟩
    exact .inr ⟨log, place, content, rfl, hready, hkept⟩

theorem Grown.of_ready (h : r.LogReady t) (hu : r.Grown t u) :
    r.LogReady u ∧ ∀ (fs : Fixtures) (check : Check), fs.Agree t u check := by
  induction hu with
  | start => exact ⟨h, fun fs check => .refl fs t check⟩
  | @keep u v _ config result hkept ih =>
    obtain ⟨hready, hagree⟩ := ih
    rcases hready.kept config result with hsame | ⟨log, place, content, hlog, hplace, hput⟩
    · rw [hsame, Prod.mk.injEq] at hkept
      rw [← hkept.1]
      exact ⟨hready, hagree⟩
    · rw [hput, Prod.mk.injEq] at hkept
      rw [← hkept.1]
      refine ⟨fun log' hlog' => ?_, fun fs check => (hagree fs check).trans
        (Fixtures.agree_put hplace fs check content)⟩
      rw [hlog] at hlog'
      cases hlog'
      exact ⟨place, hplace.put content⟩

/-- Where the directory of the log is there already, nothing but the log grows. -/
theorem LogReady.keepsApart (h : r.LogReady t) (fs : Fixtures) (checks : List Check) :
    r.KeepsApart fs checks t where
  keeps u hu config result := by
    rcases (hu.of_ready h).1.kept config result with hsame | ⟨log, place, content, -, -, hput⟩
    · rw [hsame]
    · rw [hput]
  apart check _ u hu := (hu.of_ready h).2 fs check

end Ruff

end LintGate
