import LintGate.Proofs.ProperTree
import LintGate.Settings.Search

/-! # The nearest project file

The search for settings goes from a directory up to the root. Each directory whose project file is
not there, or cannot be opened, is passed over, and the first other one decides.
-/

namespace LintGate

/-- A property holds of all prefixes of a list, or there is a longest one without it. -/
theorem forall_or_exists_longest_prefix {α : Type} (P : List α → Prop) (l : List α) :
    (∀ e, e <+: l → P e) ∨
      ∃ d, d <+: l ∧ ¬ P d ∧ ∀ e, d <+: e → e <+: l → e ≠ d → P e := by
  induction l using List.reverseRecOn with
  | nil =>
    by_cases h : P []
    · exact .inl fun e he => by rwa [List.prefix_nil.mp he]
    · refine .inr ⟨[], List.prefix_rfl, h, fun e _ he hne => absurd (List.prefix_nil.mp he) hne⟩
  | append_singleton l a ih =>
    by_cases h : P (l ++ [a])
    · rcases ih with hall | ⟨d, hd, hnot, hbelow⟩
      · refine .inl fun e he => ?_
        rcases List.prefix_concat_iff.mp he with rfl | he
        · exact h
        · exact hall e he
      · refine .inr ⟨d, hd.trans (List.prefix_append l [a]), hnot, fun e hde he hne => ?_⟩
        rcases List.prefix_concat_iff.mp he with rfl | he
        · exact h
        · exact hbelow e hde he hne
    · refine .inr ⟨l ++ [a], List.prefix_rfl, h, fun e hde he hne => ?_⟩
      exact absurd (he.eq_of_length_le hde.length_le) hne

namespace Path

theorem ancestors_ofPlace_nil : (ofPlace []).ancestors = [ofPlace []] := rfl

theorem ancestors_ofPlace_concat (place : Place) (name : String) :
    (ofPlace (place ++ [name])).ancestors =
      ofPlace (place ++ [name]) :: (ofPlace place).ancestors := by
  simp only [ancestors, ofPlace, List.length_append, List.length_singleton]
  rw [List.range_succ_eq_map, List.map_cons, List.map_map]
  congr 1
  · simp
  · refine List.map_congr_left fun n hn => ?_
    have hle : place.length + 1 - (n + 1) ≤ place.length := by omega
    simp only [Function.comp_apply, Path.mk.injEq, true_and]
    rw [List.take_append_of_le_length hle]
    congr 1
    omega

theorem ancestors_ofPlace (place : Place) :
    ∃ above, (ofPlace place).ancestors = ofPlace place :: above := by
  rcases List.eq_nil_or_concat' place with rfl | ⟨front, name, rfl⟩
  · exact ⟨_, ancestors_ofPlace_nil⟩
  · exact ⟨_, ancestors_ofPlace_concat front name⟩

end Path

namespace Settings

def projectPlace (d : Place) : Place := d ++ [projectFile]

def startPath (t : FileTree) (start : Option Path) : Path := start.getD (workingDirectory t)

def startPlace (t : FileTree) (start : Option Path) : Place :=
  (absolute t (startPath t start)).names

def searchUp (t : FileTree) (place : Place) : Except Fault (Datum × Option Path) :=
  searchIn t (Path.ofPlace place).ancestors

variable {t : FileTree} {start : Option Path} {place d : Place} {bytes : List UInt8}

theorem search_eq_searchUp (h : isNameable (startPath t start) = true) :
    search t start = searchUp t (startPlace t start) := by
  rw [startPath] at h
  rw [search, if_pos h]
  rfl

theorem projectPath_eq (d : Place) :
    Path.ofPlace d / Path.ofString projectFile = Path.ofPlace (projectPlace d) := by
  have hname : Path.ofString projectFile = ⟨0, [projectFile]⟩ := by decide
  rw [hname]
  rfl

/-- The project file of a directory can be asked for, and is none that can be opened. -/
def Passes (t : FileTree) (d : Place) : Prop :=
  ∃ found, t.look (Path.ofPlace (projectPlace d)).toString = .ok found ∧
    ∀ bytes, found ≠ some (.file bytes)

/-- All directories from a place up to one above it, without that one, are passed over. -/
def PassesBelow (t : FileTree) (place d : Place) : Prop :=
  ∀ e, d <+: e → e <+: place → e ≠ d → Passes t e

/-- The first project file that can be opened from a place upwards. -/
structure Opens (t : FileTree) (place d : Place) (bytes : List UInt8) : Prop where
  above : d <+: place
  found : t.look (Path.ofPlace (projectPlace d)).toString = .ok (some (.file bytes))
  below : PassesBelow t place d

theorem searchUp_of_file
    (h : t.look (Path.ofPlace (projectPlace d)).toString = .ok (some (.file bytes))) :
    searchUp t d = (ofDocument bytes).map (·, some (Path.ofPlace d)) := by
  obtain ⟨above, habove⟩ := Path.ancestors_ofPlace d
  simp only [searchUp, habove, searchIn, projectPath_eq, h]

theorem searchUp_of_error {fault : FileTree.Fault}
    (h : t.look (Path.ofPlace (projectPlace d)).toString = .error fault) :
    searchUp t d = .error (.file fault) := by
  obtain ⟨above, habove⟩ := Path.ancestors_ofPlace d
  simp only [searchUp, habove, searchIn, projectPath_eq, h]

theorem searchIn_of_passes (h : Passes t d) (above : List Path) :
    searchIn t (Path.ofPlace d :: above) = searchIn t above := by
  obtain ⟨found, hfound, hfile⟩ := h
  rw [searchIn, projectPath_eq, hfound]
  cases found with
  | none => rfl
  | some entry =>
    cases entry with
    | directory => rfl
    | file bytes => exact absurd rfl (hfile bytes)

/-- A search goes on from the directory above those that it passes over. -/
theorem searchUp_of_passesBelow (hd : d <+: place) (h : PassesBelow t place d) :
    searchUp t place = searchUp t d := by
  induction place using List.reverseRecOn with
  | nil => rw [List.prefix_nil.mp hd]
  | append_singleton place name ih =>
    rcases List.prefix_concat_iff.mp hd with rfl | hd
    · rfl
    · have hne : place ++ [name] ≠ d := by
        rintro rfl
        exact absurd hd.length_le (by simp)
      have hpasses := h _ (hd.trans (List.prefix_append ..)) List.prefix_rfl hne
      rw [searchUp, Path.ancestors_ofPlace_concat, searchIn_of_passes hpasses]
      exact ih hd fun e hde he => h e hde (he.trans (List.prefix_append ..))

theorem searchUp_of_passes (h : ∀ e, e <+: place → Passes t e) :
    searchUp t place = .ok (.table [], none) := by
  rw [searchUp_of_passesBelow List.nil_prefix fun e _ he _ => h e he, searchUp,
    Path.ancestors_ofPlace_nil, searchIn_of_passes (h [] List.nil_prefix)]
  rfl

/-- The first project file that can be opened decides. -/
theorem Opens.searchUp_eq (h : Opens t place d bytes) :
    searchUp t place = (ofDocument bytes).map (·, some (Path.ofPlace d)) := by
  rw [searchUp_of_passesBelow h.above h.below, searchUp_of_file h.found]

theorem names_absolute (t : FileTree) (p : Path) :
    (absolute t p).names =
      Path.collapse ((if p.slashes = 0 then t.working else []) ++ p.names) := by
  obtain ⟨slashes, names⟩ := p
  cases slashes <;> rfl

section Proper

variable (ht : t.IsProper)

include ht

theorem working_names : ∀ name ∈ t.working, FileTree.isEntryName name = true :=
  ht.isEntryName ht.working

theorem up_not_mem_working : ".." ∉ t.working := fun hmem =>
  absurd (working_names ht _ hmem) (by decide)

theorem isNormal_startPath (start : Option String) :
    (startPath t (start.map Path.ofString)).IsNormal := by
  cases start with
  | some raw => exact Path.isNormal_ofString raw
  | none =>
    intro name hname
    obtain ⟨hplain, -, -⟩ := FileTree.isEntryName_iff.mp (working_names ht name hname)
    obtain ⟨hslash, hne, hpoint, -⟩ := FileTree.isPlain_iff.mp hplain
    exact ⟨hslash, hne, hpoint⟩

theorem nul_not_mem_startPath {start : Option String}
    (hnul : ∀ raw, start = some raw → '\x00' ∉ raw.toList) :
    ∀ name ∈ (startPath t (start.map Path.ofString)).names, '\x00' ∉ name.toList := by
  intro name hname
  cases start with
  | some raw => exact fun hmem => hnul raw rfl (Path.mem_of_mem_names hname hmem)
  | none => exact (FileTree.isEntryName_iff.mp (working_names ht name hname)).2.1

theorem isNameable_startPath {start : Option String}
    (hnul : ∀ raw, start = some raw → '\x00' ∉ raw.toList) :
    isNameable (startPath t (start.map Path.ofString)) = true := by
  simpa [isNameable] using nul_not_mem_startPath ht hnul

theorem isPlainPlace_startPlace {start : Option String}
    (hnul : ∀ raw, start = some raw → '\x00' ∉ raw.toList) :
    FileTree.IsPlainPlace (startPlace t (start.map Path.ofString)) := by
  intro name hname
  rw [startPlace, names_absolute] at hname
  obtain ⟨hmem, hup⟩ := Path.mem_collapse hname
  rcases List.mem_append.mp hmem with hworking | hmem
  · have hworking : name ∈ t.working := by
      split_ifs at hworking
      · exact hworking
      · cases hworking
    obtain ⟨hplain, hnul, -⟩ := FileTree.isEntryName_iff.mp (working_names ht name hworking)
    exact ⟨hplain, hnul⟩
  · obtain ⟨hslash, hne, hpoint⟩ := isNormal_startPath ht start name hmem
    exact ⟨FileTree.isPlain_iff.mpr ⟨hslash, hne, hpoint, hup⟩,
      nul_not_mem_startPath ht hnul name hmem⟩

theorem startPlace_eq (start : Option String) {q : Place}
    (h : t.resolve (startPath t (start.map Path.ofString)).toString = .ok q) :
    startPlace t (start.map Path.ofString) = q := by
  have hnormal := isNormal_startPath ht start
  rw [startPlace]
  generalize startPath t (start.map Path.ofString) = p at h hnormal ⊢
  have hbase : ".." ∉ (if p.slashes = 0 then t.working else []) := by
    split_ifs
    · exact up_not_mem_working ht
    · simp
  obtain ⟨-, hfollow⟩ := FileTree.resolve_eq_ok h
  rw [hnormal.steps, hnormal.route] at hfollow
  rw [names_absolute]
  by_cases hnames : p.names = []
  · rw [if_pos hnames] at hfollow
    rw [hnames, List.append_nil, Path.collapse_eq_self hbase, FileTree.follow_point hfollow]
  · rw [if_neg hnames] at hfollow
    exact FileTree.collapse_of_follow hbase (fun hmem => (hnormal _ hmem).2.2 rfl) hfollow

end Proper

end Settings

end LintGate
