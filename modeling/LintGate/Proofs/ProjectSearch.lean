import LintGate.Proofs.GateTable
import LintGate.Proofs.NearestProject

/-! # What a tree says of the settings

In a proper tree the project files are looked up at their places. Of those from the start upwards
the deepest that can be opened decides, for better or worse, and nothing above it or beside the way
up is looked at. Only a project file whose path is too long to be asked for stops the search before.
A tree has no permissions, so what is there and cannot be opened is a directory.
-/

namespace LintGate.Settings

/-- A project file that is passed over: it can be asked for, and no file stands at its place. -/
structure IsPassed (t : FileTree) (e : Place) : Prop where
  askable : ¬ t.IsTooLong (projectPlace e)
  unopened : ∀ bytes, t.find? (projectPlace e) ≠ some (.file bytes)

structure IsDeepest (t : FileTree) (place d : Place) : Prop where
  above : d <+: place
  kept : ¬ IsPassed t d
  below : ∀ e, d <+: e → e <+: place → e ≠ d → IsPassed t e

/-- Another tree in which a search from a place comes by the same: the same directories on the way
up and, as far as the deepest project file that is not passed over, the same project files. -/
structure SeenAlike (t u : FileTree) (place : Place) : Prop where
  working : u.working = t.working
  directories : ∀ e, e <+: place → (u.find? e = some .directory ↔ t.find? e = some .directory)
  projects : ∀ e, e <+: place → (∀ d, IsDeepest t place d → d <+: e) →
    u.find? (projectPlace e) = t.find? (projectPlace e)

variable {t u : FileTree} {place d e : Place} {bytes : List UInt8}

theorem all_passed_or_isDeepest (t : FileTree) (place : Place) :
    (∀ e, e <+: place → IsPassed t e) ∨ ∃ d, IsDeepest t place d := by
  rcases forall_or_exists_longest_prefix (IsPassed t) place with h | ⟨d, hd, hkept, hbelow⟩
  · exact .inl h
  · exact .inr ⟨d, hd, hkept, hbelow⟩

theorem IsDeepest.file (h : IsDeepest t place d) (hshort : ¬ t.IsTooLong (projectPlace d)) :
    ∃ bytes, t.find? (projectPlace d) = some (.file bytes) := by
  by_contra hnone
  exact h.kept ⟨hshort, fun bytes hbytes => hnone ⟨bytes, hbytes⟩⟩

theorem projectPlace_ne_nil (d : Place) : projectPlace d ≠ [] := by simp [projectPlace]

/-- The name of a project file is short. -/
theorem hasLongName_projectPlace :
    t.HasLongName [] (projectPlace e) ↔
      ∃ above name, above ++ [name] <+: e ∧ t.find? above = some .directory ∧
        FileTree.nameLimit < name.utf8ByteSize := by
  constructor
  · rintro ⟨above, name, hbefore, hdirectory, hlong⟩
    -- The last name is that of the project file.
    rcases List.prefix_concat_iff.mp hbefore with hall | hbefore
    · rw [(List.append_inj' hall rfl).2 |> List.singleton_inj.mp] at hlong
      exact absurd hlong (by decide)
    · exact ⟨above, name, hbefore, hdirectory, hlong⟩
  · rintro ⟨above, name, hbefore, hdirectory, hlong⟩
    exact ⟨above, name, hbefore.trans (List.prefix_append ..), hdirectory, hlong⟩

theorem utf8ByteSize_projectPlace_le (h : e <+: place) :
    (Path.ofPlace (projectPlace e)).toString.utf8ByteSize ≤
      (Path.ofPlace (projectPlace place)).toString.utf8ByteSize := by
  obtain ⟨rest, rfl⟩ := h
  rw [Path.utf8ByteSize_ofPlace (projectPlace_ne_nil _),
    Path.utf8ByteSize_ofPlace (projectPlace_ne_nil _)]
  simp only [projectPlace, List.map_append, List.sum_append]
  omega

/-- From a directory that is there, only the length of the whole path keeps from asking. -/
theorem isTooLong_projectPlace (ht : t.IsProper) (hplace : t.find? place = some .directory)
    (he : e <+: place) (h : t.IsTooLong (projectPlace e)) :
    FileTree.pathLimit < (Path.ofPlace (projectPlace place)).toString.utf8ByteSize := by
  rcases h with hlong | hlong
  · exact hlong.trans_le (utf8ByteSize_projectPlace_le he)
  · obtain ⟨above, name, hbefore, -, hname⟩ := hasLongName_projectPlace.mp hlong
    obtain ⟨rest, rfl⟩ := hbefore.trans he
    have hentry := ht.isEntryName hplace name (by simp)
    exact absurd hname (Nat.not_lt.mpr (FileTree.isEntryName_iff.mp hentry).2.2)

namespace SeenAlike

variable (h : SeenAlike t u place)

include h

theorem isTooLong_iff (he : e <+: place) :
    u.IsTooLong (projectPlace e) ↔ t.IsTooLong (projectPlace e) := by
  rw [FileTree.IsTooLong, FileTree.IsTooLong, hasLongName_projectPlace, hasLongName_projectPlace]
  have hsame : ∀ above name, above ++ [name] <+: e →
      (u.find? above = some .directory ↔ t.find? above = some .directory) :=
    fun above name hbefore =>
      h.directories above ((List.prefix_append above [name]).trans (hbefore.trans he))
  exact or_congr_right (exists_congr fun above => exists_congr fun name =>
    and_congr_right fun hbefore => and_congr_left fun _ => hsame above name hbefore)

theorem isPassed_iff (he : e <+: place) (hd : ∀ d, IsDeepest t place d → d <+: e) :
    IsPassed u e ↔ IsPassed t e := by
  constructor
  · rintro ⟨hshort, hnone⟩
    rw [h.isTooLong_iff he] at hshort
    rw [h.projects e he hd] at hnone
    exact ⟨hshort, hnone⟩
  · rintro ⟨hshort, hnone⟩
    rw [← h.isTooLong_iff he] at hshort
    rw [← h.projects e he hd] at hnone
    exact ⟨hshort, hnone⟩

end SeenAlike

theorem IsDeepest.unique {d' : Place} (h : IsDeepest t place d) (h' : IsDeepest t place d') :
    d' = d := by
  by_contra hne
  rcases List.prefix_or_prefix_of_prefix h.above h'.above with hle | hle
  · exact h'.kept (h.below d' hle h'.above hne)
  · exact h.kept (h'.below d hle h.above (Ne.symm hne))

theorem SeenAlike.isDeepest (h : SeenAlike t u place) (hd : IsDeepest t place d) :
    IsDeepest u place d := by
  have hbehind : ∀ e, d <+: e → ∀ d', IsDeepest t place d' → d' <+: e := by
    intro e hde d' hd'
    rwa [hd.unique hd']
  refine ⟨hd.above, ?_, fun e hde he hne => ?_⟩
  · rw [h.isPassed_iff hd.above (hbehind d List.prefix_rfl)]
    exact hd.kept
  · rw [h.isPassed_iff he (hbehind e hde)]
    exact hd.below e hde he hne

section Named

variable (ht : t.IsProper) (hnames : FileTree.IsPlainPlace place)

include hnames

theorem isPlainPlace_projectPlace (he : e <+: place) :
    FileTree.IsPlainPlace (projectPlace e) := by
  intro name hname
  rcases List.mem_append.mp hname with hname | hname
  · exact hnames name (he.mem hname)
  · rw [List.mem_singleton.mp hname]
    decide

include ht

theorem look_projectPlace (he : e <+: place) (h : ¬ t.IsTooLong (projectPlace e)) :
    t.look (Path.ofPlace (projectPlace e)).toString = .ok (t.find? (projectPlace e)) :=
  FileTree.look_ofPlace ht (projectPlace_ne_nil e) (isPlainPlace_projectPlace hnames he) h

theorem IsPassed.passes (h : IsPassed t e) (he : e <+: place) : Passes t e :=
  ⟨_, look_projectPlace ht hnames he h.askable, h.unopened⟩

theorem IsDeepest.searchUp_eq (h : IsDeepest t place d) : searchUp t place = searchUp t d :=
  searchUp_of_passesBelow h.above fun e hde he hne => (h.below e hde he hne).passes ht hnames he

theorem IsDeepest.searchUp_of_file (h : IsDeepest t place d)
    (hshort : ¬ t.IsTooLong (projectPlace d))
    (hfile : t.find? (projectPlace d) = some (.file bytes)) :
    searchUp t place = (ofDocument bytes).map (·, some (Path.ofPlace d)) := by
  rw [h.searchUp_eq ht hnames, Settings.searchUp_of_file]
  rw [look_projectPlace ht hnames h.above hshort, hfile]

theorem IsDeepest.searchUp_of_isTooLong (h : IsDeepest t place d)
    (hlong : t.IsTooLong (projectPlace d)) :
    searchUp t place =
      .error (.file ⟨.nameTooLong, (Path.ofPlace (projectPlace d)).toString⟩) := by
  rw [h.searchUp_eq ht hnames]
  exact searchUp_of_error (FileTree.look_ofPlace_of_isTooLong ht (projectPlace_ne_nil d)
    (isPlainPlace_projectPlace hnames h.above) hlong)

theorem searchUp_of_all_passed (h : ∀ e, e <+: place → IsPassed t e) :
    searchUp t place = .ok (.table [], none) :=
  searchUp_of_passes fun e he => (h e he).passes ht hnames he

/-- What a search does not come by is without influence on it. -/
theorem SeenAlike.searchUp_eq (hu : u.IsProper) (h : SeenAlike t u place) :
    searchUp u place = searchUp t place := by
  rcases all_passed_or_isDeepest t place with hpassed | ⟨d, hd⟩
  · have hnever : ∀ e d, IsDeepest t place d → d <+: e := fun e d hd =>
      absurd (hpassed d hd.above) hd.kept
    rw [searchUp_of_all_passed ht hnames hpassed, searchUp_of_all_passed hu hnames]
    intro e he
    rw [h.isPassed_iff he (hnever e)]
    exact hpassed e he
  · have hother := h.isDeepest hd
    have hlong := h.isTooLong_iff hd.above
    by_cases hshort : t.IsTooLong (projectPlace d)
    · rw [hd.searchUp_of_isTooLong ht hnames hshort,
        hother.searchUp_of_isTooLong hu hnames (hlong.mpr hshort)]
    · obtain ⟨bytes, hfile⟩ := hd.file hshort
      have hsame : u.find? (projectPlace d) = some (.file bytes) := by
        rw [h.projects d hd.above fun d' hd' => by rw [hd.unique hd'], hfile]
      rw [hd.searchUp_of_file ht hnames hshort hfile,
        hother.searchUp_of_file hu hnames (fun hu => hshort (hlong.mp hu)) hsame]

end Named

/-- A search starts from the directory that its path leads to. The deepest project file from there
upwards that can be opened decides: its table is the answer together with its directory, or the
reason that it cannot be read is the error. Where there is none there are no settings. Nothing else
on the way up or beside it has an influence. The search stops before only at a project file whose
path is too long to be asked for, and from a directory that is there it does so only if the path of
this directory's own project file is too long. -/
theorem search_nearest (ht : t.IsProper) (start : Option String)
    (hnul : ∀ raw, start = some raw → '\x00' ∉ raw.toList) :
    let base := start.map Path.ofString
    let place := startPlace t base
    (∀ q, t.resolve (startPath t base).toString = .ok q → place = q) ∧
      (∀ d bytes, IsDeepest t place d → ¬ t.IsTooLong (projectPlace d) →
        t.find? (projectPlace d) = some (.file bytes) →
          (∀ refusal, Toml.load bytes = .error refusal → search t base = .error refusal.fault) ∧
          ∀ entries, Toml.load bytes = .ok entries →
            (∀ v, Datum.lookup "tool" entries = some v → ¬ v.Obstructs) →
            search t base = .ok (gateValue entries, some (Path.ofPlace d))) ∧
      ((∀ e, e <+: place → IsPassed t e) → search t base = .ok (.table [], none)) ∧
      (∀ u : FileTree, u.IsProper → SeenAlike t u place → search u base = search t base) ∧
      (∀ d, IsDeepest t place d → t.IsTooLong (projectPlace d) →
        search t base =
          .error (.file ⟨.nameTooLong, (Path.ofPlace (projectPlace d)).toString⟩)) ∧
      (t.find? place = some .directory → ∀ e, e <+: place → t.IsTooLong (projectPlace e) →
        FileTree.pathLimit < (Path.ofPlace (projectPlace place)).toString.utf8ByteSize) := by
  intro base place
  have hsearch : search t base = searchUp t place :=
    search_eq_searchUp (isNameable_startPath ht hnul)
  have hnames := isPlainPlace_startPlace ht hnul
  refine ⟨fun q => startPlace_eq ht start, ?found, ?nothing, ?alike, ?stuck, ?short⟩
  case found =>
    intro d bytes hd hshort hfile
    rw [hsearch, hd.searchUp_of_file ht hnames hshort hfile]
    refine ⟨fun refusal hload => ?_, fun entries hload htool => ?_⟩
    · rw [ofDocument_of_refusal hload]
      rfl
    · rw [ofDocument_eq_ok hload htool]
      rfl
  case nothing =>
    intro hpassed
    rw [hsearch, searchUp_of_all_passed ht hnames hpassed]
  case alike =>
    intro u hu halike
    -- The start is the same place in both trees, as they have the same working directory.
    have hpath : startPath u base = startPath t base := by
      simp only [startPath, workingDirectory, halike.working]
    have hplace : startPlace u base = place := by
      simp only [startPlace, hpath, absolute, workingDirectory, halike.working]
      rfl
    rw [search_eq_searchUp (isNameable_startPath hu hnul), hplace, hsearch,
      halike.searchUp_eq ht hnames hu]
  case stuck =>
    intro d hd hlong
    rw [hsearch, hd.searchUp_of_isTooLong ht hnames hlong]
  case short =>
    intro hplace e he
    exact isTooLong_projectPlace ht hplace he

/-- A directory of the name is passed over, and the file above it decides, not the outermost one. -/
theorem search_nearest_above :
    let workers (text : String) := "[tool.quality-gate]\nworkers = " ++ text ++ "\n"
    let file (text : String) := FileEntry.file (Text.Utf8.encode (workers text).toList)
    let t : FileTree := ⟨[([projectFile], file "1"), (["a"], .directory),
      (["a", projectFile], file "2"), (["a", "b"], .directory),
      (["a", "b", projectFile], .directory)], []⟩
    search t (some (Path.ofString "a/b")) =
      .ok (.table [("workers", .int 2)], some (Path.ofString "/a")) := by
  intro workers file t
  have ht : t.IsProper := ⟨by decide +kernel, by decide +kernel, rfl⟩
  have hplace : startPlace t (some (Path.ofString "a/b")) = ["a", "b"] := by decide +kernel
  obtain ⟨-, hfound, -, -, -, hshort⟩ := search_nearest ht (some "a/b") (by
    rintro raw ⟨⟩
    decide)
  simp only [Option.map_some, hplace] at hfound hshort
  have hpath : ∀ e, e <+: ["a", "b"] → ¬ t.IsTooLong (projectPlace e) := fun e he hlong =>
    absurd (hshort rfl e he hlong) (by decide +kernel)
  have hfile : t.find? (projectPlace ["a"]) = some (file "2") := by decide +kernel
  have hdirectory : t.find? (projectPlace (["a"] ++ ["b"])) = some .directory := by decide +kernel
  have hdeepest : IsDeepest t ["a", "b"] ["a"] := by
    refine ⟨by decide, fun hpassed => hpassed.unopened _ hfile, fun e hde he hne => ?_⟩
    rcases List.prefix_concat_iff.mp (show e <+: ["a"] ++ ["b"] from he) with rfl | habove
    · refine ⟨hpath _ he, fun bytes hbytes => ?_⟩
      rw [hdirectory] at hbytes
      cases hbytes
    · exact absurd (habove.eq_of_length_le hde.length_le) hne
  have hload : Toml.load (Text.Utf8.encode (workers "2").toList) =
      .ok [("tool", .table [("quality-gate", .table [("workers", .int 2)])])] := by
    decide +kernel
  obtain ⟨-, hsearch⟩ := hfound ["a"] _ hdeepest (hpath _ hdeepest.above) hfile
  rw [hsearch _ hload (by rintro v ⟨⟩ ⟨-, hother⟩; exact hother _ rfl)]
  rfl

end LintGate.Settings
