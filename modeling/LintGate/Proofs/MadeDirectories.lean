import LintGate.FileTree.Directories
import LintGate.Proofs.WrittenFile
import Mathlib.Data.List.DropRight

/-! # Directories made along a path

What there was stays as it is when a directory and those above it are made, also where this fails
half-way, and all that is new are directories on the way of the path. Where the path leads to a
directory already, nothing is made.
-/

namespace LintGate.FileTree

theorem names_rdropWhile (path : List Char) : names (path.rdropWhile (· == '/')) = names path := by
  induction path using List.reverseRecOn with
  | nil => rfl
  | append_singleton front c ih =>
    by_cases hc : c = '/'
    · rw [hc, List.rdropWhile_concat_pos _ _ _ (by simp), ih, names_append_slash, names_nil,
        List.append_nil]
    · rw [List.rdropWhile_concat_neg _ _ _ (by simpa using hc)]

/-- The path begins with this, and its names with the names of this. -/
structure IsFront (front path : List Char) : Prop where
  chars : front <+: path
  names : names front <+: FileTree.names path

namespace IsFront

variable {front path : List Char}

theorem trans {more : List Char} (h : IsFront front path) (h' : IsFront path more) :
    IsFront front more := ⟨h.chars.trans h'.chars, h.names.trans h'.names⟩

theorem rdropWhile (path : List Char) : IsFront (path.rdropWhile (· != '/')) path := by
  refine ⟨List.rdropWhile_prefix _ _, ?_⟩
  obtain ⟨last, hpath⟩ := List.rdropWhile_prefix (· != '/') path
  rcases List.eq_nil_or_concat (path.rdropWhile (· != '/')) with hfront | ⟨front, c, hfront⟩
  · rw [hfront]
    exact List.nil_prefix
  · have hne : path.rdropWhile (· != '/') ≠ [] := by simp [hfront]
    have hslash := List.rdropWhile_last_not (· != '/') path hne
    simp only [hfront, List.concat_eq_append, List.getLast_append_singleton, bne_iff_ne, ne_eq,
      Decidable.not_not] at hslash
    rw [List.concat_eq_append, hslash] at hfront
    rw [hfront, List.append_assoc, List.singleton_append] at hpath
    rw [hfront, ← hpath, names_append_slash, names_append_slash, names_nil, List.append_nil]
    exact List.prefix_append _ _

theorem splitLast (path : List Char) : IsFront (splitLast path).1 path := by
  have hfront := rdropWhile path
  have hhead : IsFront ((path.rdropWhile (· != '/')).rdropWhile (· == '/')) path :=
    ⟨(List.rdropWhile_prefix _ _).trans hfront.chars, by rw [names_rdropWhile]; exact hfront.names⟩
  rw [FileTree.splitLast]
  simp only
  split_ifs
  · exact hfront
  · rw [List.rdropWhile, List.rdropWhile, List.reverse_reverse] at hhead
    exact hhead

theorem splitDirectory (path : List Char) : IsFront (splitDirectory path).1 path := by
  rw [FileTree.splitDirectory]
  split_ifs
  · exact (splitLast _).trans (splitLast path)
  · exact splitLast path

end IsFront

variable {t u v : FileTree} {q : Place}

theorem IsFront.route {front path : List Char} (h : IsFront front path) (hne : front ≠ []) :
    (t.route (.ofList front)).1 = (t.route (.ofList path)).1 ∧
      (t.route (.ofList front)).2 <+: (t.route (.ofList path)).2 := by
  obtain ⟨behind, hpath⟩ := h.chars
  rw [route_eq, route_eq, String.toList_ofList, String.toList_ofList, ← hpath,
    List.head?_append_of_ne_nil _ hne, hpath]
  exact ⟨rfl, h.names⟩

theorem IsFront.refusal? {front path : List Char} (h : IsFront front path) (hne : front ≠ [])
    (hpath : refusal? (.ofList path) = none) : refusal? (.ofList front) = none := by
  obtain ⟨behind, rfl⟩ := h.chars
  rw [FileTree.refusal?] at hpath ⊢
  split_ifs at hpath with hnul _ hlong
  simp only [String.toList_ofList, List.contains_eq_mem, List.mem_append, decide_eq_true_eq,
    not_or] at hnul
  rw [String.ofList_append, String.utf8ByteSize_append] at hlong
  rw [if_neg (by simpa using hnul.1), if_neg (by simpa using hne), if_neg (by omega)]

def OnWay (t : FileTree) (path : String) (q : Place) : Prop :=
  ∃ names, names <+: (t.route path).2 ∧ t.follow (t.route path).1 names = .ok q

theorem OnWay.mono {path : String} (h : t.OnWay path q) (hu : t.Within u) : u.OnWay path q := by
  obtain ⟨names, hprefix, hfollow⟩ := h
  rw [OnWay, hu.route]
  exact ⟨names, hprefix, hu.follow hfollow⟩

theorem OnWay.of_front {front path : List Char} (h : t.OnWay (.ofList front) q)
    (hfront : IsFront front path) (hne : front ≠ []) : t.OnWay (.ofList path) q := by
  obtain ⟨names, hprefix, hfollow⟩ := h
  obtain ⟨hstart, hnames⟩ := hfront.route (t := t) hne
  rw [hstart] at hfollow
  exact ⟨names, hprefix.trans hnames, hfollow⟩

/-- The second tree is the first one with directories more, on the way of the path. -/
structure MadeAlong (t : FileTree) (path : String) (u : FileTree) : Prop where
  working : u.working = t.working
  find : ∀ q, u.find? q = t.find? q ∨
    t.find? q = none ∧ u.find? q = some .directory ∧ u.OnWay path q

namespace MadeAlong

variable {path : String}

theorem refl (t : FileTree) (path : String) : t.MadeAlong path t := ⟨rfl, fun _ => .inl rfl⟩

theorem within (h : t.MadeAlong path u) : t.Within u where
  working := h.working
  there q hq := by
    rcases h.find q with hsame | ⟨-, hmade, -⟩
    · rwa [hsame]
    · rw [hmade]
      rfl
  directory q hq := by
    rcases h.find q with hsame | ⟨-, hmade, -⟩
    · rwa [hsame]
    · exact hmade

theorem trans (h : t.MadeAlong path u) (h' : u.MadeAlong path v) : t.MadeAlong path v where
  working := h'.working.trans h.working
  find q := by
    rcases h'.find q with hsame' | ⟨hnone, hmade⟩
    · rw [hsame']
      exact (h.find q).imp_right fun ⟨hnone, hmade, hway⟩ =>
        ⟨hnone, hmade, hway.mono h'.within⟩
    · rcases h.find q with hsame | ⟨-, hthere, -⟩
      · rw [← hsame]
        exact .inr ⟨hnone, hmade⟩
      · rw [hthere] at hnone
        cases hnone

theorem of_front {front path : List Char} (h : t.MadeAlong (.ofList front) u)
    (hfront : IsFront front path) (hne : front ≠ []) : t.MadeAlong (.ofList path) u where
  working := h.working
  find q := (h.find q).imp_right fun ⟨hnone, hmade, hway⟩ =>
    ⟨hnone, hmade, hway.of_front hfront hne⟩

theorem find_file (h : t.MadeAlong path u) (q : Place) (content : List UInt8) :
    u.find? q = some (.file content) ↔ t.find? q = some (.file content) := by
  rcases h.find q with hsame | ⟨hnone, hmade, -⟩
  · rw [hsame]
  · simp [hnone, hmade]

theorem contentAt (h : t.MadeAlong path u) (q : Place) : u.contentAt q = t.contentAt q := by
  rw [FileTree.contentAt, FileTree.contentAt]
  rcases h.find q with hsame | ⟨hnone, hmade, -⟩
  · rw [hsame]
  · rw [hnone, hmade]

/-- Each directory that is new is on the way of the path. -/
theorem onWay (h : t.MadeAlong path u) (hq : u.find? q = some .directory) :
    t.find? q = some .directory ∨ t.find? q = none ∧ u.OnWay path q := by
  rcases h.find q with hsame | ⟨hnone, -, hway⟩
  · exact .inl (by rw [← hsame, hq])
  · exact .inr ⟨hnone, hway⟩

end MadeAlong

section Made

variable {path : String}

theorem makeDirectory_eq_ok (h : t.makeDirectory path = .ok u) :
    ∃ above last, t.parent path = .ok (some (above, last)) ∧ last ≠ "." ∧ last ≠ ".." ∧
      t.find? (above ++ [last]) = none ∧ u = t.put (above ++ [last]) .directory := by
  rw [makeDirectory] at h
  rcases hparent : t.parent path with cause | _ | ⟨above, last⟩
  · simp [hparent] at h
  · simp [hparent] at h
  · simp only [hparent] at h
    split_ifs at h with hthere
    simp only [Bool.or_eq_true, decide_eq_true_eq, not_or, Bool.not_eq_true,
      Option.isSome_eq_false_iff, Option.isNone_iff_eq_none] at hthere
    cases h
    exact ⟨above, last, rfl, hthere.1.1, hthere.1.2, hthere.2, rfl⟩

/-- A directory that was made is where the path leads to. -/
theorem madeAlong_of_makeDirectory (h : t.makeDirectory path = .ok u) : t.MadeAlong path u := by
  obtain ⟨above, last, hparent, hpoint, hup, hnone, rfl⟩ := makeDirectory_eq_ok h
  obtain ⟨-, hlast, hfollow, hdirectory, hshort⟩ := parent_eq_ok_iff.mp hparent
  have hroot : above ++ [last] ≠ [] := by simp
  have hwithin : t.Within (t.put (above ++ [last]) .directory) :=
    within_put hroot (by simp [hnone]) _
  have hmade : (t.put (above ++ [last]) .directory).find? (above ++ [last]) = some .directory := by
    rw [find?_put hroot, if_pos rfl]
  refine ⟨rfl, fun q => ?_⟩
  by_cases hq : q = above ++ [last]
  · refine .inr ⟨by rw [hq, hnone], by rw [hq, hmade], (t.route path).2, List.prefix_rfl, ?_⟩
    have hnames : (t.route path).2 = (t.route path).2.dropLast ++ [last] :=
      (List.dropLast_append_getLast? last hlast).symm
    rw [hwithin.route, hnames, follow_append, hwithin.follow hfollow, hq]
    simp [follow_cons, hwithin.directory above hdirectory, hpoint, hup, not_lt.mpr hshort, hmade,
      follow_nil]
  · exact .inl (by rw [find?_put hroot, if_neg hq])

theorem ensureDirectory_madeAlong (t : FileTree) (path : String) :
    t.MadeAlong path (t.ensureDirectory path).1 := by
  rw [ensureDirectory]
  cases hmake : t.makeDirectory path with
  | error fault => exact .refl t path
  | ok made => exact madeAlong_of_makeDirectory hmake

end Made

/-- Nothing but directories on the way of the path is new, whether all of them are made or not. -/
theorem makeDirectories_madeAlong (t : FileTree) (path : List Char) :
    t.MadeAlong (.ofList path) (t.makeDirectories path).1 := by
  have habove : ∀ {path made}, (splitDirectory path).1 ≠ [] →
      t.MadeAlong (.ofList (splitDirectory path).1) made → t.MadeAlong (.ofList path) made :=
    fun hne hmade => hmade.of_front (.splitDirectory _) hne
  fun_induction makeDirectories t path with
  | case1 path head tail h made hmade _ ih =>
    rw [hmade] at ih
    exact habove h.1 ih
  | case2 path head tail h made hmade _ ih =>
    rw [hmade] at ih
    exact (habove h.1 ih).trans (ensureDirectory_madeAlong made _)
  | case3 path head tail h made fault hmade _ _ ih =>
    rw [hmade] at ih
    exact habove h.1 ih
  | case4 path head tail h made fault hmade _ _ ih =>
    rw [hmade] at ih
    exact (habove h.1 ih).trans (ensureDirectory_madeAlong made _)
  | case5 path head tail h made fault hmade _ ih =>
    rw [hmade] at ih
    exact habove h.1 ih
  | case6 path => exact ensureDirectory_madeAlong t _

section There

theorem not_contains_of_makeDirectory {path : String} (h : t.makeDirectory path = .ok u) :
    t.contains path = false := by
  obtain ⟨above, last, hparent, hpoint, hup, hnone, rfl⟩ := makeDirectory_eq_ok h
  obtain ⟨-, hlast, habove, hdirectory, hshort⟩ := parent_eq_ok_iff.mp hparent
  rw [Bool.eq_false_iff]
  intro hcontains
  rw [contains, at?] at hcontains
  cases hresolve : t.resolve path with
  | error cause => simp [hresolve] at hcontains
  | ok place =>
    obtain ⟨-, hfollow⟩ := resolve_eq_ok hresolve
    obtain ⟨more, hmore⟩ : ∃ more, steps path (t.route path).2 = (t.route path).2 ++ more := by
      rw [steps]
      split_ifs
      · exact ⟨["."], rfl⟩
      · exact ⟨[], by simp⟩
    have hnames : (t.route path).2 = (t.route path).2.dropLast ++ [last] :=
      (List.dropLast_append_getLast? last hlast).symm
    rw [hmore, hnames, List.append_assoc, follow_append, habove, List.singleton_append] at hfollow
    simp [follow_cons, hdirectory, hpoint, hup, hnone, not_lt.mpr hshort] at hfollow

theorem ensureDirectory_of_isDirectory {path : String} (h : t.isDirectory path = true) :
    t.ensureDirectory path = (t, none) := by
  rw [ensureDirectory]
  cases hmake : t.makeDirectory path with
  | error fault => simp [h]
  | ok made =>
    have hcontains := not_contains_of_makeDirectory hmake
    rw [isDirectory, beq_iff_eq] at h
    rw [contains, h] at hcontains
    cases hcontains

variable {path : List Char}

theorem makeDirectories_of_isDirectory (h : t.isDirectory (String.ofList path) = true)
    (habove : (splitDirectory path).1 = [] ∨
      t.contains (String.ofList (splitDirectory path).1) = true) :
    t.makeDirectories path = (t, none) := by
  rw [makeDirectories, dif_neg, ensureDirectory_of_isDirectory h]
  rintro ⟨hne, -, hmissing⟩
  rcases habove with habove | habove
  · exact hne habove
  · rw [habove] at hmissing
    cases hmissing

theorem isDirectory_of_follow {path : String} (hrefusal : refusal? path = none)
    (hfollow : t.follow (t.route path).1 (t.route path).2 = .ok q)
    (hdirectory : t.find? q = some .directory) : t.isDirectory path = true := by
  have hsteps : t.follow (t.route path).1 (steps path (t.route path).2) = .ok q := by
    rw [steps]
    split_ifs
    · rw [follow_append, hfollow]
      simp [follow_cons, hdirectory, follow_nil]
    · exact hfollow
  rw [isDirectory, at?, resolve_eq, hrefusal, hsteps]
  simp [hdirectory]

/-- On the way to a directory there are directories only. -/
theorem directory_of_follow_append {start : Place} {front behind : List String}
    (h : t.follow start (front ++ behind) = .ok q) (hdirectory : t.find? q = some .directory) :
    ∃ p, t.follow start front = .ok p ∧ t.find? p = some .directory := by
  rw [follow_append] at h
  cases hfront : t.follow start front with
  | error cause => simp [hfront] at h
  | ok p =>
    simp only [hfront] at h
    refine ⟨p, rfl, ?_⟩
    cases behind with
    | nil =>
      rw [follow_nil] at h
      cases h
      exact hdirectory
    | cons name rest =>
      rw [follow_cons] at h
      cases hfind : t.find? p with
      | none => simp [hfind] at h
      | some entry =>
        cases entry with
        | file content => simp [hfind] at h
        | directory => rfl

theorem above_of_follow (hrefusal : refusal? (.ofList path) = none)
    (hfollow : t.follow (t.route (.ofList path)).1 (t.route (.ofList path)).2 = .ok q)
    (hdirectory : t.find? q = some .directory) :
    (splitDirectory path).1 = [] ∨
      t.contains (String.ofList (splitDirectory path).1) = true := by
  by_cases hne : (splitDirectory path).1 = []
  · exact .inl hne
  · have hfront := IsFront.splitDirectory path
    obtain ⟨hstart, behind, hnames⟩ := hfront.route (t := t) hne
    rw [← hnames, ← hstart] at hfollow
    obtain ⟨p, hp, hthere⟩ := directory_of_follow_append hfollow hdirectory
    have hhead := isDirectory_of_follow (hfront.refusal? hne hrefusal) hp hthere
    rw [isDirectory, beq_iff_eq] at hhead
    rw [contains, hhead]
    exact .inr rfl

theorem makeDirectories_nil (t : FileTree) : (t.makeDirectories []).2 ≠ none := by
  rw [makeDirectories, dif_neg fun h => h.1 rfl]
  exact nofun

end There

end LintGate.FileTree
