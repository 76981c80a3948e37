import LintGate.Proofs.Lines
import LintGate.Proofs.Lookup
import Mathlib.Algebra.GroupWithZero.Nat
import Mathlib.Data.List.Infix

/-! # Proper trees

In a proper tree every entry stands in a directory, under names that an entry can have. There, what
stands at a place is found by following its names from the root, and it is looked up under the
absolute path of these names unless this path is too long to be asked for. A path that leads to some
place leads to the one that its names come to without looking.
-/

namespace LintGate

namespace Text

theorem splitAt_intercalate {sep : Char} {parts : List (List Char)} (hne : parts ≠ [])
    (h : ∀ part ∈ parts, sep ∉ part) : splitAt sep ([sep].intercalate parts) = parts := by
  induction parts with
  | nil => exact absurd rfl hne
  | cons part rest ih =>
    rw [List.forall_mem_cons] at h
    cases rest with
    | nil => rw [List.intercalate_singleton, splitAt_of_not_mem h.1]
    | cons next rest =>
      rw [List.intercalate_cons_cons, List.append_assoc, List.singleton_append,
        splitAt_append_cons, splitAt_of_not_mem h.1, ih (by simp) h.2, List.singleton_append]

theorem splitAt_replicate (sep : Char) (n : Nat) (text : List Char) :
    splitAt sep (List.replicate n sep ++ text) = List.replicate n [] ++ splitAt sep text := by
  induction n with
  | zero => rfl
  | succ n ih => simp [List.replicate_succ, splitAt, ih]

theorem head?_intercalate {sep : List Char} {part : List Char} (hne : part ≠ [])
    (rest : List (List Char)) : (sep.intercalate (part :: rest)).head? = part.head? := by
  cases rest with
  | nil => rw [List.intercalate_singleton]
  | cons next rest =>
    rw [List.intercalate_cons_cons, List.append_assoc, List.head?_append_of_ne_nil _ hne]

theorem getLast?_intercalate {sep : List Char} (front : List (List Char)) {part : List Char}
    (hne : part ≠ []) : (sep.intercalate (front ++ [part])).getLast? = part.getLast? := by
  induction front with
  | nil => rw [List.nil_append, List.intercalate_singleton]
  | cons first front ih =>
    cases front with
    | nil =>
      rw [List.singleton_append, List.intercalate_cons_cons, List.intercalate_singleton,
        List.getLast?_append_of_ne_nil _ hne]
    | cons next front =>
      rw [List.cons_append, List.cons_append, List.intercalate_cons_cons, ← List.cons_append,
        List.getLast?_append_of_ne_nil, ih]
      intro hnil
      rw [hnil] at ih
      exact hne (List.getLast?_eq_none_iff.mp ih.symm)

theorem not_mem_of_mem_splitAt {sep : Char} {text part : List Char} (h : part ∈ splitAt sep text) :
    sep ∉ part := by
  induction text generalizing part with
  | nil =>
    rw [splitAt, List.mem_singleton] at h
    simp [h]
  | cons c rest ih =>
    rw [splitAt] at h
    split_ifs at h with hc
    · rw [List.mem_cons] at h
      rcases h with rfl | h
      · simp
      · exact ih h
    · rcases mem_consLine h with h | ⟨front, rfl, rfl | hfront⟩
      · exact ih h
      · simpa using Ne.symm hc
      · simpa [Ne.symm hc] using ih hfront

theorem mem_of_mem_splitAt {sep c : Char} {text part : List Char} (h : part ∈ splitAt sep text)
    (hc : c ∈ part) : c ∈ text := by
  induction text generalizing part with
  | nil =>
    rw [splitAt, List.mem_singleton] at h
    simp [h] at hc
  | cons d rest ih =>
    rw [splitAt] at h
    split_ifs at h
    · rw [List.mem_cons] at h
      rcases h with rfl | h
      · cases hc
      · exact List.mem_cons_of_mem _ (ih h hc)
    · rcases mem_consLine h with h | ⟨front, rfl, hfront⟩
      · exact List.mem_cons_of_mem _ (ih h hc)
      · rcases List.mem_cons.mp hc with rfl | hc
        · exact List.mem_cons_self ..
        · rcases hfront with rfl | hfront
          · cases hc
          · exact List.mem_cons_of_mem _ (ih hfront hc)

end Text

namespace Path

/-- A path in normal form: every name stands between slashes and is not the point. -/
def IsNormal (p : Path) : Prop := ∀ name ∈ p.names, '/' ∉ name.toList ∧ name ≠ "" ∧ name ≠ "."

theorem isNormal_ofString (s : String) : (ofString s).IsNormal := by
  intro name hname
  simp only [ofString, segments, List.mem_filter, List.mem_map, Bool.and_eq_true, bne_iff_ne]
    at hname
  obtain ⟨⟨part, hpart, rfl⟩, hne, hpoint⟩ := hname
  exact ⟨by simpa using Text.not_mem_of_mem_splitAt hpart, hne, hpoint⟩

theorem mem_of_mem_names {s name : String} {c : Char} (hname : name ∈ (ofString s).names)
    (hc : c ∈ name.toList) : c ∈ s.toList := by
  simp only [ofString, segments, List.mem_filter, List.mem_map] at hname
  obtain ⟨⟨part, hpart, rfl⟩, -⟩ := hname
  exact Text.mem_of_mem_splitAt hpart (by simpa using hc)

variable {p : Path}

theorem toList_toString (h : p.slashes ≠ 0 ∨ p.names ≠ []) :
    p.toString.toList =
      List.replicate p.slashes '/' ++ ['/'].intercalate (p.names.map String.toList) := by
  rw [toString, if_neg (by simpa [Classical.or_iff_not_imp_left] using h)]
  simp [String.toList_intercalate]

section Normal

variable (hp : p.IsNormal)

include hp

theorem IsNormal.not_mem_part : ∀ part ∈ p.names.map String.toList, '/' ∉ part := by
  intro part hpart
  obtain ⟨name, hname, rfl⟩ := List.mem_map.mp hpart
  exact (hp name hname).1

theorem IsNormal.names_eq (slashes : Nat) :
    FileTree.names (List.replicate slashes '/' ++
      ['/'].intercalate (p.names.map String.toList)) = p.names := by
  rw [FileTree.names, Text.splitAt_replicate, List.map_append, List.filter_append]
  have hleading : ((List.replicate slashes ([] : List Char)).map String.ofList).filter
      (· != "") = [] := by simp
  rw [hleading, List.nil_append]
  cases hnames : p.names with
  | nil => rfl
  | cons first rest =>
    rw [← hnames, Text.splitAt_intercalate (by simp [hnames]) hp.not_mem_part, List.map_map]
    simp only [Function.comp_def, String.ofList_toList, List.map_id']
    rw [List.filter_eq_self]
    intro name hname
    simpa using (hp name hname).2.1

theorem IsNormal.route (t : FileTree) :
    t.route p.toString = (if p.slashes = 0 then t.working else [],
      if p.slashes = 0 ∧ p.names = [] then ["."] else p.names) := by
  by_cases hempty : p.slashes = 0 ∧ p.names = []
  · obtain ⟨hslashes, hnames⟩ := hempty
    simp [FileTree.route, toString, hslashes, hnames, Text.splitAt, Text.consLine]
  · have htext := toList_toString (p := p) (by
      simpa [Classical.or_iff_not_imp_left] using hempty)
    rw [FileTree.route_eq, htext, if_neg hempty, hp.names_eq]
    congr 1
    cases hslashes : p.slashes with
    | succ n => simp [List.replicate_succ]
    | zero =>
      obtain ⟨first, rest, hnames⟩ := List.exists_cons_of_ne_nil
        (fun hnames => hempty ⟨hslashes, hnames⟩)
      obtain ⟨hslash, hne, -⟩ := hp first (by simp [hnames])
      rw [hnames, List.map_cons, List.replicate_zero, List.nil_append,
        Text.head?_intercalate (by simpa using hne), if_neg, if_pos rfl]
      exact fun hhead => hslash (List.mem_of_head? hhead)

theorem IsNormal.steps (t : FileTree) :
    FileTree.steps p.toString (t.route p.toString).2 =
      if p.names = [] then ["."] else p.names := by
  rw [hp.route, FileTree.steps]
  by_cases hempty : p.slashes = 0 ∧ p.names = []
  · obtain ⟨hslashes, hnames⟩ := hempty
    simp [toString, hslashes, hnames]
  · rw [toList_toString (p := p) (by simpa [Classical.or_iff_not_imp_left] using hempty),
      if_neg hempty]
    rcases List.eq_nil_or_concat' p.names with hnames | ⟨front, last, hnames⟩
    · have hslashes : p.slashes ≠ 0 := fun hslashes => hempty ⟨hslashes, hnames⟩
      simp [hnames, List.intercalate_nil, List.getLast?_replicate, hslashes]
    · obtain ⟨hslash, hne, -⟩ := hp last (by simp [hnames])
      have hchars : last.toList ≠ [] := by simpa using hne
      have hend : last.toList.getLast? ≠ some '/' := fun hend =>
        hslash (List.mem_of_getLast? hend)
      rw [hnames, List.map_append, List.map_singleton, List.getLast?_append,
        Text.getLast?_intercalate _ hchars]
      cases hlast : last.toList.getLast? with
      | none => exact absurd (List.getLast?_eq_none_iff.mp hlast) hchars
      | some c =>
        rw [hlast] at hend
        rw [Option.some_or, if_neg hend]
        exact (if_neg (by simp)).symm

end Normal

theorem foldl_collapse {names : List String} (h : ".." ∉ names) (back : List String) :
    names.foldl (fun back name => if name == ".." then back.tail else name :: back) back =
      names.reverse ++ back := by
  induction names generalizing back with
  | nil => rfl
  | cons name rest ih =>
    rw [List.mem_cons, not_or] at h
    rw [List.foldl_cons, if_neg (by simpa using Ne.symm h.1), ih h.2]
    simp

theorem collapse_eq_self {names : List String} (h : ".." ∉ names) : collapse names = names := by
  rw [collapse, foldl_collapse h, List.append_nil, List.reverse_reverse]

theorem collapse_up {names : List String} (h : ".." ∉ names) (rest : List String) :
    collapse (names ++ ".." :: rest) = collapse (names.dropLast ++ rest) := by
  have hbefore : ".." ∉ names.dropLast := fun hmem => h (List.mem_of_mem_dropLast hmem)
  rw [collapse, collapse, List.foldl_append, List.foldl_append, foldl_collapse h,
    foldl_collapse hbefore]
  simp

theorem mem_collapse {names : List String} {name : String} (h : name ∈ collapse names) :
    name ∈ names ∧ name ≠ ".." := by
  have hfold : ∀ back, name ∈ names.foldl
      (fun back name => if name == ".." then back.tail else name :: back) back →
        name ∈ back ∨ name ∈ names ∧ name ≠ ".." := by
    clear h
    induction names with
    | nil => exact fun back h => .inl h
    | cons first rest ih =>
      intro back h
      rcases ih _ h with h | ⟨h, hne⟩
      · by_cases hup : first = ".."
        · simp only [hup, beq_self_eq_true, if_true] at h
          exact .inl (List.mem_of_mem_tail h)
        · simp only [beq_iff_eq, hup, if_false, List.mem_cons] at h
          rcases h with rfl | h
          · exact .inr ⟨List.mem_cons_self .., hup⟩
          · exact .inl h
      · exact .inr ⟨List.mem_cons_of_mem _ h, hne⟩
  rw [collapse, List.mem_reverse] at h
  simpa using hfold [] h

def ofPlace (place : Place) : Path := ⟨1, place⟩

theorem toList_ofPlace (place : Place) :
    (ofPlace place).toString.toList = '/' :: ['/'].intercalate (place.map String.toList) :=
  toList_toString (.inl Nat.one_ne_zero)

theorem toString_ofPlace (place : Place) :
    (ofPlace place).toString = "/" ++ "/".intercalate place := by
  rw [toString, if_neg (by simp [ofPlace])]
  rfl

theorem utf8ByteSize_intercalate (first : String) (rest : List String) :
    ("/".intercalate (first :: rest)).utf8ByteSize + 1 =
      ((first :: rest).map (·.utf8ByteSize + 1)).sum := by
  induction rest generalizing first with
  | nil => simp
  | cons next rest ih =>
    rw [String.intercalate_cons_cons, List.map_cons, List.sum_cons, ← ih]
    simp only [String.utf8ByteSize_append]
    have hslash : "/".utf8ByteSize = 1 := by decide
    omega

theorem utf8ByteSize_ofPlace {place : Place} (h : place ≠ []) :
    (ofPlace place).toString.utf8ByteSize = (place.map (·.utf8ByteSize + 1)).sum := by
  obtain ⟨first, rest, rfl⟩ := List.exists_cons_of_ne_nil h
  have hslash : "/".utf8ByteSize = 1 := by decide
  rw [toString_ofPlace, String.utf8ByteSize_append, hslash, ← utf8ByteSize_intercalate]
  omega

end Path

namespace FileTree

variable {t : FileTree} {place names : Place} {entry : FileEntry}

def isEntryName (name : String) : Bool :=
  isPlain name && !name.toList.contains '\x00' && name.utf8ByteSize ≤ nameLimit

/-- Every entry stands in a directory, and so does the working directory unless it is the root. -/
structure IsProper (t : FileTree) : Prop where
  named : ∀ e ∈ t.entries, ∀ name ∈ e.1, isEntryName name = true
  inDirectory : ∀ e ∈ t.entries, t.find? e.1.dropLast = some .directory
  working : t.find? t.working = some .directory

theorem mem_entries_of_find? (h : t.find? place = some entry) (hne : place ≠ []) :
    (place, entry) ∈ t.entries := by
  cases place with
  | nil => exact absurd rfl hne
  | cons name rest =>
    obtain ⟨before, behind, hentries, -⟩ := List.lookup_eq_some_iff.mp h
    simp [hentries]

theorem IsProper.isEntryName (ht : t.IsProper) (h : t.find? place = some entry) :
    ∀ name ∈ place, isEntryName name = true := by
  intro name hname
  exact ht.named _ (mem_entries_of_find? h (List.ne_nil_of_mem hname)) name hname

theorem IsProper.directory_above (ht : t.IsProper) {above : Place}
    (h : t.find? (above ++ names) = some entry) (hne : names ≠ []) :
    t.find? above = some .directory := by
  induction names using List.reverseRecOn generalizing entry with
  | nil => exact absurd rfl hne
  | append_singleton names name ih =>
    have hparent : t.find? (above ++ names) = some .directory := by
      have hmem := mem_entries_of_find? h (by simp)
      simpa [← List.append_assoc] using ht.inDirectory _ hmem
    by_cases hnames : names = []
    · simpa [hnames] using hparent
    · exact ih hparent hnames

theorem follow_point {start q : Place} (h : t.follow start ["."] = .ok q) : q = start := by
  rw [follow_cons] at h
  cases hfind : t.find? start with
  | none => simp [hfind] at h
  | some entry => cases entry <;> simp_all [follow_nil]

theorem isEntryName_iff {name : String} :
    isEntryName name = true ↔
      isPlain name = true ∧ '\x00' ∉ name.toList ∧ name.utf8ByteSize ≤ nameLimit := by
  simp [isEntryName, and_assoc]

/-- In a directory that is there, the names ask for one that is longer than a name can be. -/
def HasLongName (t : FileTree) (start : Place) (names : List String) : Prop :=
  ∃ above name, above ++ [name] <+: names ∧ t.find? (start ++ above) = some .directory ∧
    nameLimit < name.utf8ByteSize

theorem hasLongName_cons {start : Place} {name : String} {rest : List String} :
    t.HasLongName start (name :: rest) ↔
      t.find? start = some .directory ∧ nameLimit < name.utf8ByteSize ∨
        t.HasLongName (start ++ [name]) rest := by
  constructor
  · rintro ⟨_ | ⟨first, above⟩, long, hbefore, hdirectory, hlong⟩
    · obtain ⟨rfl, -⟩ := List.cons_prefix_cons.mp hbefore
      exact .inl ⟨by simpa using hdirectory, hlong⟩
    · obtain ⟨rfl, hrest⟩ := List.cons_prefix_cons.mp hbefore
      exact .inr ⟨above, long, hrest, by simpa using hdirectory, hlong⟩
  · rintro (⟨hdirectory, hlong⟩ | ⟨above, long, hbefore, hdirectory, hlong⟩)
    · exact ⟨[], name, by simp, by simpa using hdirectory, hlong⟩
    · refine ⟨name :: above, long, ?_, by simpa using hdirectory, hlong⟩
      exact List.cons_prefix_cons.mpr ⟨rfl, hbefore⟩

theorem IsProper.directory_of_hasLongName (ht : t.IsProper) {start : Place} {names : List String}
    (h : t.HasLongName start names) : t.find? start = some .directory := by
  obtain ⟨above, -, -, hdirectory, -⟩ := h
  cases above with
  | nil => simpa using hdirectory
  | cons name above => exact ht.directory_above hdirectory (by simp)

/-- What stands at a place is found by its names. -/
theorem IsProper.follow_of_find? (ht : t.IsProper) {start : Place} {names : List String}
    (h : t.find? (start ++ names) = some entry) : t.follow start names = .ok (start ++ names) := by
  induction names generalizing start with
  | nil => rw [follow_nil, List.append_nil]
  | cons name rest ih =>
    have hdirectory : t.find? start = some .directory := ht.directory_above h (by simp)
    obtain ⟨hplain, -, hshort⟩ := isEntryName_iff.mp (ht.isEntryName h name (by simp))
    obtain ⟨-, -, hpoint, hup⟩ := isPlain_iff.mp hplain
    rw [← List.singleton_append, ← List.append_assoc] at h
    have hthere : (t.find? (start ++ [name])).isSome = true := by
      cases rest with
      | nil => rw [List.append_nil] at h; rw [h]; rfl
      | cons next rest => rw [ht.directory_above h (by simp)]; rfl
    rw [follow_cons, hdirectory]
    simp only [if_neg hpoint, if_neg hup, if_neg (Nat.not_lt.mpr hshort), hthere, if_true, ih h]
    simp

/-- Names of a place where nothing stands lead nowhere, and one of them may be too long to ask. -/
theorem IsProper.follow_of_find?_none (ht : t.IsProper) {start : Place} {names : List String}
    (hplain : ∀ name ∈ names, isPlain name = true) (hne : names ≠ [])
    (h : t.find? (start ++ names) = none) :
    ∃ cause, t.follow start names = .error cause ∧
      (cause = .nameTooLong ↔ t.HasLongName start names) := by
  induction names generalizing start with
  | nil => exact absurd rfl hne
  | cons name rest ih =>
    rw [List.forall_mem_cons] at hplain
    obtain ⟨-, -, hpoint, hup⟩ := isPlain_iff.mp hplain.1
    have hnext : t.HasLongName (start ++ [name]) rest → t.find? (start ++ [name]) ≠ none ∧
        t.find? start = some .directory := by
      intro hlong
      have hdirectory := ht.directory_of_hasLongName hlong
      exact ⟨by simp [hdirectory], ht.directory_above hdirectory (by simp)⟩
    rw [follow_cons, hasLongName_cons]
    cases hstart : t.find? start with
    | none => exact ⟨_, rfl, by simpa [hstart] using fun hlong => (hnext hlong).2⟩
    | some entry =>
      cases entry with
      | file content => exact ⟨_, rfl, by simpa [hstart] using fun hlong => (hnext hlong).2⟩
      | directory =>
        simp only [if_neg hpoint, if_neg hup, true_and]
        by_cases hlong : nameLimit < name.utf8ByteSize
        · exact ⟨_, by rw [if_pos hlong], by simp [hlong]⟩
        · simp only [hlong, false_or]
          cases hthere : t.find? (start ++ [name]) with
          | none => exact ⟨_, rfl, by simpa [hthere] using fun hlong => (hnext hlong).1⟩
          | some entry =>
            rw [← List.singleton_append, ← List.append_assoc] at h
            refine ih hplain.2 ?_ h
            rintro rfl
            rw [List.append_nil, hthere] at h
            cases h

/-- Names lead to the place that they come to without looking, if they lead anywhere. -/
theorem collapse_of_follow {start : Place} {names : List String} {q : Place}
    (hstart : ".." ∉ start) (hnames : "." ∉ names) (h : t.follow start names = .ok q) :
    Path.collapse (start ++ names) = q := by
  induction names generalizing start with
  | nil =>
    rw [follow_nil] at h
    cases h
    rw [List.append_nil, Path.collapse_eq_self hstart]
  | cons name rest ih =>
    rw [List.mem_cons, not_or] at hnames
    rw [follow_cons] at h
    cases hfind : t.find? start with
    | none => simp [hfind] at h
    | some entry =>
      cases entry with
      | file content => simp [hfind] at h
      | directory =>
        simp only [hfind, if_neg (Ne.symm hnames.1)] at h
        by_cases hup : name = ".."
        · have hbefore : ".." ∉ start.dropLast := fun hmem => hstart (List.mem_of_mem_dropLast hmem)
          rw [if_pos hup] at h
          rw [hup, Path.collapse_up hstart, ih hbefore hnames.2 h]
        · have hnext : ".." ∉ start ++ [name] := by simp [hstart, Ne.symm hup]
          rw [if_neg hup] at h
          split_ifs at h
          rw [← ih hnext hnames.2 h, List.append_assoc, List.singleton_append]

def IsPlainPlace (place : Place) : Prop :=
  ∀ name ∈ place, isPlain name = true ∧ '\x00' ∉ name.toList

/-- A place cannot be asked for: its path is too long, or one of its names. -/
def IsTooLong (t : FileTree) (place : Place) : Prop :=
  pathLimit < (Path.ofPlace place).toString.utf8ByteSize ∨ t.HasLongName [] place

section Look

variable (ht : t.IsProper) (hne : place ≠ []) (hnames : IsPlainPlace place)

include hnames hne

/-- Only its length keeps the path of a place from being followed name by name. -/
theorem resolve_ofPlace (t : FileTree) :
    t.resolve (Path.ofPlace place).toString =
      if pathLimit < (Path.ofPlace place).toString.utf8ByteSize then .error .nameTooLong
      else
        match t.follow [] place with
        | .error cause => .error cause
        | .ok q => if (t.find? q).isSome then .ok q else .error .notFound := by
  have hnormal : (Path.ofPlace place).IsNormal := by
    intro name hname
    obtain ⟨hslash, hempty, hpoint, -⟩ := isPlain_iff.mp (hnames name hname).1
    exact ⟨hslash, hempty, hpoint⟩
  have hchars : (Path.ofPlace place).toString.toList.contains '\x00' = false := by
    rw [List.contains_eq_mem, decide_eq_false_iff_not, Path.toList_ofPlace, List.mem_cons, not_or]
    refine ⟨by decide, fun hmem => ?_⟩
    rcases Text.mem_intercalate hmem with hslash | ⟨part, hpart, hmem⟩
    · exact absurd hslash (by decide)
    · obtain ⟨name, hname, rfl⟩ := List.mem_map.mp hpart
      exact (hnames name hname).2 hmem
  have hsome : (Path.ofPlace place).toString ≠ "" := by
    intro hempty
    have htext := Path.toList_ofPlace place
    rw [hempty] at htext
    cases htext
  have hsteps : steps (Path.ofPlace place).toString (t.route (Path.ofPlace place).toString).2 =
      place := (hnormal.steps t).trans (if_neg hne)
  have hroute : (t.route (Path.ofPlace place).toString).1 = [] := by
    rw [hnormal.route]
    rfl
  rw [resolve_eq, hsteps, hroute, refusal?, hchars]
  simp only [Bool.false_eq_true, if_false, if_neg hsome]
  split_ifs <;> rfl

include ht

/-- A place is looked up under its path. -/
theorem look_ofPlace (h : ¬ t.IsTooLong place) :
    t.look (Path.ofPlace place).toString = .ok (t.find? place) := by
  rw [IsTooLong, not_or] at h
  rw [look, resolve_ofPlace hne hnames, if_neg h.1]
  cases hfind : t.find? place with
  | some entry =>
    have hfollow : t.follow [] place = .ok place := ht.follow_of_find? (by simpa using hfind)
    simp only [hfollow, hfind, Option.isSome_some, if_true]
  | none =>
    obtain ⟨cause, hfollow, hcause⟩ := ht.follow_of_find?_none (fun name h => (hnames name h).1) hne
      (show t.find? ([] ++ place) = none from hfind)
    rw [hfollow]
    cases cause with
    | nameTooLong => exact absurd (hcause.mp rfl) h.2
    | _ => rfl

theorem look_ofPlace_of_isTooLong (h : t.IsTooLong place) :
    t.look (Path.ofPlace place).toString =
      .error ⟨.nameTooLong, (Path.ofPlace place).toString⟩ := by
  rw [look, resolve_ofPlace hne hnames]
  by_cases hlong : pathLimit < (Path.ofPlace place).toString.utf8ByteSize
  · rw [if_pos hlong]
  · have hname : t.HasLongName [] place := h.resolve_left hlong
    have hnone : t.find? place = none := by
      by_contra hsome
      obtain ⟨entry, hentry⟩ := Option.ne_none_iff_exists'.mp hsome
      obtain ⟨above, name, ⟨rest, hplace⟩, -, hlong⟩ := hname
      have hentryName := ht.isEntryName hentry name (by simp [← hplace])
      exact Nat.not_lt.mpr (isEntryName_iff.mp hentryName).2.2 hlong
    obtain ⟨cause, hfollow, hcause⟩ := ht.follow_of_find?_none (fun name h => (hnames name h).1) hne
      (show t.find? ([] ++ place) = none from hnone)
    rw [if_neg hlong, hfollow, hcause.mpr hname]

end Look

end FileTree

end LintGate
