import LintGate.Fixture
import LintGate.Proofs.Fallible

/-! # What is found in a file tree

A path is followed name by name from a place, and where it ends in a plain name, this is the last
name of the place that it leads to. A file can be read just in case it is found, and what is
required of a path depends on nothing but what is found there. The expectations of a fixture
therefore depend on one path only.
-/

namespace LintGate

namespace Text

theorem splitAt_ne_nil (sep : Char) (xs : List Char) : splitAt sep xs ≠ [] := by
  cases xs with
  | nil => simp [splitAt]
  | cons c xs =>
    rw [splitAt]
    split
    · simp
    · cases splitAt sep xs <;> simp [consLine]

theorem splitAt_append_cons (sep : Char) (xs ys : List Char) :
    splitAt sep (xs ++ sep :: ys) = splitAt sep xs ++ splitAt sep ys := by
  induction xs with
  | nil => simp [splitAt]
  | cons c xs ih =>
    by_cases h : c = sep
    · simp [splitAt, h, ih]
    · have hne : splitAt sep xs ≠ [] := splitAt_ne_nil sep xs
      cases hsplit : splitAt sep xs with
      | nil => exact absurd hsplit hne
      | cons first rest => simp [splitAt, h, ih, hsplit, consLine]

theorem splitAt_of_not_mem {sep : Char} {xs : List Char} (h : sep ∉ xs) :
    splitAt sep xs = [xs] := by
  induction xs with
  | nil => rfl
  | cons c xs ih =>
    rw [List.mem_cons, not_or] at h
    rw [splitAt, if_neg (Ne.symm h.1), ih h.2]
    rfl

end Text

namespace FileTree

variable {t u : FileTree}

def names (path : List Char) : List String :=
  ((Text.splitAt '/' path).map String.ofList).filter (· != "")

theorem names_nil : names [] = [] := rfl

theorem names_append_slash (front behind : List Char) :
    names (front ++ '/' :: behind) = names front ++ names behind := by
  rw [names, Text.splitAt_append_cons, List.map_append, List.filter_append]
  rfl

theorem route_eq (t : FileTree) (path : String) : t.route path =
    (if path.toList.head? = some '/' then [] else t.working, names path.toList) := rfl

theorem follow_cons (t : FileTree) (place : Place) (name : String) (rest : List String) :
    t.follow place (name :: rest) =
      match t.find? place with
      | some .directory =>
        if name = "." then t.follow place rest
        else if name = ".." then t.follow place.dropLast rest
        else if nameLimit < name.utf8ByteSize then .error .nameTooLong
        else if (t.find? (place ++ [name])).isSome then t.follow (place ++ [name]) rest
        else .error .notFound
      | some (.file _) => .error .notDirectory
      | none => .error .notFound := by
  rw [follow]
  cases hfind : t.find? place with
  | none => rfl
  | some entry =>
    cases entry with
    | file content => rfl
    | directory =>
      rw [followFrom]
      simp only [follow, hfind]
      by_cases hpoint : name = "."
      · simp [hpoint]
      · by_cases hup : name = ".."
        · simp [hup]
        · cases t.find? (place ++ [name]) <;> simp [hpoint, hup]

theorem follow_nil (t : FileTree) (place : Place) : t.follow place [] = .ok place := by
  rw [follow, followFrom]

theorem follow_of_file {place : Place} {content : List UInt8}
    (h : t.find? place = some (.file content)) (names : List String) :
    t.follow place names = .ok place ∨ t.follow place names = .error .notDirectory := by
  cases names with
  | nil => simp [follow_nil]
  | cons name rest => simp [follow_cons, h]

theorem follow_append (t : FileTree) (start : Place) (names more : List String) :
    t.follow start (names ++ more) =
      match t.follow start names with
      | .error cause => .error cause
      | .ok place => t.follow place more := by
  induction names generalizing start with
  | nil => rw [List.nil_append, follow_nil]
  | cons name rest ih =>
    rw [List.cons_append, follow_cons, follow_cons]
    cases t.find? start with
    | none => rfl
    | some entry =>
      cases entry with
      | file content => rfl
      | directory =>
        simp only [ih]
        split_ifs <;> rfl

theorem resolve_eq (t : FileTree) (path : String) :
    t.resolve path =
      match refusal? path with
      | some cause => .error cause
      | none =>
        match t.follow (t.route path).1 (steps path (t.route path).2) with
        | .error cause => .error cause
        | .ok place => if (t.find? place).isSome then .ok place else .error .notFound := rfl

theorem resolve_eq_ok {path : String} {place : Place} (h : t.resolve path = .ok place) :
    refusal? path = none ∧ t.follow (t.route path).1 (steps path (t.route path).2) = .ok place := by
  rw [resolve_eq] at h
  cases hrefusal : refusal? path with
  | some cause => simp [hrefusal] at h
  | none =>
    cases hfollow : t.follow (t.route path).1 (steps path (t.route path).2) with
    | error cause => simp [hrefusal, hfollow] at h
    | ok q =>
      simp only [hrefusal, hfollow] at h
      split_ifs at h
      exact ⟨rfl, h⟩

theorem parent_eq_ok_iff {path : String} {above : Place} {last : String} :
    t.parent path = .ok (some (above, last)) ↔
      refusal? path = none ∧ (t.route path).2.getLast? = some last ∧
        t.follow (t.route path).1 (t.route path).2.dropLast = .ok above ∧
        t.find? above = some .directory ∧ last.utf8ByteSize ≤ nameLimit := by
  rw [parent]
  cases refusal? path with
  | some cause => simp
  | none =>
    rcases t.route path with ⟨start, names⟩
    dsimp only
    cases names.getLast? with
    | none => simp
    | some name =>
      cases t.follow start names.dropLast with
      | error cause => simp
      | ok place =>
        by_cases hdirectory : t.find? place = some .directory
        · by_cases hlong : nameLimit < name.utf8ByteSize
          · simp only [hdirectory, hlong, if_true, reduceCtorEq, false_iff]
            rintro ⟨-, ⟨⟩, -, -, hshort⟩
            omega
          · simp only [hdirectory, hlong, if_false, Except.ok.injEq, Option.some.injEq,
              Prod.mk.injEq]
            constructor
            · rintro ⟨rfl, rfl⟩
              exact ⟨trivial, rfl, rfl, hdirectory, by omega⟩
            · rintro ⟨-, rfl, rfl, -, -⟩
              exact ⟨rfl, rfl⟩
        · constructor
          · intro h
            cases hfind : t.find? place with
            | none => simp [hfind] at h
            | some entry =>
              cases entry with
              | file content => simp [hfind] at h
              | directory => exact absurd hfind hdirectory
          · rintro ⟨-, -, habove, hfind, -⟩
            cases habove
            exact absurd hfind hdirectory

/-- A name that stands for an entry of a directory. -/
def isPlain (name : String) : Bool :=
  !name.toList.contains '/' && name != "" && name != "." && name != ".."

theorem isPlain_iff {name : String} :
    isPlain name = true ↔ '/' ∉ name.toList ∧ name ≠ "" ∧ name ≠ "." ∧ name ≠ ".." := by
  simp [isPlain, and_assoc]

theorem names_of_isPlain {name : String} (h : isPlain name = true) :
    names name.toList = [name] := by
  obtain ⟨hslash, hne, -, -⟩ := isPlain_iff.mp h
  rw [names, Text.splitAt_of_not_mem hslash]
  simp [hne]

/-- A plain name leads from a directory to what stands there under this name. -/
theorem follow_plain {name : String} (hname : isPlain name = true) {place q : Place}
    (h : t.follow place [name] = .ok q) :
    t.find? place = some .directory ∧ q = place ++ [name] ∧ name.utf8ByteSize ≤ nameLimit := by
  obtain ⟨-, -, hpoint, hup⟩ := isPlain_iff.mp hname
  rw [follow_cons] at h
  simp only [follow_nil, hpoint, hup, if_false] at h
  cases hfind : t.find? place with
  | none => simp [hfind] at h
  | some entry =>
    cases entry with
    | file content => simp [hfind] at h
    | directory =>
      simp only [hfind] at h
      split_ifs at h with hlong hsome
      cases h
      exact ⟨rfl, rfl, Nat.le_of_not_lt hlong⟩

/-- The last name of the path is the given one, with no slash behind it. -/
def EndsIn (path name : String) : Prop :=
  ∃ front, path.toList = front ++ name.toList ∧ (front = [] ∨ ∃ rest, front = rest ++ ['/'])

theorem EndsIn.route {path name : String} (h : EndsIn path name) (hname : isPlain name = true)
    (t : FileTree) : ∃ names, (t.route path).2 = names ++ [name] := by
  obtain ⟨front, hpath, hfront⟩ := h
  have hlast := names_of_isPlain hname
  rw [route_eq, hpath]
  rcases hfront with rfl | ⟨rest, rfl⟩
  · exact ⟨[], hlast⟩
  · refine ⟨FileTree.names rest, ?_⟩
    rw [List.append_assoc, List.singleton_append, names_append_slash, hlast]

theorem EndsIn.steps {path name : String} (h : EndsIn path name) (hname : isPlain name = true)
    (names : List String) : steps path names = names := by
  obtain ⟨front, hpath, -⟩ := h
  obtain ⟨hslash, hne, -, -⟩ := isPlain_iff.mp hname
  have hchars : name.toList ≠ [] := by simpa using hne
  rw [FileTree.steps, hpath, List.getLast?_append_of_ne_nil _ hchars, if_neg]
  intro hlast
  exact hslash (List.mem_of_getLast? hlast)

/-- What a path leads to stands in the directory above it, under its last name. -/
theorem EndsIn.parent {path name : String} (h : EndsIn path name) (hname : isPlain name = true)
    {place : Place} (hplace : t.resolve path = .ok place) :
    ∃ above, t.parent path = .ok (some (above, name)) ∧ place = above ++ [name] := by
  obtain ⟨names, hroute⟩ := h.route hname t
  obtain ⟨hrefusal, hfollow⟩ := resolve_eq_ok hplace
  rw [h.steps hname, hroute, follow_append] at hfollow
  cases habove : t.follow (t.route path).1 names with
  | error cause => simp [habove] at hfollow
  | ok above =>
    rw [habove] at hfollow
    obtain ⟨hdirectory, hlast, hshort⟩ := follow_plain hname hfollow
    refine ⟨above, parent_eq_ok_iff.mpr ⟨hrefusal, ?_, ?_, hdirectory, hshort⟩, hlast⟩
    · rw [hroute, List.getLast?_concat]
    · rw [hroute, List.dropLast_concat, habove]

theorem EndsIn.resolve_of_parent {path name : String} (h : EndsIn path name)
    (hname : isPlain name = true) {above : Place}
    (hparent : t.parent path = .ok (some (above, name)))
    (hthere : (t.find? (above ++ [name])).isSome = true) :
    t.resolve path = .ok (above ++ [name]) := by
  obtain ⟨hrefusal, -, hfollow, hdirectory, hshort⟩ := parent_eq_ok_iff.mp hparent
  obtain ⟨names, hroute⟩ := h.route hname t
  obtain ⟨-, -, hpoint, hup⟩ := isPlain_iff.mp hname
  have hlong : ¬ nameLimit < name.utf8ByteSize := Nat.not_lt.mpr hshort
  rw [hroute, List.dropLast_concat] at hfollow
  rw [resolve_eq, hrefusal]
  simp only [h.steps hname, hroute, follow_append, hfollow, follow_cons, hdirectory, hpoint, hup,
    hlong, hthere, if_false, if_true, follow_nil]

theorem read_eq_ok_iff {path : String} {content : List UInt8} :
    t.read path = .ok content ↔ t.look path = .ok (some (.file content)) := by
  rw [read, look]
  cases t.resolve path with
  | error cause => cases cause <;> simp
  | ok place =>
    cases hfind : t.find? place with
    | none => simp [hfind]
    | some entry => cases entry <;> simp [hfind]

/-- A file that is found stands at the place that its path leads to. -/
theorem resolve_of_look {path : String} {content : List UInt8}
    (h : t.look path = .ok (some (.file content))) :
    ∃ place, t.resolve path = .ok place ∧ t.find? place = some (.file content) := by
  rw [look] at h
  cases hresolve : t.resolve path with
  | error cause => cases cause <;> simp [hresolve] at h
  | ok place => exact ⟨place, rfl, by simpa [hresolve] using h⟩

/-- Nothing but its length keeps a path from being asked for. -/
theorem look_eq_error {path : String} {fault : FileTree.Fault} (h : t.look path = .error fault) :
    fault = ⟨.nameTooLong, path⟩ := by
  rw [look] at h
  cases hresolve : t.resolve path with
  | ok place => rw [hresolve] at h; cases h
  | error cause =>
    rw [hresolve] at h
    cases cause with
    | nameTooLong => cases h; rfl
    | _ => cases h

theorem require_eq_ok_iff {path : Path} {suits : FileEntry → Bool} {absent : LintGate.Fault} :
    t.require path suits absent = .ok () ↔
      ∃ entry, t.look path.toString = .ok (some entry) ∧ suits entry = true := by
  rw [require]
  cases t.look path.toString with
  | error fault => simp
  | ok entry =>
    cases entry with
    | none => simp
    | some entry => simp

theorem require_congr {path : Path} (h : u.look path.toString = t.look path.toString)
    (suits : FileEntry → Bool) (absent : LintGate.Fault) :
    u.require path suits absent = t.require path suits absent := by
  rw [require, require, h]

/-- A requirement fails with the fault that it was given or because its path cannot be asked for. -/
theorem require_eq_error {path : Path} {suits : FileEntry → Bool} {absent fault : LintGate.Fault}
    (h : t.require path suits absent = .error fault) :
    fault = absent ∨ ∃ cause, t.look path.toString = .error cause ∧ fault = .file cause := by
  rw [require] at h
  cases hlook : t.look path.toString with
  | error cause =>
    rw [hlook] at h
    cases h
    exact .inr ⟨cause, rfl, rfl⟩
  | ok entry =>
    rw [hlook] at h
    cases entry with
    | none =>
      cases h
      exact .inl rfl
    | some entry =>
      by_cases hsuits : suits entry = true
      · simp [hsuits] at h
      · simp only [hsuits] at h
        cases h
        exact .inl rfl

end FileTree

theorem Path.endsIn_div (p : Path) {name : String} (h : Path.ofString name = ⟨0, [name]⟩) :
    FileTree.EndsIn (p / Path.ofString name).toString name := by
  have hjoin : p / Path.ofString name = ⟨p.slashes, p.names ++ [name]⟩ := by
    rw [h]
    rfl
  rw [hjoin, toString, if_neg (by simp)]
  by_cases hnames : p.names = []
  · refine ⟨List.replicate p.slashes '/', by simp [hnames], ?_⟩
    cases p.slashes with
    | zero => exact .inl rfl
    | succ n => exact .inr ⟨List.replicate n '/', List.replicate_succ'⟩
  · refine ⟨List.replicate p.slashes '/' ++ ("/".intercalate p.names).toList ++ ['/'], ?_,
      .inr ⟨_, rfl⟩⟩
    rw [String.intercalate_append_of_ne_nil hnames (by simp), String.intercalate_singleton]
    simp only [String.toList_append, String.toList_ofList, List.append_assoc]
    rfl

namespace Fixture

def expectationsIn (f : Fixture) (content : List UInt8) : Except Fault (List Expectation) :=
  match Text.Utf8.decode content with
  | .error fault => .error (.undecodable fault)
  | .ok text => Expectation.parse (Text.unifyNewlines text) (some f.expectationsPath.toString)

/-- What stands at their path decides on the expectations. -/
theorem expectations_eq (f : Fixture) (t : FileTree) :
    f.expectations t =
      match t.look f.expectationsPath.toString with
      | .error fault => .error (.file fault)
      | .ok (some (.file content)) => f.expectationsIn content
      | .ok _ => .error (.noExpectations f.name f.expectationsPath) := by
  rw [expectations, FileTree.requireFile, FileTree.require]
  cases hlook : t.look f.expectationsPath.toString with
  | error fault => rfl
  | ok entry =>
    cases entry with
    | none => rfl
    | some entry =>
      cases entry with
      | directory => rfl
      | file content =>
        have hread := FileTree.read_eq_ok_iff.mpr hlook
        simp only [hread]
        rfl

end Fixture

theorem Fixtures.load_eq_ok {fs : Fixtures} {t : FileTree} {check : Check} {f : Fixture}
    (h : fs.load t check = .ok f) :
    f = ⟨check.name, fs.directory check,
      fs.directory check / Path.ofString Fixture.configName⟩ := by
  simp only [load, bind_eq_ok_iff] at h
  obtain ⟨_, -, _, -, hfixture⟩ := h
  cases hfixture
  rfl

end LintGate
