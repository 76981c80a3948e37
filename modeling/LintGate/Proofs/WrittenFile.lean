import LintGate.Proofs.LargerTree

/-! # What a written file leaves alone

A file that is put at a place where no directory stands changes what stands at this place and
nothing else. A path that could be followed leads where it led before. One that could not may now
lead to the file, or fail at it for another reason, but nothing else is found that was not there.
-/

namespace LintGate.FileTree

variable {t : FileTree} {place : Place} {entry : FileEntry}

theorem lookup_put_go (place : Place) (entry : FileEntry) (entries : List (Place × FileEntry))
    (q : Place) :
    (put.go place entry entries).lookup q = if q = place then some entry else entries.lookup q := by
  induction entries with
  | nil =>
    by_cases h : q = place
    · simp [put.go, h]
    · simp [put.go, h, List.lookup_cons, beq_false_of_ne h]
  | cons first rest ih =>
    obtain ⟨p, e⟩ := first
    rw [put.go]
    by_cases hp : p = place
    · subst hp
      rw [if_pos rfl, List.lookup_cons, List.lookup_cons]
      by_cases h : q = p
      · simp [h]
      · simp [h, beq_false_of_ne h]
    · rw [if_neg hp, List.lookup_cons, List.lookup_cons, ih]
      by_cases h : q = p
      · subst h
        simp [hp]
      · simp [beq_false_of_ne h]

theorem find?_put (h : place ≠ []) (entry : FileEntry) (q : Place) :
    (t.put place entry).find? q = if q = place then some entry else t.find? q := by
  cases q with
  | nil => rw [find?, find?, if_neg h.symm]
  | cons name rest => exact lookup_put_go place entry t.entries (name :: rest)

theorem within_put (h : place ≠ []) (hplace : t.find? place ≠ some .directory) (entry : FileEntry) :
    t.Within (t.put place entry) where
  working := rfl
  there q hq := by
    rw [find?_put h]
    split_ifs
    · rfl
    · exact hq
  directory q hq := by
    rw [find?_put h, if_neg]
    · exact hq
    · rintro rfl
      exact hplace hq

theorem put_put (t : FileTree) (place : Place) (entry last : FileEntry) :
    (t.put place entry).put place last = t.put place last := by
  have hgo : ∀ entries, put.go place last (put.go place entry entries) =
      put.go place last entries := by
    intro entries
    induction entries with
    | nil => simp [put.go]
    | cons first rest ih =>
      obtain ⟨p, e⟩ := first
      by_cases hp : p = place
      · simp [put.go, hp]
      · simp [put.go, hp, ih]
  rw [put, put, put, hgo]

/-- What is in the file at a place; nothing where there is no file. -/
def contentAt (t : FileTree) (place : Place) : List UInt8 :=
  match t.find? place with
  | some (.file content) => content
  | _ => []

def extend (t : FileTree) (place : Place) (bytes : List UInt8) : FileTree :=
  t.put place (.file (t.contentAt place ++ bytes))

theorem contentAt_extend (h : place ≠ []) (bytes : List UInt8) :
    (t.extend place bytes).contentAt place = t.contentAt place ++ bytes := by
  rw [contentAt, extend, find?_put h, if_pos rfl]

theorem extend_extend (h : place ≠ []) (bytes more : List UInt8) :
    (t.extend place bytes).extend place more = t.extend place (bytes ++ more) := by
  rw [extend, contentAt_extend h, extend, put_put, extend, List.append_assoc]

theorem route_put (t : FileTree) (place : Place) (entry : FileEntry) (path : String) :
    (t.put place entry).route path = t.route path := rfl

section Written

variable {content : List UInt8} {path : String}

/-- Names are followed as before, unless they come to the file where there was none. -/
theorem follow_put (hroot : place ≠ []) (hplace : t.find? place ≠ some .directory)
    (names : List String) (start : Place) :
    (t.put place (.file content)).follow start names = t.follow start names ∨
      t.follow start names = .error .notFound ∧
        ((t.put place (.file content)).follow start names = .ok place ∨
          (t.put place (.file content)).follow start names = .error .notDirectory) := by
  induction names generalizing start with
  | nil => simp [follow_nil]
  | cons name rest ih =>
    rw [follow_cons, follow_cons, find?_put hroot]
    by_cases hstart : start = place
    · rw [if_pos hstart, hstart]
      cases hfind : t.find? place with
      | none => simp
      | some entry =>
        cases entry with
        | file content => simp
        | directory => exact absurd hfind hplace
    · rw [if_neg hstart]
      cases hfind : t.find? start with
      | none => simp
      | some entry =>
        cases entry with
        | file content => simp
        | directory =>
          by_cases hpoint : name = "."
          · simpa [hpoint] using ih start
          · by_cases hup : name = ".."
            · simpa [hup] using ih start.dropLast
            · by_cases hlong : nameLimit < name.utf8ByteSize
              · simp [hpoint, hup, hlong]
              · simp only [hpoint, hup, hlong, if_false]
                rw [find?_put hroot]
                by_cases hnext : start ++ [name] = place
                · rw [if_pos hnext]
                  cases hthere : t.find? (start ++ [name]) with
                  | some entry => simpa using ih (start ++ [name])
                  | none =>
                    -- Here the new file is met: the names end at it, or fail as it is no directory.
                    have hfile : (t.put place (.file content)).find? (start ++ [name]) =
                        some (.file content) := by
                      rw [find?_put hroot, if_pos hnext]
                    have hstop := follow_of_file hfile rest
                    rw [hnext] at hstop ⊢
                    exact .inr ⟨by simp, by simpa using hstop⟩
                · rw [if_neg hnext]
                  cases t.find? (start ++ [name]) with
                  | none => simp
                  | some entry => simpa using ih (start ++ [name])

/-- A path leads where it led, unless it comes to the file where there was none. -/
theorem resolve_put (hroot : place ≠ []) (hplace : t.find? place ≠ some .directory)
    (path : String) :
    (t.put place (.file content)).resolve path = t.resolve path ∨
      t.resolve path = .error .notFound ∧
        ((t.put place (.file content)).resolve path = .ok place ∨
          (t.put place (.file content)).resolve path = .error .notDirectory) := by
  rw [resolve_eq, resolve_eq, route_put]
  cases refusal? path with
  | some cause => simp
  | none =>
    simp only
    rcases follow_put hroot hplace (steps path (t.route path).2) (t.route path).1 with
      hsame | ⟨hbefore, hfile | hthrough⟩
    · rw [hsame]
      cases t.follow (t.route path).1 (steps path (t.route path).2) with
      | error cause => simp
      | ok q =>
        by_cases hq : q = place
        · subst hq
          cases hfind : t.find? q <;> simp [find?_put hroot, hfind]
        · simp [find?_put hroot, hq]
    · simp [hbefore, hfile, find?_put hroot]
    · simp [hbefore, hthrough]

section Found

variable (hroot : place ≠ []) (hplace : t.find? place ≠ some .directory)

include hroot hplace

/-- A path that does not lead to the file is found as before. -/
theorem look_put (h : (t.put place (.file content)).resolve path ≠ .ok place) :
    (t.put place (.file content)).look path = t.look path := by
  rw [look, look]
  rcases resolve_put hroot hplace path with hsame | ⟨hbefore, hfile | hthrough⟩
  · rw [hsame] at h ⊢
    cases hresolve : t.resolve path with
    | error cause => cases cause <;> rfl
    | ok q =>
      have hq : q ≠ place := fun hq => h (by rw [hresolve, hq])
      simp only [find?_put hroot, if_neg hq]
  · exact absurd hfile h
  · rw [hbefore, hthrough]

theorem requireDirectory_put {path : Path} {absent : LintGate.Fault} :
    (t.put place (.file content)).requireDirectory path absent =
      t.requireDirectory path absent := by
  by_cases h : (t.put place (.file content)).resolve path.toString = .ok place
  · have hfile : (t.put place (.file content)).look path.toString = .ok (some (.file content)) := by
      rw [look, h]
      simp only [find?_put hroot, if_true]
    have hbefore : t.look path.toString = .ok none ∨
        ∃ old, t.look path.toString = .ok (some (.file old)) := by
      rw [look]
      rcases resolve_put hroot hplace path.toString with hsame | ⟨hbefore, -⟩
      · rw [← hsame, h]
        cases hfind : t.find? place with
        | none => simp [hfind]
        | some entry =>
          cases entry with
          | directory => exact absurd hfind hplace
          | file old => simp [hfind]
      · simp [hbefore]
    rw [requireDirectory, requireDirectory, require, require, hfile]
    rcases hbefore with hbefore | ⟨old, hbefore⟩
    · rw [hbefore]
      rfl
    · rw [hbefore]
      rfl
  · rw [requireDirectory, requireDirectory, require_congr (look_put hroot hplace h)]

end Found

end Written

section Overwritten

variable {path name : String} {bytes : List UInt8} {written : FileTree}

theorem change_eq_ok {f : List UInt8 → List UInt8} (h : t.change path f = .ok written) :
    ∃ above last, t.parent path = .ok (some (above, last)) ∧ last ≠ "." ∧ last ≠ ".." ∧
      t.find? (above ++ [last]) ≠ some .directory ∧
      written = t.put (above ++ [last]) (.file (f (t.contentAt (above ++ [last])))) := by
  rw [change] at h
  cases hparent : t.parent path with
  | error cause => simp [hparent] at h
  | ok found =>
    cases found with
    | none => simp [hparent] at h
    | some found =>
      obtain ⟨above, last⟩ := found
      simp only [hparent] at h
      split_ifs at h with hdots
      simp only [Bool.or_eq_true, decide_eq_true_eq, not_or] at hdots
      refine ⟨above, last, rfl, hdots.1, hdots.2, ?_⟩
      rw [contentAt]
      cases hfind : t.find? (above ++ [last]) with
      | none => simp_all
      | some entry => cases entry <;> simp_all

theorem change_of_parent {above : Place} {last : String} (hpoint : last ≠ ".") (hup : last ≠ "..")
    (hparent : t.parent path = .ok (some (above, last)))
    (hfree : t.find? (above ++ [last]) ≠ some .directory) (f : List UInt8 → List UInt8) :
    t.change path f =
      .ok (t.put (above ++ [last]) (.file (f (t.contentAt (above ++ [last]))))) := by
  rw [change, hparent, contentAt]
  simp only [hpoint, hup]
  cases hfind : t.find? (above ++ [last]) with
  | none => rfl
  | some entry =>
    cases entry with
    | directory => exact absurd hfind hfree
    | file content => rfl

theorem overwrite_of_parent (hname : isPlain name = true) {above : Place}
    (hparent : t.parent path = .ok (some (above, name)))
    (hfree : t.find? (above ++ [name]) ≠ some .directory) (bytes : List UInt8) :
    t.overwrite path bytes = .ok (t.put (above ++ [name]) (.file bytes)) := by
  obtain ⟨-, -, hpoint, hup⟩ := isPlain_iff.mp hname
  exact change_of_parent hpoint hup hparent hfree fun _ => bytes

variable (hends : EndsIn path name) (hname : isPlain name = true)
  (h : t.overwrite path bytes = .ok written)

include hends hname h

theorem overwrite_place :
    ∃ above, t.parent path = .ok (some (above, name)) ∧
      t.find? (above ++ [name]) ≠ some .directory ∧
      written = t.put (above ++ [name]) (.file bytes) := by
  obtain ⟨above, last, hparent, -, -, hfree, hwritten⟩ := change_eq_ok h
  obtain ⟨-, hlast, -⟩ := parent_eq_ok_iff.mp hparent
  obtain ⟨names, hroute⟩ := hends.route hname t
  rw [hroute, List.getLast?_concat] at hlast
  cases hlast
  exact ⟨above, hparent, hfree, hwritten⟩

theorem look_overwrite : written.look path = .ok (some (.file bytes)) := by
  obtain ⟨above, hparent, hfree, rfl⟩ := overwrite_place hends hname h
  have hroot : above ++ [name] ≠ [] := by simp
  have hfile : (t.put (above ++ [name]) (.file bytes)).find? (above ++ [name]) =
      some (.file bytes) := by
    rw [find?_put hroot, if_pos rfl]
  have hwritten : (t.put (above ++ [name]) (.file bytes)).parent path = .ok (some (above, name)) :=
    (within_put hroot hfree _).parent hparent
  rw [look, hends.resolve_of_parent hname hwritten (by rw [hfile]; rfl)]
  simp only [hfile]

omit h in
theorem exists_overwrite {content : List UInt8} (h : t.look path = .ok (some (.file content)))
    (bytes : List UInt8) :
    ∃ written, t.overwrite path bytes = .ok written ∧
      written.look path = .ok (some (.file bytes)) := by
  obtain ⟨place, hresolve, hfile⟩ := resolve_of_look h
  obtain ⟨above, hparent, rfl⟩ := hends.parent hname hresolve
  have hwritten := overwrite_of_parent hname hparent (by simp [hfile]) bytes
  exact ⟨_, hwritten, look_overwrite hends hname hwritten⟩

/-- A path with another last name leads to what it led to before. -/
theorem look_overwrite_of_ne {other name' : String} (hother : EndsIn other name')
    (hname' : isPlain name' = true) (hne : name' ≠ name) : written.look other = t.look other := by
  obtain ⟨above, -, hfree, rfl⟩ := overwrite_place hends hname h
  refine look_put (by simp) hfree fun hresolve => hne ?_
  obtain ⟨above', -, hplace⟩ := hother.parent hname' hresolve
  exact (List.singleton_inj.mp (List.append_inj_right' hplace rfl)).symm

end Overwritten

end LintGate.FileTree
