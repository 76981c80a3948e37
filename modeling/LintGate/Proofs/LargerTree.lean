import LintGate.Proofs.Lookup

/-! # Trees within larger ones

A tree lies within another one that has something at all of its places, and a directory wherever it
has one. Paths that lead somewhere in the smaller tree lead there in the larger one. Of paths that
lead nowhere in the smaller one nothing is said.
-/

namespace LintGate.FileTree

/-- Where the first tree has something the second one has something, and where it has a directory, a
directory. Relative paths start at the same place. -/
structure Within (t u : FileTree) : Prop where
  working : u.working = t.working
  there : ∀ q, (t.find? q).isSome = true → (u.find? q).isSome = true
  directory : ∀ q, t.find? q = some .directory → u.find? q = some .directory

namespace Within

variable {t u : FileTree} {path : String} {start place above : Place} {names : List String}
  {last : String}

theorem route (h : t.Within u) (path : String) : u.route path = t.route path := by
  rw [FileTree.route, FileTree.route, h.working]

theorem follow (h : t.Within u) (hfollow : t.follow start names = .ok place) :
    u.follow start names = .ok place := by
  induction names generalizing start with
  | nil => rwa [follow_nil] at hfollow ⊢
  | cons name rest ih =>
    rw [follow_cons] at hfollow ⊢
    cases hstart : t.find? start with
    | none => simp [hstart] at hfollow
    | some entry =>
      cases entry with
      | file content => simp [hstart] at hfollow
      | directory =>
        simp only [hstart, h.directory start hstart] at hfollow ⊢
        by_cases hpoint : name = "."
        · rw [if_pos hpoint] at hfollow ⊢
          exact ih hfollow
        · by_cases hup : name = ".."
          · rw [if_neg hpoint, if_pos hup] at hfollow ⊢
            exact ih hfollow
          · rw [if_neg hpoint, if_neg hup] at hfollow ⊢
            split_ifs at hfollow with hlong hthere
            rw [if_neg hlong, if_pos (h.there _ hthere)]
            exact ih hfollow

theorem resolve (h : t.Within u) (hresolve : t.resolve path = .ok place) :
    u.resolve path = .ok place := by
  obtain ⟨hrefusal, hfollow⟩ := resolve_eq_ok hresolve
  have hthere : (t.find? place).isSome = true := by
    rw [resolve_eq, hrefusal, hfollow] at hresolve
    by_contra hnone
    simp [hnone] at hresolve
  rw [resolve_eq, hrefusal, h.route, h.follow hfollow]
  simp only [h.there place hthere, if_true]

theorem contains (h : t.Within u) (hcontains : t.contains path = true) :
    u.contains path = true := by
  rw [FileTree.contains, at?] at hcontains ⊢
  cases hresolve : t.resolve path with
  | error cause => simp [hresolve] at hcontains
  | ok q =>
    rw [hresolve] at hcontains
    rw [h.resolve hresolve]
    exact h.there q hcontains

theorem isDirectory (h : t.Within u) (hdirectory : t.isDirectory path = true) :
    u.isDirectory path = true := by
  rw [FileTree.isDirectory, at?, beq_iff_eq] at hdirectory ⊢
  cases hresolve : t.resolve path with
  | error cause => simp [hresolve] at hdirectory
  | ok q =>
    rw [hresolve] at hdirectory
    rw [h.resolve hresolve]
    exact h.directory q hdirectory

theorem parent (h : t.Within u) (hparent : t.parent path = .ok (some (above, last))) :
    u.parent path = .ok (some (above, last)) := by
  obtain ⟨hrefusal, hlast, hfollow, hdirectory, hshort⟩ := parent_eq_ok_iff.mp hparent
  rw [← h.route path] at hlast hfollow
  exact parent_eq_ok_iff.mpr
    ⟨hrefusal, hlast, h.follow hfollow, h.directory above hdirectory, hshort⟩

end Within

end LintGate.FileTree
