import Mathlib.Data.List.Forall2
import Mathlib.Data.List.Perm.Basic

/-! # Lists of steps that may fail

A list of steps succeeds as a whole exactly when each of them does, and its results then stand side
by side with the items they come from. This holds for steps that fail with a fault and for steps
that merely have no result.
-/

namespace LintGate

variable {α β γ ε : Type}

theorem bind_eq_ok_iff {x : Except ε α} {f : α → Except ε β} {b : β} :
    (x >>= f) = .ok b ↔ ∃ a, x = .ok a ∧ f a = .ok b := by
  cases x with
  | error fault => simp [bind, Except.bind]
  | ok a => simp [bind, Except.bind]

theorem bind_eq_error_iff {x : Except ε α} {f : α → Except ε β} {e : ε} :
    (x >>= f) = .error e ↔ x = .error e ∨ ∃ a, x = .ok a ∧ f a = .error e := by
  cases x with
  | error fault => simp [bind, Except.bind]
  | ok a => simp [bind, Except.bind]

theorem map_eq_ok_iff {x : Except ε α} {f : α → β} {b : β} :
    x.map f = .ok b ↔ ∃ a, x = .ok a ∧ f a = b := by
  cases x with
  | error fault => simp [Except.map]
  | ok a => simp [Except.map]

theorem map_eq_error_iff {x : Except ε α} {f : α → β} {e : ε} :
    x.map f = .error e ↔ x = .error e := by
  cases x with
  | error fault => simp [Except.map]
  | ok a => simp [Except.map]

theorem exists_first_cons_iff {P : α → Prop} {Q : α → Nat → Prop} {a : α} {as : List α} :
    (∃ before b behind, a :: as = before ++ b :: behind ∧ (∀ c ∈ before, P c) ∧
        Q b before.length) ↔
      Q a 0 ∨ P a ∧ ∃ before b behind, as = before ++ b :: behind ∧ (∀ c ∈ before, P c) ∧
        Q b (before.length + 1) := by
  constructor
  · rintro ⟨_ | ⟨c, before⟩, b, behind, heq, hbefore, hb⟩
    · cases heq
      exact .inl hb
    · cases heq
      rw [List.forall_mem_cons] at hbefore
      exact .inr ⟨hbefore.1, before, b, behind, rfl, hbefore.2, hb⟩
  · rintro (ha | ⟨ha, before, b, behind, rfl, hbefore, hb⟩)
    · exact ⟨[], a, as, rfl, by simp, ha⟩
    · exact ⟨a :: before, b, behind, rfl, List.forall_mem_cons.mpr ⟨ha, hbefore⟩, hb⟩

theorem mapM_eq_ok_iff {f : α → Except ε β} {as : List α} {bs : List β} :
    as.mapM f = .ok bs ↔ List.Forall₂ (fun a b => f a = .ok b) as bs := by
  induction as generalizing bs with
  | nil => cases bs <;> simp [pure, Except.pure]
  | cons a as ih =>
    rw [List.mapM_cons, List.forall₂_cons_left_iff, bind_eq_ok_iff]
    simp only [bind_eq_ok_iff, ih, pure, Except.pure, Except.ok.injEq, eq_comm (a := bs)]
    constructor
    · rintro ⟨b, hb, bs', hbs, rfl⟩
      exact ⟨b, bs', hb, hbs, rfl⟩
    · rintro ⟨b, bs', hb, hbs, rfl⟩
      exact ⟨b, hb, bs', hbs, rfl⟩

theorem mapM_append_eq_ok_iff {f : α → Except ε β} {as as' : List α} {bs : List β} :
    (as ++ as').mapM f = .ok bs ↔
      ∃ cs cs', as.mapM f = .ok cs ∧ as'.mapM f = .ok cs' ∧ bs = cs ++ cs' := by
  simp only [List.mapM_append, bind_eq_ok_iff, pure, Except.pure, Except.ok.injEq,
    eq_comm (a := bs), exists_and_left]

theorem mapM_flatMap {f : α → List β} {g : β → Except ε γ} (as : List α) :
    (as.flatMap f).mapM g = (as.mapM fun a => (f a).mapM g).map List.flatten := by
  induction as with
  | nil => rfl
  | cons a as ih =>
    rw [List.flatMap_cons, List.mapM_append, List.mapM_cons, ih]
    cases (f a).mapM g with
    | error e => rfl
    | ok bs =>
      cases as.mapM fun a => (f a).mapM g with
      | error e => rfl
      | ok bss => rfl

/-- Items that each have something to stand beside them have a list of such things. -/
theorem exists_forall₂_iff {R : α → β → Prop} {as : List α} :
    (∃ bs, List.Forall₂ R as bs) ↔ ∀ a ∈ as, ∃ b, R a b := by
  induction as with
  | nil => simp
  | cons a as ih =>
    rw [List.forall_mem_cons, ← ih]
    constructor
    · rintro ⟨bs, hbs⟩
      cases hbs with
      | cons hab hrest => exact ⟨⟨_, hab⟩, _, hrest⟩
    · rintro ⟨⟨b, hab⟩, bs, hrest⟩
      exact ⟨b :: bs, .cons hab hrest⟩

theorem exists_mapM_eq_ok_iff {f : α → Except ε β} {as : List α} :
    (∃ bs, as.mapM f = .ok bs) ↔ ∀ a ∈ as, ∃ b, f a = .ok b := by
  simp only [mapM_eq_ok_iff, exists_forall₂_iff]

theorem exists_mapM_forall_iff {f : α → Except ε β} {p : β → Prop} {as : List α} :
    (∃ bs, as.mapM f = .ok bs ∧ ∀ b ∈ bs, p b) ↔ ∀ a ∈ as, ∃ b, f a = .ok b ∧ p b := by
  simp only [mapM_eq_ok_iff]
  induction as with
  | nil => simp
  | cons a as ih =>
    rw [List.forall_mem_cons, ← ih]
    constructor
    · rintro ⟨bs, hbs, hp⟩
      cases hbs with
      | cons hab hrest =>
        rw [List.forall_mem_cons] at hp
        exact ⟨⟨_, hab, hp.1⟩, _, hrest, hp.2⟩
    · rintro ⟨⟨b, hab, hb⟩, bs, hrest, hbs⟩
      exact ⟨b :: bs, .cons hab hrest, List.forall_mem_cons.mpr ⟨hb, hbs⟩⟩

/-- Steps that all succeed do so in any order, and their results come in that order. -/
theorem exists_mapM_eq_ok_of_perm {f : α → Except ε β} {as as' : List α} {bs : List β}
    (h : as.mapM f = .ok bs) (hperm : as.Perm as') :
    ∃ bs', as'.mapM f = .ok bs' ∧ bs.Perm bs' := by
  rw [mapM_eq_ok_iff] at h
  obtain ⟨bs', hbs', hperm'⟩ := List.perm_comp_forall₂ hperm.symm h
  exact ⟨bs', mapM_eq_ok_iff.mpr hbs', hperm'.symm⟩

/-- The fault of a list of steps is that of the first of them that fails. -/
theorem exists_first_of_mapM_eq_error {f : α → Except ε β} {as : List α} {e : ε}
    (h : as.mapM f = .error e) :
    ∃ before a behind, as = before ++ a :: behind ∧ (∀ b ∈ before, ∃ c, f b = .ok c) ∧
      f a = .error e := by
  induction as with
  | nil => cases h
  | cons a as ih =>
    rw [List.mapM_cons] at h
    cases hfa : f a with
    | error e' =>
      rw [hfa] at h
      cases h
      exact ⟨[], a, as, rfl, by simp, hfa⟩
    | ok b =>
      rw [hfa] at h
      have hrest : as.mapM f = .error e := by
        cases hmap : as.mapM f with
        | error e' =>
          rw [hmap] at h
          cases h
          rfl
        | ok bs =>
          rw [hmap] at h
          cases h
      obtain ⟨before, c, behind, rfl, hbefore, hc⟩ := ih hrest
      exact ⟨a :: before, c, behind, rfl, List.forall_mem_cons.mpr ⟨⟨b, hfa⟩, hbefore⟩, hc⟩

theorem mapM_eq_some_iff {f : α → Option β} {as : List α} {bs : List β} :
    as.mapM f = some bs ↔ List.Forall₂ (fun a b => f a = some b) as bs := by
  induction as generalizing bs with
  | nil => cases bs <;> simp
  | cons a as ih =>
    rw [List.mapM_cons, List.forall₂_cons_left_iff]
    simp only [bind, pure, Option.bind_eq_some_iff, ih, Option.some.injEq, eq_comm (a := bs)]
    constructor
    · rintro ⟨b, hb, bs', hbs, rfl⟩
      exact ⟨b, bs', hb, hbs, rfl⟩
    · rintro ⟨b, bs', hb, hbs, rfl⟩
      exact ⟨b, hb, bs', hbs, rfl⟩

/-- What stands on the right has something beside it. -/
theorem exists_mem_of_forall₂ {R : α → β → Prop} {as : List α} {bs : List β}
    (h : List.Forall₂ R as bs) {b : β} (hb : b ∈ bs) : ∃ a ∈ as, R a b := by
  induction h with
  | nil => cases hb
  | @cons a b' as bs hab _ ih =>
    rcases List.mem_cons.mp hb with rfl | hb
    · exact ⟨a, by simp, hab⟩
    · obtain ⟨a', ha', h⟩ := ih hb
      exact ⟨a', by simp [ha'], h⟩

theorem forall₂_eq_some_iff {f : α → Option β} {as : List α} {bs : List β} :
    List.Forall₂ (fun a b => f a = some b) as bs ↔ as.map f = bs.map some := by
  rw [← List.forall₂_eq_eq_eq, List.forall₂_map_left_iff, List.forall₂_map_right_iff]

/-- Results of the same steps in another order come in that order. -/
theorem perm_of_forall₂_eq_some {f : α → Option β} {as as' : List α} {bs bs' : List β}
    (h : List.Forall₂ (fun a b => f a = some b) as bs)
    (h' : List.Forall₂ (fun a b => f a = some b) as' bs') (hperm : as.Perm as') :
    bs.Perm bs' := by
  rw [forall₂_eq_some_iff] at h h'
  rw [← List.map_perm_map_iff fun _ _ => Option.some.inj, ← h, ← h']
  exact hperm.map f

theorem exists_mem_of_mapM_eq_ok {f : α → Except ε β} {as : List α} {bs : List β}
    (h : as.mapM f = .ok bs) {a : α} (ha : a ∈ as) : ∃ b ∈ bs, f a = .ok b := by
  rw [mapM_eq_ok_iff] at h
  induction h with
  | nil => cases ha
  | @cons a' b as bs hab _ ih =>
    rcases List.mem_cons.mp ha with rfl | ha
    · exact ⟨b, by simp, hab⟩
    · obtain ⟨b', hb', h⟩ := ih ha
      exact ⟨b', by simp [hb'], h⟩

theorem exists_ok_of_any {x : Except ε α} {p : α → Bool} (h : x.toOption.any p = true) :
    ∃ a, x = .ok a ∧ p a = true := by
  cases x with
  | error fault => cases h
  | ok a => exact ⟨a, rfl, h⟩

end LintGate
