import LintGate.Proofs.Fallible
import LintGate.Verification.Comparison

/-! # Sorting keeps the items

Whatever a comparison says, and however often it contradicts itself, a sort by runs that comes to an
end has moved the items and has neither lost nor doubled one. Each part of the sort is shown to do
so by itself: what it returns is a permutation of what it was given.
-/

namespace LintGate

namespace Sorting

variable {α ε : Type} {less : α → α → Except ε Bool}

theorem perm_of_countP {xs ys : List α} (h : ∀ p : α → Bool, xs.countP p = ys.countP p) :
    xs.Perm ys := by
  classical
  exact List.perm_iff_count.mpr fun a => h (· == a)

theorem countP_take_add_drop (p : α → Bool) (n : Nat) (xs : List α) :
    (xs.take n).countP p + (xs.drop n).countP p = xs.countP p := by
  rw [← List.countP_append, List.take_append_drop]

theorem insertAll_perm {sorted items out : List α} (h : insertAll less sorted items = .ok out) :
    out.Perm (sorted ++ items) := by
  induction items generalizing sorted with
  | nil =>
    cases h
    simp
  | cons item rest ih =>
    obtain ⟨i, -, hrest⟩ := bind_eq_ok_iff.mp h
    refine perm_of_countP fun p => ?_
    have hplace := countP_take_add_drop p i sorted
    rw [(ih hrest).countP_eq p]
    simp only [List.countP_append, List.countP_cons] at hplace ⊢
    omega

section Merge

variable {pace : Pace} {patience : Nat} {as bs done : List α} {m : Merged α}

theorem mergeForward_perm (h : mergeForward less pace patience as bs = .ok m) :
    m.items.Perm (as ++ bs) := by
  fun_induction mergeForward less pace patience as bs generalizing m with
  -- One item at a time, from the back run or from the front run.
  | case1 patience a a' as b bs left right ihr ihl =>
    obtain ⟨first, -, h⟩ := bind_eq_ok_iff.mp h
    cases first with
    | true =>
      obtain ⟨rest, hrest, hm⟩ := bind_eq_ok_iff.mp h
      cases hm
      exact ((ihr hrest).cons b).trans List.perm_middle.symm
    | false =>
      obtain ⟨rest, hrest, hm⟩ := bind_eq_ok_iff.mp h
      cases hm
      exact (ihl hrest).cons a
  -- Stretches of both runs at once. Each is cut in two, so counting is left to the cuts.
  | case2 patience a a' as b bs ih =>
    obtain ⟨i, -, h⟩ := bind_eq_ok_iff.mp h
    refine perm_of_countP fun p => ?_
    have hleft := countP_take_add_drop p i (a :: a' :: as)
    dsimp only at h
    split at h
    · rename_i c c' cs hdrop
      obtain ⟨j, -, h⟩ := bind_eq_ok_iff.mp h
      have hright := countP_take_add_drop p j bs
      rw [hdrop] at hleft
      split at h
      · rename_i d ds hdrop'
        rw [hdrop'] at hright
        split_ifs at h with hlast
        · cases h
          rw [List.isEmpty_iff.mp hlast] at hleft
          simp only [List.countP_append, List.countP_cons, List.countP_nil] at hleft hright ⊢
          omega
        · obtain ⟨rest, hrest, hm⟩ := bind_eq_ok_iff.mp h
          cases hm
          have hcount := (ih i c c' cs hdrop j d ds hdrop' _ _ hrest).countP_eq p
          simp only [Merged.behind, List.countP_append, List.countP_cons, List.countP_nil]
            at hleft hright hcount ⊢
          omega
      · rename_i hdrop'
        cases h
        rw [hdrop'] at hright
        simp only [List.countP_append, List.countP_cons, List.countP_nil] at hleft hright ⊢
        omega
    · cases h
      simp only [List.countP_append, List.countP_cons] at hleft ⊢
      omega
  | case3 =>
    cases h
    exact List.perm_append_comm

theorem mergeBackward_perm (h : mergeBackward less pace patience done as bs = .ok m) :
    m.items.Perm (as ++ bs ++ done) := by
  fun_induction mergeBackward less pace patience done as bs generalizing m with
  | case1 patience done a as b b' bs left right ihl ihr =>
    obtain ⟨first, -, h⟩ := bind_eq_ok_iff.mp h
    refine perm_of_countP fun p => ?_
    cases first with
    | true =>
      rw [(ihl h).countP_eq p]
      simp only [List.countP_append, List.countP_cons]
      omega
    | false =>
      rw [(ihr h).countP_eq p]
      simp only [List.countP_append, List.countP_cons]
      omega
  | case2 patience done a as b b' bs ih =>
    obtain ⟨place, -, h⟩ := bind_eq_ok_iff.mp h
    refine perm_of_countP fun p => ?_
    -- A stretch is cut off both lists; the cuts are counted, so that the order does not matter.
    have hleft := countP_take_add_drop p (as.length + 1 - place) (a :: as)
    dsimp only at h
    generalize hdrop : (a :: as).drop (as.length + 1 - place) = left at h hleft
    cases left with
    | nil =>
      cases h
      simp only [List.countP_append, List.countP_reverse, List.countP_nil] at hleft ⊢
      omega
    | cons c cs =>
      split_ifs at h with hlast
      · cases h
        rw [List.isEmpty_iff.mp hlast]
        simp only [List.countP_append, List.countP_cons, List.countP_reverse,
          List.countP_nil] at hleft ⊢
        omega
      · obtain ⟨place', -, h⟩ := bind_eq_ok_iff.mp h
        have hright := countP_take_add_drop p (bs.length + 1 - place') (b' :: bs)
        split at h
        · rename_i d d' ds hdrop'
          rw [hdrop'] at hright
          split_ifs at h with hlast'
          · cases h
            rw [List.isEmpty_iff.mp hlast'] at hleft
            simp only [List.countP_append, List.countP_cons, List.countP_reverse,
              List.countP_nil] at hleft hright ⊢
            omega
          · rw [(ih place c cs hdrop place' d d' ds hdrop' _ _ h).countP_eq p]
            simp only [List.countP_append, List.countP_cons,
              List.countP_reverse] at hleft hright ⊢
            omega
        · cases h
          simp only [List.countP_append, List.countP_cons, List.countP_reverse] at hleft hright ⊢
          omega
  | case3 patience done as bs hends =>
    cases h
    exact (List.reverse_perm _).append_right _

theorem mergeInner_perm (h : mergeInner less patience as bs = .ok m) :
    m.items.Perm (as ++ bs) := by
  refine perm_of_countP fun p => ?_
  rw [mergeInner] at h
  split_ifs at h
  · obtain ⟨rest, hrest, rfl⟩ := map_eq_ok_iff.mp h
    have hright := countP_take_add_drop p 1 bs
    have hcount := (mergeForward_perm hrest).countP_eq p
    simp only [Merged.behind, List.countP_append, List.drop_one] at hright hcount ⊢
    omega
  · have hleft := countP_take_add_drop p (as.length - 1) as
    rw [(mergeBackward_perm h).countP_eq p, List.tail_reverse, List.dropLast_eq_take]
    simp only [List.countP_append, List.countP_reverse] at hleft ⊢
    omega

theorem merge_perm (h : merge less patience as bs = .ok m) : m.items.Perm (as ++ bs) := by
  cases bs with
  | nil =>
    cases h
    simp
  | cons b bs =>
    obtain ⟨i, -, h⟩ := bind_eq_ok_iff.mp h
    split at h
    · cases h
      exact .refl _
    · obtain ⟨j, -, h⟩ := bind_eq_ok_iff.mp h
      obtain ⟨inner, hinner, hm⟩ := bind_eq_ok_iff.mp h
      cases hm
      refine perm_of_countP fun p => ?_
      have hleft := countP_take_add_drop p i as
      have hright := countP_take_add_drop p j (b :: bs)
      have hcount := (mergeInner_perm hinner).countP_eq p
      simp only [List.countP_append] at hcount ⊢
      omega

end Merge

section Runs

def itemsOf (runs : List (Run α)) : List α := runs.flatMap (·.items)

@[simp] theorem itemsOf_nil : itemsOf ([] : List (Run α)) = [] := rfl

@[simp] theorem itemsOf_cons (run : Run α) (runs : List (Run α)) :
    itemsOf (run :: runs) = run.items ++ itemsOf runs := List.flatMap_cons

variable {patience : Nat} {front back : Run α} {runs rest : List (Run α)}

theorem joinRuns_perm {joined : Run α × Nat} (h : joinRuns less patience front back = .ok joined) :
    joined.1.items.Perm (back.items ++ front.items) := by
  obtain ⟨merged, hmerged, hjoined⟩ := bind_eq_ok_iff.mp h
  cases hjoined
  exact (merge_perm hmerged).trans List.perm_append_comm

theorem settle_perm {power : Nat} {pending : Pending α}
    (h : settle less power patience runs = .ok pending) :
    (itemsOf pending.runs).Perm (itemsOf runs) := by
  fun_induction settle less power patience runs with
  | case1 patience back front rest hpower ih =>
    obtain ⟨joined, hjoined, hrest⟩ := bind_eq_ok_iff.mp h
    refine (ih _ _ hrest).trans ?_
    rw [itemsOf_cons, itemsOf_cons, itemsOf_cons, ← List.append_assoc]
    exact (joinRuns_perm hjoined).append_right _
  | case2 =>
    cases h
    exact .refl _
  | case3 =>
    cases h
    exact .refl _

theorem Pending.push_perm {total start : Nat} {items : List α} {pending pushed : Pending α}
    (h : pending.push less total start items = .ok pushed) :
    (itemsOf pushed.runs).Perm (items ++ itemsOf pending.runs) := by
  rw [push] at h
  cases hruns : pending.runs with
  | nil =>
    simp only [hruns] at h
    cases h
    exact .refl _
  | cons last rest =>
    simp only [hruns] at h
    obtain ⟨settled, hsettled, hpushed⟩ := bind_eq_ok_iff.mp h
    cases hpushed
    have hperm := settle_perm hsettled
    rw [itemsOf_cons]
    refine List.Perm.append_left items ?_
    cases hleft : settled.runs with
    | nil => rwa [hleft] at hperm
    | cons last' rest' => rwa [hleft] at hperm

theorem mergeAll_perm {out : List α} (h : mergeAll less patience runs = .ok out) :
    out.Perm (itemsOf runs) := by
  fun_induction mergeAll less patience runs with
  | case1 =>
    cases h
    exact .refl _
  | case2 patience run =>
    cases h
    simp
  | case3 patience back front =>
    obtain ⟨joined, hjoined, hout⟩ := bind_eq_ok_iff.mp h
    cases hout
    simpa using joinRuns_perm hjoined
  | case4 patience back middle front rest hshort ih =>
    obtain ⟨joined, hjoined, hrest⟩ := bind_eq_ok_iff.mp h
    refine (ih _ _ hrest).trans ?_
    simp only [itemsOf_cons]
    rw [← List.append_assoc middle.items]
    exact ((joinRuns_perm hjoined).append_right _).append_left _
  | case5 patience back middle front rest hshort ih =>
    obtain ⟨joined, hjoined, hrest⟩ := bind_eq_ok_iff.mp h
    refine (ih _ _ hrest).trans ?_
    simp only [itemsOf_cons]
    rw [← List.append_assoc back.items]
    exact (joinRuns_perm hjoined).append_right _

end Runs

/-- A list that is not empty starts with a run of at least one item. -/
theorem firstRun_perm {items run : List α} (h : firstRun less items = .ok run) :
    run.Perm (items.take run.length) ∧ (items ≠ [] → run ≠ []) := by
  rcases items with _ | ⟨a, _ | ⟨b, rest⟩⟩
  · cases h
    simp
  · cases h
    simp
  · obtain ⟨falling, -, h⟩ := bind_eq_ok_iff.mp h
    obtain ⟨n, -, hrun⟩ := bind_eq_ok_iff.mp h
    have htake : (a :: b :: rest).take (a :: b :: rest.take n).length = a :: b :: rest.take n := by
      simp [List.take_eq_take_iff]
    cases falling with
    | true =>
      cases hrun
      rw [if_pos rfl, List.length_reverse, htake]
      exact ⟨List.reverse_perm _, by simp⟩
    | false =>
      cases hrun
      rw [if_neg (by simp), htake]
      exact ⟨.refl _, by simp⟩

theorem sortFrom_perm {total : Nat} {pending : Pending α} {items out : List α}
    (h : sortFrom less total pending items = .ok out) :
    out.Perm (itemsOf pending.runs ++ items) := by
  fun_induction sortFrom less total pending items with
  | case1 pending =>
    rw [List.append_nil]
    exact mergeAll_perm h
  | case2 pending item rest ih =>
    obtain ⟨run, hrun, h⟩ := bind_eq_ok_iff.mp h
    obtain ⟨filled, hfilled, h⟩ := bind_eq_ok_iff.mp h
    obtain ⟨pushed, hpushed, hrest⟩ := bind_eq_ok_iff.mp h
    obtain ⟨hperm, hne⟩ := firstRun_perm hrun
    -- A run is not empty, so the number of items that it is filled up to is a successor.
    have hpositive : 0 < run.length := List.length_pos_iff.mpr (hne (by simp))
    obtain ⟨size, hsize⟩ : ∃ size, max run.length (leastRun total) = size + 1 :=
      Nat.exists_eq_add_one.mpr (by omega)
    have hrun' : ((item :: rest).take (size + 1)).take run.length =
        (item :: rest).take run.length := by
      rw [List.take_take, Nat.min_eq_left (by omega)]
    simp only [hsize] at hfilled
    refine perm_of_countP fun p => ?_
    have hcut := countP_take_add_drop p (size + 1) (item :: rest)
    have htaken := countP_take_add_drop p run.length ((item :: rest).take (size + 1))
    have hstart := hperm.countP_eq p
    have hinserted := (insertAll_perm hfilled).countP_eq p
    have hpending := (Pending.push_perm hpushed).countP_eq p
    have hsorted := (ih run pushed hrest).countP_eq p
    rw [List.drop_succ_cons] at hcut
    rw [hrun'] at htaken
    simp only [hsize, Nat.add_sub_cancel, List.countP_append] at hinserted hpending hsorted ⊢
    omega

/-- A sort that comes to an end has kept all items. -/
theorem sort_perm {items sorted : List α} (h : sort less items = .ok sorted) :
    sorted.Perm items :=
  sortFrom_perm h

end Sorting

theorem Key.sort_perm {ks sorted : List Key} (h : Key.sort ks = .ok sorted) : sorted.Perm ks := by
  rw [Key.sort] at h
  split_ifs at h
  · cases h
    exact List.mergeSort_perm _ _
  · exact Sorting.sort_perm h

end LintGate
