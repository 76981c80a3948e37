import LintGate.Proofs.Lines
import LintGate.Proofs.Numeral
import LintGate.Verification.Comparison
import Mathlib.Data.List.Sort

/-! # Keys as multisets

For keys whose texts are texts, the surplus of one list over another one holds every key as often
as the counts differ, and nothing else. Sorting it by line and text leaves a single list, since on
such keys the order is total. Two lists have no surplus over each other exactly when one is a
permutation of the other.
-/

namespace LintGate

theorem Datum.eq_text_of_canonical {d : Datum} {s : String} (h : d.canonical = .text s) :
    d = .text s := by
  cases d with
  | float x =>
    cases x with
    | finite negative m e =>
      rw [canonical] at h
      split_ifs at h
    | _ => cases h
  | _ => first | exact h | cases h

namespace Key

/-- By line, then by the code points of the text. -/
def Before (k l : Key) : Prop :=
  k.line < l.line ∨ k.line = l.line ∧ k.text.render ≤ l.text.render

theorem le_iff_before {k l : Key} : k.le l = true ↔ k.Before l := by
  simp only [le, Before, Bool.or_eq_true, Bool.and_eq_true, decide_eq_true_eq, beq_iff_eq,
    Bool.not_eq_true', decide_eq_false_iff_not, String.not_lt]

theorem Before.trans {k l m : Key} (hkl : k.Before l) (hlm : l.Before m) : k.Before m := by
  rcases hkl with hkl | ⟨hline, hkl⟩
  · rcases hlm with hlm | ⟨hlm, -⟩
    · exact .inl (by omega)
    · exact .inl (by omega)
  · rcases hlm with hlm | ⟨hline', hlm⟩
    · exact .inl (by omega)
    · exact .inr ⟨by omega, String.le_trans hkl hlm⟩

theorem Before.total (k l : Key) : k.Before l ∨ l.Before k := by
  rcases Int.lt_trichotomy k.line l.line with h | h | h
  · exact .inl (.inl h)
  · rcases String.le_total k.text.render l.text.render with ht | ht
    · exact .inl (.inr ⟨h, ht⟩)
    · exact .inr (.inr ⟨h.symm, ht⟩)
  · exact .inr (.inl h)

theorem hasText_iff {k : Key} : k.hasText = true ↔ ∃ s, k.text = .text s := by
  unfold hasText
  split
  · rename_i s hs
    simp [hs]
  · rename_i hne
    simpa using hne

theorem Before.antisymm {k l : Key} (hk : k.hasText = true) (hl : l.hasText = true)
    (hkl : k.Before l) (hlk : l.Before k) : k = l := by
  obtain ⟨s, hs⟩ := hasText_iff.mp hk
  obtain ⟨t, ht⟩ := hasText_iff.mp hl
  have hline : k.line = l.line := by
    rcases hkl with h | ⟨h, -⟩ <;> rcases hlk with h' | ⟨h', -⟩ <;> omega
  have htext : s = t := by
    rcases hkl with h | ⟨-, h⟩
    · omega
    · rcases hlk with h' | ⟨-, h'⟩
      · omega
      · rw [hs, ht, Datum.render_text, Datum.render_text] at h h'
        exact String.le_antisymm h h'
  obtain ⟨line, text⟩ := k
  obtain ⟨line', text'⟩ := l
  simp_all

theorem canonical_eq_self {k : Key} (h : k.hasText = true) : k.canonical = k := by
  obtain ⟨s, hs⟩ := hasText_iff.mp h
  obtain ⟨line, text⟩ := k
  cases hs
  rfl

variable {ks other : List Key}

theorem occurrences_eq_count {k : Key} (hk : k.hasText = true)
    (hks : ∀ l ∈ ks, l.hasText = true) : k.occurrences ks = ks.count k := by
  rw [occurrences, List.count]
  apply List.countP_congr
  intro l hl
  rw [canonical_eq_self hk, canonical_eq_self (hks l hl)]
  simp

theorem foldl_distinct (seen : List Key) (hseen : seen.Nodup)
    (hs : ∀ k ∈ seen, k.hasText = true) (hks : ∀ k ∈ ks, k.hasText = true) :
    let kept := ks.foldl (fun seen k => if k.occurrences seen = 0 then seen ++ [k] else seen) seen
    kept.Nodup ∧ ∀ k, k ∈ kept ↔ k ∈ seen ∨ k ∈ ks := by
  induction ks generalizing seen with
  | nil => simpa using hseen
  | cons k ks ih =>
    have hk : k.hasText = true := hks k (by simp)
    have hrest : ∀ l ∈ ks, l.hasText = true := fun l hl => hks l (by simp [hl])
    have hcount : k.occurrences seen = seen.count k := occurrences_eq_count hk hs
    rw [List.foldl_cons]
    by_cases hmem : k ∈ seen
    -- Among texts, to be equal to a key that was seen is to be that key.
    · rw [if_neg (by rw [hcount]; exact (List.count_pos_iff.mpr hmem).ne')]
      obtain ⟨hnodup, hiff⟩ := ih seen hseen hs hrest
      refine ⟨hnodup, fun l => ?_⟩
      rw [hiff, List.mem_cons]
      constructor
      · rintro (h | h)
        · exact .inl h
        · exact .inr (.inr h)
      · rintro (h | rfl | h)
        · exact .inl h
        · exact .inl hmem
        · exact .inr h
    · rw [if_pos (by rw [hcount]; exact List.count_eq_zero.mpr hmem)]
      have hnodup : (seen ++ [k]).Nodup := by
        rw [List.nodup_append]
        simp only [List.mem_singleton, List.nodup_cons, List.not_mem_nil, not_false_eq_true,
          List.nodup_nil, and_self, true_and]
        refine ⟨hseen, ?_⟩
        rintro l hl _ rfl rfl
        exact hmem hl
      have htexts : ∀ l ∈ seen ++ [k], l.hasText = true := by
        intro l hl
        rcases List.mem_append.mp hl with hl | hl
        · exact hs l hl
        · rw [List.mem_singleton.mp hl]
          exact hk
      obtain ⟨hkept, hiff⟩ := ih (seen ++ [k]) hnodup htexts hrest
      refine ⟨hkept, fun l => ?_⟩
      rw [hiff, List.mem_append, List.mem_singleton, List.mem_cons, or_assoc]

theorem nodup_distinct (hks : ∀ k ∈ ks, k.hasText = true) : (distinct ks).Nodup :=
  (foldl_distinct [] .nil (by simp) hks).1

theorem mem_distinct (hks : ∀ k ∈ ks, k.hasText = true) {k : Key} :
    k ∈ distinct ks ↔ k ∈ ks := by
  simpa [distinct] using (foldl_distinct [] .nil (by simp) hks).2 k

theorem mem_of_mem_surplus (hks : ∀ k ∈ ks, k.hasText = true) {k : Key}
    (h : k ∈ surplus ks other) : k ∈ ks := by
  rw [surplus, List.mem_flatMap] at h
  obtain ⟨l, hl, hk⟩ := h
  rw [List.eq_of_mem_replicate hk]
  exact (mem_distinct hks).mp hl

theorem count_flatMap_replicate {α : Type} [DecidableEq α] {as : List α} (has : as.Nodup)
    (n : α → Nat) (a : α) :
    (as.flatMap fun b => List.replicate (n b) b).count a = if a ∈ as then n a else 0 := by
  induction as with
  | nil => simp
  | cons b as ih =>
    rw [List.nodup_cons] at has
    rw [List.flatMap_cons, List.count_append, ih has.2, List.count_replicate]
    by_cases h : a = b
    · subst h
      simp [has.1]
    · simp [h, Ne.symm h]

theorem count_surplus (hks : ∀ k ∈ ks, k.hasText = true) (ho : ∀ k ∈ other, k.hasText = true)
    (k : Key) : (surplus ks other).count k = ks.count k - other.count k := by
  rw [surplus, count_flatMap_replicate (nodup_distinct hks)]
  by_cases hmem : k ∈ ks
  · rw [if_pos ((mem_distinct hks).mpr hmem), occurrences_eq_count (hks k hmem) hks,
      occurrences_eq_count (hks k hmem) ho]
  · rw [if_neg fun h => hmem ((mem_distinct hks).mp h), List.count_eq_zero.mpr hmem, Nat.zero_sub]

theorem surplus_eq_nil_iff (hks : ∀ k ∈ ks, k.hasText = true)
    (ho : ∀ k ∈ other, k.hasText = true) :
    surplus ks other = [] ↔ ∀ k, ks.count k ≤ other.count k := by
  constructor
  · intro h k
    have hcount := count_surplus hks ho k
    rw [h, List.count_nil] at hcount
    omega
  · intro h
    rw [List.eq_nil_iff_forall_not_mem]
    intro k hk
    have hpos := List.count_pos_iff.mpr hk
    rw [count_surplus hks ho] at hpos
    have := h k
    omega

theorem occurrences_pos_iff {k : Key} :
    0 < k.occurrences ks ↔ ∃ l ∈ ks, l.canonical = k.canonical := by
  rw [occurrences, List.countP_pos_iff]
  simp

theorem exists_mem_distinct {k : Key} (hk : k ∈ ks) :
    ∃ l ∈ distinct ks, l.canonical = k.canonical := by
  have hfold : ∀ seen : List Key, (∀ l ∈ seen, l ∈ ks.foldl (fun seen k =>
      if k.occurrences seen = 0 then seen ++ [k] else seen) seen) ∧
      ∀ k ∈ ks, ∃ l ∈ ks.foldl (fun seen k =>
        if k.occurrences seen = 0 then seen ++ [k] else seen) seen, l.canonical = k.canonical := by
    clear hk
    induction ks with
    | nil => exact fun seen => ⟨fun l hl => hl, nofun⟩
    | cons k rest ih =>
      intro seen
      rw [List.foldl_cons]
      by_cases hnew : k.occurrences seen = 0
      · rw [if_pos hnew]
        obtain ⟨hseen, hrest⟩ := ih (seen ++ [k])
        refine ⟨fun l hl => hseen l (by simp [hl]), List.forall_mem_cons.mpr ⟨?_, hrest⟩⟩
        exact ⟨k, hseen k (by simp), rfl⟩
      · rw [if_neg hnew]
        obtain ⟨hseen, hrest⟩ := ih seen
        refine ⟨hseen, List.forall_mem_cons.mpr ⟨?_, hrest⟩⟩
        obtain ⟨l, hl, heq⟩ := occurrences_pos_iff.mp (Nat.pos_of_ne_zero hnew)
        exact ⟨l, hseen l hl, heq⟩
  exact (hfold []).2 k hk

/-- Keys without a surplus over keys with texts have texts themselves. -/
theorem hasText_of_surplus_eq_nil (ho : ∀ k ∈ other, k.hasText = true)
    (h : surplus ks other = []) : ∀ k ∈ ks, k.hasText = true := by
  intro k hk
  obtain ⟨l, hl, hlk⟩ := exists_mem_distinct hk
  have hpos : 0 < l.occurrences ks := occurrences_pos_iff.mpr ⟨k, hk, hlk.symm⟩
  rw [surplus, List.flatMap_eq_nil_iff] at h
  have hnone : l.occurrences ks - l.occurrences other = 0 := by simpa using h l hl
  have hle : l.occurrences ks ≤ l.occurrences other := Nat.sub_eq_zero_iff_le.mp hnone
  obtain ⟨m, hm, hml⟩ := occurrences_pos_iff.mp (Nat.lt_of_lt_of_le hpos hle)
  obtain ⟨s, hs⟩ := hasText_iff.mp (ho m hm)
  have htext : k.text.canonical = .text s := by
    rw [← Datum.canonical_text, ← hs]
    exact congrArg Key.text (hlk.symm.trans hml.symm)
  exact hasText_iff.mpr ⟨s, Datum.eq_text_of_canonical htext⟩

/-- Neither list has a surplus over the other one exactly when they are permutations. -/
theorem perm_iff_surplus_eq_nil (hks : ∀ k ∈ ks, k.hasText = true)
    (ho : ∀ k ∈ other, k.hasText = true) :
    ks.Perm other ↔ surplus other ks = [] ∧ surplus ks other = [] := by
  rw [surplus_eq_nil_iff hks ho, surplus_eq_nil_iff ho hks, List.perm_iff_count]
  constructor
  · intro h
    exact ⟨fun k => (h k).ge, fun k => (h k).le⟩
  · rintro ⟨hge, hle⟩ k
    exact Nat.le_antisymm (hle k) (hge k)

/-- The keys that the first list holds more often than the second one, each as often as the counts
differ, by line and then by text. -/
structure IsSurplus (ks other rest : List Key) : Prop where
  sorted : rest.Pairwise Before
  count : ∀ k, rest.count k = ks.count k - other.count k

theorem IsSurplus.mem {rest : List Key} (h : IsSurplus ks other rest) {k : Key} (hk : k ∈ rest) :
    k ∈ ks := by
  have hpos := List.count_pos_iff.mpr hk
  rw [h.count] at hpos
  exact List.count_pos_iff.mp (by omega)

theorem IsSurplus.unique (hks : ∀ k ∈ ks, k.hasText = true) {rest rest' : List Key}
    (h : IsSurplus ks other rest) (h' : IsSurplus ks other rest') : rest = rest' := by
  have hperm : rest.Perm rest' := List.perm_iff_count.mpr fun k => by rw [h.count, h'.count]
  refine hperm.eq_of_pairwise ?_ h.sorted h'.sorted
  intro k l hk hl hkl hlk
  exact hkl.antisymm (hks k (h.mem hk)) (hks l (h'.mem hl)) hlk

theorem sort_eq_ok (hks : ∀ k ∈ ks, k.hasText = true) : sort ks = .ok (ks.mergeSort le) := by
  rw [sort, if_pos (List.all_eq_true.mpr hks)]

theorem pairwise_mergeSort (ks : List Key) : (ks.mergeSort le).Pairwise Before := by
  have htrans : ∀ k l m : Key, k.le l = true → l.le m = true → k.le m = true := by
    intro k l m hkl hlm
    rw [le_iff_before] at *
    exact hkl.trans hlm
  have htotal : ∀ k l : Key, (k.le l || l.le k) = true := by
    intro k l
    rw [Bool.or_eq_true, le_iff_before, le_iff_before]
    exact Before.total k l
  exact (List.pairwise_mergeSort htrans htotal ks).imp le_iff_before.mp

/-- Sorting the surplus of one list of keys over another one succeeds, and leaves it sorted. -/
theorem sort_surplus (hks : ∀ k ∈ ks, k.hasText = true) (ho : ∀ k ∈ other, k.hasText = true) :
    ∃ rest, sort (surplus ks other) = .ok rest ∧ IsSurplus ks other rest := by
  have htexts : ∀ k ∈ surplus ks other, k.hasText = true :=
    fun k hk => hks k (mem_of_mem_surplus hks hk)
  refine ⟨_, sort_eq_ok htexts, pairwise_mergeSort _, fun k => ?_⟩
  rw [(List.mergeSort_perm _ _).count_eq, count_surplus hks ho]

/-- No two keys with texts are written in the same way. -/
theorem render_injective {k l : Key} (hk : k.hasText = true) (hl : l.hasText = true)
    (h : k.render = l.render) : k = l := by
  obtain ⟨s, hs⟩ := hasText_iff.mp hk
  obtain ⟨t, ht⟩ := hasText_iff.mp hl
  obtain ⟨line, text⟩ := k
  obtain ⟨line', text'⟩ := l
  cases hs
  cases ht
  have hcolon : ∀ n : Int, ':' ∉ (Text.Numeral.write n).toList := by
    intro n hmem
    rcases Text.Numeral.mem_toList_write hmem with hdigit | hdash
    · exact absurd hdigit (by decide)
    · exact absurd hdash (by decide)
  have hlists : (Text.Numeral.write line).toList ++ ':' :: s.toList =
      (Text.Numeral.write line').toList ++ ':' :: t.toList := by
    simpa [render] using congrArg String.toList h
  obtain ⟨hline, htext⟩ := Text.append_cons_inj (hcolon line) (hcolon line') hlists
  rw [Text.Numeral.write_injective (String.toList_injective hline), String.toList_injective htext]

end Key

end LintGate
