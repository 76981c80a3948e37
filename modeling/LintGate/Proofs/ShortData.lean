import LintGate.Datum.Convert
import LintGate.Json.Reader
import LintGate.Proofs.DoubleRange
import LintGate.Proofs.Fallible
import LintGate.Proofs.Numeral

/-! # Short numbers in JSON data

The integers of a JSON text have short numerals, or the text is not read at all, and finite doubles
have a range of their own. An integer that is taken from what such a text holds, be it a number, the
whole part of one or the value of a numeral, can therefore be written.
-/

namespace LintGate

namespace Text.Numeral

theorem read_lt {text : List Char} {n : Int} (h : read text = .ok n) : n.natAbs < bound := by
  have hgroups : ∀ body m, readGroups text body = .ok m → m < bound := by
    intro body m hm
    rw [readGroups] at hm
    split at hm
    · split at hm
      · cases hm
      · rename_i digits hdigits
        split at hm
        · cases hm
          exact readDigits_lt (fun c hc => List.of_mem_filter hc) hdigits
        · cases hm
    · cases hm
  rw [read] at h
  split at h
  · obtain ⟨n, hn, rfl⟩ := map_eq_ok_iff.mp h
    obtain ⟨m, hm, hcast⟩ := bind_eq_ok_iff.mp hn
    cases hcast
    rw [Int.natAbs_neg, Int.natAbs_natCast]
    exact hgroups _ m hm
  · obtain ⟨m, hm, rfl⟩ := map_eq_ok_iff.mp h
    exact hgroups _ m hm
  · obtain ⟨m, hm, rfl⟩ := map_eq_ok_iff.mp h
    exact hgroups _ m hm

theorem two_pow_lt_bound {k : Nat} (hk : k ≠ 0) (h : k ≤ limit) : 2 ^ k < bound :=
  lt_bound k (Nat.pow_lt_pow_left (by decide) hk) h

end Text.Numeral

open Text.Numeral (bound)

def Number.Double.IsShort (x : Number.Double) : Prop :=
  ∀ negative m e, x = .finite negative m e → (truncate negative m e).natAbs < bound

theorem Number.Double.ofDecimal_isShort (negative : Bool) (digits : Nat) (power : Int) :
    (ofDecimal negative digits power).IsShort := by
  intro negative' m e h
  obtain ⟨hm, he⟩ := ofDecimal_range h
  rw [greatestExponent] at he
  refine Nat.lt_of_le_of_lt (natAbs_truncate_le negative' hm) ?_
  refine Text.Numeral.two_pow_lt_bound (by omega) ?_
  rw [Text.Numeral.limit]
  omega

namespace Datum

/-- All numbers in the datum are short. -/
inductive IsShort : Datum → Prop
  | null : IsShort .null
  | bool (b : Bool) : IsShort (.bool b)
  | int {n : Int} (h : n.natAbs < bound) : IsShort (.int n)
  | float {x : Number.Double} (h : x.IsShort) : IsShort (.float x)
  | text (s : String) : IsShort (.text s)
  | moment (m : Moment) : IsShort (.moment m)
  | list {items : List Datum} (h : ∀ d ∈ items, IsShort d) : IsShort (.list items)
  | table {entries : List (String × Datum)} (h : ∀ entry ∈ entries, IsShort entry.2) :
    IsShort (.table entries)

theorem IsShort.toInt_lt {d : Datum} (hd : d.IsShort) {n : Int} (h : d.toInt = .ok n) :
    n.natAbs < bound := by
  cases hd with
  | null => cases h
  | bool b =>
    cases h
    cases b
    · exact Nat.lt_trans Nat.zero_lt_one Text.Numeral.one_lt_bound
    · exact Text.Numeral.one_lt_bound
  | int hn =>
    cases h
    exact hn
  | @float x hx =>
    cases x with
    | finite negative m e =>
      cases h
      exact hx negative m e rfl
    | infinite negative => cases h
    | nan => cases h
  | text s =>
    rw [toInt] at h
    cases hread : Text.Numeral.read s.toList with
    | error fault => rw [hread] at h; cases h
    | ok m =>
      rw [hread] at h
      cases h
      exact Text.Numeral.read_lt hread
  | moment m => cases h
  | list items => cases h
  | table entries => cases h

theorem isShort_of_lookup {entries : List (String × Datum)} (h : ∀ entry ∈ entries, entry.2.IsShort)
    {key : String} {d : Datum} (hd : lookup key entries = some d) : d.IsShort := by
  obtain ⟨entry, hentry, rfl⟩ := Option.map_eq_some_iff.mp hd
  exact h entry (List.mem_of_find?_eq_some hentry)

theorem isShort_of_mem_insert {entries : List (String × Datum)} {d : Datum}
    (h : ∀ entry ∈ entries, entry.2.IsShort) (hd : d.IsShort) (key : String) :
    ∀ entry ∈ insert key d entries, entry.2.IsShort := by
  induction entries with
  | nil => simpa [insert] using hd
  | cons first rest ih =>
    obtain ⟨k, v⟩ := first
    rw [List.forall_mem_cons] at h
    rw [insert]
    split_ifs with hkey
    · exact List.forall_mem_cons.mpr ⟨hd, h.2⟩
    · exact List.forall_mem_cons.mpr ⟨h.1, ih h.2⟩

end Datum

namespace Json

open Datum (IsShort)

theorem mem_words_of_readWord? {s rest : List Char} {d : Datum}
    (h : readWord? s = some (d, rest)) : d ∈ words.map Prod.snd := by
  obtain ⟨⟨word, d'⟩, hword, h⟩ := List.exists_of_findSome?_eq_some h
  dsimp only at h
  split_ifs at h
  cases h
  exact List.mem_map_of_mem hword

theorem isShort_of_mem_words {d : Datum} (h : d ∈ words.map Prod.snd) : d.IsShort := by
  simp only [words, List.map_cons, List.map_nil, List.mem_cons, List.not_mem_nil, or_false] at h
  rcases h with rfl | rfl | rfl | rfl | rfl | rfl
  · exact .null
  · exact .bool true
  · exact .bool false
  all_goals exact .float nofun

theorem isDigit_of_takeWhole {s whole rest : List Char} (h : takeWhole s = some (whole, rest)) :
    ∀ c ∈ whole, Text.isDigit c = true := by
  unfold takeWhole at h
  split at h
  · cases h
    exact List.forall_mem_singleton.mpr rfl
  · split_ifs at h
    cases h
    exact fun c hc => List.mem_takeWhile_imp hc

theorem readNumber?_eq_some {s rest : List Char} {d : Datum}
    (h : readNumber? s = some (.ok d, rest)) :
    (∃ n : Int, n.natAbs < bound ∧ d = .int n) ∨
      ∃ x : Number.Double, x.IsShort ∧ d = .float x := by
  unfold readNumber? at h
  split at h
  rename_i negative body _
  cases hwhole : takeWhole body with
  | none => rw [hwhole] at h; cases h
  | some taken =>
    obtain ⟨whole, more⟩ := taken
    rw [hwhole] at h
    dsimp only at h
    split at h
    · cases hn : Text.Numeral.readDigits whole with
      | error fault => rw [hn] at h; cases h
      | ok n =>
        rw [hn] at h
        cases h
        have hshort := Text.Numeral.readDigits_lt (isDigit_of_takeWhole hwhole) hn
        exact .inl ⟨_, by rwa [Number.natAbs_signed], rfl⟩
    · cases h
      exact .inr ⟨_, Number.Double.ofDecimal_isShort _ _ _, rfl⟩

theorem readScalar_eq_ok {s rest : List Char} {d : Datum} (h : readScalar s = .ok (d, rest)) :
    d ∈ words.map Prod.snd ∨ (∃ n : Int, n.natAbs < bound ∧ d = .int n) ∨
      ∃ x : Number.Double, x.IsShort ∧ d = .float x := by
  rw [readScalar] at h
  cases hword : readWord? s with
  | some result =>
    rw [hword] at h
    cases h
    exact .inl (mem_words_of_readWord? hword)
  | none =>
    rw [hword] at h
    dsimp only at h
    split at h
    · cases h
    · cases h
    · rename_i hnumber
      cases h
      exact .inr (readNumber?_eq_some hnumber)

theorem isShort_of_readScalar {s rest : List Char} {d : Datum}
    (h : readScalar s = .ok (d, rest)) : d.IsShort := by
  rcases readScalar_eq_ok h with hword | ⟨n, hn, rfl⟩ | ⟨x, hx, rfl⟩
  · exact isShort_of_mem_words hword
  · exact .int hn
  · exact .float hx

/-- What the readers of values, elements and entries return at a depth of calls is short. -/
structure ReadsShort (depth : Nat) : Prop where
  value : ∀ {s d rest}, readValue depth s = .ok (d, rest) → d.IsShort
  elements : ∀ {s ds rest}, readElements depth s = .ok (ds, rest) → ∀ d ∈ ds, d.IsShort
  entries : ∀ {es s es' rest}, (∀ entry ∈ es, entry.2.IsShort) →
    readEntries depth es s = .ok (es', rest) → ∀ entry ∈ es', entry.2.IsShort

theorem readsShort_zero : ReadsShort 0 where
  value h := by
    unfold readValue at h
    cases h
  elements h := by
    unfold readElements at h
    cases h
  entries _ h := by
    unfold readEntries at h
    cases h

namespace ReadsShort

variable {depth : Nat} (ih : ReadsShort depth) {s rest : List Char}

include ih

theorem value_succ {d : Datum} (h : readValue (depth + 1) s = .ok (d, rest)) : d.IsShort := by
  unfold readValue at h
  split at h
  · obtain ⟨⟨text, r⟩, -, h⟩ := map_eq_ok_iff.mp h
    cases h
    exact .text _
  · split at h
    · cases h
      exact .table nofun
    · obtain ⟨⟨entries, r⟩, hread, h⟩ := map_eq_ok_iff.mp h
      cases h
      exact .table (ih.entries (List.forall_mem_nil _) hread)
  · split at h
    · cases h
      exact .list nofun
    · obtain ⟨⟨items, r⟩, hread, h⟩ := map_eq_ok_iff.mp h
      cases h
      exact .list (ih.elements hread)
  · exact isShort_of_readScalar h

theorem elements_succ {ds : List Datum} (h : readElements (depth + 1) s = .ok (ds, rest)) :
    ∀ d ∈ ds, d.IsShort := by
  unfold readElements at h
  split at h
  · cases h
  · rename_i hd
    split at h
    · cases h
      exact List.forall_mem_singleton.mpr (ih.value hd)
    · obtain ⟨⟨items, r⟩, hread, h⟩ := map_eq_ok_iff.mp h
      cases h
      exact List.forall_mem_cons.mpr ⟨ih.value hd, ih.elements hread⟩
    · cases h

theorem entries_succ {es es' : List (String × Datum)} (hes : ∀ entry ∈ es, entry.2.IsShort)
    (h : readEntries (depth + 1) es s = .ok (es', rest)) : ∀ entry ∈ es', entry.2.IsShort := by
  unfold readEntries at h
  split at h
  · split at h
    · cases h
    · split at h
      · split at h
        · cases h
        · rename_i hd
          have hinserted := Datum.isShort_of_mem_insert hes (ih.value hd)
          split at h
          · cases h
            exact hinserted _
          · exact ih.entries (hinserted _) h
          · cases h
      · cases h
  · cases h

end ReadsShort

/-- The three readers call one another, so this is shown for all of them at once. -/
theorem readsShort (depth : Nat) : ReadsShort depth := by
  induction depth with
  | zero => exact readsShort_zero
  | succ depth ih => exact ⟨ih.value_succ, ih.elements_succ, ih.entries_succ⟩

theorem exists_readValue_of_read {s : List Char} {d : Datum} (h : read s = .ok d) :
    ∃ depth rest, readValue depth (skipSpace s) = .ok (d, rest) := by
  rw [read] at h
  cases hwhole : readWhole s with
  | error stop =>
    rw [hwhole] at h
    cases stop <;> cases h
  | ok whole =>
    rw [hwhole] at h
    cases h
    rw [readWhole] at hwhole
    split_ifs at hwhole
    split at hwhole
    · cases hwhole
    · rename_i hvalue
      split at hwhole
      · cases hwhole
        exact ⟨_, _, hvalue⟩
      · cases hwhole

/-- The numbers in what a JSON text holds are short. -/
theorem isShort_of_read {s : List Char} {d : Datum} (h : read s = .ok d) : d.IsShort := by
  obtain ⟨depth, rest, hvalue⟩ := exists_readValue_of_read h
  exact (readsShort depth).value hvalue

theorem mem_of_read_list {s : List Char} {ds : List Datum} (h : read s = .ok (.list ds)) :
    '[' ∈ s := by
  obtain ⟨depth, rest, hvalue⟩ := exists_readValue_of_read h
  have hmem : '[' ∈ skipSpace s := by
    generalize skipSpace s = inside at hvalue
    cases depth with
    | zero =>
      unfold readValue at hvalue
      cases hvalue
    | succ depth =>
      unfold readValue at hvalue
      split at hvalue
      · obtain ⟨_, -, hvalue⟩ := map_eq_ok_iff.mp hvalue
        cases hvalue
      · split at hvalue
        · cases hvalue
        · obtain ⟨_, -, hvalue⟩ := map_eq_ok_iff.mp hvalue
          cases hvalue
      · exact List.mem_cons_self
      · rcases readScalar_eq_ok hvalue with hword | ⟨n, -, hint⟩ | ⟨x, -, hfloat⟩
        · simp [words] at hword
        · cases hint
        · cases hfloat
  exact (List.dropWhile_sublist _).subset hmem

end Json

end LintGate
