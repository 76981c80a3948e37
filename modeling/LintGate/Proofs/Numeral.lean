import LintGate.Text.Numeral
import Mathlib.Data.List.Induction
import Mathlib.Data.List.TakeWhile

/-! # Writing and reading numerals

A natural number that is short enough to be written reads back as itself, and no two integers have
the same numeral. Nothing here is said of digits of other scripts, signs or grouped digits, which
are read but never written.
-/

namespace LintGate.Text.Numeral

theorem isDigit_of_mem_toDigits {n : Nat} {c : Char} (h : c ∈ Nat.toDigits 10 n) :
    isDigit c = true := by
  have hc := Nat.isDigit_of_mem_toDigits (by decide) (by decide) h
  simpa [Char.isDigit, isDigit, Char.le_def] using hc

theorem toNat_of_isDigit {c : Char} (h : isDigit c = true) : 48 ≤ c.toNat ∧ c.toNat ≤ 57 := by
  simpa [isDigit, Char.le_def, UInt32.le_iff_toNat_le] using h

theorem ne_of_isDigit {c d : Char} (h : isDigit c = true) (hd : isDigit d = false) : c ≠ d := by
  rintro rfl
  rw [h] at hd
  cases hd

theorem plainDigit_of_isDigit {c : Char} (h : isDigit c = true) : plainDigit c = c := by
  have bounds := toNat_of_isDigit h
  rw [plainDigit, digitValue?_isDigit h]
  simp only [Option.map_some, Option.getD_some]
  rw [show 48 + (c.toNat - 48) = c.toNat by omega, Char.ofNat_toNat]

theorem isPadding_of_isDigit {c : Char} (h : isDigit c = true) : isPadding c = false := by
  have bounds := toNat_of_isDigit h
  simp only [isPadding, isBlank, Bool.and_eq_false_iff, Bool.or_eq_false_iff,
    decide_eq_false_iff_not, beq_eq_false_iff_ne]
  left
  omega

theorem wellGrouped_of_digits {digits : List Char} (hne : digits ≠ [])
    (h : ∀ c ∈ digits, isDigit c = true) : wellGrouped digits = true := by
  induction digits with
  | nil => exact absurd rfl hne
  | cons c rest ih =>
    have hc : c ≠ '_' := ne_of_isDigit (h c (by simp)) (by decide)
    cases rest with
    | nil => simpa [wellGrouped] using hc
    | cons d rest =>
      have hd : d ≠ '_' := ne_of_isDigit (h d (by simp)) (by decide)
      have hrest := ih (by simp) fun e he => h e (by simp_all)
      simp [wellGrouped, hc, hd, hrest]

/-- A row of digits `0` to `9` is read as such, whatever else a numeral may hold. -/
theorem read_digits {digits : List Char} (hne : digits ≠ [])
    (h : ∀ c ∈ digits, isDigit c = true) : read digits = (readDigits digits).map Int.ofNat := by
  have hdrop : digits.dropWhile isPadding = digits := by
    cases digits with
    | nil => rfl
    | cons c rest => simp [isPadding_of_isDigit (h c (by simp))]
  have hplain : digits.map plainDigit = digits := by
    have hid : ∀ c ∈ digits, plainDigit c = id c := fun c hc => plainDigit_of_isDigit (h c hc)
    rw [List.map_congr_left hid, List.map_id]
  have hgroups : readGroups digits digits = readDigits digits := by
    have hin : ∀ c ∈ digits, (isDigit c || c == '_') = true := fun c hc => by simp [h c hc]
    have htake : digits.takeWhile (fun c => isDigit c || c == '_') = digits :=
      List.takeWhile_eq_self_iff.mpr hin
    have hrest : digits.dropWhile (fun c => isDigit c || c == '_') = [] :=
      List.dropWhile_eq_nil_iff.mpr hin
    have hfilter : digits.filter isDigit = digits := List.filter_eq_self.mpr h
    simp only [readGroups, htake, hrest, hfilter, wellGrouped_of_digits hne h]
    cases readDigits digits <;> simp
  rw [read, hdrop, hplain]
  split
  · exact absurd (h '-' (by simp)) (by decide)
  · exact absurd (h '+' (by simp)) (by decide)
  · rw [hgroups]

theorem value_lt {digits : List Char} (h : ∀ c ∈ digits, isDigit c = true) :
    value digits < Nat.pow 10 digits.length := by
  induction digits using List.reverseRecOn with
  | nil => decide
  | append_singleton digits c ih =>
    have hdigits := ih fun d hd => h d (by simp [hd])
    have bounds := toNat_of_isDigit (h c (by simp))
    have hpow : Nat.pow 10 (digits.length + 1) = Nat.pow 10 digits.length * 10 := rfl
    rw [value_append_singleton, List.length_append, List.length_singleton, hpow]
    omega

theorem pow_le_bound {k : Nat} (h : k ≤ limit) : Nat.pow 10 k ≤ bound := by
  have hmono : ∀ m, k ≤ m → Nat.pow 10 k ≤ Nat.pow 10 m :=
    fun m hm => Nat.pow_le_pow_right (by decide) hm
  unfold bound
  exact hmono limit h

theorem lt_bound (k : Nat) {n : Nat} (h : n < Nat.pow 10 k) (hk : k ≤ limit) : n < bound :=
  Nat.lt_of_lt_of_le h (pow_le_bound hk)

theorem readDigits_lt {digits : List Char} {n : Nat} (hdigits : ∀ c ∈ digits, isDigit c = true)
    (h : readDigits digits = .ok n) : n < bound := by
  rw [readDigits] at h
  split_ifs at h with hlength
  cases h
  exact lt_bound digits.length (value_lt hdigits) hlength

theorem one_lt_bound : 1 < bound := lt_bound 1 (by decide) (by decide)

theorem length_toDigits_le_iff {n : Nat} : (Nat.toDigits 10 n).length ≤ limit ↔ n < bound := by
  have hlength : ∀ k, 0 < k → ((Nat.toDigits 10 n).length ≤ k ↔ n < Nat.pow 10 k) :=
    fun k hk => Nat.length_toDigits_le_iff (by decide) hk
  unfold bound
  exact hlength limit (by decide)

theorem value_toDigits (n : Nat) : value (Nat.toDigits 10 n) = n :=
  Nat.ofDigitChars_ten_toDigits

theorem readDigits_toDigits {n : Nat} (h : n < bound) :
    readDigits (Nat.toDigits 10 n) = .ok n := by
  rw [readDigits, if_pos (length_toDigits_le_iff.mpr h), value_toDigits]

/-- What is written of a number that is not too long reads back as the number. -/
theorem read_toDigits {n : Nat} (h : n < bound) : read (Nat.toDigits 10 n) = .ok (n : Int) := by
  rw [read_digits Nat.toDigits_ne_nil fun c hc => isDigit_of_mem_toDigits hc, readDigits_toDigits h]
  rfl

@[simp] theorem toList_write_natCast (n : Nat) : (write n).toList = Nat.toDigits 10 n :=
  Nat.toList_repr

@[simp] theorem toList_write_negSucc (n : Nat) :
    (write (Int.negSucc n)).toList = '-' :: Nat.toDigits 10 (n + 1) := by
  change ("-" ++ (n + 1).repr).toList = _
  rw [String.toList_append, Nat.toList_repr]
  rfl

theorem mem_toList_write {n : Int} {c : Char} (h : c ∈ (write n).toList) :
    isDigit c = true ∨ c = '-' := by
  cases n with
  | ofNat n => exact .inl (isDigit_of_mem_toDigits (by simpa using h))
  | negSucc n =>
    rw [toList_write_negSucc, List.mem_cons] at h
    rcases h with h | h
    · exact .inr h
    · exact .inl (isDigit_of_mem_toDigits h)

theorem toDigits_injective {m n : Nat} (h : Nat.toDigits 10 m = Nat.toDigits 10 n) : m = n := by
  rw [← value_toDigits m, h, value_toDigits]

theorem dash_not_mem_toDigits (n : Nat) : '-' ∉ Nat.toDigits 10 n := fun hmem =>
  absurd (isDigit_of_mem_toDigits hmem) (by decide)

theorem toDigits_append_ne_dash_cons (n : Nat) (rest rest' : List Char) :
    Nat.toDigits 10 n ++ rest ≠ '-' :: rest' := by
  intro h
  cases hdigits : Nat.toDigits 10 n with
  | nil => exact Nat.toDigits_ne_nil hdigits
  | cons c digits =>
    rw [hdigits] at h
    have hdash := dash_not_mem_toDigits n
    rw [hdigits, (List.cons.inj h).1] at hdash
    exact hdash (by simp)

theorem write_injective {m n : Int} (h : write m = write n) : m = n := by
  have hlist : (write m).toList = (write n).toList := by rw [h]
  cases m with
  | ofNat m =>
    cases n with
    | ofNat n => exact congrArg Int.ofNat (toDigits_injective (by simpa using hlist))
    | negSucc n => exact absurd (by simpa using hlist) (toDigits_append_ne_dash_cons m [] _)
  | negSucc m =>
    cases n with
    | ofNat n => exact absurd (by simpa using hlist.symm) (toDigits_append_ne_dash_cons n [] _)
    | negSucc n =>
      have hdigits : Nat.toDigits 10 (m + 1) = Nat.toDigits 10 (n + 1) := by simpa using hlist
      have hsucc := toDigits_injective hdigits
      rw [show m = n by omega]

end LintGate.Text.Numeral
