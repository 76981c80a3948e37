import LintGate.Text.Utf8
import Mathlib.Tactic.IntervalCases

/-! # Reading back what was encoded

The bytes of a text are decoded to that text. A character takes up to four bytes; the first one says
how many, and the range that it leaves to the second one rules out exactly the longer forms of
shorter characters, the surrogates, and what lies behind the last code point.
-/

namespace LintGate.Text.Utf8

def secondOfThree (lead : Nat) : UInt8 × UInt8 :=
  if lead = 0 then (0xA0, 0xBF) else if lead = 13 then (0x80, 0x9F) else tail

def secondOfFour (lead : Nat) : UInt8 × UInt8 :=
  if lead = 0 then (0x90, 0xBF) else if lead = 4 then (0x80, 0x8F) else tail

section Begin

variable {lead : Nat} (offset : Nat)

theorem begin?_two (hlow : 2 ≤ lead) (hhigh : lead < 32) :
    begin? (UInt8.ofNat (lead + 0xC0)) offset =
      some ⟨UInt8.ofNat (lead + 0xC0), offset, 1, lead, tail, []⟩ := by
  interval_cases lead <;> rfl

theorem begin?_three (hhigh : lead < 16) :
    begin? (UInt8.ofNat (lead + 0xE0)) offset =
      some ⟨UInt8.ofNat (lead + 0xE0), offset, 1, lead, secondOfThree lead, [tail]⟩ := by
  interval_cases lead <;> rfl

theorem begin?_four (hhigh : lead < 5) :
    begin? (UInt8.ofNat (lead + 0xF0)) offset =
      some ⟨UInt8.ofNat (lead + 0xF0), offset, 1, lead, secondOfFour lead, [tail, tail]⟩ := by
  interval_cases lead <;> rfl

end Begin

/-- The byte that stands for six bits of a character lies in a range. -/
def Within (range : UInt8 × UInt8) (six : Nat) : Prop :=
  range.1.toNat ≤ six + 0x80 ∧ six + 0x80 ≤ range.2.toNat

theorem within_tail {six : Nat} (h : six < 64) : Within tail six := by
  constructor
  · change 0x80 ≤ six + 0x80
    omega
  · change six + 0x80 ≤ 0xBF
    omega

/-- Three bytes are for no character that has a shorter form, and for no surrogate. -/
theorem within_secondOfThree {lead six : Nat} (hsix : six < 64) (hlong : lead = 0 → 32 ≤ six)
    (hsurrogate : lead = 13 → six < 32) : Within (secondOfThree lead) six := by
  rw [secondOfThree]
  split_ifs with hzero hthirteen
  · have hsix' := hlong hzero
    exact ⟨Nat.add_le_add_right hsix' 0x80, Nat.add_le_add_right (Nat.le_of_lt_succ hsix) 0x80⟩
  · have hsix' := hsurrogate hthirteen
    exact ⟨Nat.le_add_left 0x80 six, Nat.add_le_add_right (Nat.le_of_lt_succ hsix') 0x80⟩
  · exact within_tail hsix

/-- Four bytes are for no character that has a shorter form, and for none behind the last one. -/
theorem within_secondOfFour {lead six : Nat} (hsix : six < 64) (hlong : lead = 0 → 16 ≤ six)
    (hlast : lead = 4 → six < 16) : Within (secondOfFour lead) six := by
  rw [secondOfFour]
  split_ifs with hzero hfour
  · have hsix' := hlong hzero
    exact ⟨Nat.add_le_add_right hsix' 0x80, Nat.add_le_add_right (Nat.le_of_lt_succ hsix) 0x80⟩
  · have hsix' := hlast hfour
    exact ⟨Nat.le_add_left 0x80 six, Nat.add_le_add_right (Nat.le_of_lt_succ hsix') 0x80⟩
  · exact within_tail hsix

variable {offset six : Nat} {s : Begun} {rest : List UInt8}

theorem toNat_ofNat_six (h : six < 64) : (UInt8.ofNat (six + 0x80)).toNat = six + 0x80 := by
  rw [UInt8.toNat_ofNat']
  omega

theorem in_range (hsix : six < 64) {range : UInt8 × UInt8} (h : Within range six) :
    (range.1 ≤ UInt8.ofNat (six + 0x80) && UInt8.ofNat (six + 0x80) ≤ range.2) = true := by
  simp only [Bool.and_eq_true, decide_eq_true_eq, UInt8.le_iff_toNat_le, toNat_ofNat_six hsix]
  exact h

theorem toNat_sub_six (hsix : six < 64) : (UInt8.ofNat (six + 0x80) - 0x80).toNat = six := by
  have hbyte : (UInt8.ofNat (six + 0x80)).toNat = six + 0x80 := toNat_ofNat_six hsix
  rw [UInt8.toNat_sub_of_le, hbyte]
  · change six + 0x80 - 0x80 = six
    omega
  · rw [UInt8.le_iff_toNat_le, hbyte]
    change 0x80 ≤ six + 0x80
    omega

theorem decodeFrom_last (hsix : six < 64) (hnext : Within s.next six) (hlater : s.later = []) :
    decodeFrom offset (some s) (UInt8.ofNat (six + 0x80) :: rest) =
      (decodeFrom (offset + 1) none rest).map (Char.ofNat (64 * s.bits + six) :: ·) := by
  rw [decodeFrom, if_pos (in_range hsix hnext), hlater, toNat_sub_six hsix]

theorem decodeFrom_inner (hsix : six < 64) (hnext : Within s.next six) {next : UInt8 × UInt8}
    {later : List (UInt8 × UInt8)} (hlater : s.later = next :: later) :
    decodeFrom offset (some s) (UInt8.ofNat (six + 0x80) :: rest) =
      decodeFrom (offset + 1)
        (some ⟨s.byte, s.offset, s.taken + 1, 64 * s.bits + six, next, later⟩) rest := by
  rw [decodeFrom, if_pos (in_range hsix hnext), hlater, toNat_sub_six hsix]

/-- The first byte of a character that has more than one. -/
theorem decodeFrom_first {b : UInt8} (hb : 0x80 ≤ b) (hbegin : begin? b offset = some s) :
    decodeFrom offset none (b :: rest) = decodeFrom (offset + 1) (some s) rest := by
  have hnot : ¬ b < 0x80 := UInt8.not_lt.mpr hb
  rw [decodeFrom, if_neg hnot, hbegin]

theorem le_ofNat_lead {lead base : Nat} (hbase : 0x80 ≤ base) (h : lead + base < 256) :
    0x80 ≤ UInt8.ofNat (lead + base) := by
  rw [UInt8.le_iff_toNat_le, UInt8.toNat_ofNat', Nat.mod_eq_of_lt h]
  change 0x80 ≤ lead + base
  omega

section Forms

variable {a b c d : Nat}

theorem decodeFrom_two (hlow : 2 ≤ a) (ha : a < 32) (hb : b < 64) :
    decodeFrom offset none (UInt8.ofNat (a + 0xC0) :: UInt8.ofNat (b + 0x80) :: rest) =
      (decodeFrom (offset + 2) none rest).map (Char.ofNat (64 * a + b) :: ·) := by
  rw [decodeFrom_first (le_ofNat_lead (by omega) (by omega)) (begin?_two offset hlow ha),
    decodeFrom_last hb (within_tail hb) rfl]

theorem decodeFrom_three (ha : a < 16) (hb : b < 64) (hc : c < 64)
    (hnext : Within (secondOfThree a) b) :
    decodeFrom offset none
        (UInt8.ofNat (a + 0xE0) :: UInt8.ofNat (b + 0x80) :: UInt8.ofNat (c + 0x80) :: rest) =
      (decodeFrom (offset + 3) none rest).map (Char.ofNat (64 * (64 * a + b) + c) :: ·) := by
  rw [decodeFrom_first (le_ofNat_lead (by omega) (by omega)) (begin?_three offset ha),
    decodeFrom_inner hb hnext rfl, decodeFrom_last hc (within_tail hc) rfl]

theorem decodeFrom_four (ha : a < 5) (hb : b < 64) (hc : c < 64) (hd : d < 64)
    (hnext : Within (secondOfFour a) b) :
    decodeFrom offset none
        (UInt8.ofNat (a + 0xF0) :: UInt8.ofNat (b + 0x80) :: UInt8.ofNat (c + 0x80) ::
          UInt8.ofNat (d + 0x80) :: rest) =
      (decodeFrom (offset + 4) none rest).map
        (Char.ofNat (64 * (64 * (64 * a + b) + c) + d) :: ·) := by
  rw [decodeFrom_first (le_ofNat_lead (by omega) (by omega)) (begin?_four offset ha),
    decodeFrom_inner hb hnext rfl, decodeFrom_inner hc (within_tail hc) rfl,
    decodeFrom_last hd (within_tail hd) rfl]

end Forms

theorem toNat_valid (c : Char) :
    c.val.toNat < 0xD800 ∨ 0xDFFF < c.val.toNat ∧ c.val.toNat < 0x110000 :=
  c.valid

/-- The bytes of a character are decoded to it. -/
theorem decodeFrom_encodeChar (c : Char) (offset : Nat) (rest : List UInt8) :
    ∃ behind, decodeFrom offset none (String.utf8EncodeChar c ++ rest) =
      (decodeFrom behind none rest).map (c :: ·) := by
  have hvalid := toNat_valid c
  have hself : Char.ofNat c.val.toNat = c := Char.ofNat_toNat c
  rw [String.utf8EncodeChar]
  generalize c.val.toNat = v at hvalid hself ⊢
  by_cases hone : v ≤ 0x7F
  · have hbyte : (UInt8.ofNat v).toNat = v := by
      rw [UInt8.toNat_ofNat', Nat.mod_eq_of_lt (by omega)]
    have hlt : UInt8.ofNat v < 0x80 := by
      rw [UInt8.lt_iff_toNat_lt, hbyte]
      change v < 0x80
      omega
    rw [if_pos hone, List.singleton_append, decodeFrom, if_pos hlt, hbyte, hself]
    exact ⟨_, rfl⟩
  · rw [if_neg hone]
    by_cases htwo : v ≤ 0x7FF
    · have hlead : v / 64 % 0x20 = v / 64 := Nat.mod_eq_of_lt (by omega)
      have hsum : 64 * (v / 64) + v % 64 = v := by omega
      rw [if_pos htwo, hlead, List.cons_append, List.singleton_append,
        decodeFrom_two (by omega) (by omega) (by omega), hsum, hself]
      exact ⟨_, rfl⟩
    · rw [if_neg htwo]
      by_cases hthree : v ≤ 0xFFFF
      · have hlead : v / 4096 % 0x10 = v / 4096 := Nat.mod_eq_of_lt (by omega)
        have hsum : 64 * (64 * (v / 4096) + v / 64 % 64) + v % 64 = v := by omega
        have hnext : Within (secondOfThree (v / 4096)) (v / 64 % 64) :=
          within_secondOfThree (by omega) (by omega) (by omega)
        rw [if_pos hthree, hlead]
        simp only [List.cons_append, List.nil_append]
        rw [decodeFrom_three (by omega) (by omega) (by omega) hnext, hsum, hself]
        exact ⟨_, rfl⟩
      · have hlead : v / 262144 % 8 = v / 262144 := Nat.mod_eq_of_lt (by omega)
        have hsum : 64 * (64 * (64 * (v / 262144) + v / 4096 % 64) + v / 64 % 64) + v % 64 = v := by
          omega
        have hnext : Within (secondOfFour (v / 262144)) (v / 4096 % 64) :=
          within_secondOfFour (by omega) (by omega) (by omega)
        rw [if_neg hthree, hlead]
        simp only [List.cons_append, List.nil_append]
        rw [decodeFrom_four (by omega) (by omega) (by omega) (by omega) hnext, hsum, hself]
        exact ⟨_, rfl⟩

theorem decodeFrom_encode (s : List Char) (offset : Nat) :
    decodeFrom offset none (encode s) = .ok s := by
  induction s generalizing offset with
  | nil => rw [encode, List.flatMap_nil, decodeFrom]
  | cons c rest ih =>
    obtain ⟨behind, hdecode⟩ := decodeFrom_encodeChar c offset (encode rest)
    rw [encode, List.flatMap_cons]
    change decodeFrom offset none (String.utf8EncodeChar c ++ encode rest) = _
    rw [hdecode, ih]
    rfl

theorem decode_encode (s : List Char) : decode (encode s) = .ok s := decodeFrom_encode s 0

end LintGate.Text.Utf8
