import LintGate.Proofs.Encoding
import LintGate.Proofs.LogGrowth
import LintGate.Proofs.TwoRuns

/-! # Captures that can be written down

A line of expectations holds a text on one line and without blanks at its ends, and it holds each
such text. So a capture can be expected just in case all of its descriptions are of this form. Its
violations, as they are shown, are then the lines of expectations that it meets. Where a finding has
no violation, say because its last line has no numeral, nothing is captured and nothing can be
expected.
-/

namespace LintGate

open Gate

namespace Text

/-- A text on one line that has no blanks at its ends. -/
def IsClean (d : String) : Prop := d.stripped = d ∧ ∀ c ∈ d.toList, c ∉ lineBreaks

theorem isClean_iff {d : String} : IsClean d ↔ IsStripped d.toList ∧ IsLine d.toList := by
  rw [IsClean, IsLine, String.stripped, ← strip_eq_self_iff]
  constructor
  · rintro ⟨hstrip, hline⟩
    refine ⟨?_, fun c hc => ?_⟩
    · have htexts := congrArg String.toList hstrip
      rwa [String.toList_ofList] at htexts
    · rw [← Bool.not_eq_true, isLineBreak_iff_mem]
      exact hline c hc
  · rintro ⟨hstrip, hline⟩
    refine ⟨?_, fun c hc => ?_⟩
    · rw [hstrip, String.ofList_toList]
    · rw [← isLineBreak_iff_mem, hline c hc]
      exact Bool.false_ne_true

end Text

theorem Violation.description_of_key {v : Violation} {k : Key} (h : v.key = .ok k) :
    v.description = k.text := by
  rw [key, map_eq_ok_iff] at h
  obtain ⟨line, -, rfl⟩ := h
  rfl

namespace Finding

/-- The finding is turned into a violation, and a line of expectations can hold its description. -/
def IsWritable (f : Finding) : Prop :=
  ∃ v d, f.toViolation = .ok v ∧ v.description = .text d ∧ Text.IsClean d

theorem natAbs_line_lt {f : Finding} {v : Violation} {k : Key} (hv : f.toViolation = .ok v)
    (hk : f.key? = some k) : k.line.natAbs < Text.Numeral.bound := by
  have hzero : (0 : Int).natAbs < Text.Numeral.bound :=
    Nat.lt_trans Nat.zero_lt_one Text.Numeral.one_lt_bound
  cases f with
  | rule f =>
    obtain ⟨hfirst, -⟩ := key?_rule_eq_some_iff.mp hk
    obtain ⟨location, hrange, -⟩ := RuleFinding.toViolation_eq_ok_iff.mp hv
    rw [hfirst] at hrange
    exact (Violation.range?_int hrange).1
  | processing f =>
    rw [key?] at hk
    cases hm : f.message with
    | text message =>
      simp only [hm, Option.some.injEq] at hk
      rw [← hk]
      exact hzero
    | _ => simp [hm] at hk
  | config f =>
    cases hk
    exact hzero
  | foreign typeName => cases hk

theorem IsWritable.isRegular {f : Finding} (h : f.IsWritable) (hline : f.HasNaturalLine) :
    f.IsRegular := by
  obtain ⟨v, d, hv, hdescription, -⟩ := h
  cases f with
  | rule f =>
    obtain ⟨location, -, rfl⟩ := RuleFinding.toViolation_eq_ok_iff.mp hv
    exact ⟨hline, d, hdescription⟩
  | _ => trivial

/-- The key of a writable finding is that of the line that its violation makes. -/
theorem IsWritable.key {f : Finding} (h : f.IsWritable) (hf : f.IsRegular) :
    ∃ (n : Nat) (d : String), n < Text.Numeral.bound ∧ Text.IsClean d ∧
      f.key? = some ⟨n, .text d⟩ ∧
      (f.toViolation >>= Violation.render) = .ok (Key.render ⟨n, .text d⟩) := by
  obtain ⟨v, d, hv, hdescription, hd⟩ := h
  obtain ⟨k, hk, hkey, hline, -⟩ := key_toViolation hv hf
  have hbound := natAbs_line_lt hv hk
  have htext : k.text = .text d := (Violation.description_of_key hkey).symm.trans hdescription
  obtain ⟨line, text⟩ := k
  obtain ⟨n, rfl⟩ := Int.eq_ofNat_of_zero_le hline
  cases htext
  refine ⟨n, d, hbound, hd, hk, ?_⟩
  rw [hv]
  change v.render = _
  rw [Violation.render, hkey]
  rfl

end Finding

namespace Expectation

/-- The expectation can be written on a line of its own, and read back from it. -/
def IsWritable (e : Expectation) : Prop := e.line < Text.Numeral.bound ∧ Text.IsClean e.message

theorem toList_render (e : Expectation) :
    e.render.toList = Nat.toDigits 10 e.line ++ ':' :: e.message.toList := by
  simp [render, key, Key.render]

theorem isLine_render {e : Expectation} (h : e.IsWritable) : Text.IsLine e.render.toList := by
  obtain ⟨-, hline⟩ := Text.isClean_iff.mp h.2
  intro c hc
  rw [toList_render, List.mem_append, List.mem_cons] at hc
  -- Digits, the colon, and the text of a clean message: none of them breaks the line.
  rcases hc with hc | rfl | hc
  · have hblank := Text.isBlank_of_isDigit (Text.Numeral.isDigit_of_mem_toDigits hc)
    rw [← Bool.not_eq_true] at hblank ⊢
    exact fun hbreak => hblank (Text.isBlank_of_isLineBreak hbreak)
  · decide
  · exact hline c hc

theorem not_allBlank_render (e : Expectation) : (! Text.allBlank e.render.toList) = true := by
  rw [Bool.not_eq_true', ← Bool.not_eq_true, Text.allBlank, List.all_eq_true]
  intro hblank
  have hcolon := hblank ':' (by simp [toList_render])
  exact absurd hcolon (by decide)

def renderAll (es : List Expectation) : String := "\n".intercalate (es.map render)

theorem nonblankLines_renderAll {es : List Expectation} (h : ∀ e ∈ es, e.IsWritable) :
    Text.nonblankLines (Text.unifyNewlines (renderAll es).toList) = es.map (·.render.toList) := by
  have hlines : ∀ line ∈ es.map (·.render.toList), Text.IsLine line ∧ line ≠ [] := by
    simp only [List.mem_map]
    rintro _ ⟨e, he, rfl⟩
    exact ⟨isLine_render (h e he), by simp [toList_render]⟩
  have htext : (renderAll es).toList = ['\n'].intercalate (es.map (·.render.toList)) := by
    rw [renderAll, String.toList_intercalate, List.map_map]
    rfl
  rw [htext, Text.unifyNewlines_intercalate fun line hline => (hlines line hline).1,
    Text.nonblankLines, Text.splitLines_intercalate hlines, List.filter_eq_self]
  simp only [List.mem_map]
  rintro _ ⟨e, -, rfl⟩
  exact e.not_allBlank_render

theorem reads_renderAll {es : List Expectation} (h : ∀ e ∈ es, e.IsWritable) :
    List.Forall₂ Reads (Text.nonblankLines (Text.unifyNewlines (renderAll es).toList)) es := by
  rw [nonblankLines_renderAll h, List.forall₂_map_left_iff, List.forall₂_same]
  intro e he
  exact reads_render (h e he).1 (Text.isClean_iff.mp (h e he).2).1

theorem isClean_message {text : List Char} {es : List Expectation}
    (h : List.Forall₂ Reads (Text.nonblankLines text) es) {e : Expectation} (he : e ∈ es) :
    Text.IsClean e.message := by
  obtain ⟨line, hline, hreads⟩ := exists_mem_of_forall₂ h he
  obtain ⟨hstrip, hmem⟩ := hreads.message
  refine Text.isClean_iff.mpr ⟨hstrip, fun c hc => ?_⟩
  exact Text.isLine_of_mem_splitLines (List.mem_filter.mp hline).1 c (hmem c hc)

end Expectation

def Fixtures.expectationsPath (fs : Fixtures) (check : Check) : Path :=
  fs.directory check / Path.ofString Fixture.expectationsName

namespace Runner

/-- Whatever is written as the expectations of the check, its run on the invalid sample emits the
findings and leaves the fixture as it is. -/
def Unswayed (r : Runner) (t : FileTree) (check : Check) (fs : List Finding) : Prop :=
  ∀ bytes, ∃ written u,
    t.overwrite (r.fixtures.expectationsPath check).toString bytes = .ok written ∧
      r.Performs written check Sample.invalid ⟨fs, none⟩ u ∧ r.fixtures.Agree written u check

/-- With the text as its expectations, the check passes the violating protocol. -/
def PassesWith (r : Runner) (t : FileTree) (check : Check) (text : String) : Prop :=
  ∃ written o, t.overwrite (r.fixtures.expectationsPath check).toString
      (Text.Utf8.encode text.toList) = .ok written ∧
    (r.verifyViolating check).value written = .ok o ∧ o.passed = true

variable {r : Runner} {t written u : FileTree} {check : Check} {fs : List Finding}

/-- The text that was written is the text that is read. -/
theorem expectationsText_overwrite {text : List Char} {e : Emission}
    (hwritten : t.overwrite (r.fixtures.expectationsPath check).toString
      (Text.Utf8.encode text) = .ok written)
    (hperforms : r.Performs written check Sample.invalid e u)
    (hagree : r.fixtures.Agree written u check) :
    r.expectationsText u check = .ok (Text.unifyNewlines text) := by
  obtain ⟨target, htarget, -, -⟩ := hperforms
  obtain ⟨f, hload, -⟩ := load_of_target htarget
  have hpath : f.expectationsPath = r.fixtures.expectationsPath check := by
    rw [Fixtures.load_eq_ok hload]
    rfl
  have hlook : u.look f.expectationsPath.toString =
      .ok (some (.file (Text.Utf8.encode text))) := by
    rw [hagree.expectations f hload, hpath]
    exact FileTree.look_overwrite (Path.endsIn_div _ (by decide)) (by decide) hwritten
  have hrequire : u.requireFile f.expectationsPath (.noExpectations f.name f.expectationsPath) =
      .ok () := FileTree.require_eq_ok_iff.mpr ⟨_, hlook, rfl⟩
  rw [expectationsText, hagree.load, hload]
  change f.expectationsText u = _
  rw [Fixture.expectationsText, hrequire, FileTree.read_eq_ok_iff.mpr hlook]
  simp only [Text.Utf8.decode_encode]
  rfl

theorem isRegular_of_passed {e : Emission} (hlines : ∀ f ∈ e.findings, f.HasNaturalLine)
    {expected : Except Fault (List Expectation)} {o : Outcome}
    (ho : compared check e.capture expected = .ok o) (hpassed : o.passed = true) :
    ∀ f ∈ e.findings, f.IsRegular := by
  rw [compared] at ho
  cases hfault : e.capture.fault with
  | some fault => simp [hfault] at ho
  | none =>
    simp only [hfault, contrast, bind_eq_ok_iff] at ho
    obtain ⟨d, ⟨es, -, captured, hcaptured, hd⟩, ho⟩ := ho
    obtain ⟨-, rfl⟩ := compare_eq_ok_iff.mp hd
    simp only [violatingOutcome, bind_eq_ok_iff] at ho
    obtain ⟨summary, -, missing, -, unexpected, -, ho⟩ := ho
    cases ho
    simp only [Differences.isEmpty, Bool.and_eq_true, List.isEmpty_iff] at hpassed
    have htexts := Key.hasText_of_surplus_eq_nil hasText_of_mem_expected hpassed.2
    have hholds := (e.capture_fault_eq_none_iff.mp hfault).holds.1
    intro f hf
    cases f with
    | rule f =>
      obtain ⟨v, hv, hfv⟩ := exists_mem_of_forall₂ hholds.flip hf
      obtain ⟨k, hk, hkey⟩ := exists_mem_of_mapM_eq_ok hcaptured hv
      obtain ⟨location, -, rfl⟩ := RuleFinding.toViolation_eq_ok_iff.mp hfv
      obtain ⟨s, hs⟩ := Key.hasText_iff.mp (htexts k hk)
      exact ⟨hlines _ hf, s, (Violation.description_of_key hkey).trans hs⟩
    | _ => trivial

theorem isRegular_of_passesWith (h : r.Unswayed t check fs)
    (hlines : ∀ f ∈ fs, f.HasNaturalLine) {text : String} (hpasses : r.PassesWith t check text) :
    ∀ f ∈ fs, f.IsRegular := by
  obtain ⟨written, o, hwritten, ho, hpassed⟩ := hpasses
  obtain ⟨written', u, hwritten', hperforms, -⟩ := h (Text.Utf8.encode text.toList)
  -- There is one tree with this text in it, so both facts are about the same run.
  cases hwritten.symm.trans hwritten'
  rw [hperforms.verifyViolating] at ho
  exact isRegular_of_passed (e := ⟨fs, none⟩) hlines ho hpassed

/-- A check passes with a text just in case all it emits is captured and is what the text expects.
-/
theorem passesWith_iff (h : r.Unswayed t check fs) (hregular : ∀ f ∈ fs, f.IsRegular)
    (text : String) :
    r.PassesWith t check text ↔ (∀ f ∈ fs, ∃ v, f.toViolation = .ok v) ∧
      ∃ es captured,
        List.Forall₂ Expectation.Reads
          (Text.nonblankLines (Text.unifyNewlines text.toList)) es ∧
        List.Forall₂ (fun f k => f.key? = some k) fs captured ∧
        captured.Perm (es.map Expectation.key) := by
  obtain ⟨written, u, hwritten, hperforms, hagree⟩ := h (Text.Utf8.encode text.toList)
  have htext := expectationsText_overwrite hwritten hperforms hagree
  have hvalue := hperforms.verifyViolating
  rw [PassesWith, hwritten]
  simp only [Except.ok.injEq]
  constructor
  · rintro ⟨_, o, rfl, ho, hpassed⟩
    rw [hvalue] at ho
    obtain ⟨hreturns, es, hes⟩ := (exists_compared_iff check hregular _).mp ⟨o, ho⟩
    obtain ⟨captured, p, missing, unexpected, hcaptured, -, hp, hcompares⟩ :=
      compared_eq_ok check hreturns hregular es
    rw [hes, hp] at ho
    cases ho
    exact ⟨hreturns.2, es, captured, (expected_eq_ok_iff htext).mp hes, hcaptured,
      hcompares.passed.mp hpassed⟩
  · rintro ⟨hviolations, es, captured, hreads, hcaptured, hperm⟩
    have hes := (expected_eq_ok_iff htext).mpr hreads
    obtain ⟨captured', o, missing, unexpected, hcaptured', -, ho, hcompares⟩ :=
      compared_eq_ok check (e := ⟨fs, none⟩) ⟨rfl, hviolations⟩ hregular es
    refine ⟨written, o, rfl, ?_, hcompares.passed.mpr ?_⟩
    · rw [hvalue, hes, ho]
    · exact (perm_of_forall₂_eq_some hcaptured' hcaptured (.refl fs)).trans hperm

theorem isWritable_of_perm {es : List Expectation} {captured : List Key} {text : List Char}
    (hregular : ∀ f ∈ fs, f.IsRegular) (hviolations : ∀ f ∈ fs, ∃ v, f.toViolation = .ok v)
    (hreads : List.Forall₂ Expectation.Reads (Text.nonblankLines text) es)
    (hcaptured : List.Forall₂ (fun f k => f.key? = some k) fs captured)
    (hperm : captured.Perm (es.map Expectation.key)) : ∀ f ∈ fs, f.IsWritable := by
  intro f hf
  obtain ⟨v, hv⟩ := hviolations f hf
  obtain ⟨k, hk, hkey, -, -⟩ := Finding.key_toViolation hv (hregular f hf)
  obtain ⟨k', hmem, hk'⟩ := exists_mem_of_forall₂ hcaptured.flip hf
  cases hk.symm.trans hk'
  obtain ⟨e, he, rfl⟩ := List.mem_map.mp (hperm.mem_iff.mp hmem)
  exact ⟨v, e.message, hv, Violation.description_of_key hkey, Expectation.isClean_message hreads he⟩

/-- The expectations that writable findings meet, as they are shown. -/
theorem exists_expectations (hregular : ∀ f ∈ fs, f.IsRegular) (h : ∀ f ∈ fs, f.IsWritable) :
    ∃ es : List Expectation, (∀ e ∈ es, e.IsWritable) ∧
      List.Forall₂ (fun f k => f.key? = some k) fs (es.map Expectation.key) ∧
      (fs.mapM fun f => f.toViolation >>= Violation.render) =
        .ok (es.map Expectation.render) := by
  simp only [mapM_eq_ok_iff]
  induction fs with
  | nil => exact ⟨[], by simp, .nil, .nil⟩
  | cons f rest ih =>
    obtain ⟨es, hes, hkeys, hlines⟩ :=
      ih (fun g hg => hregular g (by simp [hg])) fun g hg => h g (by simp [hg])
    obtain ⟨n, d, hn, hd, hkey, hline⟩ := (h f (by simp)).key (hregular f (by simp))
    exact ⟨⟨n, d⟩ :: es, List.forall_mem_cons.mpr ⟨⟨hn, hd⟩, hes⟩, .cons hkey hkeys,
      .cons hline hlines⟩

theorem passesWith_shown (h : r.Unswayed t check fs) (hlines : ∀ f ∈ fs, f.HasNaturalLine)
    (hwritable : ∀ f ∈ fs, f.IsWritable) :
    ∃ lines, (fs.mapM fun f => f.toViolation >>= Violation.render) = .ok lines ∧
      r.PassesWith t check ("\n".intercalate lines) := by
  have hregular : ∀ f ∈ fs, f.IsRegular := fun f hf => (hwritable f hf).isRegular (hlines f hf)
  obtain ⟨es, hes, hkeys, hshown⟩ := exists_expectations hregular hwritable
  refine ⟨_, hshown, (passesWith_iff h hregular _).mpr ⟨fun f hf => ?_, es, _,
    Expectation.reads_renderAll hes, hkeys, .refl _⟩⟩
  obtain ⟨v, d, hv, -⟩ := hwritable f hf
  exact ⟨v, hv⟩

theorem isWritable_of_passesWith (h : r.Unswayed t check fs) (hlines : ∀ f ∈ fs, f.HasNaturalLine)
    {text : String} (hpasses : r.PassesWith t check text) : ∀ f ∈ fs, f.IsWritable := by
  have hregular := isRegular_of_passesWith h hlines hpasses
  obtain ⟨hviolations, es, captured, hreads, hcaptured, hperm⟩ :=
    (passesWith_iff h hregular text).mp hpasses
  exact isWritable_of_perm hregular hviolations hreads hcaptured hperm

/-- If every finding that a check emits on the invalid sample has a violation, there are
expectations with which it passes the violating protocol just in case every description that is
captured is a text on one line and without blanks at its ends. If a finding has no violation, there
are none; texts and lines that can be written are enough to have one. Where there are such
expectations, the captured violations, as they are shown and one to a line, are among them. -/
theorem exists_passesWith_iff (h : r.Unswayed t check fs)
    (hlines : ∀ f ∈ fs, f.HasNaturalLine) :
    ((∀ f ∈ fs, ∃ v, f.toViolation = .ok v) →
      ((∃ text, r.PassesWith t check text) ↔
        ∀ f ∈ fs, ∀ v, f.toViolation = .ok v → ∃ d, v.description = .text d ∧ Text.IsClean d)) ∧
    ((∃ f ∈ fs, ∀ v, f.toViolation ≠ .ok v) → ¬∃ text, r.PassesWith t check text) ∧
    (∀ f ∈ fs, f.HasTexts → f.HasWritableLines → ∃ v, f.toViolation = .ok v) ∧
    ((∃ text, r.PassesWith t check text) →
      ∃ lines, (fs.mapM fun f => f.toViolation >>= Violation.render) = .ok lines ∧
        r.PassesWith t check ("\n".intercalate lines)) := by
  refine ⟨fun hviolations => ⟨?_, fun hclean => ?_⟩, ?_, fun f _ => Finding.exists_toViolation, ?_⟩
  · rintro ⟨text, hpasses⟩ f hf v hv
    obtain ⟨v', d, hv', hdescription, hd⟩ := isWritable_of_passesWith h hlines hpasses f hf
    cases hv.symm.trans hv'
    exact ⟨d, hdescription, hd⟩
  · have hwritable : ∀ f ∈ fs, f.IsWritable := by
      intro f hf
      obtain ⟨v, hv⟩ := hviolations f hf
      obtain ⟨d, hdescription, hd⟩ := hclean f hf v hv
      exact ⟨v, d, hv, hdescription, hd⟩
    obtain ⟨lines, -, hpasses⟩ := passesWith_shown h hlines hwritable
    exact ⟨_, hpasses⟩
  · rintro ⟨f, hf, hrefused⟩ ⟨text, hpasses⟩
    obtain ⟨v, d, hv, -⟩ := isWritable_of_passesWith h hlines hpasses f hf
    exact hrefused v hv
  · rintro ⟨text, hpasses⟩
    exact passesWith_shown h hlines (isWritable_of_passesWith h hlines hpasses)

/-- Rewriting the expectations of a check leaves all else of a fixture alone. -/
theorem look_rewritten {bytes : List UInt8}
    (hwritten : t.overwrite (r.fixtures.expectationsPath check).toString bytes = .ok written)
    (p : Path) (name : String) (hname : Path.ofString name = ⟨0, [name]⟩)
    (hplain : FileTree.isPlain name = true) (hne : name ≠ Fixture.expectationsName) :
    written.look (p / Path.ofString name).toString = t.look (p / Path.ofString name).toString :=
  FileTree.look_overwrite_of_ne (Path.endsIn_div _ (by decide)) (by decide) hwritten
    (Path.endsIn_div p hname) hplain hne

theorem load_rewritten {bytes : List UInt8}
    (hwritten : t.overwrite (r.fixtures.expectationsPath check).toString bytes = .ok written) :
    r.fixtures.load written check = r.fixtures.load t check := by
  have hconfig := look_rewritten hwritten (r.fixtures.directory check) Fixture.configName
    (by decide) (by decide) (by decide)
  obtain ⟨above, -, hfree, hput⟩ :=
    FileTree.overwrite_place (Path.endsIn_div _ (by decide)) (by decide) hwritten
  rw [Fixtures.load, Fixtures.load, FileTree.requireFile, FileTree.requireFile,
    FileTree.require_congr hconfig, hput, FileTree.requireDirectory_put (by simp) hfree]

theorem unswayed_pylint {runOf : Path → List Path → PylintRun} {fixture : Fixture} {path : Path}
    (hengine : r.engineFor check = .ok (Pylint.engine runOf))
    (hfixture : r.fixtures.load t check = .ok fixture)
    (hpath : fixture.samplePath t Sample.invalid = .ok path)
    (hopening : (Pylint.opening fixture.config).findSome? (SessionStep.refusal? t) = none)
    {above : Place}
    (hparent : t.parent (r.fixtures.expectationsPath check).toString =
      .ok (some (above, Fixture.expectationsName)))
    (hfree : t.find? (above ++ [Fixture.expectationsName]) ≠ some .directory)
    (hreturned : (runOf fixture.config [path]).ending = .returned) :
    r.Unswayed t check ((runOf fixture.config [path]).messages.map Pylint.finding) := by
  intro bytes
  have hwritten := FileTree.overwrite_of_parent (by decide) hparent hfree bytes
  have hconfig : (t.put (above ++ [Fixture.expectationsName]) (.file bytes)).look
      fixture.config.toString = t.look fixture.config.toString := by
    rw [Fixtures.load_eq_ok hfixture]
    exact look_rewritten hwritten _ Fixture.configName (by decide) (by decide) (by decide)
  have hsample : fixture.samplePath (t.put (above ++ [Fixture.expectationsName]) (.file bytes))
      Sample.invalid = .ok path := by
    have hlook := look_rewritten hwritten fixture.directory (Sample.invalid ++ Fixture.sampleSuffix)
      (by decide) (by decide) (by decide)
    rw [← hpath]
    simp only [Fixture.samplePath, FileTree.requireFile, Fixture.sample,
      FileTree.require_congr hlook]
  have hperforms := performs_pylint hengine ((load_rewritten hwritten).trans hfixture) hsample
    ((Pylint.opening_congr hconfig).trans hopening)
  refine ⟨_, _, hwritten, ?_, .refl _ _ _⟩
  rw [Pylint.emission, hreturned] at hperforms
  exact hperforms

def messageRunner (message : PylintMessage) : Runner :=
  ⟨[(Pylint.engineName, Pylint.engine fun _ _ => ⟨[message], .returned⟩)], ⟨⟨0, ["checks"]⟩⟩⟩

theorem unswayed_fixtureTree (runner : Runner) {runOf : Path → List Path → PylintRun}
    (hfixtures : runner.fixtures = ⟨⟨0, ["checks"]⟩⟩)
    (hengine : runner.engineFor importCheck = .ok (Pylint.engine runOf)) :
    let fixture : Path := ⟨0, ["checks", "pylint", "UnusedImportRule"]⟩
    let run := runOf (fixture / ⟨0, ["config.toml"]⟩) [fixture / ⟨0, ["Invalid.py"]⟩]
    run.ending = .returned → runner.Unswayed (fixtureTree [(importCheck, [])]) importCheck
      (run.messages.map Pylint.finding) := by
  intro fixture run hreturned
  have hload : runner.fixtures.load (fixtureTree [(importCheck, [])]) importCheck =
      .ok ⟨"UnusedImportRule", fixture, fixture / ⟨0, ["config.toml"]⟩⟩ := by
    rw [hfixtures]
    decide +kernel
  have hparent : (fixtureTree [(importCheck, [])]).parent
      (runner.fixtures.expectationsPath importCheck).toString =
      .ok (some (["checks", "pylint", "UnusedImportRule"], Fixture.expectationsName)) := by
    rw [hfixtures]
    decide +kernel
  exact unswayed_pylint hengine hload (by decide +kernel) (by decide +kernel) hparent
    (by decide +kernel) hreturned

theorem isClean_importText : Text.IsClean "Unused import os" := by
  have hline : "Unused import os".toList.all (! Text.isLineBreak ·) = true := by decide
  rw [Text.isClean_iff]
  exact ⟨by decide, fun c hc => by simpa using List.all_eq_true.mp hline c hc⟩

/-- The messages of `importRun` can be expected. -/
theorem exists_passesWith_iff_imports :
    importRunner.PassesWith (fixtureTree [(importCheck, [])]) importCheck
      "10:Unused import os\n2:Unused import os\n10:Unused import os" := by
  let files : List Path := [⟨0, ["checks", "pylint", "UnusedImportRule", "Invalid.py"]⟩]
  have hfindings : (importRun files).messages.map Pylint.finding =
      [importFinding 10, importFinding 2, importFinding 10] := by decide +kernel
  have h := unswayed_fixtureTree importRunner rfl rfl rfl
  have hlines : ∀ f ∈ [importFinding 10, importFinding 2, importFinding 10], f.HasNaturalLine := by
    simp only [List.forall_mem_cons, List.not_mem_nil, false_imp_iff, implies_true, and_true]
    exact ⟨⟨10, rfl⟩, ⟨2, rfl⟩, ⟨10, rfl⟩⟩
  have hviolation : ∀ line : Nat, line < Text.Numeral.bound → ∃ v,
      (importFinding line).toViolation = .ok v := fun line hline =>
    RuleFinding.exists_toViolation_iff.mpr
      ⟨Datum.isWritable_int.mpr hline, Datum.isWritable_int.mpr hline⟩
  have hclean : ∀ (line : Nat) v, (importFinding line).toViolation = .ok v →
      ∃ d, v.description = .text d ∧ Text.IsClean d := by
    intro line v hv
    obtain ⟨location, -, rfl⟩ := RuleFinding.toViolation_eq_ok_iff.mp hv
    exact ⟨_, rfl, isClean_importText⟩
  have hten : 10 < Text.Numeral.bound := Text.Numeral.lt_bound 2 (by decide) (by decide)
  have htwo : 2 < Text.Numeral.bound := Text.Numeral.lt_bound 1 (by decide) (by decide)
  obtain ⟨hiff, -, -, hshown⟩ := exists_passesWith_iff (hfindings ▸ h) hlines
  have hexists := (hiff (by simp [hviolation, hten, htwo])).mpr (by
    simp only [List.forall_mem_cons, List.not_mem_nil, false_imp_iff, implies_true, and_true]
    exact ⟨hclean 10, hclean 2, hclean 10⟩)
  obtain ⟨lines, hmapM, hpasses⟩ := hshown hexists
  have hrendered : ([importFinding 10, importFinding 2, importFinding 10].mapM fun f =>
      f.toViolation >>= Violation.render) =
      .ok ["10:Unused import os", "2:Unused import os", "10:Unused import os"] := by decide +kernel
  cases hmapM.symm.trans hrendered
  exact hpasses

/-- A clean description at line one is not enough. A last line without a numeral keeps the finding
from being captured, and a line that is a truth value keeps its key from being read. -/
theorem unexpectable_lines :
    let message (line endLine : Datum) : PylintMessage :=
      ⟨"unused-import", "Unused import os", "Invalid.py", "/Invalid.py", line, endLine⟩
    Text.IsClean "Unused import os" ∧
      (¬∃ text, (messageRunner (message (.int 1) (.int Text.Numeral.bound))).PassesWith
        (fixtureTree [(importCheck, [])]) importCheck text) ∧
      ¬∃ text, (messageRunner (message (.bool true) .null)).PassesWith
        (fixtureTree [(importCheck, [])]) importCheck text := by
  intro message
  refine ⟨isClean_importText, ?_, ?_⟩
  · have h := unswayed_fixtureTree (messageRunner (message (.int 1)
      (.int Text.Numeral.bound))) rfl rfl rfl
    have hlines : ∀ f ∈ [Pylint.finding (message (.int 1) (.int Text.Numeral.bound))],
        f.HasNaturalLine := List.forall_mem_singleton.mpr ⟨1, rfl⟩
    rintro ⟨text, hpasses⟩
    obtain ⟨v, -, hv, -⟩ := isWritable_of_passesWith h hlines hpasses _ (List.mem_singleton_self _)
    obtain ⟨-, hlast⟩ := RuleFinding.exists_toViolation_iff.mp ⟨v, hv⟩
    exact Datum.not_isWritable_bound hlast
  · rintro ⟨text, written, o, hwritten, ho, -⟩
    obtain ⟨written', u, hwritten', hperforms, -⟩ := unswayed_fixtureTree
      (messageRunner (message (.bool true) .null)) rfl rfl rfl (Text.Utf8.encode text.toList)
    cases hwritten.symm.trans hwritten'
    have hkeys : (Emission.capture ⟨[Pylint.finding (message (.bool true) .null)],
        none⟩).collector.keys = .error (.numeral (.malformed "True".toList)) := by decide +kernel
    rw [hperforms.verifyViolating, compared] at ho
    change (contrast (Emission.capture ⟨[Pylint.finding (message (.bool true) .null)],
      none⟩).collector _ >>= _) = _ at ho
    simp only [contrast, hkeys, bind_eq_ok_iff] at ho
    obtain ⟨d, ⟨es, -, keys, ⟨⟩, -⟩, -⟩ := ho

end Runner

end LintGate
