import LintGate.Inspection
import LintGate.Proofs.Episodes

/-! # What an inspection returns

An engine whose emissions on a file depend on the file alone answers to files. Over such engines an
inspection comes to the violations of all answers, by engine and then by file, and its history is
one episode for each engine. At the first answer that ends in a fault, the session is closed, and
the inspection returns this fault and no violations; the engines behind are not asked.
-/

namespace LintGate

open Gate

/-- Over trees of a kind, which its runs keep to, the engine grants sessions with the configuration,
and its run over one of the files emits the answer to it. -/
structure Engine.Answers (e : Engine) (config : Path) (files : List Path) (W : FileTree → Prop)
    (answer : Path → Emission) : Prop where
  grants : ∀ t, W t → e.refusal? config t = none
  emits : ∀ file ∈ files, ∀ t, W t → ∃ u, W u ∧ (e.run config [file]).Recounts t (answer file) u []

def answered (answer : Path → Emission) (files : List Path) : Except Fault (List Violation) :=
  (files.mapM fun file => (answer file).violations).map List.flatten

/-- The runs over files that take place, each with what the listener hears of it: those up to the
first that ends in a fault. -/
def runsTaken (answer : Path → Emission) : List Path → List (List Path × List Finding)
  | [] => []
  | file :: rest =>
    ([file], Finding.delivered (answer file).findings) ::
      match (answer file).violations with
      | .ok _ => runsTaken answer rest
      | .error _ => []

section Answers

variable {answer : Path → Emission} {file : Path} {files : List Path} {fault : Fault}
  {vs : List Violation}

theorem answered_cons_of_error (h : (answer file).violations = .error fault) (files : List Path) :
    answered answer (file :: files) = .error fault := by
  rw [answered, List.mapM_cons, h]
  rfl

theorem answered_cons_of_ok (h : (answer file).violations = .ok vs) (files : List Path) :
    answered answer (file :: files) = (answered answer files).map (vs ++ ·) := by
  rw [answered, answered, List.mapM_cons, h]
  cases files.mapM fun file => (answer file).violations <;> rfl

/-- Where nothing fails, every file has its run. -/
theorem runsTaken_eq_map (h : ∀ file ∈ files, ∃ vs, (answer file).violations = .ok vs) :
    runsTaken answer files = files.map fun file => ([file], (answer file).findings) := by
  induction files with
  | nil => rfl
  | cons file rest ih =>
    rw [List.forall_mem_cons] at h
    obtain ⟨⟨vs, hvs⟩, hrest⟩ := h
    rw [runsTaken, hvs, Emission.delivered_findings hvs, List.map_cons, ih hrest]

theorem violations_of_answered (h : answered answer files = .ok vs) :
    ∀ file ∈ files, ∃ ws, (answer file).violations = .ok ws := by
  obtain ⟨vss, hvss, -⟩ := map_eq_ok_iff.mp h
  exact exists_mapM_eq_ok_iff.mp ⟨vss, hvss⟩

/-- The first answer that ends in a fault is the last that is asked for. -/
theorem runsTaken_append_cons {xs ys : List Path}
    (hxs : ∀ file ∈ xs, ∃ vs, (answer file).violations = .ok vs)
    (hfile : (answer file).violations = .error fault) :
    runsTaken answer (xs ++ file :: ys) =
      xs.map (fun file => ([file], (answer file).findings)) ++
        [([file], Finding.delivered (answer file).findings)] := by
  induction xs with
  | nil => rw [List.nil_append, runsTaken, hfile]; rfl
  | cons x xs ih =>
    rw [List.forall_mem_cons] at hxs
    obtain ⟨⟨vs, hvs⟩, hxs⟩ := hxs
    rw [List.cons_append, runsTaken, hvs, Emission.delivered_findings hvs, ih hxs, List.map_cons,
      List.cons_append]

theorem answered_append_cons {xs ys : List Path}
    (hxs : ∀ file ∈ xs, ∃ vs, (answer file).violations = .ok vs)
    (hfile : (answer file).violations = .error fault) :
    answered answer (xs ++ file :: ys) = .error fault := by
  induction xs with
  | nil => exact answered_cons_of_error hfile ys
  | cons x xs ih =>
    rw [List.forall_mem_cons] at hxs
    obtain ⟨⟨vs, hvs⟩, hxs⟩ := hxs
    rw [List.cons_append, answered_cons_of_ok hvs, ih hxs]
    rfl

theorem answered_quiet (em : Path → List Finding) (files : List Path) :
    answered (fun file => ⟨em file, none⟩) files =
      (files.flatMap em).mapM Finding.toViolation := by
  have hviolations : ∀ file, (⟨em file, none⟩ : Emission).violations =
      (em file).mapM Finding.toViolation := fun file => bind_pure _
  rw [answered, mapM_flatMap]
  simp only [hviolations]

end Answers

theorem Engine.scripted_answers (name : String) (script : Path → Emission) (config : Path)
    (files : List Path) : (scripted name none script).Answers config files (fun _ => True) script :=
  ⟨fun _ _ => rfl, fun _ _ t _ => ⟨t, trivial, .pure _ t⟩⟩

namespace Engine.Answers

variable {e : Engine} {config : Path} {files : List Path} {W : FileTree → Prop}
  {answer : Path → Emission} {t : FileTree}

theorem mono {files' : List Path} (h : e.Answers config files W answer) (hsub : files' ⊆ files) :
    e.Answers config files' W answer :=
  ⟨h.grants, fun file hfile => h.emits file (hsub hfile)⟩

theorem follow (h : e.Answers config files W answer) (c : Collector) (ht : W t) :
    ∃ capture u, W u ∧ (c.follow (e.session config (files.map ([·]))).runs).Recounts t capture u
        (Episode.course e.name config (runsTaken answer files)) ∧
      c.Takes (answered answer files) capture := by
  induction files generalizing c t with
  | nil => exact ⟨⟨c, none⟩, t, ht, c.follow_nil_recounts t, .nothing c⟩
  | cons file rest ih =>
    obtain ⟨u, hu, hrun⟩ := h.emits file (by simp) t ht
    have hprocessed := hrun.after_record (e := .processed e.name config [file]) rfl
    have hrest := h.mono (List.subset_cons_self file rest)
    cases hanswer : (answer file).violations with
    | error fault =>
      obtain ⟨capture, hfollow, hfault⟩ := c.follow_stops hprocessed hanswer
        (e.session config (rest.map ([·]))).runs
      refine ⟨capture, u, hu, ?_, ?_⟩
      · rw [runsTaken, hanswer, Episode.course, List.flatMap_singleton]
        exact hfollow
      · rw [answered_cons_of_error hanswer]
        exact .of_fault hfault
    | ok vs =>
      obtain ⟨capture, v, hv, hfollow, htakes⟩ :=
        ih hrest ⟨c.violations ++ vs, c.invocations + vs.length⟩ hu
      refine ⟨capture, v, hv, ?_, ?_⟩
      · rw [runsTaken, hanswer, Emission.delivered_findings hanswer, Episode.course,
          List.flatMap_cons]
        exact c.follow_goes_on hprocessed hanswer hfollow
      · rw [answered_cons_of_ok hanswer]
        exact htakes.prepend vs

theorem hold (h : e.Answers config files W answer) (ht : W t) :
    ∃ capture u, W u ∧ (e.session config (files.map ([·]))).hold.Recounts t capture u
        (Episode.events ⟨e.name, config, some (runsTaken answer files)⟩) ∧
      Collector.empty.Takes (answered answer files) capture := by
  obtain ⟨capture, u, hu, hfollow, htakes⟩ := h.follow .empty ht
  exact ⟨capture, u, hu, Session.hold_recounts _ (h.grants t ht) hfollow, htakes⟩

theorem hold_fails {xs ys : List Path} {file : Path} {fault : Fault}
    (h : e.Answers config (xs ++ file :: ys) W answer)
    (hxs : ∀ x ∈ xs, ∃ vs, (answer x).violations = .ok vs)
    (hfile : (answer file).violations = .error fault) (ht : W t) :
    ∃ capture u, (e.session config ((xs ++ file :: ys).map ([·]))).hold.Recounts t capture u
        (Episode.events ⟨e.name, config, some (xs.map (fun x => ([x], (answer x).findings)) ++
          [([file], Finding.delivered (answer file).findings)])⟩) ∧
      capture.fault = some fault := by
  obtain ⟨capture, u, -, hhold, -, herror⟩ := h.hold ht
  rw [runsTaken_append_cons hxs hfile] at hhold
  exact ⟨capture, u, hhold, herror fault (answered_append_cons hxs hfile)⟩

end Engine.Answers

namespace Inspection

def episodes (em : Engine × Path → Path → List Finding) (files : List Path)
    (engines : List (Engine × Path)) : List Episode :=
  engines.map fun entry =>
    ⟨entry.1.name, entry.2, some (files.map fun file => ([file], em entry file))⟩

variable {engines : List (Engine × Path)} {files : List Path} {W : FileTree → Prop}
  {answer : Engine × Path → Path → Emission} {t u : FileTree} {capture : Capture}
  {hs : List Event} {fault : Fault}

theorem runAll_cons_of_fault {engine : Engine} {config : Path}
    (hhold : (engine.session config (files.map ([·]))).hold.Recounts t capture u hs)
    (hfault : capture.fault = some fault) (behind : List (Engine × Path)) :
    (runAll files ((engine, config) :: behind)).Recounts t (.error fault) u hs := by
  rw [runAll, ← List.append_nil hs]
  refine (Recounts.tell _ _ t).bind (hhold.bind ?_)
  rw [hfault]
  exact .pure _ u

theorem runAll_cons_of_taken {engine : Engine} {config : Path} {behind : List (Engine × Path)}
    {x : Except Fault (List Violation)} {v : FileTree} {gs : List Event}
    (hhold : (engine.session config (files.map ([·]))).hold.Recounts t capture u hs)
    (hfault : capture.fault = none) (hbehind : (runAll files behind).Recounts u x v gs) :
    (runAll files ((engine, config) :: behind)).Recounts t
      (x.map (capture.collector.violations ++ ·)) v (hs ++ gs) := by
  rw [runAll, ← List.append_nil gs]
  refine (Recounts.tell _ _ t).bind (hhold.bind ?_)
  rw [hfault]
  refine hbehind.bind ?_
  cases x with
  | error fault => exact .pure _ v
  | ok more => exact .pure _ v

/-- Engines whose answers do not fail are asked about every file, one engine after the other, and
then those behind them. -/
theorem runAll_append (hanswers : ∀ entry ∈ engines, entry.1.Answers entry.2 files W (answer entry))
    {vss : List (List Violation)}
    (hok : engines.mapM (fun entry => answered (answer entry) files) = .ok vss) (ht : W t) :
    ∃ u, W u ∧ ∀ behind x v gs, (runAll files behind).Recounts u x v gs →
      (runAll files (engines ++ behind)).Recounts t (x.map (vss.flatten ++ ·)) v
        ((episodes (fun entry file => (answer entry file).findings) files engines).flatMap
          Episode.events ++ gs) := by
  induction engines generalizing t vss with
  | nil =>
    cases hok
    refine ⟨t, ht, fun behind x v gs hbehind => ?_⟩
    cases x <;> exact hbehind
  | cons entry rest ih =>
    rw [List.forall_mem_cons] at hanswers
    rw [List.mapM_cons, bind_eq_ok_iff] at hok
    obtain ⟨vs, hvs, hok⟩ := hok
    rw [bind_eq_ok_iff] at hok
    obtain ⟨wss, hwss, hok⟩ := hok
    cases hok
    obtain ⟨capture, u, hu, hhold, htakes, -⟩ := hanswers.1.hold ht
    have hcapture := htakes vs hvs
    obtain ⟨v, hv, hrest⟩ := ih hanswers.2 hwss hu
    refine ⟨v, hv, fun behind x w gs hbehind => ?_⟩
    have hall := runAll_cons_of_taken hhold (by rw [hcapture]) (hrest behind x w gs hbehind)
    rw [hcapture, runsTaken_eq_map (violations_of_answered hvs), ← List.append_assoc] at hall
    have hx : (x.map (wss.flatten ++ ·)).map (vs ++ ·) = x.map ((vs :: wss).flatten ++ ·) := by
      cases x <;> simp [Except.map]
    rw [← hx]
    exact hall

theorem run_of_runAll {x : Except Fault (List Violation)} (hfiles : files ≠ [])
    (h : (runAll files engines).Recounts t x u hs) : (run engines files).Recounts t x u hs := by
  have hsome : files.isEmpty = false := by simpa using hfiles
  rw [run, hsome, ← List.append_nil hs]
  refine h.bind ?_
  cases x with
  | error fault => exact .pure _ u
  | ok vs => exact (Recounts.tell _ _ u).bind (.pure _ u)

theorem run_no_files (engines : List (Engine × Path)) (t : FileTree) :
    (run engines []).Yields t (.ok []) t [] := .pure _ t

section Answers

variable (hanswers : ∀ entry ∈ engines, entry.1.Answers entry.2 files W (answer entry)) (ht : W t)
  (hfiles : files ≠ [])

include hanswers ht hfiles

theorem run_answers {vss : List (List Violation)}
    (hok : engines.mapM (fun entry => answered (answer entry) files) = .ok vss) :
    ∃ u, (run engines files).Recounts t (.ok vss.flatten) u
      ((episodes (fun entry file => (answer entry file).findings) files engines).flatMap
        Episode.events) := by
  obtain ⟨u, -, hall⟩ := runAll_append hanswers hok ht
  have hrun := run_of_runAll hfiles (hall [] (.ok []) u [] (.pure _ u))
  exact ⟨u, by simpa [Except.map] using hrun⟩

theorem run_stops {vss : List (List Violation)}
    (hok : engines.mapM (fun entry => answered (answer entry) files) = .ok vss)
    {engine : Engine} {config : Path}
    (hhold : ∀ u, W u → ∃ capture v,
      (engine.session config (files.map ([·]))).hold.Recounts u capture v hs ∧
        capture.fault = some fault) (behind : List (Engine × Path)) :
    ∃ u, (run (engines ++ (engine, config) :: behind) files).Recounts t (.error fault) u
      ((episodes (fun entry file => (answer entry file).findings) files engines).flatMap
        Episode.events ++ hs) := by
  obtain ⟨u, hu, hall⟩ := runAll_append hanswers hok ht
  obtain ⟨capture, v, hhold, hfault⟩ := hhold u hu
  exact ⟨v, run_of_runAll hfiles (hall _ _ v hs (runAll_cons_of_fault hhold hfault behind))⟩

/-- An inspection comes to what the answers come to. -/
theorem run_value : (run engines files).value t =
    (engines.mapM fun entry => answered (answer entry) files).map List.flatten := by
  cases hok : engines.mapM fun entry => answered (answer entry) files with
  | ok vss =>
    obtain ⟨u, hrun⟩ := run_answers hanswers ht hfiles hok
    exact hrun.value_eq
  | error fault =>
    obtain ⟨before, ⟨engine, config⟩, behind, rfl, hbefore, hfault⟩ :=
      exists_first_of_mapM_eq_error hok
    obtain ⟨vss, hvss⟩ := exists_mapM_eq_ok_iff.mpr hbefore
    have hfailing := hanswers (engine, config) (by simp)
    have hhold : ∀ u, W u → ∃ capture v, (engine.session config (files.map ([·]))).hold.Recounts
        u capture v (Episode.events ⟨engine.name, config,
          some (runsTaken (answer (engine, config)) files)⟩) ∧ capture.fault = some fault := by
      intro u hu
      obtain ⟨capture, v, -, hhold, -, herror⟩ := hfailing.hold hu
      exact ⟨capture, v, hhold, herror fault hfault⟩
    obtain ⟨u, hrun⟩ := run_stops (fun entry hentry => hanswers entry (by simp [hentry])) ht hfiles
      hvss hhold behind
    exact hrun.value_eq

end Answers

section Quiet

variable {em : Engine × Path → Path → List Finding}

theorem run_value_quiet (hanswers : ∀ entry ∈ engines,
      entry.1.Answers entry.2 files W fun file => ⟨em entry file, none⟩) (ht : W t) :
    (run engines files).value t =
      (engines.flatMap fun entry => files.flatMap (em entry)).mapM Finding.toViolation := by
  by_cases hfiles : files = []
  · subst hfiles
    have hnone : (engines.flatMap fun entry => [].flatMap (em entry)) = [] :=
      List.flatMap_eq_nil_iff.mpr fun _ _ => rfl
    rw [(run_no_files engines t).value_eq, hnone]
    rfl
  · rw [run_value hanswers ht hfiles, mapM_flatMap]
    simp only [answered_quiet]

theorem exists_run_value (hanswers : ∀ entry ∈ engines,
      entry.1.Answers entry.2 files W fun file => ⟨em entry file, none⟩) (ht : W t)
    (h : ∀ entry ∈ engines, ∀ file ∈ files, ∀ f ∈ em entry file, f.HasTexts ∧ f.HasWritableLines) :
    ∃ vs, (run engines files).value t = .ok vs := by
  rw [run_value_quiet hanswers ht]
  refine exists_mapM_eq_ok_iff.mpr fun f hf => ?_
  obtain ⟨entry, hentry, hf⟩ := List.mem_flatMap.mp hf
  obtain ⟨file, hfile, hf⟩ := List.mem_flatMap.mp hf
  obtain ⟨htexts, hlines⟩ := h entry hentry file hfile f hf
  exact Finding.exists_toViolation htexts hlines

/-- What is found in some files and in others is found in all of them. With several engines the
order is another one. -/
theorem run_split {xs ys : List Path} (ht : W t)
    (hanswers : ∀ entry ∈ engines,
      entry.1.Answers entry.2 (xs ++ ys) W fun file => ⟨em entry file, none⟩)
    {vs : List Violation} (hvs : (run engines (xs ++ ys)).value t = .ok vs) :
    ∃ as bs, (run engines xs).value t = .ok as ∧ (run engines ys).value t = .ok bs ∧
      vs.Perm (as ++ bs) ∧ (engines.length = 1 → vs = as ++ bs) := by
  have hxs : ∀ entry ∈ engines, entry.1.Answers entry.2 xs W fun file => ⟨em entry file, none⟩ :=
    fun entry hentry => (hanswers entry hentry).mono (List.subset_append_left xs ys)
  have hys : ∀ entry ∈ engines, entry.1.Answers entry.2 ys W fun file => ⟨em entry file, none⟩ :=
    fun entry hentry => (hanswers entry hentry).mono (List.subset_append_right xs ys)
  have hall : (engines.flatMap fun entry => (xs ++ ys).flatMap (em entry)).mapM
      Finding.toViolation = .ok vs := by rw [← run_value_quiet hanswers ht, hvs]
  simp only [List.flatMap_append] at hall
  obtain ⟨ws, hws, hperm⟩ :=
    exists_mapM_eq_ok_of_perm hall (List.flatMap_append_perm engines _ _).symm
  obtain ⟨as, bs, has, hbs, rfl⟩ := mapM_append_eq_ok_iff.mp hws
  refine ⟨as, bs, by rw [run_value_quiet hxs ht, has], by rw [run_value_quiet hys ht, hbs], hperm,
    fun hone => ?_⟩
  obtain ⟨entry, rfl⟩ := List.length_eq_one_iff.mp hone
  rw [List.flatMap_singleton] at hall
  rw [List.flatMap_singleton, List.flatMap_singleton, hall] at hws
  exact Except.ok.inj hws

/-- Over engines that answer to each file and do not fail, an inspection returns the violations of
all findings, by engine and then by file; it does return if they have texts and lines that can be
written. Without files no engine is asked. Files can be split up. Where an inspection returns, each
engine was asked about all files, one by one and in one session, which was over before that of the
next engine. An engine behind them that fails at one of the files, or that refuses its
configuration, ends the inspection with its fault, after its session was closed if there was one,
and the engines behind it are not asked. -/
theorem run_concatenates (em : Engine × Path → Path → List Finding) (ht : W t)
    (hanswers : ∀ entry ∈ engines,
      entry.1.Answers entry.2 files W fun file => ⟨em entry file, none⟩) :
    (run engines files).value t =
      (engines.flatMap fun entry => files.flatMap (em entry)).mapM Finding.toViolation ∧
    ((∀ entry ∈ engines, ∀ file ∈ files, ∀ f ∈ em entry file, f.HasTexts ∧ f.HasWritableLines) →
      ∃ vs, (run engines files).value t = .ok vs) ∧
    (run engines []).Yields t (.ok []) t [] ∧
    ∀ vs, (run engines files).value t = .ok vs →
      (∀ xs ys, files = xs ++ ys →
        ∃ as bs, (run engines xs).value t = .ok as ∧ (run engines ys).value t = .ok bs ∧
          vs.Perm (as ++ bs) ∧ (engines.length = 1 → vs = as ++ bs)) ∧
      (files ≠ [] →
        let asked := (episodes em files engines).flatMap Episode.events
        history ((run engines files).events t) = asked ∧
        ∀ failing config behind fault,
          (∀ answer xs file ys, failing.Answers config files W answer → files = xs ++ file :: ys →
            (∀ x ∈ xs, ∃ vs, (answer x).violations = .ok vs) →
            (answer file).violations = .error fault →
            (run (engines ++ (failing, config) :: behind) files).value t = .error fault ∧
            history ((run (engines ++ (failing, config) :: behind) files).events t) =
              asked ++ Episode.events ⟨failing.name, config,
                some (xs.map (fun x => ([x], (answer x).findings)) ++
                  [([file], Finding.delivered (answer file).findings)])⟩) ∧
          ((∀ u, W u → failing.refusal? config u = some fault) →
            (run (engines ++ (failing, config) :: behind) files).value t = .error fault ∧
            history ((run (engines ++ (failing, config) :: behind) files).events t) =
              asked ++ Episode.events ⟨failing.name, config, none⟩)) := by
  refine ⟨run_value_quiet hanswers ht, exists_run_value hanswers ht, run_no_files engines t,
    fun vs hvs => ⟨?_, fun hfiles => ?_⟩⟩
  · rintro xs ys rfl
    exact run_split ht hanswers hvs
  · have hanswered := run_value hanswers ht hfiles
    rw [hvs] at hanswered
    obtain ⟨vss, hvss, -⟩ := map_eq_ok_iff.mp hanswered.symm
    obtain ⟨u, hrun⟩ := run_answers hanswers ht hfiles hvss
    refine ⟨hrun.history_eq, fun failing config behind fault => ⟨?_, ?_⟩⟩
    · rintro answer xs file ys hfailing rfl hxs hfault
      obtain ⟨v, hstops⟩ := run_stops hanswers ht hfiles hvss
        (fun u hu => hfailing.hold_fails hxs hfault hu) behind
      exact ⟨hstops.value_eq, hstops.history_eq⟩
    · intro hrefusal
      have hhold : ∀ u, W u → ∃ capture v, (failing.session config (files.map ([·]))).hold.Recounts
          u capture v (Episode.events ⟨failing.name, config, none⟩) ∧
          capture.fault = some fault := fun u hu =>
        ⟨_, _, (failing.session config _).hold_recounts_request (hrefusal u hu), rfl⟩
      obtain ⟨v, hstops⟩ := run_stops hanswers ht hfiles hvss hhold behind
      exact ⟨hstops.value_eq, hstops.history_eq⟩

end Quiet

def note (name : String) (file : Path) : List Finding := [.config ⟨name ++ ":" ++ file.name⟩]

def noting : List (Engine × Path) :=
  ["ruff", "pylint"].map fun name =>
    (.scripted name none fun file => ⟨note name file, none⟩, ⟨0, [name ++ ".toml"]⟩)

def interrupted : Engine :=
  .scripted "mypy" none fun file =>
    ⟨note "mypy" file, if file.name = "b.py" then some (.raised .runtime "interrupted") else none⟩

/-- The notes come by engine, and none of them where a third engine is interrupted. -/
theorem run_concatenates_notes :
    let files : List Path := [⟨0, ["a.py"]⟩, ⟨0, ["b.py"]⟩]
    (run noting files).value ⟨[], []⟩ =
      .ok (["ruff:a.py", "ruff:b.py", "pylint:a.py", "pylint:b.py"].map fun issue =>
        ConfigFailure.toViolation ⟨issue⟩) ∧
    (run (noting ++ [(interrupted, ⟨0, ["mypy.toml"]⟩)]) files).value ⟨[], []⟩ =
      .error (.raised .runtime "interrupted") := by
  intro files
  have hanswers : ∀ entry ∈ noting, entry.1.Answers entry.2 files (fun _ => True)
      fun file => ⟨note entry.1.name file, none⟩ := by
    simp only [noting, List.map_cons, List.map_nil, List.forall_mem_cons]
    exact ⟨Engine.scripted_answers _ _ _ _, Engine.scripted_answers _ _ _ _, nofun⟩
  have hconvert : ∀ entry ∈ noting, ∀ file ∈ files, ∀ f ∈ note entry.1.name file,
      f.HasTexts ∧ f.HasWritableLines := by
    simp [note, Finding.HasTexts, Finding.HasWritableLines]
  obtain ⟨hvalue, hreturns, -, hstops⟩ :=
    run_concatenates (fun entry => note entry.1.name) (t := ⟨[], []⟩) trivial hanswers
  obtain ⟨vs, hvs⟩ := hreturns hconvert
  obtain ⟨-, hstops⟩ := (hstops vs hvs).2 (by decide)
  refine ⟨?_, ?_⟩
  · rw [hvalue]
    decide +kernel
  · refine ((hstops interrupted ⟨0, ["mypy.toml"]⟩ [] _).1 _ [⟨0, ["a.py"]⟩] ⟨0, ["b.py"]⟩ []
      (Engine.scripted_answers _ _ _ _) rfl ?_ ?_).1
    · rw [List.forall_mem_singleton]
      exact ⟨[ConfigFailure.toViolation ⟨"mypy:a.py"⟩], by decide +kernel⟩
    · decide +kernel

end Inspection

end LintGate
