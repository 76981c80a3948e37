import LintGate.Proofs.SessionRun

/-! # A session step by step

A session that shares the gate with others is held in steps: one of its opening or its closing, one
run of the engine, one finding at a time. `Session.next` takes the step of a phase, and
`Session.finish` is what is left of the session from a phase on. Taking a step and then finishing
comes to the same as finishing, and what is left at the start is the session as it is held alone.
-/

namespace LintGate

open Gate

def Event.holds (before : Bool) : Event → Bool
  | .locked => true
  | .unlocked => false
  | _ => before

namespace SessionStep

def written : SessionStep → List Event
  | announce message => [.told .debug message]
  | lock => [.locked]
  | clearCache => [.cacheCleared]
  | unlock => [.unlocked]
  | _ => []

theorem run_eq (step : SessionStep) (s : GateState) :
    step.run.run s =
      (step.refusal? s.files,
        ⟨s.files, step.written.foldl Event.holds s.locked, s.journal ++ step.written⟩) := by
  cases step with
  | requireFile engine path =>
    have hfiles : Gate.files.run s = pure (s.files, s) := rfl
    rw [run, StateT.run_bind, hfiles, pure_bind]
    simp only [refusal?, written, List.append_nil]
    cases s.files.requireFile path (.configurationNotFound engine path) with
    | error fault => rfl
    | ok _ => rfl
  | requireToml engine path =>
    simp only [written, List.append_nil]
    rfl
  | refuse fault =>
    simp only [written, List.append_nil]
    rfl
  | announce message => rfl
  | lock => rfl
  | clearCache => rfl
  | unlock => rfl

end SessionStep

inductive Session.Phase
  | requested
  | opening (left : List SessionStep)
  | running (collector : Collector) (left : List (Gate Emission))
  /-- A run has emitted findings that the listener has not heard yet. -/
  | hearing (collector : Collector) (emission : Emission) (left : List (Gate Emission))
  | closing (capture : Capture) (left : List SessionStep)
  | ended (capture : Capture)

theorem Gate.discard_bind {α β : Type} (g : Gate α) (f : PUnit → Gate β) :
    discard g >>= f = g >>= fun _ => f ⟨⟩ := rfl

namespace Gate.Oblivious

variable {α β : Type} {g : Gate α}

protected theorem pure (a : α) : (pure a : Gate α).Oblivious :=
  oblivious_iff.mpr fun t => ⟨_, _, _, .pure a t⟩

protected theorem record (e : Event) : (Gate.record e).Oblivious :=
  oblivious_iff.mpr fun t => ⟨_, _, _, .record e t⟩

protected theorem bind (hg : g.Oblivious) {f : α → Gate β} (hf : ∀ a, (f a).Oblivious) :
    (g >>= f).Oblivious :=
  oblivious_iff.mpr fun t => ⟨_, _, _, (hg t).bind (hf _ _)⟩

end Gate.Oblivious

namespace SessionStep

theorem runAll_oblivious (steps : List SessionStep) : (runAll steps).Oblivious := by
  rw [oblivious_iff]
  intro t
  obtain ⟨es, h, -⟩ := runAll_yields steps t
  exact ⟨_, _, _, h⟩

end SessionStep

namespace Collector

theorem hear_oblivious (c : Collector) (fs : List Finding) : (c.hear fs).Oblivious := by
  induction fs generalizing c with
  | nil => exact .pure _
  | cons f rest ih =>
    rw [hear]
    refine (Oblivious.record _).bind fun _ => ?_
    rcases c.record f with ⟨c', _ | fault⟩
    · exact ih c'
    · exact .pure _

theorem receive_oblivious (c : Collector) (e : Emission) : (c.receive e).Oblivious := by
  rw [receive]
  refine (c.hear_oblivious e.findings).bind fun heard => ?_
  cases heard.fault with
  | some fault => exact .pure _
  | none => exact .pure _

theorem follow_oblivious {runs : List (Gate Emission)} (h : ∀ run ∈ runs, run.Oblivious)
    (c : Collector) : (c.follow runs).Oblivious := by
  induction runs generalizing c with
  | nil => exact .pure _
  | cons run rest ih =>
    rw [follow]
    refine (h run (by simp)).bind fun e => (c.receive_oblivious e).bind fun heard => ?_
    cases heard.fault with
    | some fault => exact .pure _
    | none => exact ih (fun run hrun => h run (by simp [hrun])) _

end Collector

namespace Session

def next (s : Session) : Phase → Gate Phase
  | .requested => do
    Gate.record (.requested s.engine s.config)
    return .opening s.opening
  | .opening [] => do
    Gate.record (.opened s.engine s.config)
    return .running .empty s.runs
  | .opening (step :: left) => do
    match ← step.run with
    | some fault => return .ended (.refused fault)
    | none => return .opening left
  | .running c [] => return .closing ⟨c, none⟩ s.closing
  | .running c (run :: left) => return .hearing c (← run) left
  | .hearing c ⟨[], none⟩ left => return .running c left
  | .hearing c ⟨[], some fault⟩ _ => return .closing ⟨c, some fault⟩ s.closing
  | .hearing c ⟨f :: findings, failure⟩ left => do
    Gate.record (.heard f)
    match c.record f with
    | (c, none) => return .hearing c ⟨findings, failure⟩ left
    | (c, some fault) => return .closing ⟨c, some fault⟩ s.closing
  | .closing capture [] => do
    Gate.record (.closed s.engine s.config)
    return .ended capture
  | .closing capture (step :: left) => do
    match ← step.run with
    | some _ => return .closing capture []
    | none => return .closing capture left
  | .ended capture => return .ended capture

def close (s : Session) (capture : Capture) (left : List SessionStep) : Gate Capture := do
  discard (SessionStep.runAll left)
  Gate.record (.closed s.engine s.config)
  return capture

def proceed (s : Session) (c : Collector) (left : List (Gate Emission)) : Gate Capture := do
  s.close (← c.follow left) s.closing

def finish (s : Session) : Phase → Gate Capture
  | .requested => s.hold
  | .opening left => do
    match ← SessionStep.runAll left with
    | some fault => return .refused fault
    | none =>
      Gate.record (.opened s.engine s.config)
      s.proceed .empty s.runs
  | .running c left => s.proceed c left
  | .hearing c emission left => do
    let heard ← c.receive emission
    match heard.fault with
    | some _ => s.close heard s.closing
    | none => s.proceed heard.collector left
  | .closing capture left => s.close capture left
  | .ended capture => return capture

theorem finish_running_cons (s : Session) (c : Collector) (run : Gate Emission)
    (left : List (Gate Emission)) :
    s.finish (.running c (run :: left)) = run >>= fun e => s.finish (.hearing c e left) := by
  simp only [finish, proceed, Collector.follow, bind_assoc]
  congr 1
  funext e
  congr 1
  funext heard
  cases heard.fault <;> simp

theorem finish_hearing_cons (s : Session) (c : Collector) (f : Finding) (findings : List Finding)
    (failure : Option Fault) (left : List (Gate Emission)) :
    s.finish (.hearing c ⟨f :: findings, failure⟩ left) =
      s.next (.hearing c ⟨f :: findings, failure⟩ left) >>= s.finish := by
  simp only [finish, next, Collector.receive, Collector.hear, bind_assoc]
  congr 1
  funext _
  rcases c.record f with ⟨c', _ | fault⟩
  · simp only [bind_assoc, pure_bind, finish, Collector.receive]
  · simp [finish]

/-- A step taken first makes no difference to what is left of a session. -/
theorem finish_eq_next (s : Session) (p : Phase) : s.finish p = s.next p >>= s.finish := by
  cases p with
  | requested =>
    simp only [finish, next, hold, bind_assoc, pure_bind]
    congr 1
  | opening left =>
    cases left with
    | nil => simp [finish, next, SessionStep.runAll]
    | cons step left =>
      simp only [finish, next, SessionStep.runAll, bind_assoc]
      congr 1
      funext refusal
      cases refusal <;> simp [finish]
  | running c left =>
    cases left with
    | nil => simp [finish, next, proceed, Collector.follow]
    | cons run left => simp [finish_running_cons, next]
  | hearing c emission left =>
    rcases emission with ⟨_ | ⟨f, findings⟩, failure⟩
    · cases failure <;> simp [finish, next, Collector.receive, Collector.hear]
    · exact s.finish_hearing_cons c f findings failure left
  | closing capture left =>
    cases left with
    | nil => simp [finish, next, close, discard_bind, SessionStep.runAll]
    | cons step left =>
      simp only [finish, next, close, discard_bind, SessionStep.runAll, bind_assoc]
      congr 1
      funext refusal
      cases refusal <;> simp [finish, close, discard_bind, SessionStep.runAll]
  | ended capture => simp [finish, next]

theorem Phase.ended_or (p : Phase) :
    (∃ capture, p = .ended capture) ∨ ∀ capture, p ≠ .ended capture := by
  cases p with
  | ended capture => exact .inl ⟨capture, rfl⟩
  | _ => exact .inr nofun

def Phase.runs (s : Session) : Phase → List (Gate Emission)
  | .requested | .opening _ => s.runs
  | .running _ left | .hearing _ _ left => left
  | .closing _ _ | .ended _ => []

theorem close_oblivious (s : Session) (capture : Capture) (left : List SessionStep) :
    (s.close capture left).Oblivious := by
  rw [close, discard_bind]
  refine (SessionStep.runAll_oblivious left).bind fun _ => ?_
  exact (Oblivious.record _).bind fun _ => .pure capture

theorem proceed_oblivious (s : Session) (c : Collector) {left : List (Gate Emission)}
    (h : ∀ run ∈ left, run.Oblivious) : (s.proceed c left).Oblivious :=
  (c.follow_oblivious h).bind fun capture => s.close_oblivious capture s.closing

/-- What is left of a session comes to the same in every state with the tree, if its runs do. -/
theorem finish_oblivious (s : Session) (p : Phase) (h : ∀ run ∈ p.runs s, run.Oblivious) :
    (s.finish p).Oblivious := by
  have hopening : ∀ left, (∀ run ∈ s.runs, run.Oblivious) →
      (s.finish (.opening left)).Oblivious := by
    intro left hruns
    refine (SessionStep.runAll_oblivious left).bind fun refusal => ?_
    cases refusal with
    | some fault => exact .pure _
    | none => exact (Oblivious.record _).bind fun _ => s.proceed_oblivious _ hruns
  cases p with
  | requested =>
    rw [finish_eq_next]
    simp only [next, bind_assoc, pure_bind]
    exact (Oblivious.record _).bind fun _ => hopening s.opening h
  | opening left => exact hopening left h
  | running c left => exact s.proceed_oblivious c h
  | hearing c e left =>
    refine (c.receive_oblivious e).bind fun heard => ?_
    cases heard.fault with
    | some fault => exact s.close_oblivious _ _
    | none => exact s.proceed_oblivious _ h
  | closing capture left => exact s.close_oblivious capture left
  | ended capture => exact .pure capture

/-- Over a file tree, the step of a phase leads to another phase and writes events down. It leaves
the tree alone, and the run lock as the events say. -/
def Moves (s : Session) (t : FileTree) (p q : Phase) (es : List Event) : Prop :=
  ∀ g : GateState, g.files = t →
    (s.next p).run g = (q, ⟨t, es.foldl Event.holds g.locked, g.journal ++ es⟩)

namespace Moves

variable {s : Session} {t : FileTree} {p q : Phase} {es : List Event} {c : Collector}
  {step : SessionStep} {left : List SessionStep} {runs : List (Gate Emission)} {capture : Capture}
  {fault : Fault}

theorem yields (h : s.Moves t p q es) : (s.next p).Yields t q t es :=
  ⟨fun g hg => by rw [h g hg], fun g hg => by rw [h g hg], fun g hg => by rw [h g hg]⟩

theorem finish_value (h : s.Moves t p q es) (hq : ∀ run ∈ q.runs s, run.Oblivious) :
    (s.finish q).value t = (s.finish p).value t := by
  rw [s.finish_eq_next p, (h.yields.bind (s.finish_oblivious q hq t)).value_eq]

theorem requested : s.Moves t .requested (.opening s.opening) [.requested s.engine s.config] := by
  rintro g rfl
  rfl

theorem opened : s.Moves t (.opening []) (.running .empty s.runs) [.opened s.engine s.config] := by
  rintro g rfl
  rfl

theorem passed (h : step.refusal? t = none) :
    s.Moves t (.opening (step :: left)) (.opening left) step.written := by
  rintro g rfl
  rw [next, StateT.run_bind, step.run_eq, h]
  rfl

theorem refused (h : step.refusal? t = some fault) :
    s.Moves t (.opening (step :: left)) (.ended (.refused fault)) step.written := by
  rintro g rfl
  rw [next, StateT.run_bind, step.run_eq, h]
  rfl

theorem heard_all : s.Moves t (.running c []) (.closing ⟨c, none⟩ s.closing) [] := by
  rintro g rfl
  simp [next]
  rfl

theorem ran {run : Gate Emission} {e : Emission} {es : List Event}
    (h : ∀ g : GateState, g.files = t → run.run g = (e, ⟨t, g.locked, g.journal ++ es⟩))
    (hes : ∀ b, es.foldl Event.holds b = b) :
    s.Moves t (.running c (run :: runs)) (.hearing c e runs) es := by
  intro g hg
  rw [next, StateT.run_bind, h g hg, hes]
  rfl

theorem heard {f : Finding} {findings : List Finding} {failure : Option Fault} {c' : Collector}
    (h : c.record f = (c', none)) :
    s.Moves t (.hearing c ⟨f :: findings, failure⟩ runs) (.hearing c' ⟨findings, failure⟩ runs)
      [.heard f] := by
  rintro g rfl
  rw [next, StateT.run_bind, h]
  rfl

theorem unheard {f : Finding} {findings : List Finding} {failure : Option Fault} {c' : Collector}
    (h : c.record f = (c', some fault)) :
    s.Moves t (.hearing c ⟨f :: findings, failure⟩ runs) (.closing ⟨c', some fault⟩ s.closing)
      [.heard f] := by
  rintro g rfl
  rw [next, StateT.run_bind, h]
  rfl

theorem returned : s.Moves t (.hearing c ⟨[], none⟩ runs) (.running c runs) [] := by
  rintro g rfl
  simp [next]
  rfl

theorem failed : s.Moves t (.hearing c ⟨[], some fault⟩ runs)
    (.closing ⟨c, some fault⟩ s.closing) [] := by
  rintro g rfl
  simp [next]
  rfl

theorem closing (h : step.refusal? t = none) :
    s.Moves t (.closing capture (step :: left)) (.closing capture left) step.written := by
  rintro g rfl
  rw [next, StateT.run_bind, step.run_eq, h]
  rfl

theorem closed : s.Moves t (.closing capture []) (.ended capture) [.closed s.engine s.config] := by
  rintro g rfl
  rfl

end Moves

/-- How much is left of the runs, if they go as over the tree, and of the closing. -/
def runsLoad (s : Session) (t : FileTree) : List (Gate Emission) → Nat
  | [] => s.closing.length + 2
  | run :: left => (run.value t).findings.length + s.runsLoad t left + 2

theorem closing_lt_runsLoad (s : Session) (t : FileTree) (left : List (Gate Emission)) :
    s.closing.length + 1 < s.runsLoad t left := by
  induction left with
  | nil => exact Nat.lt_succ_self _
  | cons run left ih =>
    rw [runsLoad]
    omega

/-- How many steps there are at most in what is left of a session, if its runs go as over the
tree. -/
def load (s : Session) (t : FileTree) : Phase → Nat
  | .requested => s.opening.length + s.runsLoad t s.runs + 2
  | .opening left => left.length + s.runsLoad t s.runs + 1
  | .running _ left => s.runsLoad t left
  | .hearing _ e left => e.findings.length + s.runsLoad t left + 1
  | .closing _ left => left.length + 1
  | .ended _ => 0

theorem load_next_lt (s : Session) (t : FileTree) {p : Phase} (hp : ∀ capture, p ≠ .ended capture) :
    s.load t ((s.next p).value t) < s.load t p := by
  cases p with
  | requested =>
    change s.opening.length + s.runsLoad t s.runs + 1 < s.opening.length + s.runsLoad t s.runs + 2
    omega
  | opening left =>
    cases left with
    | nil =>
      change s.runsLoad t s.runs < 0 + s.runsLoad t s.runs + 1
      omega
    | cons step left =>
      rw [value, next, StateT.run_bind, step.run_eq]
      cases step.refusal? (GateState.start t).files with
      | some fault =>
        change 0 < left.length + 1 + s.runsLoad t s.runs + 1
        omega
      | none =>
        change left.length + s.runsLoad t s.runs + 1 < left.length + 1 + s.runsLoad t s.runs + 1
        omega
  | running c left =>
    cases left with
    | nil =>
      change s.closing.length + 1 < s.closing.length + 2
      omega
    | cons run left =>
      change (run.value t).findings.length + s.runsLoad t left + 1 < s.runsLoad t (run :: left)
      rw [runsLoad]
      omega
  | hearing c e left =>
    -- A fault drops the runs that are left, which count for at least the closing.
    have hclosing := s.closing_lt_runsLoad t left
    rcases e with ⟨_ | ⟨f, findings⟩, failure⟩
    · cases failure with
      | none =>
        change s.runsLoad t left < 0 + s.runsLoad t left + 1
        omega
      | some fault =>
        change s.closing.length + 1 < 0 + s.runsLoad t left + 1
        omega
    · rw [value, next, StateT.run_bind]
      rcases c.record f with ⟨c', _ | fault⟩
      · change findings.length + s.runsLoad t left + 1 <
          findings.length + 1 + s.runsLoad t left + 1
        omega
      · change s.closing.length + 1 < findings.length + 1 + s.runsLoad t left + 1
        omega
  | closing capture left =>
    cases left with
    | nil =>
      change 0 < 0 + 1
      omega
    | cons step left =>
      rw [value, next, StateT.run_bind, step.run_eq]
      cases step.refusal? (GateState.start t).files with
      | some fault =>
        change 0 + 1 < left.length + 1 + 1
        omega
      | none =>
        change left.length + 1 < left.length + 1 + 1
        omega
  | ended capture => exact absurd rfl (hp capture)

/-- There is less left of a session after a step. -/
theorem Moves.load_lt {s : Session} {t : FileTree} {p q : Phase} {es : List Event}
    (h : s.Moves t p q es) (hp : ∀ capture, p ≠ .ended capture) : s.load t q < s.load t p := by
  have hq : (s.next p).value t = q := h.yields.value_eq
  rw [← hq]
  exact s.load_next_lt t hp

end Session

end LintGate
