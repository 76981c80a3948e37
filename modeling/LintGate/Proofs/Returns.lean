import LintGate.Proofs.Pool

/-! # What actions come to in any state

Of some actions it can be said what they come to without a word on the state that they start in: on
the file tree, on the lock, and on what others have written down meanwhile. Such a property is
handed from one action to the next one, and from tasks to what a sequence, a pool or turns make of
them, also where the engines are of an unknown kind. The captures of sessions have one: as long as
no fault ended it, each call of the listener has left a violation.
-/

namespace LintGate

namespace Gate

variable {α β : Type} {P : α → Prop} {Q : β → Prop}

/-- In whatever state it starts, the action comes to a value with the property. -/
def Returns (g : Gate α) (P : α → Prop) : Prop := ∀ s, P (g.run s).1

/-- Where the action comes to a result at all, this has the property. -/
def Gives (g : Gate (Except Fault α)) (P : α → Prop) : Prop :=
  g.Returns fun x => ∀ a, x = .ok a → P a

namespace Returns

protected theorem pure {a : α} (h : P a) : (pure a : Gate α).Returns P := fun _ => h

theorem anything (g : Gate α) : g.Returns fun _ => True := fun _ => trivial

protected theorem bind {g : Gate α} {f : α → Gate β} (hg : g.Returns P)
    (hf : ∀ a, P a → (f a).Returns Q) : (g >>= f).Returns Q := fun s => hf _ (hg s) _

theorem behind (g : Gate α) {f : α → Gate β} (hf : ∀ a, (f a).Returns Q) : (g >>= f).Returns Q :=
  (anything g).bind fun a _ => hf a

theorem warn {rest : PUnit → Gate α} (h : (rest ⟨⟩).Returns P) (passed : Bool) (message : String) :
    (if passed = true then rest ⟨⟩ else Gate.tell .warning message >>= rest).Returns P := by
  cases passed with
  | true => exact h
  | false => exact behind _ fun _ => h

end Returns

namespace Gives

theorem ok {a : α} (h : P a) : (pure (.ok a) : Gate (Except Fault α)).Gives P := by
  refine .pure ?_
  rintro _ ⟨⟩
  exact h

theorem error (fault : Fault) : (pure (.error fault) : Gate (Except Fault α)).Gives P := .pure nofun

theorem mono {g : Gate (Except Fault α)} {P' : α → Prop} (h : g.Gives P) (hP : ∀ a, P a → P' a) :
    g.Gives P' := fun s a ha => hP a (h s a ha)

/-- What follows has to be asked of a fault and of a result with the property. -/
protected theorem bind {g : Gate (Except Fault α)} {f : Except Fault α → Gate β} (hg : g.Gives P)
    (herror : ∀ fault, (f (.error fault)).Returns Q) (hok : ∀ a, P a → (f (.ok a)).Returns Q) :
    (g >>= f).Returns Q := by
  refine Returns.bind hg fun x hx => ?_
  cases x with
  | error fault => exact herror fault
  | ok a => exact hok a (hx a rfl)

end Gives

end Gate

open Gate

namespace Runner

variable {α : Type} {P : α → Prop} {tasks : List (Gate (Except Fault α))}

theorem inSequence_gives (h : ∀ task ∈ tasks, task.Gives P) :
    (inSequence tasks).Gives fun as => ∀ a ∈ as, P a := by
  induction tasks with
  | nil => exact .ok nofun
  | cons task rest ih =>
    rw [List.forall_mem_cons] at h
    rw [inSequence]
    refine h.1.bind Gives.error fun a ha => ?_
    exact (ih h.2).bind Gives.error fun as has => Gives.ok (List.forall_mem_cons.mpr ⟨ha, has⟩)

theorem mem_of_collect {results : List (Except Fault α)} {as : List α}
    (h : collect results = .ok as) {a : α} (ha : a ∈ as) : .ok a ∈ results := by
  induction results generalizing as with
  | nil =>
    cases h
    cases ha
  | cons result rest ih =>
    cases result with
    | error fault => cases h
    | ok b =>
      obtain ⟨bs, hbs, rfl⟩ := map_eq_ok_iff.mp h
      rcases List.mem_cons.mp ha with rfl | ha
      · exact List.mem_cons_self
      · exact List.mem_cons_of_mem _ (ih hbs ha)

theorem pooledTask_returns (h : ∀ task ∈ tasks, task.Gives P) (i : Nat) :
    (pooledTask tasks i).Returns fun done => ∀ entry ∈ done, ∀ a, entry.2 = .ok a → P a := by
  rw [pooledTask]
  cases hi : tasks[i]? with
  | none => exact .pure (by simp)
  | some task =>
    refine Returns.bind (h task (List.mem_of_getElem? hi)) fun result hresult => .pure ?_
    rintro _ ⟨⟩
    exact hresult

theorem filterMapM_returns (h : ∀ task ∈ tasks, task.Gives P) (order : List Nat) :
    (order.filterMapM (pooledTask tasks)).Returns
      fun done => ∀ entry ∈ done, ∀ a, entry.2 = .ok a → P a := by
  induction order with
  | nil => exact .pure nofun
  | cons i order ih =>
    rw [List.filterMapM_cons]
    refine (pooledTask_returns h i).bind fun first hfirst => ?_
    cases first with
    | none => exact ih
    | some entry =>
      exact ih.bind fun rest hrest => .pure (List.forall_mem_cons.mpr ⟨hfirst entry rfl, hrest⟩)

theorem pooled_gives (h : ∀ task ∈ tasks, task.Gives P) (order : List Nat) :
    (pooled tasks order).Gives fun as => ∀ a ∈ as, P a := by
  rw [pooled_eq]
  refine (filterMapM_returns h order).bind fun done hdone => .pure fun as has a ha => ?_
  obtain ⟨i, -, hi⟩ := List.mem_filterMap.mp (mem_of_collect has ha)
  obtain ⟨before, behind, rfl, -⟩ := List.lookup_eq_some_iff.mp hi
  exact hdone (i, .ok a) (by simp) a rfl

end Runner

namespace Stepwise

variable {σ α : Type} {S : σ → Prop} {places : List σ}

/-- What holds of the places behind each step holds of them behind any turns. -/
theorem play_returns {m : Stepwise σ α} (h : ∀ p, S p → (m.next p).Returns S) (turns : List Nat)
    (hplaces : ∀ p ∈ places, S p) :
    (m.play turns places).Returns fun later => ∀ p ∈ later, S p := by
  induction turns generalizing places with
  | nil => exact .pure hplaces
  | cons i turns ih =>
    have hturn : (m.turn places i).Returns fun later => ∀ p ∈ later, S p := by
      rw [turn]
      cases hi : places[i]? with
      | none => exact .pure hplaces
      | some p =>
        refine (h p (hplaces p (List.mem_of_getElem? hi))).bind fun q hq => .pure ?_
        intro p' hp'
        rcases List.mem_or_eq_of_mem_set hp' with hp' | rfl
        · exact hplaces p' hp'
        · exact hq
    exact hturn.bind fun later hlater => ih hlater

theorem interleaved_gives {m : Stepwise σ (Except Fault α)} {P : α → Prop}
    (h : ∀ p, S p → (m.next p).Returns S) (hfinish : ∀ p, S p → (m.finish p).Gives P)
    (turns : List Nat) (hplaces : ∀ p ∈ places, S p) :
    (m.interleaved turns places).Gives fun as => ∀ a ∈ as, P a := by
  refine (play_returns h turns hplaces).bind fun later hlater => ?_
  apply Runner.inSequence_gives
  intro task htask
  obtain ⟨p, hp, rfl⟩ := List.mem_map.mp htask
  exact hfinish p (hlater p hp)

end Stepwise

def Collector.Tallies (c : Collector) : Prop := c.invocations = c.violations.length

theorem Collector.empty_tallies : empty.Tallies := rfl

/-- Unless a fault ended it, each call of the listener has left a violation. -/
def Capture.Tallies (c : Capture) : Prop := c.fault = none → c.collector.Tallies

theorem Capture.tallies_of_fault {c : Capture} {fault : Fault} (h : c.fault = some fault) :
    c.Tallies := by
  intro hnone
  rw [h] at hnone
  cases hnone

namespace Collector

variable {c : Collector}

theorem tallies_append (h : c.Tallies) (v : Violation) :
    Collector.Tallies ⟨c.violations ++ [v], c.invocations + 1⟩ := by
  rw [Tallies, List.length_append, List.length_singleton, ← h]

theorem hear_tallies (h : c.Tallies) (fs : List Finding) : (c.hear fs).Returns Capture.Tallies := by
  induction fs generalizing c with
  | nil => exact .pure fun _ => h
  | cons f rest ih =>
    rw [hear]
    refine .behind _ fun _ => ?_
    rw [record]
    cases f.toViolation with
    | error fault => exact .pure (Capture.tallies_of_fault rfl)
    | ok v => exact ih (tallies_append h v)

theorem receive_tallies (h : c.Tallies) (e : Emission) :
    (c.receive e).Returns Capture.Tallies := by
  refine (hear_tallies h e.findings).bind fun heard hheard => ?_
  cases hfault : heard.fault with
  | some fault => exact .pure hheard
  | none => exact .pure fun _ => hheard hfault

theorem follow_tallies (h : c.Tallies) (runs : List (Gate Emission)) :
    (c.follow runs).Returns Capture.Tallies := by
  induction runs generalizing c with
  | nil => exact .pure fun _ => h
  | cons run rest ih =>
    rw [follow]
    refine .behind run fun e => (receive_tallies h e).bind fun heard hheard => ?_
    cases hfault : heard.fault with
    | some fault => exact .pure hheard
    | none => exact ih (hheard hfault)

end Collector

namespace Session

def Phase.Tallies : Phase → Prop
  | .requested | .opening _ => True
  | .running c _ | .hearing c _ _ => c.Tallies
  | .closing capture _ | .ended capture => capture.Tallies

theorem close_tallies (s : Session) {capture : Capture} (h : capture.Tallies)
    (left : List SessionStep) : (s.close capture left).Returns Capture.Tallies :=
  .behind _ fun _ => .behind _ fun _ => .pure h

theorem proceed_tallies (s : Session) {c : Collector} (h : c.Tallies)
    (left : List (Gate Emission)) :
    (s.proceed c left).Returns Capture.Tallies :=
  (Collector.follow_tallies h left).bind fun _ hcapture => s.close_tallies hcapture s.closing

theorem finish_opening_tallies (s : Session) (left : List SessionStep) :
    (s.finish (.opening left)).Returns Capture.Tallies := by
  refine .behind _ fun refusal => ?_
  cases refusal with
  | some fault => exact .pure (Capture.tallies_of_fault rfl)
  | none => exact .behind _ fun _ => s.proceed_tallies Collector.empty_tallies s.runs

theorem finish_tallies (s : Session) {p : Phase} (h : p.Tallies) :
    (s.finish p).Returns Capture.Tallies := by
  cases p with
  | requested =>
    rw [finish_eq_next]
    simp only [next, bind_assoc, pure_bind]
    exact .behind _ fun _ => s.finish_opening_tallies s.opening
  | opening left => exact s.finish_opening_tallies left
  | running c left => exact s.proceed_tallies h left
  | hearing c e left =>
    refine (Collector.receive_tallies h e).bind fun heard hheard => ?_
    cases hfault : heard.fault with
    | some fault => exact s.close_tallies hheard s.closing
    | none => exact s.proceed_tallies (hheard hfault) left
  | closing capture left => exact s.close_tallies h left
  | ended capture => exact .pure h

theorem next_tallies (s : Session) {p : Phase} (h : p.Tallies) :
    (s.next p).Returns Phase.Tallies := by
  cases p with
  | requested => exact .behind _ fun _ => .pure trivial
  | opening left =>
    cases left with
    | nil => exact .behind _ fun _ => .pure Collector.empty_tallies
    | cons step left =>
      refine .behind _ fun refusal => ?_
      cases refusal with
      | some fault => exact .pure (P := Phase.Tallies) (Capture.tallies_of_fault rfl)
      | none => exact .pure trivial
  | running c left =>
    cases left with
    | nil => exact .pure (P := Phase.Tallies) fun _ => h
    | cons run left => exact .behind run fun _ => .pure (P := Phase.Tallies) h
  | hearing c e left =>
    rcases e with ⟨_ | ⟨f, findings⟩, failure⟩
    · cases failure with
      | some fault => exact .pure (P := Phase.Tallies) (Capture.tallies_of_fault rfl)
      | none => exact .pure (P := Phase.Tallies) h
    · refine .behind _ fun _ => ?_
      rw [Collector.record]
      cases f.toViolation with
      | error fault => exact .pure (P := Phase.Tallies) (Capture.tallies_of_fault rfl)
      | ok v => exact .pure (P := Phase.Tallies) (Collector.tallies_append h v)
  | closing capture left =>
    cases left with
    | nil => exact .behind _ fun _ => .pure (P := Phase.Tallies) h
    | cons step left =>
      refine .behind _ fun refusal => ?_
      cases refusal <;> exact .pure (P := Phase.Tallies) h
  | ended capture => exact .pure (P := Phase.Tallies) h

end Session

end LintGate
