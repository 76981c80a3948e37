import LintGate.Journal

/-! # Actions of the gate over a file tree

Over a file tree, an action yields a value, leaves a tree, and writes events down behind those that
are there. Most actions of the gate are oblivious: of the state that they start in, only the file
tree matters to this. A sequence of actions yields what its last one does, where the trees are
passed on and the events follow one another.
-/

namespace LintGate

@[simp] theorem heard_nil : heard [] = [] := rfl

@[simp] theorem heard_append (es fs : List Event) : heard (es ++ fs) = heard es ++ heard fs :=
  List.filterMap_append

@[simp] theorem heard_cons_heard (f : Finding) (es : List Event) :
    heard (.heard f :: es) = f :: heard es := rfl

@[simp] theorem heard_cons {e : Event} (h : ∀ f, e ≠ .heard f) (es : List Event) :
    heard (e :: es) = heard es := by
  cases e with
  | heard f => exact absurd rfl (h f)
  | _ => rfl

namespace Gate

variable {α β : Type}

def value (g : Gate α) (t : FileTree) : α := (g.run (.start t)).1

def after (g : Gate α) (t : FileTree) : FileTree := (g.run (.start t)).2.files

def events (g : Gate α) (t : FileTree) : List Event := (g.run (.start t)).2.journal

/-- In every state with the tree, the action comes to the value and leaves the second tree, and its
events come behind those that are there. -/
structure Yields (g : Gate α) (t : FileTree) (a : α) (u : FileTree) (es : List Event) : Prop where
  value : ∀ s, s.files = t → (g.run s).1 = a
  after : ∀ s, s.files = t → (g.run s).2.files = u
  events : ∀ s, s.files = t → (g.run s).2.journal = s.journal ++ es

/-- Of the state that the action starts in, only the file tree matters to it. -/
def Oblivious (g : Gate α) : Prop := ∀ t, g.Yields t (g.value t) (g.after t) (g.events t)

namespace Yields

variable {g : Gate α} {t u : FileTree} {a : α} {es : List Event}

theorem value_eq (h : g.Yields t a u es) : g.value t = a := h.value _ rfl

theorem after_eq (h : g.Yields t a u es) : g.after t = u := h.after _ rfl

theorem events_eq (h : g.Yields t a u es) : g.events t = es := h.events _ rfl

protected theorem pure (a : α) (t : FileTree) : (pure a : Gate α).Yields t a t [] :=
  ⟨fun _ _ => rfl, fun _ h => h, fun s _ => (List.append_nil s.journal).symm⟩

protected theorem record (e : Event) (t : FileTree) : (record e).Yields t () t [e] :=
  ⟨fun _ _ => rfl, fun _ h => h, fun _ _ => rfl⟩

protected theorem tell (level : Level) (message : String) (t : FileTree) :
    (tell level message).Yields t () t [.told level message] := .record _ t

protected theorem files (t : FileTree) : Gate.files.Yields t t t [] :=
  ⟨fun _ h => h, fun _ h => h, fun s _ => (List.append_nil s.journal).symm⟩

theorem setLocked (b : Bool) (t : FileTree) :
    (modify fun s => { s with locked := b } : Gate PUnit).Yields t () t [] :=
  ⟨fun _ _ => rfl, fun _ h => h, fun s _ => (List.append_nil s.journal).symm⟩

theorem setFiles (t u : FileTree) :
    (modify fun s => { s with files := u } : Gate PUnit).Yields t () u [] :=
  ⟨fun _ _ => rfl, fun _ _ => rfl, fun s _ => (List.append_nil s.journal).symm⟩

protected theorem bind {f : α → Gate β} {b : β} {v : FileTree} {fs : List Event}
    (hg : g.Yields t a u es) (hf : (f a).Yields u b v fs) : (g >>= f).Yields t b v (es ++ fs) where
  value s hs := by
    change ((f (g.run s).1).run (g.run s).2).1 = b
    rw [hg.value s hs]
    exact hf.value _ (hg.after s hs)
  after s hs := by
    change ((f (g.run s).1).run (g.run s).2).2.files = v
    rw [hg.value s hs]
    exact hf.after _ (hg.after s hs)
  events s hs := by
    change ((f (g.run s).1).run (g.run s).2).2.journal = s.journal ++ (es ++ fs)
    rw [hg.value s hs, hf.events _ (hg.after s hs), hg.events s hs, List.append_assoc]

theorem discard (hg : g.Yields t a u es) : (discard g).Yields t () u es :=
  ⟨fun _ _ => rfl, hg.after, hg.events⟩

end Yields

theorem oblivious_iff {g : Gate α} : g.Oblivious ↔ ∀ t, ∃ a u es, g.Yields t a u es := by
  constructor
  · intro h t
    exact ⟨_, _, _, h t⟩
  · intro h t
    obtain ⟨a, u, es, hg⟩ := h t
    rw [hg.value_eq, hg.after_eq, hg.events_eq]
    exact hg

end Gate

end LintGate
