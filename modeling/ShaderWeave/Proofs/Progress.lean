import Mathlib.Logic.Relation
import ShaderWeave.Weave.Entry

/-!
# What a pass can do

A pass changes its state in few ways: it writes within a line, ends a line,
stops in the middle of one, tells an event, or asks the supplier. Whatever a
pass does, with whatever result, is a sequence of such changes. What every
change keeps is therefore kept by every pass, also by one that stops with a
fault.

## Main definitions

- `Weaver.Change`: one elementary change of the state of a pass.
- `Weaver.Later`: any number of changes, one after the other.
- `WeaveM.leaves`: the state in which an action leaves a pass.
- `Weaver.Advances`: an action makes changes only.
- `Pass.told`, `Weaver.asked`: the state after an event and after a request.
- `Weaver.below`: what is done for nested units, given the room that is left.
- `Pass.Extends`: a state holds all that another holds, and more behind it.

## Main results

- `Weaver.advances_unitAt`: weaving a unit makes changes only.
- `Weaver.Later.extends`: nothing that was written or recorded is taken back.
-/

namespace ShaderWeave

variable {σ α β : Type}

/-- The state in which an action leaves the pass, however it ends. -/
def WeaveM.leaves (act : WeaveM σ α) (p : Pass σ) : Pass σ :=
  match act.run p with
  | .ok _ q => q
  | .error _ q => q

theorem WeaveM.leaves_of_ok {act : WeaveM σ α} {p q : Pass σ} {a : α}
    (h : act.run p = .ok a q) : act.leaves p = q := by
  simp [leaves, h]

theorem WeaveM.leaves_of_error {act : WeaveM σ α} {p q : Pass σ} {fault : Fault}
    (h : act.run p = .error fault q) : act.leaves p = q := by
  simp [leaves, h]

/-- Whether an action has ended with a given value can be decided, in whatever
state it has left the pass. -/
instance WeaveM.decidableExistsOk [DecidableEq α] (r : EStateM.Result Fault (Pass σ) α) (a : α) :
    Decidable (∃ p, r = .ok a p) :=
  match r with
  | .ok b p =>
    decidable_of_iff (b = a)
      ⟨fun h => ⟨p, by rw [h]⟩, fun ⟨_, h⟩ => (EStateM.Result.ok.inj h).1⟩
  | .error _ _ => isFalse fun ⟨_, h⟩ => nomatch h

/-- The same for an action that has stopped with a given fault. -/
instance WeaveM.decidableExistsError (r : EStateM.Result Fault (Pass σ) α) (fault : Fault) :
    Decidable (∃ p, r = .error fault p) :=
  match r with
  | .error fault' p =>
    decidable_of_iff (fault' = fault)
      ⟨fun h => ⟨p, by rw [h]⟩, fun ⟨_, h⟩ => (EStateM.Result.error.inj h).1⟩
  | .ok _ _ => isFalse fun ⟨_, h⟩ => nomatch h

/-- An action followed by another succeeds just if both do. -/
theorem WeaveM.run_bind_eq_ok {act : WeaveM σ α} {next : α → WeaveM σ β} {p q : Pass σ} {b : β} :
    (act >>= next).run p = .ok b q ↔
      ∃ a p', act.run p = .ok a p' ∧ (next a).run p' = .ok b q := by
  rw [EStateM.run_bind]
  cases hrun : act.run p with
  | error fault p' => simp
  | ok a p' =>
    constructor
    · intro h
      exact ⟨a, p', rfl, h⟩
    · rintro ⟨_, _, ⟨rfl, rfl⟩, h⟩
      exact h

def Pass.told (p : Pass σ) (e : Event) : Pass σ :=
  { p with events := p.events.push e }

namespace Weaver

variable {w : Weaver σ}

/-- The state after the supplier has been asked for a path. -/
def asked (w : Weaver σ) (p : Pass σ) (path : String) : Pass σ :=
  { p with
    stock := (w.supplier.request p.stock path).2
    exchanges := p.exchanges.push ⟨path, (w.supplier.request p.stock path).1⟩ }

/-- One elementary change of the state of a pass. -/
inductive Change (w : Weaver σ) (p : Pass σ) : Pass σ → Prop where
  /-- A text of one line is written. -/
  | write (text : List Char) (h : '\n' ∉ text) :
    Change w p { p with output := p.output.pushText (String.ofList text) }
  | endLine (l : Location) : Change w p { p with output := p.output.endLine l }
  /-- A line that is begun gets its origin. -/
  | flush (l : Location) : Change w p { p with output := p.output.flush l }
  | report (e : Event) : Change w p (p.told e)
  /-- The supplier is asked for a path. -/
  | request (path : String) : Change w p (w.asked p path)

/-- The state `q` comes after `p` by any number of changes. -/
def Later (w : Weaver σ) : Pass σ → Pass σ → Prop :=
  Relation.ReflTransGen w.Change

/-- However the action ends, it has made changes only. -/
def Advances (w : Weaver σ) (act : WeaveM σ α) : Prop :=
  ∀ p, w.Later p (act.leaves p)

/-! ## Actions in general -/

theorem advances_pure (a : α) : w.Advances (pure a : WeaveM σ α) :=
  fun _ => .refl

theorem advances_throw (fault : Fault) : w.Advances (throw fault : WeaveM σ α) :=
  fun _ => .refl

theorem advances_get : w.Advances (get : WeaveM σ (Pass σ)) :=
  fun _ => .refl

theorem Advances.bind {act : WeaveM σ α} {next : α → WeaveM σ β} (hact : w.Advances act)
    (hnext : ∀ a, w.Advances (next a)) : w.Advances (act >>= next) := by
  intro p
  have hp := hact p
  unfold WeaveM.leaves at hp ⊢
  rw [EStateM.run_bind]
  cases hrun : act.run p with
  | error fault q =>
    rw [hrun] at hp
    exact hp
  | ok a q =>
    rw [hrun] at hp
    exact hp.trans (hnext a q)

theorem Advances.adaptExcept {act : WeaveM σ α} (hact : w.Advances act) (wrap : Fault → Fault) :
    w.Advances (act.adaptExcept wrap) := by
  intro p
  have hp := hact p
  unfold WeaveM.leaves at hp ⊢
  rw [EStateM.run_adaptExcept]
  cases hrun : act.run p with
  | error fault q =>
    rw [hrun] at hp
    exact hp
  | ok a q =>
    rw [hrun] at hp
    exact hp

theorem advances_forM {xs : List α} {act : α → WeaveM σ Unit} (hact : ∀ x, w.Advances (act x)) :
    w.Advances (xs.forM act) := by
  induction xs with
  | nil => exact advances_pure ()
  | cons x xs ih => exact (hact x).bind fun _ => ih

theorem advances_onOutput {f : Output → Output}
    (h : ∀ p : Pass σ, w.Later p { p with output := f p.output }) :
    w.Advances (WeaveM.onOutput f) :=
  h

theorem advances_report (e : Event) : w.Advances (WeaveM.report e) :=
  fun _ => .single (.report e)

theorem advances_request (path : String) : w.Advances (WeaveM.request w.supplier path) :=
  fun _ => .single (.request path)

/-! ## The actions of weaving -/

variable {descend : Location → SourceUnit → WeaveM σ Unit}

theorem advances_copy (key : String) (cur : Cursor) (c : Char) : w.Advances (copy key cur c) := by
  unfold copy
  split
  · refine (advances_onOutput fun p => ?_).bind fun _ => advances_pure _
    exact .single (.endLine _)
  · next hc =>
    refine (advances_onOutput fun p => ?_).bind fun _ => advances_pure _
    have hpush : p.output.push c = p.output.pushText (String.ofList [c]) := by
      simp [Output.push, Output.pushText]
    rw [hpush]
    exact .single (.write [c] (by simpa using Ne.symm hc))

theorem advances_leaveDirective (key : String) (replaced : Bool) (cur : Cursor) :
    w.Advances (leaveDirective key replaced cur) := by
  refine (advances_onOutput fun p => ?_).bind fun _ => advances_pure _
  split
  · exact .single (.endLine _)
  · exact .refl

theorem advances_expandInclusion (hdescend : ∀ site unit, w.Advances (descend site unit))
    (site : Location) (path : Option String) :
    w.Advances (w.expandInclusion descend site path) := by
  cases path with
  | none => exact advances_throw _
  | some path =>
    refine (advances_request path).bind fun reply => ?_
    cases reply with
    | failed cause => exact advances_throw _
    | repeated => exact (advances_report _).bind fun _ => advances_pure _
    | fresh unit =>
      refine (advances_report _).bind fun _ => ?_
      exact (hdescend site unit).bind fun _ => advances_pure _

theorem advances_separate (site : Location) (column : Nat) :
    w.Advances (separate site column) := by
  refine advances_onOutput fun p => ?_
  have hpad : '\n' ∉ List.replicate column ' ' := by simp [List.mem_replicate]
  split
  · exact (Relation.ReflTransGen.single (.endLine site)).tail (.write _ hpad)
  · exact .single (.write _ hpad)

theorem advances_inject (hdescend : ∀ site unit, w.Advances (descend site unit))
    (site : Location) (column : Nat) (segments : List Segment) :
    w.Advances (inject descend site column segments) := by
  cases segments with
  | nil => exact advances_pure ()
  | cons first others =>
    refine (hdescend site _).bind fun _ => advances_forM fun s => ?_
    exact (advances_separate site column).bind fun _ => hdescend site _

theorem advances_expand (hdescend : ∀ site unit, w.Advances (descend site unit))
    (key : String) (cur : Cursor) (d : Directive) : w.Advances (w.expand descend key cur d) := by
  unfold expand
  cases d with
  | inclusion path =>
    exact (advances_expandInclusion hdescend _ path).bind fun _ => advances_pure _
  | placeholder name =>
    have hinject :=
      advances_inject hdescend ⟨key, cur.line + 1⟩ cur.column (w.plan.segmentsFor name)
    exact (hinject.bind fun _ => advances_report _).bind fun _ => advances_pure _

theorem advances_step (hdescend : ∀ site unit, w.Advances (descend site unit)) (key : String)
    (cur : Cursor) (c : Char) (rest : List Char) :
    w.Advances (w.step descend key cur c rest) := by
  unfold step
  split
  · split
    · exact advances_leaveDirective key _ cur
    · exact advances_pure cur
  · split
    · exact advances_expand hdescend key cur _
    · exact advances_copy key cur c
  · exact advances_copy key cur c

theorem advances_walk (hdescend : ∀ site unit, w.Advances (descend site unit)) (key : String)
    (cur : Cursor) (text : List Char) : w.Advances (w.walk descend key cur text) := by
  induction text generalizing cur with
  | nil => exact advances_pure cur
  | cons c rest ih => exact (advances_step hdescend key cur c rest).bind fun cur => ih cur

theorem advances_finish (key : String) (cur : Cursor) : w.Advances (finish key cur) := by
  unfold finish
  split
  · exact advances_throw _
  · exact advances_onOutput fun p => .single (.flush _)
  · exact advances_onOutput fun p => .single (.flush _)

theorem advances_scan (hdescend : ∀ site unit, w.Advances (descend site unit))
    (unit : SourceUnit) : w.Advances (w.scan descend unit) := by
  refine advances_get.bind fun p => ?_
  exact (advances_walk hdescend unit.key _ _).bind fun cur => advances_finish unit.key cur

/-- What is done for a nested unit when the given room is left below the unit
that asks for it. -/
def below (w : Weaver σ) : Nat → Location → SourceUnit → WeaveM σ Unit
  | 0, site, _ => throw (.tooDeep site w.limit)
  | room + 1, site, inner => (w.unitAt room inner).adaptExcept (Fault.nested site)

theorem unitAt_eq_scan (w : Weaver σ) (room : Nat) : w.unitAt room = w.scan (w.below room) := by
  cases room <;> rfl

/-- Weaving a unit, and all it stands for, makes changes only. -/
theorem advances_unitAt (w : Weaver σ) (room : Nat) (unit : SourceUnit) :
    w.Advances (w.unitAt room unit) := by
  induction room generalizing unit with
  | zero => exact advances_scan (fun _ _ => advances_throw _) unit
  | succ room ih => exact advances_scan (fun site inner => (ih inner).adaptExcept _) unit

theorem advances_below (w : Weaver σ) (room : Nat) (site : Location) (unit : SourceUnit) :
    w.Advances (w.below room site unit) := by
  cases room with
  | zero => exact advances_throw _
  | succ room => exact (advances_unitAt w room unit).adaptExcept _

end Weaver

/-! ## What is never taken back -/

/-- The state `q` holds the text, the origins, the exchanges and the events of
`p`, and whatever else it holds comes behind them. -/
structure Pass.Extends (p q : Pass σ) : Prop where
  text : p.output.text.toList <+: q.output.text.toList
  origins : p.output.origins.toList <+: q.output.origins.toList
  exchanges : p.exchanges.toList <+: q.exchanges.toList
  events : p.events.toList <+: q.events.toList

theorem Pass.Extends.refl (p : Pass σ) : p.Extends p :=
  ⟨List.prefix_refl _, List.prefix_refl _, List.prefix_refl _, List.prefix_refl _⟩

theorem Pass.Extends.trans {p q r : Pass σ} (hpq : p.Extends q) (hqr : q.Extends r) :
    p.Extends r :=
  ⟨hpq.text.trans hqr.text, hpq.origins.trans hqr.origins,
    hpq.exchanges.trans hqr.exchanges, hpq.events.trans hqr.events⟩

theorem Output.origins_own_prefix (o : Output) (l : Location) :
    o.origins.toList <+: (o.own l).origins.toList := by
  unfold Output.own
  split
  · simp [Output.addOrigin]
  · exact List.prefix_refl _

theorem Weaver.Change.extends {w : Weaver σ} {p q : Pass σ} (h : w.Change p q) :
    p.Extends q := by
  have hrefl := Pass.Extends.refl p
  cases h with
  | write text _ => exact { hrefl with text := by simp }
  | endLine l =>
    refine { hrefl with text := by simp, origins := ?_ }
    exact p.output.origins_own_prefix l
  | flush l =>
    refine { hrefl with text := by simp, origins := ?_ }
    unfold Output.flush
    split
    · exact p.output.origins_own_prefix l
    · exact List.prefix_refl _
  | report e => exact { hrefl with events := by simp [Pass.told] }
  | request path => exact { hrefl with exchanges := by simp [Weaver.asked] }

/-- Nothing that was written or recorded is ever taken back. -/
theorem Weaver.Later.extends {w : Weaver σ} {p q : Pass σ} (h : w.Later p q) : p.Extends q := by
  induction h with
  | refl => exact Pass.Extends.refl p
  | tail _ hchange ih => exact ih.trans hchange.extends

end ShaderWeave
