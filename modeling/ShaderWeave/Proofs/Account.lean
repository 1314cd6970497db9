import Mathlib.Data.List.Forall2
import ShaderWeave.Proofs.EntryFile
import ShaderWeave.Proofs.Origin

/-!
# Events account for requests

A pass tells an event for every request that the supplier has answered, and tells it before
it does anything else. So the events of inclusions and the requests correspond one by one,
in order. The one request that has no event is the one that the supplier fails to answer,
and the pass stops there. That a pass has succeeded is told once, behind everything else.

## Main definitions

- `Supplier.Answers`: what a supplier replies to requests that are made in turn.
- `Event.Tells`: an event tells of a request and its reply.
- `Fault.unanswered`: the request that a fault is about.
- `Pass.Accounted`: the events of inclusions tell of the requests.
- `Weaver.Accounts`: an action keeps the account, however it ends.

## Main results

- `Weaver.Later.answers`: the requests of a pass are made in turn.
- `Weaver.accounts_unitAt`: weaving a unit keeps the account.
- `events_account_for_requests`: the whole statement for a pass.
-/

namespace ShaderWeave

variable {σ α β : Type}

/-- The supplier is asked for the paths of the exchanges in turn, beginning in the state
`stock`, and gives their replies. It is left in the state given last. -/
inductive Supplier.Answers (supplier : Supplier σ) (stock : σ) : List Exchange → σ → Prop where
  | nil : Answers supplier stock [] stock
  | concat {exchanges : List Exchange} {stock' : σ}
    (before : Answers supplier stock exchanges stock') (path : String) :
    Answers supplier stock (exchanges ++ [⟨path, (supplier.request stock' path).1⟩])
      (supplier.request stock' path).2

/-- Is the event about an inclusion? -/
def Event.ofInclusion : Event → Bool
  | expanding .. => true
  | skipped .. => true
  | _ => false

/-- The event tells what came of the request: the inclusion is expanded if a unit was handed
out, under the key of that unit, and dropped if the text came before. -/
inductive Event.Tells : Event → Exchange → Prop where
  | expanding (site : Location) (path : String) (inner : SourceUnit) :
    Tells (.expanding site path inner.key) ⟨path, .fresh inner⟩
  | skipped (site : Location) (path : String) : Tells (.skipped site path) ⟨path, .repeated⟩

/-- The request that the innermost fault is about, if the supplier has failed to answer
one. -/
def Fault.unanswered (fault : Fault) : List Exchange :=
  match fault.innermost with
  | .unresolved path _ cause => [⟨path, .failed cause⟩]
  | _ => []

/-- The events of inclusions tell of the requests one by one, the last requests `pending`
apart; and it has not been told that the pass has succeeded. -/
structure Pass.Accounted (p : Pass σ) (pending : List Exchange) : Prop where
  told : ∃ answered, p.exchanges.toList = answered ++ pending ∧
    List.Forall₂ Event.Tells (p.events.toList.filter Event.ofInclusion) answered
  unfinished : ∀ key lines, .finished key lines ∉ p.events

namespace Pass.Accounted

variable {w : Weaver σ} {p : Pass σ} {pending : List Exchange} {e : Event}

theorem start (stock : σ) : ({ stock := stock } : Pass σ).Accounted [] :=
  ⟨⟨[], rfl, .nil⟩, by simp⟩

/-- What is written makes no difference. -/
theorem output (h : p.Accounted pending) (o : Output) : { p with output := o }.Accounted pending :=
  ⟨h.told, h.unfinished⟩

/-- A request is pending until an event tells of it. -/
theorem asked (h : p.Accounted []) (path : String) :
    (w.asked p path).Accounted [⟨path, (w.supplier.request p.stock path).1⟩] := by
  obtain ⟨answered, hexchanges, htells⟩ := h.told
  refine ⟨⟨answered, ?_, htells⟩, h.unfinished⟩
  simp [Weaver.asked, hexchanges]

theorem unfinished_told (h : p.Accounted pending) (he : ∀ key lines, e ≠ .finished key lines) :
    ∀ key lines, .finished key lines ∉ (p.told e).events := by
  intro key lines hmem
  rcases Array.mem_push.mp hmem with hmem | heq
  · exact h.unfinished key lines hmem
  · exact he key lines heq.symm

/-- An event that tells of the pending request settles the account. -/
theorem answered {x : Exchange} (h : p.Accounted [x]) (he : e.Tells x) :
    (p.told e).Accounted [] := by
  have hinclusion : e.ofInclusion = true ∧ ∀ key lines, e ≠ .finished key lines := by
    cases he <;> simp [Event.ofInclusion]
  obtain ⟨answered, hexchanges, htells⟩ := h.told
  refine ⟨⟨answered ++ [x], ?_, ?_⟩, h.unfinished_told hinclusion.2⟩
  · rw [List.append_nil]
    exact hexchanges
  · simp only [Pass.told, Array.toList_push, List.filter_append, List.filter_singleton,
      hinclusion.1]
    exact List.rel_append htells (.cons he .nil)

/-- Segments are injected without a request. -/
theorem injected (h : p.Accounted pending) (site : Location) (name : String) (count : Nat) :
    (p.told (.injected site name count)).Accounted pending := by
  refine ⟨?_, h.unfinished_told fun _ _ heq => nomatch heq⟩
  simpa [Pass.told, Event.ofInclusion] using h.told

end Pass.Accounted

namespace Weaver

variable {w : Weaver σ}

/-- However the action ends, the events account for the requests: for all of them if it
succeeds, and otherwise for all but the one that its fault is about. -/
def Accounts (act : WeaveM σ α) : Prop :=
  ∀ p, p.Accounted [] →
    match act.run p with
    | .ok _ q => q.Accounted []
    | .error fault q => q.Accounted fault.unanswered

/-! ## Actions in general -/

theorem accounts_pure (a : α) : Accounts (pure a : WeaveM σ α) :=
  fun _ hp => hp

/-- A fault that is about no request leaves the account as it is. -/
theorem accounts_throw {fault : Fault} (h : fault.unanswered = []) :
    Accounts (throw fault : WeaveM σ α) := by
  intro p hp
  change p.Accounted fault.unanswered
  rw [h]
  exact hp

theorem accounts_onOutput (f : Output → Output) : Accounts (WeaveM.onOutput f : WeaveM σ Unit) :=
  fun _ hp => hp.output _

theorem Accounts.bind {act : WeaveM σ α} {next : α → WeaveM σ β} (hact : Accounts act)
    (hnext : ∀ a, Accounts (next a)) : Accounts (act >>= next) := by
  intro p hp
  have hq := hact p hp
  rw [EStateM.run_bind]
  cases hrun : act.run p with
  | error fault q =>
    rw [hrun] at hq
    exact hq
  | ok a q =>
    rw [hrun] at hq
    exact hnext a q hq

theorem accounts_forM {xs : List α} {act : α → WeaveM σ Unit} (hact : ∀ x, Accounts (act x)) :
    Accounts (xs.forM act) := by
  induction xs with
  | nil => exact accounts_pure ()
  | cons x xs ih => exact (hact x).bind fun _ => ih

/-- A wrapped fault is about the same request. -/
theorem Accounts.nested {act : WeaveM σ α} (hact : Accounts act) (site : Location) :
    Accounts (act.adaptExcept (Fault.nested site)) := by
  intro p hp
  have hq := hact p hp
  rw [EStateM.run_adaptExcept]
  cases hrun : act.run p with
  | error fault q =>
    rw [hrun] at hq
    exact hq
  | ok a q =>
    rw [hrun] at hq
    exact hq

/-! ## The actions of weaving -/

variable {descend : Location → SourceUnit → WeaveM σ Unit} (key : String) (cur : Cursor)

theorem accounts_inject (hdescend : ∀ site unit, Accounts (descend site unit)) (site : Location)
    (column : Nat) (segments : List Segment) :
    Accounts (inject descend site column segments) := by
  cases segments with
  | nil => exact accounts_pure ()
  | cons first others =>
    refine (hdescend site _).bind fun _ => accounts_forM fun s => ?_
    exact (accounts_onOutput _).bind fun _ => hdescend site _

/-- The event of an inclusion is told between the request and the unit that is handed out,
so the account is settled before the unit is woven. -/
theorem accounts_expand (hdescend : ∀ site unit, Accounts (descend site unit)) (d : Directive) :
    Accounts (w.expand descend key cur d) := by
  match d with
  | .inclusion none => exact accounts_throw rfl
  | .inclusion (some path) =>
    intro p hp
    have hasked := hp.asked (w := w) path
    rw [run_expand_inclusion]
    generalize (⟨key, cur.line + 1⟩ : Location) = site
    generalize (w.supplier.request p.stock path).1 = reply at hasked
    cases reply with
    | failed cause => exact hasked
    | repeated => exact hasked.answered (.skipped _ path)
    | fresh inner =>
      have hinner := hdescend site inner _ (hasked.answered (.expanding site path inner))
      cases hrun : (descend site inner).run
          ((w.asked p path).told (.expanding site path inner.key)) with
      | ok _ q =>
        simp only [hrun] at hinner ⊢
        exact hinner
      | error fault q =>
        simp only [hrun] at hinner ⊢
        exact hinner
  | .placeholder name =>
    have hinject := accounts_inject hdescend ⟨key, cur.line + 1⟩ cur.column
      (w.plan.segmentsFor name)
    refine (hinject.bind fun _ => ?_).bind fun _ => accounts_pure _
    exact fun _ hp => hp.injected _ name _

theorem accounts_step (hdescend : ∀ site unit, Accounts (descend site unit)) (c : Char)
    (rest : List Char) : Accounts (w.step descend key cur c rest) := by
  cases hacts : w.actsOn? cur (c :: rest) with
  | some act =>
    rw [step_of_actsOn? hacts]
    exact accounts_expand key cur hdescend act.2
  | none =>
    intro p hp
    obtain ⟨cur', o, hrun⟩ : ∃ cur' o, (w.step descend key cur c rest).run p =
        .ok cur' { p with output := o } := run_step_of_actsOn?_eq_none hacts
    rw [hrun]
    exact hp.output o

theorem accounts_walk (hdescend : ∀ site unit, Accounts (descend site unit)) (text : List Char) :
    Accounts (w.walk descend key cur text) := by
  induction text generalizing cur with
  | nil => exact accounts_pure cur
  | cons c rest ih => exact (accounts_step key cur hdescend c rest).bind fun cur => ih cur

theorem accounts_finish : Accounts (finish key cur : WeaveM σ Unit) := by
  unfold finish
  split
  · exact accounts_throw rfl
  · exact accounts_onOutput _
  · exact accounts_onOutput _

theorem accounts_scan (hdescend : ∀ site unit, Accounts (descend site unit)) (unit : SourceUnit) :
    Accounts (w.scan descend unit) := by
  have hget : Accounts (get : WeaveM σ (Pass σ)) := fun _ hp => hp
  refine hget.bind fun p => ?_
  exact (accounts_walk unit.key _ hdescend _).bind fun cur => accounts_finish unit.key cur

/-- Weaving a unit, and all it stands for, keeps the account. -/
theorem accounts_unitAt (w : Weaver σ) (room : Nat) (unit : SourceUnit) :
    Accounts (w.unitAt room unit) := by
  induction room generalizing unit with
  | zero => exact accounts_scan (fun _ _ => accounts_throw rfl) unit
  | succ room ih => exact accounts_scan (fun site inner => (ih inner).nested site) unit

end Weaver

namespace Visit

variable {w : Weaver σ} {v : Visit σ} {fault : Fault} {q : Pass σ}

theorem Ends.accounted (h : v.Ends w q) (hp : v.pass.Accounted []) : q.Accounted [] := by
  have hq := w.accounts_unitAt v.room v.unit v.pass hp
  rw [show (w.unitAt v.room v.unit).run v.pass = .ok () q from h] at hq
  exact hq

theorem Fails.accounted (h : v.Fails w fault q) (hp : v.pass.Accounted []) :
    q.Accounted fault.unanswered := by
  have hq := w.accounts_unitAt v.room v.unit v.pass hp
  rw [show (w.unitAt v.room v.unit).run v.pass = .error fault q from h] at hq
  exact hq

theorem Fails.later (h : v.Fails w fault q) : w.Later v.pass q := by
  rw [← WeaveM.leaves_of_error h]
  exact w.advances_unitAt v.room v.unit v.pass

end Visit

/-! ## Passes -/

/-- Whatever a pass does, its requests are made in turn. -/
theorem Weaver.Later.answers {w : Weaver σ} {p q : Pass σ} {stock : σ} (h : w.Later p q)
    (hp : w.supplier.Answers stock p.exchanges.toList p.stock) :
    w.supplier.Answers stock q.exchanges.toList q.stock := by
  induction h with
  | refl => exact hp
  | tail _ hchange ih =>
    cases hchange with
    | request path =>
      simp only [Weaver.asked, Array.toList_push]
      exact ih.concat path
    | _ => exact ih

/-- The requests of a pass are put to its supplier in turn. If the pass succeeds, the events
of its inclusions tell of the requests one by one, and the last event, and no other, tells
that the pass has succeeded and how many lines there are. If the pass fails, the events of
its inclusions tell of all requests but one that the supplier has failed to answer; there is
such a request just if the innermost fault is about it, and then it is the last one. Nothing
tells of a success, and the pass is left in the state in which the innermost fault arose. -/
theorem events_account_for_requests (w : Weaver σ) (unit : SourceUnit) (stock : σ) :
    (∀ output pass, w.weave unit stock = .ok output pass →
      w.supplier.Answers stock pass.exchanges.toList pass.stock ∧
      ∃ events, pass.events.toList =
          events ++ [.finished unit.key (Text.shownLines output.text.toList).length] ∧
        (∀ key lines, .finished key lines ∉ events) ∧
        List.Forall₂ Event.Tells (events.filter Event.ofInclusion) pass.exchanges.toList) ∧
    ∀ fault pass, w.weave unit stock = .error fault pass →
      w.supplier.Answers stock pass.exchanges.toList pass.stock ∧
      (∀ key lines, .finished key lines ∉ pass.events) ∧
      (∃ answered, pass.exchanges.toList = answered ++ fault.unanswered ∧
        List.Forall₂ Event.Tells (pass.events.toList.filter Event.ofInclusion) answered) ∧
      ∃ v, w.Leads (w.root unit stock) fault.trail v ∧ v.Raises w pass fault.innermost := by
  constructor
  · intro output pass h
    have hmakes : w.Makes stock output := Or.inl ⟨unit, pass, h⟩
    obtain ⟨_, p, hends, hfinish⟩ := WeaveM.run_bind_eq_ok.mp h
    cases hfinish
    replace hends : (w.root unit stock).Ends w p := hends
    obtain ⟨⟨answered, hexchanges, htells⟩, hunfinished⟩ := hends.accounted (.start stock)
    rw [List.append_nil] at hexchanges
    refine ⟨hends.later.answers .nil, p.events.toList, ?_, ?_, ?_⟩
    · rw [← hmakes.size_origins]
      exact Array.toList_push
    · simpa using hunfinished
    · exact hexchanges ▸ htells
  · intro fault pass h
    have hfails := Weaver.weave_eq_error_iff.mp h
    obtain ⟨htold, hunfinished⟩ := hfails.accounted (.start stock)
    exact ⟨hfails.later.answers .nil, hunfinished, htold, hfails.exists_leads⟩

/-- One sample pass succeeds with ten lines. In the other the lost unit is asked for last,
and no event tells of it. -/
theorem events_account_for_requests_sample :
    (∃ pass events, Sample.weaver.weave Sample.entry Sample.library = .ok Sample.woven pass ∧
      pass.events.toList = events ++ [.finished Sample.entry.key 10] ∧
      List.Forall₂ Event.Tells (events.filter Event.ofInclusion) pass.exchanges.toList) ∧
    ∃ pass answered, Sample.reader.weave Sample.listed Sample.shelf = .error Sample.lost pass ∧
      pass.exchanges.toList = answered ++ [⟨"lost", .failed (.notFound "lost")⟩] ∧
      List.Forall₂ Event.Tells (pass.events.toList.filter Event.ofInclusion) answered := by
  have hten : (Text.shownLines Sample.woven.text.toList).length = 10 := by decide +kernel
  have hfails : ∃ pass, Sample.reader.weave Sample.listed Sample.shelf =
      .error Sample.lost pass := by decide +kernel
  constructor
  · obtain ⟨pass, h⟩ := Sample.weave_eq_ok
    obtain ⟨hsucceeds, -⟩ :=
      events_account_for_requests Sample.weaver Sample.entry Sample.library
    obtain ⟨-, events, hevents, -, htells⟩ := hsucceeds Sample.woven pass h
    exact ⟨pass, events, h, hten ▸ hevents, htells⟩
  · obtain ⟨pass, h⟩ := hfails
    obtain ⟨-, hstops⟩ := events_account_for_requests Sample.reader Sample.listed Sample.shelf
    obtain ⟨-, -, ⟨answered, hexchanges, htells⟩, -⟩ := hstops Sample.lost pass h
    exact ⟨pass, answered, h, hexchanges, htells⟩

end ShaderWeave
