import Mathlib.Data.List.Forall2
import ShaderWeave.Proofs.Advance

/-!
# Passes that are alike

Two passes over the same texts may differ in what they do not look at: in the keys of
their units, in what was written before, in the state of their suppliers or in their
limits. Here a likeness says which states, keys, causes and limits of two passes stand
for each other. If every elementary change leads from like states to like states, then
both passes go the same way to the end: they read the same characters, expand the same
directives, and succeed or fail alike.

## Main definitions

- `Likeness`: what stands for each other in two passes.
- `Likeness.Lawful`: elementary changes keep the likeness.
- `Likeness.Ends`, `Likeness.Mirrors`: two actions end alike.

## Main results

- `Likeness.Mirrors.bind`: actions that mirror each other do so one after the other.
- `Likeness.Lawful.mirrors_scan`: the scans of like units mirror each other.
- `Likeness.Lawful.mirrors_unitAt`: so does weaving them and all they stand for.
-/

namespace ShaderWeave

variable {σ τ α α' β β' : Type}

/-! ## Values that are alike -/

section

variable (key : String → String → Prop) (cause : Cause → Cause → Prop) (limit : Nat → Nat → Prop)

def Location.Like (l l' : Location) : Prop :=
  key l.key l'.key ∧ l.line = l'.line

/-- Units of like keys with one text. -/
def SourceUnit.Like (u u' : SourceUnit) : Prop :=
  key u.key u'.key ∧ u.text = u'.text

/-- Segments of like keys with one snippet. -/
def Segment.Like (s s' : Segment) : Prop :=
  key s.key s'.key ∧ s.snippet = s'.snippet

inductive Reply.Like : Reply → Reply → Prop where
  | fresh {unit unit' : SourceUnit} (unit_like : unit.Like key unit') :
    Like (.fresh unit) (.fresh unit')
  | repeated : Like .repeated .repeated
  | failed {c c' : Cause} (cause_like : cause c c') : Like (.failed c) (.failed c')

inductive Event.Like : Event → Event → Prop where
  | expanding {site site' : Location} {resolved resolved' : String}
    (site_like : site.Like key site') (path : String) (key_like : key resolved resolved') :
    Like (.expanding site path resolved) (.expanding site' path resolved')
  | skipped {site site' : Location} (site_like : site.Like key site') (path : String) :
    Like (.skipped site path) (.skipped site' path)
  | injected {site site' : Location} (site_like : site.Like key site') (name : String)
    (count : Nat) : Like (.injected site name count) (.injected site' name count)
  | finished {k k' : String} (key_like : key k k') (lines : Nat) :
    Like (.finished k lines) (.finished k' lines)

/-- Faults of one kind at like places, with like wrappers. -/
inductive Fault.Like : Fault → Fault → Prop where
  | malformedInclusion {site site' : Location} (site_like : site.Like key site') :
    Like (.malformedInclusion site) (.malformedInclusion site')
  | unresolved {site site' : Location} {c c' : Cause} (path : String)
    (site_like : site.Like key site') (cause_like : cause c c') :
    Like (.unresolved path site c) (.unresolved path site' c')
  | unterminated {k k' : String} (key_like : key k k') (point : CommentPoint) :
    Like (.unterminated k point) (.unterminated k' point)
  | tooDeep {site site' : Location} {n n' : Nat} (site_like : site.Like key site')
    (limit_like : limit n n') : Like (.tooDeep site n) (.tooDeep site' n')
  | nested {site site' : Location} {inner inner' : Fault} (site_like : site.Like key site')
    (inner_like : Like inner inner') : Like (.nested site inner) (.nested site' inner')

end

/-! ## Values that are alike because they are equal -/

theorem Location.like_eq {l l' : Location} : l.Like Eq l' ↔ l = l' := by
  cases l
  cases l'
  simp [Location.Like]

theorem SourceUnit.like_eq_refl (unit : SourceUnit) : unit.Like Eq unit :=
  ⟨rfl, rfl⟩

theorem Segment.forall₂_like_eq_refl (segments : List Segment) :
    List.Forall₂ (Segment.Like Eq) segments segments :=
  List.forall₂_same.mpr fun _ _ => ⟨rfl, rfl⟩

theorem Reply.like_eq_refl (reply : Reply) : reply.Like Eq Eq reply := by
  cases reply with
  | fresh unit => exact .fresh unit.like_eq_refl
  | repeated => exact .repeated
  | failed cause => exact .failed rfl

theorem Event.Like.eq {e e' : Event} (h : e.Like Eq e') : e = e' := by
  cases h with
  | expanding hsite path hkey => rw [Location.like_eq.mp hsite, hkey]
  | skipped hsite path => rw [Location.like_eq.mp hsite]
  | injected hsite name count => rw [Location.like_eq.mp hsite]
  | finished hkey lines => rw [hkey]

theorem Fault.Like.eq {fault fault' : Fault} (h : fault.Like Eq Eq Eq fault') :
    fault = fault' := by
  induction h with
  | malformedInclusion hsite => rw [Location.like_eq.mp hsite]
  | unresolved path hsite hcause => rw [Location.like_eq.mp hsite, hcause]
  | unterminated hkey point => rw [hkey]
  | tooDeep hsite hlimit => rw [Location.like_eq.mp hsite, hlimit]
  | nested hsite _ ih => rw [Location.like_eq.mp hsite, ih]

/-! ## Actions that mirror each other -/

/-- What stands for each other in two passes. -/
structure Likeness (σ τ : Type) where
  state : Pass σ → Pass τ → Prop
  key : String → String → Prop := Eq
  cause : Cause → Cause → Prop := Eq
  limit : Nat → Nat → Prop := Eq

namespace Likeness

/-- Two actions end alike: both succeed with like values or both fail with like faults,
and they leave like states. -/
inductive Ends (L : Likeness σ τ) (value : α → α' → Prop) :
    EStateM.Result Fault (Pass σ) α → EStateM.Result Fault (Pass τ) α' → Prop where
  | ok {a : α} {a' : α'} {q : Pass σ} {q' : Pass τ} (value_like : value a a')
    (state_like : L.state q q') : Ends L value (.ok a q) (.ok a' q')
  | error {fault fault' : Fault} {q : Pass σ} {q' : Pass τ}
    (fault_like : fault.Like L.key L.cause L.limit fault') (state_like : L.state q q') :
    Ends L value (.error fault q) (.error fault' q')

theorem Ends.ok_or_error {L : Likeness σ τ} {value : α → α' → Prop}
    {result : EStateM.Result Fault (Pass σ) α} {result' : EStateM.Result Fault (Pass τ) α'}
    (h : L.Ends value result result') :
    (∃ a a' q q', result = .ok a q ∧ result' = .ok a' q' ∧ value a a' ∧ L.state q q') ∨
    ∃ fault fault' q q', result = .error fault q ∧ result' = .error fault' q' ∧
      fault.Like L.key L.cause L.limit fault' ∧ L.state q q' := by
  cases h with
  | ok hvalue hstate => exact Or.inl ⟨_, _, _, _, rfl, rfl, hvalue, hstate⟩
  | error hfault hstate => exact Or.inr ⟨_, _, _, _, rfl, rfl, hfault, hstate⟩

/-- From like states the two actions end alike. -/
def Mirrors (L : Likeness σ τ) (value : α → α' → Prop) (act : WeaveM σ α) (act' : WeaveM τ α') :
    Prop :=
  ∀ p p', L.state p p' → L.Ends value (act.run p) (act'.run p')

variable {L : Likeness σ τ} {value : α → α' → Prop} {value' : β → β' → Prop}

theorem mirrors_pure {a : α} {a' : α'} (h : value a a') : L.Mirrors value (pure a) (pure a') :=
  fun _ _ hstate => .ok h hstate

theorem mirrors_throw {fault fault' : Fault} (h : fault.Like L.key L.cause L.limit fault') :
    L.Mirrors value (throw fault) (throw fault') :=
  fun _ _ hstate => .error h hstate

theorem Mirrors.bind {act : WeaveM σ α} {act' : WeaveM τ α'} {next : α → WeaveM σ β}
    {next' : α' → WeaveM τ β'} (h : L.Mirrors value act act')
    (hnext : ∀ a a', value a a' → L.Mirrors value' (next a) (next' a')) :
    L.Mirrors value' (act >>= next) (act' >>= next') := by
  intro p p' hstate
  rw [EStateM.run_bind, EStateM.run_bind]
  obtain ⟨a, a', q, q', hok, hok', hvalue, hstate'⟩ |
    ⟨fault, fault', q, q', herror, herror', hfault, hstate'⟩ := (h p p' hstate).ok_or_error
  · rw [hok, hok']
    exact hnext a a' hvalue q q' hstate'
  · rw [herror, herror']
    exact .error hfault hstate'

theorem Mirrors.nested {act : WeaveM σ α} {act' : WeaveM τ α'} (h : L.Mirrors value act act')
    {site site' : Location} (hsite : site.Like L.key site') :
    L.Mirrors value (act.adaptExcept (Fault.nested site))
      (act'.adaptExcept (Fault.nested site')) := by
  intro p p' hstate
  rw [EStateM.run_adaptExcept, EStateM.run_adaptExcept]
  obtain ⟨a, a', q, q', hok, hok', hvalue, hstate'⟩ |
    ⟨fault, fault', q, q', herror, herror', hfault, hstate'⟩ := (h p p' hstate).ok_or_error
  · rw [hok, hok']
    exact .ok hvalue hstate'
  · rw [herror, herror']
    exact .error (.nested hsite hfault) hstate'

theorem mirrors_forM {like : α → α' → Prop} {xs : List α} {xs' : List α'}
    (h : List.Forall₂ like xs xs') {act : α → WeaveM σ Unit} {act' : α' → WeaveM τ Unit}
    (hact : ∀ x x', like x x' → L.Mirrors Eq (act x) (act' x')) :
    L.Mirrors Eq (xs.forM act) (xs'.forM act') := by
  induction h with
  | nil => exact mirrors_pure rfl
  | cons hx _ ih => exact (hact _ _ hx).bind fun _ _ _ => ih

theorem mirrors_onOutput {f f' : Output → Output}
    (h : ∀ p p', L.state p p' →
      L.state { p with output := f p.output } { p' with output := f' p'.output }) :
    L.Mirrors Eq (WeaveM.onOutput f) (WeaveM.onOutput f') :=
  fun p p' hstate => .ok rfl (h p p' hstate)

/-! ## The actions of weaving -/

/-- What a weaver reads from like states is alike, and every elementary change leads from
like states to like states. -/
structure Lawful (L : Likeness σ τ) (w : Weaver σ) (w' : Weaver τ) : Prop where
  read : ∀ text, Directive.read? w.plan text = Directive.read? w'.plan text
  segments : ∀ name, List.Forall₂ (Segment.Like L.key) (w.plan.segmentsFor name)
    (w'.plan.segmentsFor name)
  limits : L.limit w.limit w'.limit
  isMidLine : ∀ {p p'}, L.state p p' → p.output.isMidLine = p'.output.isMidLine
  lineWidth : ∀ {p p'}, L.state p p' → p.output.lineWidth = p'.output.lineWidth
  reply : ∀ {p p'}, L.state p p' → ∀ path, (w.supplier.request p.stock path).1.Like L.key L.cause
    (w'.supplier.request p'.stock path).1
  asked : ∀ {p p'}, L.state p p' → ∀ path, L.state (w.asked p path) (w'.asked p' path)
  told : ∀ {p p'}, L.state p p' → ∀ {e e'}, Event.Like L.key e e' → L.state (p.told e) (p'.told e')
  write : ∀ {p p'}, L.state p p' → ∀ {text}, '\n' ∉ text → L.state (p.write text) (p'.write text)
  endLine : ∀ {p p'}, L.state p p' → ∀ {l l'}, Location.Like L.key l l' →
    L.state { p with output := p.output.endLine l } { p' with output := p'.output.endLine l' }
  flush : ∀ {p p'}, L.state p p' → ∀ {l l'}, Location.Like L.key l l' →
    L.state { p with output := p.output.flush l } { p' with output := p'.output.flush l' }

namespace Lawful

variable {w : Weaver σ} {w' : Weaver τ} {key key' : String} {site site' : Location}
  {descend : Location → SourceUnit → WeaveM σ Unit}
  {descend' : Location → SourceUnit → WeaveM τ Unit}

theorem mirrors_report (hL : L.Lawful w w') {e e' : Event} (he : e.Like L.key e') :
    L.Mirrors Eq (WeaveM.report e) (WeaveM.report e') :=
  fun _ _ hstate => .ok rfl (hL.told hstate he)

theorem mirrors_request (hL : L.Lawful w w') (path : String) :
    L.Mirrors (Reply.Like L.key L.cause) (WeaveM.request w.supplier path)
      (WeaveM.request w'.supplier path) :=
  fun _ _ hstate => .ok (hL.reply hstate path) (hL.asked hstate path)

theorem mirrors_copy (hL : L.Lawful w w') (hkey : L.key key key') (cur : Cursor) (c : Char) :
    L.Mirrors Eq (Weaver.copy key cur c) (Weaver.copy key' cur c) := by
  intro p p' hstate
  by_cases hc : c = '\n'
  · subst hc
    exact .ok rfl (hL.endLine hstate ⟨hkey, rfl⟩)
  · rw [Weaver.run_copy hc, Weaver.run_copy hc]
    exact .ok rfl (hL.write hstate (by simpa using Ne.symm hc))

theorem mirrors_leaveDirective (hL : L.Lawful w w') (hkey : L.key key key') (replaced : Bool)
    (cur : Cursor) :
    L.Mirrors Eq (Weaver.leaveDirective key replaced cur)
      (Weaver.leaveDirective key' replaced cur) := by
  refine (mirrors_onOutput fun p p' hstate => ?_).bind fun _ _ _ => mirrors_pure rfl
  rw [hL.isMidLine hstate]
  split
  · exact hL.endLine hstate ⟨hkey, rfl⟩
  · exact hstate

theorem mirrors_separate (hL : L.Lawful w w') (hsite : site.Like L.key site') (column : Nat) :
    L.Mirrors Eq (Weaver.separate site column) (Weaver.separate site' column) := by
  refine mirrors_onOutput fun p p' hstate => ?_
  have hpad : '\n' ∉ List.replicate column ' ' := by simp [List.mem_replicate]
  simp only [hL.isMidLine hstate]
  split
  · exact hL.write (hL.endLine hstate hsite) hpad
  · exact hL.write hstate hpad

theorem mirrors_finish (hL : L.Lawful w w') (hkey : L.key key key') (cur : Cursor) :
    L.Mirrors Eq (Weaver.finish key cur) (Weaver.finish key' cur) := by
  unfold Weaver.finish
  split
  · exact mirrors_throw (.unterminated hkey _)
  · exact mirrors_onOutput fun _ _ hstate => hL.flush hstate ⟨hkey, rfl⟩
  · exact mirrors_onOutput fun _ _ hstate => hL.flush hstate ⟨hkey, rfl⟩

section

variable (hL : L.Lawful w w')
  (hdescend : ∀ site site' unit unit', Location.Like L.key site site' →
    SourceUnit.Like L.key unit unit' → L.Mirrors Eq (descend site unit) (descend' site' unit'))
include hL hdescend

theorem mirrors_expandInclusion (hsite : site.Like L.key site') (path : Option String) :
    L.Mirrors Eq (w.expandInclusion descend site path)
      (w'.expandInclusion descend' site' path) := by
  cases path with
  | none => exact mirrors_throw (.malformedInclusion hsite)
  | some path =>
    refine (hL.mirrors_request path).bind fun reply reply' hreply => ?_
    cases hreply with
    | failed hcause => exact mirrors_throw (.unresolved path hsite hcause)
    | repeated =>
      exact (hL.mirrors_report (.skipped hsite path)).bind fun _ _ _ => mirrors_pure rfl
    | fresh hunit =>
      refine (hL.mirrors_report (.expanding hsite path hunit.1)).bind fun _ _ _ => ?_
      exact (hdescend _ _ _ _ hsite hunit).bind fun _ _ _ => mirrors_pure rfl

theorem mirrors_inject (hsite : site.Like L.key site') (column : Nat)
    {segments segments' : List Segment} (h : List.Forall₂ (Segment.Like L.key) segments segments') :
    L.Mirrors Eq (Weaver.inject descend site column segments)
      (Weaver.inject descend' site' column segments') := by
  have hunit : ∀ s s' : Segment, s.Like L.key s' → (s.unit column).Like L.key (s'.unit column) :=
    fun s s' hs => ⟨hs.1, by simp only [Segment.unit, hs.2]⟩
  cases h with
  | nil => exact mirrors_pure rfl
  | cons hfirst hothers =>
    refine (hdescend _ _ _ _ hsite (hunit _ _ hfirst)).bind fun _ _ _ => ?_
    refine mirrors_forM hothers fun s s' hs => ?_
    refine (hL.mirrors_separate hsite column).bind fun _ _ _ => ?_
    exact hdescend _ _ _ _ hsite (hunit s s' hs)

theorem mirrors_expand (hkey : L.key key key') (cur : Cursor) (d : Directive) :
    L.Mirrors Eq (w.expand descend key cur d) (w'.expand descend' key' cur d) := by
  have hsite : Location.Like L.key ⟨key, cur.line + 1⟩ ⟨key', cur.line + 1⟩ := ⟨hkey, rfl⟩
  cases d with
  | inclusion path =>
    refine (hL.mirrors_expandInclusion hdescend hsite path).bind ?_
    rintro replaced _ rfl
    exact mirrors_pure rfl
  | placeholder name =>
    have hsegments := hL.segments name
    have hplaceholder : L.Mirrors Eq
        (w.expandPlaceholder descend ⟨key, cur.line + 1⟩ cur.column name)
        (w'.expandPlaceholder descend' ⟨key', cur.line + 1⟩ cur.column name) := by
      refine (hL.mirrors_inject hdescend hsite cur.column hsegments).bind fun _ _ _ => ?_
      rw [← hsegments.length_eq]
      exact hL.mirrors_report (.injected hsite name _)
    exact hplaceholder.bind fun _ _ _ => mirrors_pure rfl

theorem mirrors_step (hkey : L.key key key') (cur : Cursor) (c : Char) (rest : List Char) :
    L.Mirrors Eq (w.step descend key cur c rest) (w'.step descend' key' cur c rest) := by
  unfold Weaver.step
  rw [← hL.read]
  split
  · split
    · exact hL.mirrors_leaveDirective hkey _ cur
    · exact mirrors_pure rfl
  · split
    · exact hL.mirrors_expand hdescend hkey cur _
    · exact hL.mirrors_copy hkey cur c
  · exact hL.mirrors_copy hkey cur c

theorem mirrors_walk (hkey : L.key key key') (cur : Cursor) (text : List Char) :
    L.Mirrors Eq (w.walk descend key cur text) (w'.walk descend' key' cur text) := by
  induction text generalizing cur with
  | nil => exact mirrors_pure rfl
  | cons c rest ih =>
    refine (hL.mirrors_step hdescend hkey cur c rest).bind ?_
    rintro cur _ rfl
    exact ih cur

theorem mirrors_scan {unit unit' : SourceUnit} (hunit : unit.Like L.key unit') :
    L.Mirrors Eq (w.scan descend unit) (w'.scan descend' unit') := by
  have hget : L.Mirrors L.state (get : WeaveM σ (Pass σ)) get :=
    fun _ _ hstate => .ok hstate hstate
  refine hget.bind fun p p' hstate => ?_
  -- the width of the last line is all that a scan takes from the state it begins in
  rw [hL.lineWidth hstate, hunit.2]
  refine (hL.mirrors_walk hdescend hunit.1 _ _).bind ?_
  rintro cur _ rfl
  exact hL.mirrors_finish hunit.1 cur

end

/-- Weaving like units, and all they stand for, with the same room ends alike. -/
theorem mirrors_unitAt (hL : L.Lawful w w') (room : Nat) {unit unit' : SourceUnit}
    (hunit : unit.Like L.key unit') :
    L.Mirrors Eq (w.unitAt room unit) (w'.unitAt room unit') := by
  induction room generalizing unit unit' with
  | zero =>
    refine hL.mirrors_scan (fun site site' _ _ hsite _ => ?_) hunit
    exact mirrors_throw (.tooDeep hsite hL.limits)
  | succ room ih =>
    refine hL.mirrors_scan (fun site site' inner inner' hsite hinner => ?_) hunit
    exact (ih hinner).nested hsite

end Lawful

end Likeness

end ShaderWeave
