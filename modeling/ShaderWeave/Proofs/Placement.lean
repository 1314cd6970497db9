import ShaderWeave.Proofs.Advance

/-!
# A text in different places

A text may be a unit by itself or the end of a longer one. What the scan of it does is the
same in all places; only the key and the line numbers that are reported for the text
depend on where it stands. Here such a scan is written down once for all places, as a
draft in which the places of the text's own lines are left open.

## Main definitions

- `Placement`: the unit that a text belongs to, and the number of lines in front of it.
- `Draft`: the state of a pass with the places of the text's own lines left open.
- `Draft.under`: the state for a placement of the text.
- `Stance`: whether a unit is the one that the text stands in.
- `Uniform`: an action that does the same wherever the text stands.

## Main results

- `Uniform.bind`: uniform actions may follow one another.
- `Weaver.uniform_read`: reading a text is uniform.
- `Weaver.uniform_below`: so is weaving the units that it leads to.
-/

namespace ShaderWeave

variable {σ α β : Type}

/-! ## Placements -/

/-- Where a text stands: in the unit of a key, behind a number of lines. -/
structure Placement where
  key : String
  /-- How many lines of the unit stand in front of the text. -/
  before : Nat

namespace Placement

/-- The place of a line of the text. Of the given location only the line number is read,
which counts from the start of the text. -/
def location (pl : Placement) (l : Location) : Location :=
  ⟨pl.key, pl.before + l.line⟩

/-- An event at a directive of the text. -/
def event (pl : Placement) : Event → Event
  | .expanding site path resolved => .expanding (pl.location site) path resolved
  | .skipped site path => .skipped (pl.location site) path
  | .injected site name count => .injected (pl.location site) name count
  | .finished _ lines => .finished pl.key lines

/-- A fault that arises at a line of the text. The place of the fault, or of the outermost
directive on the way to it, is in the text; all further places are in other units. -/
def fault (pl : Placement) : Fault → Fault
  | .malformedInclusion site => .malformedInclusion (pl.location site)
  | .unresolved path site cause => .unresolved path (pl.location site) cause
  | .unterminated _ point => .unterminated pl.key point
  | .tooDeep site limit => .tooDeep (pl.location site) limit
  | .nested site inner => .nested (pl.location site) inner

/-- A cursor in the text, whose line counter begins behind the lines in front. -/
def cursor (pl : Placement) (cur : Cursor) : Cursor :=
  { cur with line := pl.before + cur.line }

theorem mode_cursor (pl : Placement) (cur : Cursor) : (pl.cursor cur).mode = cur.mode := rfl

end Placement

/-! ## Drafts -/

/-- An entry of a record, about a line of the text itself or about anything else. -/
inductive Marked (α : Type) where
  | own (a : α)
  | other (a : α)

/-- The entry, with its place filled in if it was left open. -/
def Marked.fill (place : α → α) : Marked α → α
  | own a => place a
  | other a => a

/-- The state of a pass in which the places of the text's own lines are left open. -/
structure Draft (σ : Type) where
  stock : σ
  text : String
  origins : Array (Marked Location)
  closed : Nat
  exchanges : Array Exchange
  events : Array (Marked Event)

namespace Draft

/-- The state for a placement of the text. -/
def under (d : Draft σ) (pl : Placement) : Pass σ where
  stock := d.stock
  output := ⟨d.text, d.origins.map (·.fill pl.location), d.closed⟩
  exchanges := d.exchanges
  events := d.events.map (·.fill pl.event)

/-- A state that was reached before the text is read. -/
def ofPass (p : Pass σ) : Draft σ where
  stock := p.stock
  text := p.output.text
  origins := p.output.origins.map .other
  closed := p.output.closed
  exchanges := p.exchanges
  events := p.events.map .other

theorem ofPass_under (p : Pass σ) (pl : Placement) : (ofPass p).under pl = p := by
  have hother : ∀ {α : Type} (f : α → α), Marked.fill f ∘ .other = id := fun _ => rfl
  simp [ofPass, under, hother]

def isMidLine (d : Draft σ) : Bool :=
  d.text.back?.any (· != '\n')

theorem isMidLine_under (d : Draft σ) (pl : Placement) :
    (d.under pl).output.isMidLine = d.isMidLine := rfl

def pushText (d : Draft σ) (text : String) : Draft σ :=
  { d with text := d.text ++ text }

def own (d : Draft σ) (m : Marked Location) : Draft σ :=
  if d.origins.size = d.closed then { d with origins := d.origins.push m } else d

def endLine (d : Draft σ) (m : Marked Location) : Draft σ :=
  { d.own m with text := d.text.push '\n', closed := d.closed + 1 }

def flush (d : Draft σ) (m : Marked Location) : Draft σ :=
  if d.isMidLine then d.own m else d

section

variable (d : Draft σ) (m : Marked Location) (pl : Placement)

theorem pushText_under (text : String) : (d.pushText text).under pl =
    { d.under pl with output := (d.under pl).output.pushText text } := rfl

theorem own_under : (d.own m).under pl =
    { d.under pl with output := (d.under pl).output.own (m.fill pl.location) } := by
  by_cases h : d.origins.size = d.closed
  · simp [own, Output.own, under, Output.addOrigin, h]
  · simp [own, Output.own, under, h]

theorem endLine_under : (d.endLine m).under pl =
    { d.under pl with output := (d.under pl).output.endLine (m.fill pl.location) } := by
  by_cases h : d.origins.size = d.closed
  · simp [endLine, own, Output.endLine, Output.own, under, Output.addOrigin, h]
  · simp [endLine, own, Output.endLine, Output.own, under, h]

theorem flush_under : (d.flush m).under pl =
    { d.under pl with output := (d.under pl).output.flush (m.fill pl.location) } := by
  unfold flush Output.flush
  rw [isMidLine_under]
  split
  · exact own_under d m pl
  · rfl

end

end Draft

/-! ## Actions that do the same in all places -/

/-- Whether a unit is the one that the text stands in, or another one. -/
inductive Stance where
  | own
  | other (key : String)

namespace Stance

/-- Where what is read in the unit stands, if the text stands at `pl`. -/
def place : Stance → Placement → Placement
  | own, pl => pl
  | other key, _ => ⟨key, 0⟩

/-- An entry about a line of the unit. -/
def mark (s : Stance) (f : Placement → α → α) (a : α) : Marked α :=
  match s with
  | own => .own a
  | other key => .other (f ⟨key, 0⟩ a)

theorem fill_mark (s : Stance) (f : Placement → α → α) (a : α) (pl : Placement) :
    (s.mark f a).fill (f pl) = f (s.place pl) a := by
  cases s <;> rfl

end Stance

/-- Wherever the text stands, the action, which reads the unit of the given stance, ends in
the same way: with one value, or with one fault, and in a state of one draft. -/
def Uniform (s : Stance) (view : Placement → α → α) (act : Placement → WeaveM σ α) : Prop :=
  ∀ d : Draft σ,
    (∃ (a : α) (d' : Draft σ), ∀ pl,
      (act pl).run (d.under pl) = .ok (view (s.place pl) a) (d'.under pl)) ∨
    ∃ (fault : Fault) (d' : Draft σ), ∀ pl,
      (act pl).run (d.under pl) = .error ((s.place pl).fault fault) (d'.under pl)

/-- The view of a value that does not depend on where the text stands. -/
def same : Placement → α → α :=
  fun _ a => a

section

variable {s : Stance} {view : Placement → α → α} {view' : Placement → β → β}

theorem uniform_pure (a : α) :
    Uniform s view fun pl => (pure (view (s.place pl) a) : WeaveM σ α) :=
  fun d => Or.inl ⟨a, d, fun _ => rfl⟩

theorem uniform_throw (fault : Fault) :
    Uniform s view fun pl => (throw ((s.place pl).fault fault) : WeaveM σ α) :=
  fun d => Or.inr ⟨fault, d, fun _ => rfl⟩

theorem Uniform.bind {act : Placement → WeaveM σ α} {next : Placement → α → WeaveM σ β}
    (h : Uniform s view act)
    (hnext : ∀ a, Uniform s view' fun pl => next pl (view (s.place pl) a)) :
    Uniform s view' fun pl => act pl >>= next pl := by
  intro d
  rcases h d with ⟨a, d₁, hok⟩ | ⟨fault, d₁, herror⟩
  · rcases hnext a d₁ with ⟨b, d₂, hok'⟩ | ⟨fault, d₂, herror⟩
    · exact Or.inl ⟨b, d₂, fun pl => WeaveM.run_bind_eq_ok.mpr ⟨_, _, hok pl, hok' pl⟩⟩
    · refine Or.inr ⟨fault, d₂, fun pl => ?_⟩
      rw [EStateM.run_bind, hok pl]
      exact herror pl
  · refine Or.inr ⟨fault, d₁, fun pl => ?_⟩
    rw [EStateM.run_bind, herror pl]

theorem uniform_forM {xs : List β} {act : Placement → β → WeaveM σ Unit}
    (h : ∀ x, Uniform s same fun pl => act pl x) :
    Uniform s same fun pl => xs.forM (act pl) := by
  induction xs with
  | nil => exact uniform_pure ()
  | cons x xs ih => exact (h x).bind fun _ => ih

/-- An action that is uniform in another unit fails there with one and the same fault, which
the directive at `site` then wraps. -/
theorem Uniform.nested {key : String} {act : WeaveM σ Unit}
    (h : Uniform (.other key) same fun _ => act) (site : Location) :
    Uniform s same fun pl => act.adaptExcept (Fault.nested ((s.place pl).location site)) := by
  intro d
  rcases h d with ⟨a, d', hok⟩ | ⟨fault, d', herror⟩
  · refine Or.inl ⟨a, d', fun pl => ?_⟩
    rw [EStateM.run_adaptExcept, hok pl]
  · refine Or.inr ⟨.nested site (Placement.fault ⟨key, 0⟩ fault), d', fun pl => ?_⟩
    rw [EStateM.run_adaptExcept, herror pl]
    rfl

theorem uniform_onOutput {f : Placement → Output → Output} (g : Draft σ → Draft σ)
    (h : ∀ d pl, (g d).under pl = { d.under pl with output := f pl (d.under pl).output }) :
    Uniform s same fun pl => (WeaveM.onOutput (f pl) : WeaveM σ Unit) := by
  intro d
  refine Or.inl ⟨(), g d, fun pl => ?_⟩
  rw [h]
  rfl

theorem uniform_report (e : Event) :
    Uniform s same fun pl => (WeaveM.report ((s.place pl).event e) : WeaveM σ Unit) := by
  intro d
  refine Or.inl ⟨(), { d with events := d.events.push (s.mark Placement.event e) }, fun pl => ?_⟩
  simp only [Draft.under, Array.map_push, s.fill_mark]
  rfl

theorem uniform_request (supplier : Supplier σ) (path : String) :
    Uniform s same fun _ => WeaveM.request supplier path := by
  intro d
  exact Or.inl ⟨(supplier.request d.stock path).1,
    { d with
      stock := (supplier.request d.stock path).2
      exchanges := d.exchanges.push ⟨path, (supplier.request d.stock path).1⟩ }, fun _ => rfl⟩

end

/-! ## The actions of weaving -/

namespace Weaver

variable {w : Weaver σ} {s : Stance} {descend : Location → SourceUnit → WeaveM σ Unit}

theorem uniform_copy (cur : Cursor) (c : Char) :
    Uniform s Placement.cursor fun pl =>
      (copy (s.place pl).key ((s.place pl).cursor cur) c : WeaveM σ Cursor) := by
  by_cases hc : c = '\n'
  · simp only [copy, hc, if_true]
    refine (uniform_onOutput (·.endLine (s.mark Placement.location ⟨"", cur.line + 1⟩))
      fun d pl => ?_).bind fun _ => ?_
    · rw [Draft.endLine_under, s.fill_mark]
      rfl
    · exact uniform_pure (Cursor.mk (cur.mode.next '\n') (cur.line + 1) 0)
  · simp only [copy, hc, if_false]
    refine (uniform_onOutput (·.pushText (String.ofList [c])) fun d pl => ?_).bind fun _ => ?_
    · simp [Draft.pushText, Draft.under, Output.push]
    · exact uniform_pure (Cursor.mk (cur.mode.next c) cur.line (cur.column + 1))

theorem uniform_leaveDirective (replaced : Bool) (cur : Cursor) :
    Uniform s Placement.cursor fun pl =>
      (leaveDirective (s.place pl).key replaced ((s.place pl).cursor cur) : WeaveM σ Cursor) := by
  refine (uniform_onOutput (fun d => if d.isMidLine || !replaced then
    d.endLine (s.mark Placement.location ⟨"", cur.line⟩) else d) fun d pl => ?_).bind fun _ => ?_
  · rw [Draft.isMidLine_under]
    split
    · rw [Draft.endLine_under, s.fill_mark]
      rfl
    · rfl
  · exact uniform_pure (Cursor.mk .lineStart cur.line 0)

theorem uniform_separate (site : Location) (column : Nat) :
    Uniform s same fun pl =>
      (separate ((s.place pl).location site) column : WeaveM σ Unit) := by
  refine uniform_onOutput (fun d =>
    (if d.isMidLine then d.endLine (s.mark Placement.location site) else d).pushText
      (String.ofList (List.replicate column ' '))) fun d pl => ?_
  rw [Draft.pushText_under, Draft.isMidLine_under]
  by_cases hline : d.isMidLine
  · simp only [if_pos hline, Draft.endLine_under, s.fill_mark]
  · simp only [if_neg hline]

theorem uniform_flush (line : Nat) :
    Uniform s same fun pl =>
      (WeaveM.onOutput (·.flush ((s.place pl).location ⟨"", line⟩)) : WeaveM σ Unit) := by
  refine uniform_onOutput (·.flush (s.mark Placement.location ⟨"", line⟩)) fun d pl => ?_
  rw [Draft.flush_under, s.fill_mark]

theorem uniform_finish (cur : Cursor) :
    Uniform s same fun pl =>
      (finish (s.place pl).key ((s.place pl).cursor cur) : WeaveM σ Unit) := by
  simp only [finish, Placement.mode_cursor]
  split
  · exact uniform_throw (.unterminated "" _)
  · exact uniform_flush cur.line
  · exact uniform_flush (cur.line + 1)

section

variable
  (hdescend : ∀ site unit, Uniform s same fun pl => descend ((s.place pl).location site) unit)
include hdescend

theorem uniform_expandInclusion (site : Location) (path : Option String) :
    Uniform s same fun pl => w.expandInclusion descend ((s.place pl).location site) path := by
  cases path with
  | none => exact uniform_throw (.malformedInclusion site)
  | some path =>
    refine (uniform_request w.supplier path).bind fun reply => ?_
    cases reply with
    | failed cause => exact uniform_throw (.unresolved path site cause)
    | repeated => exact (uniform_report (.skipped site path)).bind fun _ => uniform_pure false
    | fresh unit =>
      refine (uniform_report (.expanding site path unit.key)).bind fun _ => ?_
      exact (hdescend site unit).bind fun _ => uniform_pure true

theorem uniform_inject (site : Location) (column : Nat) (segments : List Segment) :
    Uniform s same fun pl => inject descend ((s.place pl).location site) column segments := by
  cases segments with
  | nil => exact uniform_pure ()
  | cons first others =>
    refine (hdescend site _).bind fun _ => uniform_forM fun segment => ?_
    exact (uniform_separate site column).bind fun _ => hdescend site _

theorem uniform_expand (cur : Cursor) (d : Directive) :
    Uniform s Placement.cursor fun pl =>
      w.expand descend (s.place pl).key ((s.place pl).cursor cur) d := by
  cases d with
  | inclusion path =>
    refine (uniform_expandInclusion hdescend ⟨"", cur.line + 1⟩ path).bind fun replaced => ?_
    exact uniform_pure (Cursor.mk (.directive replaced) (cur.line + 1) cur.column)
  | placeholder name =>
    have hinject := uniform_inject hdescend ⟨"", cur.line + 1⟩ cur.column (w.plan.segmentsFor name)
    have hreport := uniform_report (σ := σ) (s := s)
      (.injected ⟨"", cur.line + 1⟩ name (w.plan.segmentsFor name).length)
    refine (hinject.bind fun _ => hreport).bind fun _ => ?_
    exact uniform_pure (Cursor.mk (.directive true) (cur.line + 1) cur.column)

theorem uniform_step (cur : Cursor) (c : Char) (rest : List Char) :
    Uniform s Placement.cursor fun pl =>
      w.step descend (s.place pl).key ((s.place pl).cursor cur) c rest := by
  simp only [step, Placement.mode_cursor]
  split
  · split
    · exact uniform_leaveDirective _ cur
    · exact uniform_pure cur
  · split
    · exact uniform_expand hdescend cur _
    · exact uniform_copy cur c
  · exact uniform_copy cur c

theorem uniform_walk (cur : Cursor) (text : List Char) :
    Uniform s Placement.cursor fun pl =>
      w.walk descend (s.place pl).key ((s.place pl).cursor cur) text := by
  induction text generalizing cur with
  | nil => exact uniform_pure cur
  | cons c rest ih => exact (uniform_step hdescend cur c rest).bind fun cur => ih cur

/-- Reading a text to its end does the same wherever the text stands. -/
theorem uniform_read (w : Weaver σ) (cur : Cursor) (text : List Char) :
    Uniform s same fun pl =>
      w.walk descend (s.place pl).key ((s.place pl).cursor cur) text >>= finish (s.place pl).key :=
  (uniform_walk hdescend cur text).bind fun cur => uniform_finish cur

end

theorem uniform_scan {unit : SourceUnit}
    (hdescend : ∀ site inner, Uniform (.other unit.key) same fun _ =>
      descend (Placement.location ⟨unit.key, 0⟩ site) inner) :
    Uniform (.other unit.key) same fun _ => w.scan descend unit := by
  intro d
  -- the width of the last line is seen from the text, which is the same in all places
  exact uniform_read hdescend w { column := (d.under ⟨"", 0⟩).output.lineWidth }
    unit.text.toList d

/-- Weaving a unit that a directive stands for does the same wherever the text stands. The
unit is another one than the text's own, even if both have one key. -/
theorem uniform_below (w : Weaver σ) (s : Stance) (room : Nat) (site : Location)
    (unit : SourceUnit) :
    Uniform s same fun pl => w.below room ((s.place pl).location site) unit := by
  induction room generalizing s site unit with
  | zero => exact uniform_throw (.tooDeep site w.limit)
  | succ room ih =>
    have hunit : Uniform (.other unit.key) same fun _ => w.unitAt room unit := by
      rw [unitAt_eq_scan]
      exact uniform_scan (ih (.other unit.key))
    exact hunit.nested site

end Weaver

end ShaderWeave
