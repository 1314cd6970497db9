import ShaderWeave.Proofs.Failure
import ShaderWeave.Proofs.FaultChain

/-!
# The limit on nesting

The limit bounds how deep units are nested, and nothing else depends on it. So a
pass that is not stopped by its limit goes the same way under any higher limit, and
a pass that is stopped has done a first part of what it does under a higher one.
And a pass is stopped exactly when a unit at the greatest depth comes to a directive
that stands for a further unit.

## Main definitions

- `Weaver.withLimit`: the same weaver with another limit.
- `Fault.TooDeep`: a pass was stopped by its limit.
- `Weaver.Deepens`: an action goes on where another is stopped by its limit.
- `Weaver.Reaches`: the state in which a directive comes to its first unit.

## Main results

- `Weaver.deepens_unitAt`: more room makes a unit go on, and changes nothing else.
- `raised_limit_keeps_outcome`: the same for passes under two limits.
- `Weaver.weave_tooDeep_iff`: when a pass is stopped by its limit, and in which state.
- `depth_guard_exact`: the whole statement about the depth of a pass.
-/

namespace ShaderWeave

variable {σ α β : Type}

def Weaver.withLimit (w : Weaver σ) (limit : Nat) : Weaver σ :=
  { w with limit := limit }

@[simp]
theorem Weaver.supplier_withLimit (w : Weaver σ) (limit : Nat) :
    (w.withLimit limit).supplier = w.supplier := rfl

@[simp]
theorem Weaver.asked_withLimit (w : Weaver σ) (limit : Nat) :
    (w.withLimit limit).asked = w.asked := rfl

/-- Below all wrappers the fault is that units would be nested too deep. -/
def Fault.TooDeep (fault : Fault) : Prop :=
  ∃ site limit, fault.innermost = .tooDeep site limit

/-- Where `low` is not stopped by its limit, `high` does the same; and where `low` is
stopped, `high` does all that `low` has done, and possibly more. -/
def Weaver.Deepens (low high : WeaveM σ α) : Prop :=
  ∀ p, high.run p = low.run p ∨
    (∃ fault q, low.run p = .error fault q ∧ fault.TooDeep) ∧
      (low.leaves p).Extends (high.leaves p)

namespace Weaver

variable {w : Weaver σ}

/-! ## Actions in general -/

theorem deepens_refl (act : WeaveM σ α) : Deepens act act :=
  fun _ => Or.inl rfl

/-- An action that is stopped at once is outdone by every action. -/
theorem deepens_tooDeep (site : Location) (limit : Nat) {high : WeaveM σ α}
    (hhigh : w.Advances high) : Deepens (throw (.tooDeep site limit)) high :=
  fun p => Or.inr ⟨⟨_, p, rfl, site, limit, rfl⟩, (hhigh p).extends⟩

theorem leaves_extends_bind {act : WeaveM σ α} {next : α → WeaveM σ β}
    (hnext : ∀ a, w.Advances (next a)) (p : Pass σ) :
    (act.leaves p).Extends ((act >>= next).leaves p) := by
  simp only [WeaveM.leaves, EStateM.run_bind]
  cases act.run p with
  | error fault q => exact Pass.Extends.refl q
  | ok a q => exact (hnext a q).extends

theorem Deepens.bind {low high : WeaveM σ α} {next next' : α → WeaveM σ β}
    (h : Deepens low high) (hnext : ∀ a, Deepens (next a) (next' a))
    (hadvances : ∀ a, w.Advances (next' a)) : Deepens (low >>= next) (high >>= next') := by
  intro p
  rcases h p with hsame | ⟨⟨fault, q, hlow, hdeep⟩, hextends⟩
  · cases hrun : low.run p with
    | error fault q =>
      left
      simp only [EStateM.run_bind, hsame, hrun]
    | ok a q =>
      simp only [WeaveM.leaves, EStateM.run_bind, hsame, hrun]
      exact hnext a q
  · -- what follows is done by `high` only, and takes nothing back
    right
    have hstop : (low >>= next).run p = .error fault q :=
      WeaveM.run_bind_eq_error.mpr (Or.inl hlow)
    have hleaves : (low >>= next).leaves p = low.leaves p := by
      rw [WeaveM.leaves_of_error hstop, WeaveM.leaves_of_error hlow]
    refine ⟨⟨fault, q, hstop, hdeep⟩, ?_⟩
    rw [hleaves]
    exact hextends.trans (leaves_extends_bind hadvances p)

/-- What comes behind both actions alike makes no difference, if it takes nothing
back. -/
theorem Deepens.bind_left {low high : WeaveM σ α} (h : Deepens low high) {next : α → WeaveM σ β}
    (hadvances : ∀ a, w.Advances (next a)) : Deepens (low >>= next) (high >>= next) :=
  h.bind (fun a => deepens_refl (next a)) hadvances

/-- What comes in front of both actions alike makes no difference. -/
theorem deepens_bind_right (act : WeaveM σ α) {next next' : α → WeaveM σ β}
    (hnext : ∀ a, Deepens (next a) (next' a)) : Deepens (act >>= next) (act >>= next') := by
  intro p
  cases hrun : act.run p with
  | error fault q =>
    left
    simp only [EStateM.run_bind, hrun]
  | ok a q =>
    simp only [WeaveM.leaves, EStateM.run_bind, hrun]
    exact hnext a q

theorem Deepens.nested {low high : WeaveM σ α} (h : Deepens low high) (site : Location) :
    Deepens (low.adaptExcept (Fault.nested site)) (high.adaptExcept (Fault.nested site)) := by
  intro p
  have hleaves : ∀ act : WeaveM σ α,
      WeaveM.leaves (act.adaptExcept (Fault.nested site)) p = act.leaves p := by
    intro act
    simp only [WeaveM.leaves, EStateM.run_adaptExcept]
    cases act.run p <;> rfl
  rcases h p with hsame | ⟨⟨fault, q, hlow, hdeep⟩, hextends⟩
  · left
    simp only [EStateM.run_adaptExcept, hsame]
  · right
    rw [hleaves, hleaves]
    refine ⟨⟨.nested site fault, q, ?_, hdeep⟩, hextends⟩
    simp only [EStateM.run_adaptExcept, hlow]

/-! ## Scans -/

section

variable {low high : Location → SourceUnit → WeaveM σ Unit}
  (hdeep : ∀ site unit, Deepens (low site unit) (high site unit))
  (hhigh : ∀ site unit, w.Advances (high site unit))
include hdeep

theorem deepens_expandInclusion (site : Location) (path : Option String) :
    Deepens (w.expandInclusion low site path) (w.expandInclusion high site path) := by
  cases path with
  | none => exact deepens_refl _
  | some path =>
    refine deepens_bind_right _ fun reply => ?_
    cases reply with
    | failed cause => exact deepens_refl _
    | repeated => exact deepens_refl _
    | fresh inner =>
      refine deepens_bind_right _ fun _ => ?_
      exact (hdeep site inner).bind_left fun _ => w.advances_pure true

include hhigh

theorem deepens_inject (site : Location) (column : Nat) (segments : List Segment) :
    Deepens (inject low site column segments) (inject high site column segments) := by
  cases segments with
  | nil => exact deepens_refl _
  | cons first others =>
    have hnext : ∀ s : Segment, w.Advances (do
        separate site column
        high site (s.unit column)) :=
      fun s => (advances_separate site column).bind fun _ => hhigh site _
    refine (hdeep site _).bind (fun _ => ?_) fun _ => advances_forM hnext
    induction others with
    | nil => exact deepens_refl _
    | cons s others ih =>
      have hs := deepens_bind_right (separate site column) fun _ => hdeep site (s.unit column)
      exact hs.bind (fun _ => ih) fun _ => advances_forM hnext

theorem deepens_expand (key : String) (cur : Cursor) (d : Directive) :
    Deepens (w.expand low key cur d) (w.expand high key cur d) := by
  cases d with
  | inclusion path =>
    have hinclusion := deepens_expandInclusion (w := w) hdeep ⟨key, cur.line + 1⟩ path
    exact hinclusion.bind_left fun _ => w.advances_pure _
  | placeholder name =>
    have hinject :=
      deepens_inject hdeep hhigh ⟨key, cur.line + 1⟩ cur.column (w.plan.segmentsFor name)
    have hplaceholder : Deepens
        (w.expandPlaceholder low ⟨key, cur.line + 1⟩ cur.column name)
        (w.expandPlaceholder high ⟨key, cur.line + 1⟩ cur.column name) :=
      hinject.bind_left fun _ => w.advances_report _
    exact hplaceholder.bind_left fun _ => w.advances_pure _

theorem deepens_walk (key : String) (cur : Cursor) (text : List Char) :
    Deepens (w.walk low key cur text) (w.walk high key cur text) := by
  induction text generalizing cur with
  | nil => exact deepens_refl _
  | cons c rest ih =>
    have hstep : Deepens (w.step low key cur c rest) (w.step high key cur c rest) := by
      unfold step
      split
      · exact deepens_refl _
      · split
        · exact deepens_expand hdeep hhigh key cur _
        · exact deepens_refl _
      · exact deepens_refl _
    exact hstep.bind ih fun cur' => advances_walk hhigh key cur' rest

theorem deepens_scan (unit : SourceUnit) : Deepens (w.scan low unit) (w.scan high unit) := by
  refine deepens_bind_right _ fun p => ?_
  have hwalk := deepens_walk hdeep hhigh unit.key { column := p.output.lineWidth } unit.text.toList
  exact hwalk.bind_left fun cur => w.advances_finish unit.key cur

end

/-! ## The limit alone -/

theorem expand_withLimit (limit : Nat) (descend : Location → SourceUnit → WeaveM σ Unit)
    (key : String) (cur : Cursor) (d : Directive) :
    (w.withLimit limit).expand descend key cur d = w.expand descend key cur d := by
  cases d with
  | inclusion path => cases path <;> rfl
  | placeholder name => rfl

theorem walk_withLimit (limit : Nat) (descend : Location → SourceUnit → WeaveM σ Unit)
    (key : String) (cur : Cursor) (text : List Char) :
    (w.withLimit limit).walk descend key cur text = w.walk descend key cur text := by
  induction text generalizing cur with
  | nil => rfl
  | cons c rest ih =>
    have hplan : (w.withLimit limit).plan = w.plan := rfl
    simp only [walk, step, hplan, expand_withLimit, ih]

/-- The limit has no part in reading one unit. -/
theorem scan_withLimit (limit : Nat) (descend : Location → SourceUnit → WeaveM σ Unit)
    (unit : SourceUnit) :
    (w.withLimit limit).scan descend unit = w.scan descend unit := by
  simp only [scan, walk_withLimit]

/-- With more room a unit does the same, or goes on where it was stopped. -/
theorem deepens_unitAt (w : Weaver σ) (m n : Nat) {room room' : Nat} (hroom : room ≤ room')
    (unit : SourceUnit) :
    Deepens ((w.withLimit m).unitAt room unit) ((w.withLimit n).unitAt room' unit) := by
  induction room generalizing room' unit with
  | zero =>
    rw [unitAt_eq_scan, unitAt_eq_scan, scan_withLimit m, ← scan_withLimit n]
    have hhigh := (w.withLimit n).advances_below room'
    exact deepens_scan (fun site inner => deepens_tooDeep site m (hhigh site inner)) hhigh unit
  | succ room ih =>
    obtain ⟨room', rfl⟩ : ∃ k, room' = k + 1 := ⟨room' - 1, by omega⟩
    rw [unitAt_eq_scan, unitAt_eq_scan, scan_withLimit m, ← scan_withLimit n]
    have hhigh := (w.withLimit n).advances_below (room' + 1)
    exact deepens_scan (fun site inner => (ih (by omega) inner).nested site) hhigh unit

end Weaver

/-- Under a higher limit a pass, whatever it begins with, comes to the same result in
the same state, unless the lower limit stops it. If the lower limit stops it, all
that it has written, recorded and asked for until then comes first under the higher
limit too. -/
theorem raised_limit_keeps_outcome (w : Weaver σ) {m n : Nat} (hmn : m ≤ n) (unit : SourceUnit)
    (p : Pass σ) :
    let low := (w.withLimit m).append unit
    let high := (w.withLimit n).append unit
    ((∀ fault q, low.run p = .error fault q → ¬ fault.TooDeep) → high.run p = low.run p) ∧
    ∀ fault q, low.run p = .error fault q → fault.TooDeep → q.Extends (high.leaves p) := by
  intro low high
  have hdeepens : Weaver.Deepens low high := Weaver.deepens_unitAt w m n hmn unit
  constructor
  · intro hfree
    rcases hdeepens p with hsame | ⟨⟨fault, q, hlow, hdeep⟩, -⟩
    · exact hsame
    · exact absurd hdeep (hfree fault q hlow)
  · intro fault q hlow _
    rw [← WeaveM.leaves_of_error hlow]
    rcases hdeepens p with hsame | ⟨-, hextends⟩
    · have hsameLeaves : high.leaves p = low.leaves p := by
        simp only [WeaveM.leaves, hsame]
      rw [hsameLeaves]
      exact Pass.Extends.refl _
    · exact hextends

/-- One level of units is not enough for the sample, two are, and more change
nothing. -/
theorem raised_limit_keeps_outcome_sample :
    ((Sample.reader.withLimit 5).append Sample.listed).run { stock := Sample.shelf } =
        ((Sample.reader.withLimit 2).append Sample.listed).run { stock := Sample.shelf } ∧
    ∃ q, ((Sample.reader.withLimit 1).append Sample.listed).run { stock := Sample.shelf } =
        .error (.nested ⟨"main", 8⟩ (.tooDeep ⟨"deep", 2⟩ 1)) q ∧
      q.Extends
        (((Sample.reader.withLimit 2).append Sample.listed).leaves { stock := Sample.shelf }) := by
  have hlost : ∃ q, ((Sample.reader.withLimit 2).append Sample.listed).run
      { stock := Sample.shelf } = .error Sample.lost q := by decide +kernel
  have hdeep : ∃ q, ((Sample.reader.withLimit 1).append Sample.listed).run
      { stock := Sample.shelf } = .error (.nested ⟨"main", 8⟩ (.tooDeep ⟨"deep", 2⟩ 1)) q := by
    decide +kernel
  constructor
  · apply (raised_limit_keeps_outcome Sample.reader (by decide) Sample.listed _).1
    intro fault q h
    obtain ⟨q', hlost⟩ := hlost
    rw [hlost] at h
    cases h
    rintro ⟨site, limit, hinnermost⟩
    cases hinnermost
  · obtain ⟨q, hdeep⟩ := hdeep
    refine ⟨q, hdeep, ?_⟩
    exact (raised_limit_keeps_outcome Sample.reader (by decide) Sample.listed _).2 _ q hdeep
      ⟨_, _, rfl⟩

/-! ## How deep a pass goes -/

namespace Weaver

variable {w : Weaver σ} {unit : SourceUnit} {stock : σ} {sites : List Location} {v : Visit σ}

/-- The room that is left for a unit tells how many directives lead to it. -/
theorem Leads.length_add_room (h : w.Leads (w.root unit stock) sites v) :
    sites.length + v.room = w.limit := by
  have hroom : w.limit = v.room + sites.length := h.room_eq
  omega

/-! ### The first unit of a directive -/

/-- The directive at `site`, which the scan acts on in the state `p`, comes to its first unit
in the state given last. By then a path has been requested, and the event told that its text
follows. For a placeholder nothing has been done. -/
def Reaches (w : Weaver σ) (site : Location) (p : Pass σ) : Directive → Pass σ → Prop
  | .inclusion none, _ => False
  | .inclusion (some path), q => ∃ inner, (w.supplier.request p.stock path).1 = .fresh inner ∧
      q = (w.asked p path).told (.expanding site path inner.key)
  | .placeholder _, q => q = p

section Reaching

variable {site : Location} {key : String} {cur : Cursor} {d : Directive} {p q : Pass σ}

theorem Reaches.nests (h : w.Reaches site p d q) : w.Nests p d := by
  match d with
  | .inclusion none => exact h
  | .inclusion (some path) =>
    obtain ⟨inner, hreply, -⟩ := h
    exact ⟨inner, hreply⟩
  | .placeholder name => trivial

theorem Nests.exists_reaches (h : w.Nests p d) (site : Location) :
    ∃ q, w.Reaches site p d q := by
  match d with
  | .inclusion none => exact h.elim
  | .inclusion (some path) =>
    obtain ⟨inner, hreply⟩ := h
    exact ⟨_, inner, hreply, rfl⟩
  | .placeholder name => exact ⟨p, rfl⟩

/-- Without room no segment can be woven, so none stands in front of another that is handed
on. -/
theorem leadIn_below_zero {column : Nat} {front : List Segment}
    (h : (leadIn (w.below 0) site column front).run p = .ok () q) : front = [] := by
  cases front with
  | nil => rfl
  | cons s front =>
    rw [leadIn, if_neg (List.cons_ne_nil s front)] at h
    obtain ⟨_, _, hinject, -⟩ := WeaveM.run_bind_eq_ok.mp h
    obtain ⟨_, _, hfirst, -⟩ := WeaveM.run_bind_eq_ok.mp hinject
    obtain ⟨room, hroom, -⟩ := below_eq_ok.mp hfirst
    cases hroom

/-- So without room a directive hands on its first unit only. -/
theorem HandsOn.reaches {inner : SourceUnit} (h : w.HandsOn (w.below 0) key cur p d inner q) :
    w.Reaches ⟨key, cur.line + 1⟩ p d q := by
  cases h with
  | inclusion hreply => exact ⟨inner, hreply, rfl⟩
  | placeholder hsegments hbegun =>
    obtain rfl := leadIn_below_zero hbegun
    cases hbegun
    rfl

/-- A directive that comes to a unit hands it on: a registered placeholder has a segment. -/
theorem Reaches.exists_handsOn {text : List Char} (h : w.Reaches ⟨key, cur.line + 1⟩ p d q)
    (hread : Directive.read? w.plan text = some d) :
    ∃ inner, w.HandsOn (w.below 0) key cur p d inner q := by
  match d with
  | .inclusion none => exact h.elim
  | .inclusion (some path) =>
    obtain ⟨inner, hreply, rfl⟩ := h
    exact ⟨inner, .inclusion hreply⟩
  | .placeholder name =>
    obtain rfl : q = p := h
    obtain ⟨s, others, hsegments⟩ := List.exists_cons_of_ne_nil (segmentsFor_ne_nil hread)
    have hfirst : (leadIn (w.below 0) ⟨key, cur.line + 1⟩ cur.column []).run q = .ok () q := rfl
    exact ⟨_, .placeholder hsegments hfirst⟩

end Reaching

/-! ### The guard -/

/-- A pass that its limit stops has come to the greatest depth, and to a directive there
that stands for a unit. It is left in the state in which the directive comes to the unit. -/
theorem exists_of_tooDeep {fault : Fault} {pass : Pass σ} {site : Location} {limit : Nat}
    (h : w.weave unit stock = .error fault pass) (hdeep : fault.innermost = .tooDeep site limit) :
    limit = w.limit ∧ fault.trail.length = w.limit ∧
      ∃ v j d cur p, w.Leads (w.root unit stock) fault.trail v ∧ v.Acts w j d cur p ∧
        site = ⟨v.unit.key, j + 1⟩ ∧ w.Reaches site p d pass := by
  obtain ⟨v, hleads, hraises⟩ := (weave_eq_error_iff.mp h).exists_leads
  have hlimit := hleads.length_add_room
  rw [hdeep] at hraises
  cases hraises with
  | tooDeep _ hacts hhands hroom =>
    refine ⟨rfl, by omega, v, _, _, _, _, hleads, hacts, rfl, ?_⟩
    rw [hroom] at hhands
    rw [← hacts.line_eq]
    exact hhands.reaches

/-- At the greatest depth, a directive that stands for a unit stops the pass where it comes to
the unit. -/
theorem Leads.stopped {j : Nat} {d : Directive} {cur : Cursor} {p q : Pass σ}
    (h : w.Leads (w.root unit stock) sites v) (hdepth : sites.length = w.limit)
    (hacts : v.Acts w j d cur p) (hreaches : w.Reaches ⟨v.unit.key, j + 1⟩ p d q) :
    w.weave unit stock = .error (sites.foldr .nested (.tooDeep ⟨v.unit.key, j + 1⟩ w.limit)) q := by
  have hroom : v.room = 0 := by
    have hlimit := h.length_add_room
    omega
  obtain ⟨-, c, rest, -, hactsOn⟩ := hacts.exists_stands
  obtain ⟨-, -, hread⟩ := actsOn?_eq_some_iff.mp hactsOn
  obtain rfl := hacts.line_eq
  obtain ⟨inner, hhands⟩ := hreaches.exists_handsOn hread
  rw [← hroom] at hhands
  have hbelow : (w.below v.room ⟨v.unit.key, cur.line + 1⟩ inner).run q =
      .error (.tooDeep ⟨v.unit.key, cur.line + 1⟩ w.limit) q :=
    below_eq_error_iff.mpr (Or.inl ⟨hroom, rfl, rfl⟩)
  have hfails : v.Fails w (.tooDeep ⟨v.unit.key, cur.line + 1⟩ w.limit) q :=
    hacts.fails (expand_eq_error_iff.mpr (Or.inr (Or.inr ⟨inner, q, hhands, hbelow⟩)))
  exact weave_eq_error_iff.mpr (h.fails hfails)

theorem weave_tooDeep_iff {fault : Fault} {pass : Pass σ} :
    w.weave unit stock = .error fault pass ∧ fault.TooDeep ↔
      ∃ sites v j d cur p, w.Leads (w.root unit stock) sites v ∧ sites.length = w.limit ∧
        v.Acts w j d cur p ∧ w.Reaches ⟨v.unit.key, j + 1⟩ p d pass ∧
        fault = sites.foldr .nested (.tooDeep ⟨v.unit.key, j + 1⟩ w.limit) := by
  constructor
  · rintro ⟨h, site, limit, hdeep⟩
    obtain ⟨rfl, hlength, v, j, d, cur, p, hleads, hacts, rfl, hreaches⟩ :=
      exists_of_tooDeep h hdeep
    refine ⟨fault.trail, v, j, d, cur, p, hleads, hlength, hacts, hreaches, ?_⟩
    rw [← hdeep, fault.foldr_nested_trail]
  · rintro ⟨sites, v, j, d, cur, p, hleads, hdepth, hacts, hreaches, rfl⟩
    refine ⟨hleads.stopped hdepth hacts hreaches, ⟨v.unit.key, j + 1⟩, w.limit, ?_⟩
    rw [Fault.innermost_foldr_nested]
    rfl

end Weaver

/-- Units are nested as deep as the limit allows, and no deeper. No fault has a longer
trail than the limit, and the fault that units would be nested too deep has the
limit for the length of its trail. A pass stops with this fault just if the scan of
a unit at the greatest depth comes to a directive that stands for a further unit. Then
nothing is done for the further unit: the pass is left in the state in which the
directive comes to it, with the path of an inclusion as the last request, and the fault
names the directive and, as its trail, those that led to it. -/
theorem depth_guard_exact (w : Weaver σ) (unit : SourceUnit) (stock : σ) :
    (∀ fault pass, w.weave unit stock = .error fault pass →
      fault.trail.length ≤ w.limit ∧
        ∀ site limit, fault.innermost = .tooDeep site limit →
          limit = w.limit ∧ fault.trail.length = w.limit) ∧
    (∀ v, w.Visited (w.root unit stock) v →
      (∃ sites, w.Leads (w.root unit stock) sites v) ∧
        ∀ sites, w.Leads (w.root unit stock) sites v → sites.length ≤ w.limit) ∧
    ((∃ fault pass, w.weave unit stock = .error fault pass ∧ fault.TooDeep) ↔
      ∃ sites v j d cur p, w.Leads (w.root unit stock) sites v ∧ sites.length = w.limit ∧
        v.Acts w j d cur p ∧ w.Nests p d) ∧
    ∀ fault pass, w.weave unit stock = .error fault pass ∧ fault.TooDeep ↔
      ∃ sites v j d cur p, w.Leads (w.root unit stock) sites v ∧ sites.length = w.limit ∧
        v.Acts w j d cur p ∧ w.Reaches ⟨v.unit.key, j + 1⟩ p d pass ∧
        fault = sites.foldr .nested (.tooDeep ⟨v.unit.key, j + 1⟩ w.limit) := by
  refine ⟨?_, ?_, ?_, fun fault pass => Weaver.weave_tooDeep_iff⟩
  · intro fault pass h
    obtain ⟨v, hleads, -⟩ := (Weaver.weave_eq_error_iff.mp h).exists_leads
    have hlimit := hleads.length_add_room
    refine ⟨by omega, fun site limit hdeep => ?_⟩
    obtain ⟨hfield, hlength, -⟩ := Weaver.exists_of_tooDeep h hdeep
    exact ⟨hfield, hlength⟩
  · intro v h
    refine ⟨h.exists_leads, fun sites hleads => ?_⟩
    have hlimit := hleads.length_add_room
    omega
  · constructor
    · rintro ⟨fault, pass, h⟩
      obtain ⟨sites, v, j, d, cur, p, hleads, hdepth, hacts, hreaches, -⟩ :=
        Weaver.weave_tooDeep_iff.mp h
      exact ⟨sites, v, j, d, cur, p, hleads, hdepth, hacts, hreaches.nests⟩
    · rintro ⟨sites, v, j, d, cur, p, hleads, hdepth, hacts, hnests⟩
      obtain ⟨q, hreaches⟩ := hnests.exists_reaches ⟨v.unit.key, j + 1⟩
      exact ⟨_, q, Weaver.weave_tooDeep_iff.mpr
        ⟨sites, v, j, d, cur, p, hleads, hdepth, hacts, hreaches, rfl⟩⟩

namespace Sample

/-- Whatever is asked for includes a further unit. -/
def endless : Weaver Unit where
  supplier := ⟨fun _ path => (.fresh ⟨path, "x;\n #include \"a\""⟩, ())⟩
  limit := 2

end Sample

/-- The unit at the greatest depth has asked for the path once more, and nothing of what it got
has been written. -/
theorem depth_guard_exact_sample :
    ∃ pass, Sample.endless.weave ⟨"main", "#include \"a\""⟩ () =
        .error (.nested ⟨"main", 1⟩ (.nested ⟨"a", 2⟩ (.tooDeep ⟨"a", 2⟩ 2))) pass ∧
      pass.requests = #["a", "a", "a"] ∧ pass.output.text = "x;\n x;\n " ∧
      ∃ sites v j d cur p,
        Sample.endless.Leads (Sample.endless.root ⟨"main", "#include \"a\""⟩ ()) sites v ∧
          sites.length = 2 ∧ v.Acts Sample.endless j d cur p ∧
          Sample.endless.Reaches ⟨v.unit.key, j + 1⟩ p d pass := by
  have hdeep : ∃ pass, Sample.endless.weave ⟨"main", "#include \"a\""⟩ () =
      .error (.nested ⟨"main", 1⟩ (.nested ⟨"a", 2⟩ (.tooDeep ⟨"a", 2⟩ 2))) pass := by
    decide +kernel
  have hleft : ((Sample.endless.entry ⟨"main", "#include \"a\""⟩).leaves
        { stock := () }).requests = #["a", "a", "a"] ∧
      ((Sample.endless.entry ⟨"main", "#include \"a\""⟩).leaves
        { stock := () }).output.text = "x;\n x;\n " := by
    decide +kernel
  obtain ⟨pass, hdeep⟩ := hdeep
  rw [WeaveM.leaves_of_error hdeep] at hleft
  obtain ⟨hrequests, htext⟩ := hleft
  obtain ⟨-, -, -, hexact⟩ := depth_guard_exact Sample.endless ⟨"main", "#include \"a\""⟩ ()
  obtain ⟨sites, v, j, d, cur, p, hleads, hdepth, hacts, hreaches, -⟩ :=
    (hexact _ pass).mp ⟨hdeep, _, _, rfl⟩
  exact ⟨pass, hdeep, hrequests, htext, sites, v, j, d, cur, p, hleads, hdepth, hacts, hreaches⟩

end ShaderWeave
