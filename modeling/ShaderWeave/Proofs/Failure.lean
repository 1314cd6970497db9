import ShaderWeave.Proofs.Growth
import ShaderWeave.Proofs.Recognition

/-!
# Where a pass fails

A scan that fails has a fault of its own, at a directive or at the end of its unit,
or it passes on the fault of a unit that one of its directives stands for. So the
trail of a fault leads from the entry unit down to the unit in which the fault
arose, and the innermost fault names the place in that unit.

## Main definitions

- `Weaver.HandsOn`: the units that an expansion hands on to be woven.
- `Weaver.Nests`: a directive stands for a unit.
- `Visit.Raises`: the faults of a scan itself.
- `Weaver.Leads`: the way from one visit to another, directive by directive.

## Main results

- `Weaver.expand_eq_error_iff`: how an expansion fails.
- `Visit.Fails.raises_or_nested`: how a scan fails.
- `Weaver.Leads.fails`: a fault is passed on all the way up.
- `fault_located`: the trail and the place of every fault.
-/

namespace ShaderWeave

variable {σ α β : Type}

/-- An action followed by another fails just if one of them does, the second behind a
success of the first. -/
theorem WeaveM.run_bind_eq_error {act : WeaveM σ α} {next : α → WeaveM σ β} {p q : Pass σ}
    {fault : Fault} :
    (act >>= next).run p = .error fault q ↔
      act.run p = .error fault q ∨
        ∃ a p', act.run p = .ok a p' ∧ (next a).run p' = .error fault q := by
  rw [EStateM.run_bind]
  cases hrun : act.run p with
  | error fault' q' => simp
  | ok a p' =>
    constructor
    · intro h
      exact Or.inr ⟨a, p', rfl, h⟩
    · rintro (h | ⟨_, _, ⟨rfl, rfl⟩, h⟩)
      · cases h
      · exact h

namespace Weaver

variable {w : Weaver σ} {descend : Location → SourceUnit → WeaveM σ Unit} {key : String}
  {cur : Cursor} {d : Directive} {p p' q : Pass σ} {fault : Fault} {room : Nat}

/-- The expansion of a directive, if it begins at `cur` in the state `p`, comes to
hand on a unit to `descend`, and does so in the state given last. -/
inductive HandsOn (w : Weaver σ) (descend : Location → SourceUnit → WeaveM σ Unit) (key : String)
    (cur : Cursor) (p : Pass σ) : Directive → SourceUnit → Pass σ → Prop where
  /-- The supplier hands out a unit for the path. -/
  | inclusion {path : String} {inner : SourceUnit}
    (reply : (w.supplier.request p.stock path).1 = .fresh inner) :
    HandsOn w descend key cur p (.inclusion (some path)) inner
      ((w.asked p path).told (.expanding ⟨key, cur.line + 1⟩ path inner.key))
  /-- All segments in front of this one have been woven. -/
  | placeholder {name : String} {front others : List Segment} {s : Segment} {p' : Pass σ}
    (segments_eq : w.plan.segmentsFor name = front ++ s :: others)
    (begun : (leadIn descend ⟨key, cur.line + 1⟩ cur.column front).run p = .ok () p') :
    HandsOn w descend key cur p (.placeholder name) (s.unit cur.column) p'

/-- The directive stands for a unit: a placeholder does, and so does an inclusion for
which the supplier hands out a unit. -/
def Nests (w : Weaver σ) (p : Pass σ) : Directive → Prop
  | .inclusion none => False
  | .inclusion (some path) => ∃ inner, (w.supplier.request p.stock path).1 = .fresh inner
  | .placeholder _ => True

/-- A directive leads to the visits of the units that its expansion hands on, if there
is room for them. -/
theorem calls_iff {u : Visit σ} :
    w.Calls room key cur p d u ↔
      room = u.room + 1 ∧ w.HandsOn (w.below room) key cur p d u.unit u.pass := by
  constructor
  · intro h
    cases h with
    | inclusion hroom hreply => exact ⟨hroom, .inclusion hreply⟩
    | placeholder hstarts =>
      obtain ⟨hroom, hsegments, hbegun⟩ := hstarts
      exact ⟨hroom, .placeholder hsegments hbegun⟩
  · rintro ⟨hroom, h⟩
    obtain ⟨room', inner, q⟩ := u
    replace h : w.HandsOn (w.below room) key cur p d inner q := h
    cases h with
    | inclusion hreply => exact .inclusion hroom hreply
    | placeholder hsegments hbegun => exact .placeholder (.intro hroom hsegments hbegun)

/-! ## Expansions -/

theorem run_separate (site : Location) (column : Nat) (p : Pass σ) :
    ∃ q, (separate site column).run p = .ok () q :=
  ⟨_, rfl⟩

/-- Segments fail at one of them, behind others that have been woven. -/
theorem inject_eq_error_iff {site : Location} {column : Nat} {segments : List Segment} :
    (inject descend site column segments).run p = .error fault q ↔
      ∃ front s others p', segments = front ++ s :: others ∧
        (leadIn descend site column front).run p = .ok () p' ∧
        (descend site (s.unit column)).run p' = .error fault q := by
  constructor
  · intro h
    induction segments using List.reverseRecOn with
    | nil => cases h
    | append_singleton segments x ih =>
      rw [inject_append, WeaveM.run_bind_eq_error] at h
      rcases h with hlead | ⟨_, p', hlead, hx⟩
      · -- room can always be made, so a segment further in front has failed
        by_cases hnil : segments = []
        · subst hnil
          cases hlead
        · rw [leadIn, if_neg hnil, WeaveM.run_bind_eq_error] at hlead
          rcases hlead with hinject | ⟨_, p₁, -, hseparate⟩
          · obtain ⟨front, s, others, p', hsplit, hbegun, hfails⟩ := ih hinject
            exact ⟨front, s, others ++ [x], p', by simp [hsplit], hbegun, hfails⟩
          · obtain ⟨q₁, hok⟩ := run_separate site column p₁
            rw [hok] at hseparate
            cases hseparate
      · rcases WeaveM.run_bind_eq_error.mp hx with hfails | ⟨_, _, -, hnone⟩
        · exact ⟨segments, x, [], p', rfl, hlead, hfails⟩
        · cases hnone
  · rintro ⟨front, s, others, p', rfl, hbegun, hfails⟩
    rw [inject_append]
    refine WeaveM.run_bind_eq_error.mpr (Or.inr ⟨(), p', hbegun, ?_⟩)
    exact WeaveM.run_bind_eq_error.mpr (Or.inl hfails)

theorem run_expand_inclusion (path : String) :
    (w.expand descend key cur (.inclusion (some path))).run p =
      match (w.supplier.request p.stock path).1 with
      | .failed cause => .error (.unresolved path ⟨key, cur.line + 1⟩ cause) (w.asked p path)
      | .repeated =>
        .ok { cur with mode := .directive false, line := cur.line + 1 }
          ((w.asked p path).told (.skipped ⟨key, cur.line + 1⟩ path))
      | .fresh inner =>
        match (descend ⟨key, cur.line + 1⟩ inner).run
          ((w.asked p path).told (.expanding ⟨key, cur.line + 1⟩ path inner.key)) with
        | .ok _ q => .ok { cur with mode := .directive true, line := cur.line + 1 } q
        | .error fault q => .error fault q := by
  have hask : (WeaveM.request w.supplier path).run p =
      .ok (w.supplier.request p.stock path).1 (w.asked p path) := rfl
  simp only [expand, expandInclusion, EStateM.run_bind, hask]
  cases (w.supplier.request p.stock path).1 with
  | failed cause => rfl
  | repeated => rfl
  | fresh inner =>
    simp only [EStateM.run_bind]
    have htold : (WeaveM.report (.expanding ⟨key, cur.line + 1⟩ path inner.key)).run
        (w.asked p path) =
      .ok () ((w.asked p path).told (.expanding ⟨key, cur.line + 1⟩ path inner.key)) := rfl
    simp only [htold]
    cases (descend ⟨key, cur.line + 1⟩ inner).run
      ((w.asked p path).told (.expanding ⟨key, cur.line + 1⟩ path inner.key)) <;> rfl

theorem run_expand_placeholder (name : String) :
    (w.expand descend key cur (.placeholder name)).run p =
      match (inject descend ⟨key, cur.line + 1⟩ cur.column (w.plan.segmentsFor name)).run p with
      | .ok _ q =>
        .ok { cur with mode := .directive true, line := cur.line + 1 }
          (q.told (.injected ⟨key, cur.line + 1⟩ name (w.plan.segmentsFor name).length))
      | .error fault q => .error fault q := by
  simp only [expand, expandPlaceholder, EStateM.run_bind]
  cases (inject descend ⟨key, cur.line + 1⟩ cur.column (w.plan.segmentsFor name)).run p <;> rfl

/-- An expansion fails if the line quotes no path, if the supplier fails, or if a unit
that is handed on fails. -/
theorem expand_eq_error_iff :
    (w.expand descend key cur d).run p = .error fault q ↔
      (d = .inclusion none ∧ fault = .malformedInclusion ⟨key, cur.line + 1⟩ ∧ q = p) ∨
      (∃ path cause, d = .inclusion (some path) ∧
        (w.supplier.request p.stock path).1 = .failed cause ∧
        fault = .unresolved path ⟨key, cur.line + 1⟩ cause ∧ q = w.asked p path) ∨
      ∃ inner p', w.HandsOn descend key cur p d inner p' ∧
        (descend ⟨key, cur.line + 1⟩ inner).run p' = .error fault q := by
  constructor
  · intro h
    match d with
    | .inclusion none =>
      cases h
      exact Or.inl ⟨rfl, rfl, rfl⟩
    | .inclusion (some path) =>
      rw [run_expand_inclusion] at h
      cases hreply : (w.supplier.request p.stock path).1 with
      | failed cause =>
        rw [hreply] at h
        cases h
        exact Or.inr (Or.inl ⟨path, cause, rfl, hreply, rfl, rfl⟩)
      | repeated =>
        rw [hreply] at h
        cases h
      | fresh inner =>
        simp only [hreply] at h
        cases hrun : (descend ⟨key, cur.line + 1⟩ inner).run
            ((w.asked p path).told (.expanding ⟨key, cur.line + 1⟩ path inner.key)) with
        | ok _ q' =>
          rw [hrun] at h
          cases h
        | error fault' q' =>
          rw [hrun] at h
          cases h
          exact Or.inr (Or.inr ⟨inner, _, .inclusion hreply, hrun⟩)
    | .placeholder name =>
      rw [run_expand_placeholder] at h
      cases hrun : (inject descend ⟨key, cur.line + 1⟩ cur.column
          (w.plan.segmentsFor name)).run p with
      | ok _ q' =>
        rw [hrun] at h
        cases h
      | error fault' q' =>
        rw [hrun] at h
        cases h
        obtain ⟨front, s, others, p', hsegments, hbegun, hfails⟩ := inject_eq_error_iff.mp hrun
        exact Or.inr (Or.inr ⟨_, p', .placeholder hsegments hbegun, hfails⟩)
  · rintro (⟨rfl, rfl, rfl⟩ | ⟨path, cause, rfl, hreply, rfl, rfl⟩ | ⟨inner, p', hhands, hfails⟩)
    · rfl
    · simp only [run_expand_inclusion, hreply]
    · cases hhands with
      | inclusion hreply => simp only [run_expand_inclusion, hreply, hfails]
      | placeholder hsegments hbegun =>
        have hinject := inject_eq_error_iff.mpr ⟨_, _, _, p', hsegments, hbegun, hfails⟩
        rw [run_expand_placeholder, hinject]

theorem below_eq_error_iff {site : Location} {inner : SourceUnit} :
    (w.below room site inner).run p = .error fault q ↔
      (room = 0 ∧ fault = .tooDeep site w.limit ∧ q = p) ∨
      ∃ room' fault', room = room' + 1 ∧ (⟨room', inner, p⟩ : Visit σ).Fails w fault' q ∧
        fault = .nested site fault' := by
  cases room with
  | zero =>
    constructor
    · intro h
      cases h
      exact Or.inl ⟨rfl, rfl, rfl⟩
    · rintro (⟨-, rfl, rfl⟩ | ⟨room', fault', hroom, -, -⟩)
      · rfl
      · cases hroom
  | succ room =>
    rw [below, EStateM.run_adaptExcept]
    cases hrun : (w.unitAt room inner).run p with
    | ok _ q' =>
      constructor
      · intro h
        cases h
      · rintro (⟨hroom, -, -⟩ | ⟨room', fault', hroom, hfails, -⟩)
        · cases hroom
        · cases hroom
          rw [Visit.Fails, hrun] at hfails
          cases hfails
    | error fault' q' =>
      constructor
      · intro h
        cases h
        exact Or.inr ⟨room, fault', rfl, hrun, rfl⟩
      · rintro (⟨hroom, -, -⟩ | ⟨room', fault'', hroom, hfails, rfl⟩)
        · cases hroom
        · cases hroom
          rw [Visit.Fails, hrun] at hfails
          cases hfails
          rfl

end Weaver

/-! ## Scans -/

namespace Visit

variable {v u : Visit σ} {w : Weaver σ} {p q : Pass σ} {fault : Fault}

/-- The scan raises the fault itself, and leaves the pass in the state `q`. -/
inductive Raises (v : Visit σ) (w : Weaver σ) (q : Pass σ) : Fault → Prop where
  /-- The scan acts on an inclusion that quotes no path. -/
  | malformed {j : Nat} {cur : Cursor}
    (line : Line.directiveAt? w.plan v.text j = some (.inclusion none))
    (acts : v.Acts w j (.inclusion none) cur q) :
    Raises v w q (.malformedInclusion ⟨v.unit.key, j + 1⟩)
  /-- The scan acts on an inclusion, and the supplier fails to reply to it. -/
  | unresolved {j : Nat} {path : String} {cause : Cause} {cur : Cursor} {p : Pass σ}
    (line : Line.directiveAt? w.plan v.text j = some (.inclusion (some path)))
    (acts : v.Acts w j (.inclusion (some path)) cur p)
    (reply : (w.supplier.request p.stock path).1 = .failed cause) (left : q = w.asked p path) :
    Raises v w q (.unresolved path ⟨v.unit.key, j + 1⟩ cause)
  /-- The scan acts on a directive that stands for a unit, and there is no room. -/
  | tooDeep {j : Nat} {d : Directive} {cur : Cursor} {p : Pass σ} {inner : SourceUnit}
    (line : Line.directiveAt? w.plan v.text j = some d) (acts : v.Acts w j d cur p)
    (hands : w.HandsOn (w.below v.room) v.unit.key cur p d inner q) (room : v.room = 0) :
    Raises v w q (.tooDeep ⟨v.unit.key, j + 1⟩ w.limit)
  /-- The scan comes to the end of the unit inside a block comment. -/
  | unterminated {cur : Cursor} {point : CommentPoint}
    (commented : Line.commentedAt w.plan v.text (Text.lines v.text).length = true)
    (stands : v.Stands w v.text [] cur q) (mode : cur.mode = .blockComment point) :
    Raises v w q (.unterminated v.unit.key point)

/-- The directive that the scan acts on leads to the visit `u`, if `j` is its line. -/
def LeadsTo (v : Visit σ) (w : Weaver σ) (j : Nat) (u : Visit σ) : Prop :=
  ∃ d cur p, Line.directiveAt? w.plan v.text j = some d ∧ v.Acts w j d cur p ∧
    w.Calls v.room v.unit.key cur p d u

theorem LeadsTo.room_eq {j : Nat} (h : v.LeadsTo w j u) : v.room = u.room + 1 := by
  obtain ⟨d, cur, p, -, -, hcalls⟩ := h
  exact (Weaver.calls_iff.mp hcalls).1

theorem Enters.leadsTo {j : Nat} (h : v.Enters w j u) : v.LeadsTo w j u := by
  obtain ⟨done, rest, cur, q, d, hstands, hmode, rfl, hread, hcalls⟩ := h
  have hacts : v.Acts w cur.line d cur q :=
    ⟨done, rest, hstands, Weaver.actsOn?_eq_some_iff.mpr ⟨hmode, rfl, hread⟩⟩
  exact ⟨d, cur, q, hacts.directiveAt?, hacts, hcalls⟩

/-- A scan fails with a fault of its own, or with the fault of a unit that one of its
directives leads to. -/
theorem Fails.raises_or_nested (h : v.Fails w fault q) :
    v.Raises w q fault ∨ ∃ j u inner, v.LeadsTo w j u ∧ u.Fails w inner q ∧
      fault = .nested ⟨v.unit.key, j + 1⟩ inner := by
  rcases h.cases with ⟨cur, point, hstands, hmode, rfl⟩ |
    ⟨front, j, d, cur, p, -, hacts, hexpand⟩
  · refine Or.inl (.unterminated ?_ hstands hmode)
    rw [Line.commentedAt, List.take_length, ← hstands.acts_eq.2, hmode]
    rfl
  · have hline := hacts.directiveAt?
    obtain rfl := hacts.line_eq
    rcases Weaver.expand_eq_error_iff.mp hexpand with ⟨rfl, rfl, rfl⟩ |
      ⟨path, cause, rfl, hreply, rfl, rfl⟩ | ⟨inner, p', hhands, hbelow⟩
    · exact Or.inl (.malformed hline hacts)
    · exact Or.inl (.unresolved hline hacts hreply rfl)
    · rcases Weaver.below_eq_error_iff.mp hbelow with ⟨hroom, rfl, rfl⟩ |
        ⟨room, fault', hroom, hfails, rfl⟩
      · exact Or.inl (.tooDeep hline hacts hhands hroom)
      · have hcalls : w.Calls v.room v.unit.key cur p d ⟨room, inner, p'⟩ :=
          Weaver.calls_iff.mpr ⟨hroom, hhands⟩
        exact Or.inr ⟨cur.line, _, fault', ⟨d, cur, p, hline, hacts, hcalls⟩, hfails, rfl⟩

/-- The fault of a unit that a directive leads to is passed on with the place of the
directive. -/
theorem LeadsTo.fails {j : Nat} (h : v.LeadsTo w j u) (hu : u.Fails w fault q) :
    v.Fails w (.nested ⟨v.unit.key, j + 1⟩ fault) q := by
  obtain ⟨d, cur, p, -, hacts, hcalls⟩ := h
  obtain ⟨hroom, hhands⟩ := Weaver.calls_iff.mp hcalls
  obtain rfl := hacts.line_eq
  apply hacts.fails
  refine Weaver.expand_eq_error_iff.mpr (Or.inr (Or.inr ⟨u.unit, u.pass, hhands, ?_⟩))
  exact Weaver.below_eq_error_iff.mpr (Or.inr ⟨u.room, fault, hroom, hu, rfl⟩)

end Visit

/-! ## Passes -/

namespace Weaver

variable {w : Weaver σ} {v u : Visit σ} {sites : List Location} {fault : Fault} {q : Pass σ}

/-- The way from one visit down to another: each visit is led to by a directive of the
one before, and the list names the directives from the first to the last. -/
inductive Leads (w : Weaver σ) : Visit σ → List Location → Visit σ → Prop where
  | here (v : Visit σ) : Leads w v [] v
  | through {v u last : Visit σ} {j : Nat} {sites : List Location} (step : v.LeadsTo w j u)
    (rest : Leads w u sites last) : Leads w v (⟨v.unit.key, j + 1⟩ :: sites) last

theorem Visited.exists_leads (h : w.Visited v u) : ∃ sites, w.Leads v sites u := by
  induction h using Relation.ReflTransGen.head_induction_on with
  | refl => exact ⟨[], .here u⟩
  | head hstep _ ih =>
    obtain ⟨j, henters⟩ := hstep
    obtain ⟨sites, hleads⟩ := ih
    exact ⟨_, .through henters.leadsTo hleads⟩

/-- Every directive on the way takes up one level of the room. -/
theorem Leads.room_eq (h : w.Leads v sites u) : v.room = u.room + sites.length := by
  induction h with
  | here v => rfl
  | through hstep _ ih =>
    rw [hstep.room_eq, ih, List.length_cons, Nat.add_assoc]

/-- A fault is passed on all the way up, and the way is its trail. -/
theorem Leads.fails (h : w.Leads v sites u) (hu : u.Fails w fault q) :
    v.Fails w (sites.foldr .nested fault) q := by
  induction h with
  | here v => exact hu
  | through hstep _ ih => exact hstep.fails (ih hu)

theorem weave_eq_error_iff {unit : SourceUnit} {stock : σ} :
    w.weave unit stock = .error fault q ↔ (w.root unit stock).Fails w fault q := by
  constructor
  · intro h
    rcases WeaveM.run_bind_eq_error.mp h with happend | ⟨_, p, _, hrest⟩
    · exact happend
    · cases hrest
  · intro h
    exact WeaveM.run_bind_eq_error.mpr (Or.inl h)

end Weaver

/-- The trail of a fault leads from a visit that fails to the visit that raises the
innermost fault. -/
theorem Visit.Fails.exists_leads {w : Weaver σ} {v : Visit σ} {fault : Fault} {q : Pass σ}
    (h : v.Fails w fault q) :
    ∃ u, w.Leads v fault.trail u ∧ u.Raises w q fault.innermost := by
  -- the wrappers of the fault are taken off one by one
  induction fault generalizing v with
  | nested site inner ih =>
    rcases h.raises_or_nested with hraises | ⟨j, u, inner', hstep, hfails, heq⟩
    · cases hraises
    · cases heq
      obtain ⟨last, hleads, hraises⟩ := ih hfails
      exact ⟨last, .through hstep hleads, hraises⟩
  | _ =>
    rcases h.raises_or_nested with hraises | ⟨j, u, inner', -, -, heq⟩
    · exact ⟨v, .here v, hraises⟩
    · cases heq

/-- The trail of a fault leads from the entry unit through units each of which a
directive of the one before stands for, and names these directives. In the unit that
it leads to the innermost fault arises, which is no wrapper, and names the place
there. -/
theorem fault_located {w : Weaver σ} {unit : SourceUnit} {stock : σ} {fault : Fault}
    {pass : Pass σ} (h : w.weave unit stock = .error fault pass) :
    ∃ v, w.Leads (w.root unit stock) fault.trail v ∧ v.Raises w pass fault.innermost :=
  (Weaver.weave_eq_error_iff.mp h).exists_leads

theorem fault_located_sample :
    ∃ pass v, Sample.reader.Leads (Sample.reader.root Sample.listed Sample.shelf)
        [⟨"main", 8⟩, ⟨"deep", 2⟩] v ∧
      v.Raises Sample.reader pass
        (.unresolved "lost" ⟨"y[#pragma Y,1000]", 2⟩ (.notFound "lost")) := by
  have hfails : ∃ pass, Sample.reader.weave Sample.listed Sample.shelf =
      .error Sample.lost pass := by decide +kernel
  obtain ⟨pass, hfails⟩ := hfails
  exact ⟨pass, fault_located hfails⟩

end ShaderWeave
