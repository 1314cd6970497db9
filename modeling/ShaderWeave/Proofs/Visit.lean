import ShaderWeave.Proofs.Advance

/-!
# Visits

A pass scans the entry unit, and from the directives of that scan it goes on to
scan other units, and so on. Each of these scans is a visit. It is given by the
state in which it begins, so a unit that is scanned twice is visited twice.

## Main definitions

- `Visit`: a unit, the room left below it, and the state in which its scan begins.
- `Visit.Stands`: how far the scan of a visit comes, and in which state.
- `Visit.Begins`, `Visit.Leaves`, `Visit.Ends`: the states at the start and at
  the end of a line, and at the end of the scan.
- `Weaver.Starts`, `Weaver.Calls`, `Visit.Enters`: the visits that segments, a
  directive and a line lead to.
- `Weaver.Visited`: the visits of a pass.
- `Visit.Yields`, `Visit.Produces`, `Visit.Owns`: the output lines that get their
  origin during a visit, during a line of it, and from that line itself.
-/

namespace ShaderWeave

variable {σ : Type}

/-- The scan of a unit, given by the state in which it begins. -/
structure Visit (σ : Type) where
  /-- How many levels of units may be nested in this one. -/
  room : Nat
  unit : SourceUnit
  pass : Pass σ

namespace Weaver

/-- Weave segments, and make room for a further one. -/
def leadIn (descend : Location → SourceUnit → WeaveM σ Unit) (site : Location) (column : Nat)
    (segments : List Segment) : WeaveM σ Unit :=
  if segments = [] then pure ()
  else do
    inject descend site column segments
    separate site column

/-- A segment is woven behind those in front of it, and in front of the others. -/
theorem inject_append (descend : Location → SourceUnit → WeaveM σ Unit) (site : Location)
    (column : Nat) (front : List Segment) (s : Segment) (others : List Segment) :
    inject descend site column (front ++ s :: others) = (do
      leadIn descend site column front
      descend site (s.unit column)
      others.forM fun t => do
        separate site column
        descend site (t.unit column)) := by
  cases front with
  | nil => simp [inject, leadIn]
  | cons first front => simp [inject, leadIn, List.forM_append]

/-- The visits that weaving the segments from the state `q` leads to: one for each
segment, behind those in front of it. -/
inductive Starts (w : Weaver σ) (room : Nat) (site : Location) (column : Nat) (q : Pass σ)
    (segments : List Segment) : Visit σ → Prop where
  | intro {front others : List Segment} {s : Segment} {room' : Nat} {q' : Pass σ}
    (room_eq : room = room' + 1) (segments_eq : segments = front ++ s :: others)
    (begun : (leadIn (w.below room) site column front).run q = .ok () q') :
    Starts w room site column q segments ⟨room', s.unit column, q'⟩

/-- The visits that the expansion of a directive leads to, if it begins at `cur`
in the state `q`. -/
inductive Calls (w : Weaver σ) (room : Nat) (key : String) (cur : Cursor) (q : Pass σ) :
    Directive → Visit σ → Prop where
  /-- The supplier hands out a unit for the path. -/
  | inclusion {path : String} {inner : SourceUnit} {room' : Nat} (room_eq : room = room' + 1)
    (reply : (w.supplier.request q.stock path).1 = .fresh inner) :
    Calls w room key cur q (.inclusion (some path))
      ⟨room', inner, (w.asked q path).told (.expanding ⟨key, cur.line + 1⟩ path inner.key)⟩
  /-- The segments of the placeholder are woven in turn. -/
  | placeholder {name : String} {u : Visit σ}
    (starts : w.Starts room ⟨key, cur.line + 1⟩ cur.column q (w.plan.segmentsFor name) u) :
    Calls w room key cur q (.placeholder name) u

end Weaver

namespace Visit

def text (v : Visit σ) : List Char :=
  v.unit.text.toList

/-- The scan has read `done`, has `rest` before it, and stands at `cur` in the
state `q`. -/
def Stands (v : Visit σ) (w : Weaver σ) (done rest : List Char) (cur : Cursor) (q : Pass σ) :
    Prop :=
  v.text = done ++ rest ∧
    (w.advance (w.below v.room) v.unit.key { column := v.pass.output.lineWidth } done rest).run
      v.pass = .ok cur q

/-- The scan succeeds, and leaves the pass in the state `q`. -/
def Ends (v : Visit σ) (w : Weaver σ) (q : Pass σ) : Prop :=
  (w.unitAt v.room v.unit).run v.pass = .ok () q

/-- The scan comes to the start of line `j` in the state `q`. Lines are counted
from zero. -/
def Begins (v : Visit σ) (w : Weaver σ) (j : Nat) (q : Pass σ) : Prop :=
  ∃ cur, v.Stands w (Text.before v.text j) (Text.remaining v.text j) cur q

/-- The scan is done with line `j` in the state `q`: it begins the next line, or
it has come to its end. -/
def Leaves (v : Visit σ) (w : Weaver σ) (j : Nat) (q : Pass σ) : Prop :=
  if j + 1 < (Text.lines v.text).length then v.Begins w (j + 1) q else v.Ends w q

/-- The directive on line `j` leads to another visit. -/
def Enters (v : Visit σ) (w : Weaver σ) (j : Nat) (u : Visit σ) : Prop :=
  ∃ done rest cur q d, v.Stands w done rest cur q ∧ cur.mode = .lineStart ∧ cur.line = j ∧
    Directive.read? w.plan rest = some d ∧ w.Calls v.room v.unit.key cur q d u

/-- Output line `i` gets its origin during the visit. Output lines are counted
from zero. -/
def Yields (v : Visit σ) (w : Weaver σ) (i : Nat) : Prop :=
  ∃ q, v.Ends w q ∧ v.pass.output.origins.size ≤ i ∧ i < q.output.origins.size

/-- Output line `i` gets its origin while the visit deals with line `j`. -/
def Produces (v : Visit σ) (w : Weaver σ) (j i : Nat) : Prop :=
  ∃ q q', v.Begins w j q ∧ v.Leaves w j q' ∧
    q.output.origins.size ≤ i ∧ i < q'.output.origins.size

/-- Output line `i` gets its origin while the visit deals with line `j`, and not
during a visit that the line leads to. -/
def Owns (v : Visit σ) (w : Weaver σ) (j i : Nat) : Prop :=
  v.Produces w j i ∧ ∀ v', v.Enters w j v' → ¬ v'.Yields w i

end Visit

namespace Weaver

def root (w : Weaver σ) (unit : SourceUnit) (stock : σ) : Visit σ :=
  ⟨w.limit, unit, { stock := stock }⟩

/-- The visit `v'` is `v` itself, or is led to from `v` through the directives of
any number of units. -/
def Visited (w : Weaver σ) (v v' : Visit σ) : Prop :=
  Relation.ReflTransGen (fun u u' => ∃ j, u.Enters w j u') v v'

/-! ## What a directive does -/

variable {w : Weaver σ} {room : Nat} {p q : Pass σ}

theorem below_eq_ok {site : Location} {inner : SourceUnit} :
    (w.below room site inner).run p = .ok () q ↔
      ∃ room', room = room' + 1 ∧ (⟨room', inner, p⟩ : Visit σ).Ends w q := by
  cases room with
  | zero =>
    constructor
    · intro h
      cases h
    · rintro ⟨room', h, _⟩
      cases h
  | succ room =>
    have hrun : (w.below (room + 1) site inner).run p = .ok () q ↔
        (w.unitAt room inner).run p = .ok () q := by
      rw [below, EStateM.run_adaptExcept]
      cases (w.unitAt room inner).run p <;> simp
    rw [hrun]
    constructor
    · intro h
      exact ⟨room, rfl, h⟩
    · rintro ⟨room', heq, h⟩
      cases heq
      exact h

/-- What an expansion that succeeds has done: dropped a repeated inclusion, woven
the unit handed out for an inclusion, or woven the segments of a placeholder. -/
theorem expand_eq_ok {key : String} {cur cur' : Cursor} {d : Directive}
    (h : (w.expand (w.below room) key cur d).run p = .ok cur' q) :
    (∃ path, d = .inclusion (some path) ∧ (w.supplier.request p.stock path).1 = .repeated ∧
        cur' = { cur with mode := .directive false, line := cur.line + 1 } ∧
        q = (w.asked p path).told (.skipped ⟨key, cur.line + 1⟩ path)) ∨
    (∃ path inner room', d = .inclusion (some path) ∧ room = room' + 1 ∧
        (w.supplier.request p.stock path).1 = .fresh inner ∧
        cur' = { cur with mode := .directive true, line := cur.line + 1 } ∧
        (⟨room', inner, (w.asked p path).told
          (.expanding ⟨key, cur.line + 1⟩ path inner.key)⟩ : Visit σ).Ends w q) ∨
    (∃ name q', d = .placeholder name ∧
        cur' = { cur with mode := .directive true, line := cur.line + 1 } ∧
        (inject (w.below room) ⟨key, cur.line + 1⟩ cur.column (w.plan.segmentsFor name)).run p
          = .ok () q' ∧
        q = q'.told (.injected ⟨key, cur.line + 1⟩ name (w.plan.segmentsFor name).length)) := by
  unfold expand at h
  cases d with
  | inclusion path =>
    obtain ⟨replaced, p', hexpand, h⟩ := WeaveM.run_bind_eq_ok.mp h
    cases h
    cases path with
    | none => cases hexpand
    | some path =>
      obtain ⟨reply, p₁, hask, hexpand⟩ := WeaveM.run_bind_eq_ok.mp hexpand
      have hp₁ : reply = (w.supplier.request p.stock path).1 ∧ p₁ = w.asked p path := by
        cases hask
        exact ⟨rfl, rfl⟩
      obtain ⟨hreply, rfl⟩ := hp₁
      cases reply with
      | failed cause => cases hexpand
      | repeated =>
        obtain ⟨_, p₂, htold, hexpand⟩ := WeaveM.run_bind_eq_ok.mp hexpand
        cases htold
        cases hexpand
        exact Or.inl ⟨path, rfl, hreply.symm, rfl, rfl⟩
      | fresh inner =>
        obtain ⟨_, p₂, htold, hexpand⟩ := WeaveM.run_bind_eq_ok.mp hexpand
        cases htold
        obtain ⟨_, p₃, hbelow, hexpand⟩ := WeaveM.run_bind_eq_ok.mp hexpand
        cases hexpand
        obtain ⟨room', hroom, hends⟩ := below_eq_ok.mp hbelow
        exact Or.inr (Or.inl ⟨path, inner, room', rfl, hroom, hreply.symm, rfl, hends⟩)
  | placeholder name =>
    obtain ⟨_, p', hexpand, h⟩ := WeaveM.run_bind_eq_ok.mp h
    cases h
    obtain ⟨_, q', hinject, htold⟩ := WeaveM.run_bind_eq_ok.mp hexpand
    cases htold
    exact Or.inr (Or.inr ⟨name, q', rfl, rfl, hinject, rfl⟩)

end Weaver

/-! ## How far a scan comes -/

namespace Visit

variable {w : Weaver σ} {v : Visit σ} {done a rest : List Char} {cur cur' : Cursor}
  {p q q' : Pass σ}

theorem stands_start (v : Visit σ) (w : Weaver σ) :
    v.Stands w [] v.text { column := v.pass.output.lineWidth } v.pass :=
  ⟨rfl, rfl⟩

theorem Stands.append (h : v.Stands w done (a ++ rest) cur q)
    (ha : (w.advance (w.below v.room) v.unit.key cur a rest).run q = .ok cur' q') :
    v.Stands w (done ++ a) rest cur' q' := by
  refine ⟨by simpa using h.1, ?_⟩
  rw [Weaver.advance_append, WeaveM.run_bind_eq_ok]
  exact ⟨cur, q, h.2, ha⟩

theorem Stands.step {c : Char} (h : v.Stands w done (c :: rest) cur q)
    (hc : (w.step (w.below v.room) v.unit.key cur c rest).run q = .ok cur' q') :
    v.Stands w (done ++ [c]) rest cur' q' := by
  have hadvance : (w.advance (w.below v.room) v.unit.key cur [c] rest).run q = .ok cur' q' := by
    rw [Weaver.advance, List.nil_append]
    exact WeaveM.run_bind_eq_ok.mpr ⟨cur', q', hc, rfl⟩
  exact Stands.append (a := [c]) h hadvance

/-- A scan has stood at every place in front of the one where it stands. -/
theorem Stands.split (h : v.Stands w (done ++ a) rest cur' q') :
    ∃ cur q, v.Stands w done (a ++ rest) cur q ∧
      (w.advance (w.below v.room) v.unit.key cur a rest).run q = .ok cur' q' := by
  have hrun := h.2
  rw [Weaver.advance_append, WeaveM.run_bind_eq_ok] at hrun
  obtain ⟨cur, q, hdone, ha⟩ := hrun
  exact ⟨cur, q, ⟨by simpa using h.1, hdone⟩, ha⟩

theorem Stands.unique (h : v.Stands w done rest cur q) (h' : v.Stands w done rest cur' q') :
    cur = cur' ∧ q = q' := by
  have heq := h.2.symm.trans h'.2
  cases heq
  exact ⟨rfl, rfl⟩

theorem Stands.count_eq (h : v.Stands w done rest cur q) (hmode : cur.mode = .lineStart) :
    done.count '\n' = cur.line := by
  have hadvance := Weaver.line_advance h.2
  simp only [hmode, Weaver.ahead] at hadvance
  omega

theorem Begins.lt_length {j : Nat} (h : v.Begins w j q) : j < (Text.lines v.text).length := by
  obtain ⟨cur, hstands⟩ := h
  exact Text.lt_length_of_eq_before_append hstands.1

theorem Begins.unique {j : Nat} (h : v.Begins w j q) (h' : v.Begins w j q') : q = q' := by
  obtain ⟨cur, h⟩ := h
  obtain ⟨cur', h'⟩ := h'
  exact (h.unique h').2

theorem Ends.unique (h : v.Ends w q) (h' : v.Ends w q') : q = q' := by
  have heq := h.symm.trans h'
  cases heq
  rfl

theorem Leaves.unique {j : Nat} (h : v.Leaves w j q) (h' : v.Leaves w j q') : q = q' := by
  unfold Leaves at h h'
  split at h
  · rw [if_pos ‹_›] at h'
    exact h.unique h'
  · rw [if_neg ‹_›] at h'
    exact h.unique h'

/-- A scan that ends has gone on from every place where it stood. -/
theorem Ends.walk (h : v.Ends w p) (hstands : v.Stands w done rest cur q) :
    ∃ cur' q', (w.walk (w.below v.room) v.unit.key cur rest).run q = .ok cur' q' ∧
      (Weaver.finish v.unit.key cur').run q' = .ok () p := by
  unfold Ends at h
  rw [Weaver.unitAt_eq_scan] at h
  obtain ⟨_, _, hget, h⟩ := WeaveM.run_bind_eq_ok.mp h
  cases hget
  obtain ⟨cur', q', hwalk, hfinish⟩ := WeaveM.run_bind_eq_ok.mp h
  -- the scan of the whole text comes by the place where it stands
  have htext : v.unit.text.toList = done ++ rest := hstands.1
  rw [htext, Weaver.walk_append, WeaveM.run_bind_eq_ok] at hwalk
  obtain ⟨cur₁, q₁, hdone, hrest⟩ := hwalk
  have heq := hdone.symm.trans hstands.2
  cases heq
  exact ⟨cur', q', hrest, hfinish⟩

end Visit

/-! ## Visits that are entered -/

theorem Visit.Ends.later {w : Weaver σ} {v : Visit σ} {q : Pass σ} (h : v.Ends w q) :
    w.Later v.pass q := by
  rw [← WeaveM.leaves_of_ok h]
  exact w.advances_unitAt v.room v.unit v.pass

theorem Visit.Stands.later {w : Weaver σ} {v : Visit σ} {done rest : List Char} {cur : Cursor}
    {q : Pass σ} (h : v.Stands w done rest cur q) : w.Later v.pass q := by
  rw [← WeaveM.leaves_of_ok h.2]
  exact Weaver.advances_advance (w.advances_below v.room) _ done rest v.pass

namespace Weaver

variable {w : Weaver σ} {room : Nat} {u v : Visit σ} {p q q' : Pass σ}

/-- Every segment is woven to its end, and then the injection goes on. -/
theorem Starts.ends {site : Location} {column : Nat} {segments : List Segment}
    (h : w.Starts room site column q segments u)
    (hinject : (inject (w.below room) site column segments).run q = .ok () q') :
    ∃ p, u.Ends w p ∧ w.Later p q' := by
  obtain ⟨hroom, hsegments, hbegun⟩ := h
  next front others s room' q₁ =>
  rw [hsegments, inject_append, WeaveM.run_bind_eq_ok] at hinject
  obtain ⟨_, q₂, hbegun', hinject⟩ := hinject
  -- weaving is a function of the state, so both begin the segment in one state
  have heq := hbegun.symm.trans hbegun'
  cases heq
  obtain ⟨_, p, hbelow, hothers⟩ := WeaveM.run_bind_eq_ok.mp hinject
  obtain ⟨room₁, hroom₁, hends⟩ := below_eq_ok.mp hbelow
  obtain rfl : room₁ = room' := by omega
  refine ⟨p, hends, ?_⟩
  rw [← WeaveM.leaves_of_ok hothers]
  refine advances_forM (fun t => ?_) p
  exact (advances_separate site column).bind fun _ => advances_below w room site _

theorem Calls.ends {key : String} {cur cur' : Cursor} {d : Directive}
    (h : w.Calls room key cur q d u)
    (hexpand : (w.expand (w.below room) key cur d).run q = .ok cur' q') :
    ∃ p, u.Ends w p ∧ w.Later p q' := by
  rcases expand_eq_ok hexpand with ⟨path, rfl, hreply, -, -⟩ |
    ⟨path, inner, room', rfl, hroom, hreply, -, hends⟩ | ⟨name, q₁, rfl, -, hinject, rfl⟩
  · obtain ⟨-, hreply'⟩ := h
    rw [hreply] at hreply'
    cases hreply'
  · obtain ⟨hroom', hreply'⟩ := h
    rw [hreply] at hreply'
    cases hreply'
    next room₁ =>
    obtain rfl : room₁ = room' := by omega
    exact ⟨q', hends, .refl⟩
  · cases h with
    | placeholder hstarts =>
      obtain ⟨p, hends, hlater⟩ := hstarts.ends hinject
      exact ⟨p, hends, hlater.tail (.report _)⟩

end Weaver

namespace Visit

variable {w : Weaver σ} {u v : Visit σ} {j : Nat} {p : Pass σ}

theorem Enters.room_lt (h : v.Enters w j u) : u.room < v.room := by
  obtain ⟨_, _, _, _, _, _, _, _, _, hcalls⟩ := h
  cases hcalls with
  | inclusion hroom _ =>
    rw [hroom]
    exact Nat.lt_succ_self _
  | placeholder hstarts =>
    obtain ⟨hroom, _, _⟩ := hstarts
    rw [hroom]
    exact Nat.lt_succ_self _

theorem Enters.lt_length (h : v.Enters w j u) : j < (Text.lines v.text).length := by
  obtain ⟨done, rest, cur, q, d, hstands, hmode, rfl, -, -⟩ := h
  rw [← hstands.count_eq hmode]
  exact (Text.exists_before_append hstands.1).1

theorem Enters.ends (h : v.Enters w j u) (hends : v.Ends w p) :
    ∃ q, u.Ends w q ∧ w.Later q p := by
  obtain ⟨done, rest, cur, q, d, hstands, hmode, -, hread, hcalls⟩ := h
  obtain ⟨cur', q', hwalk, hfinish⟩ := hends.walk hstands
  cases rest with
  | nil => cases hread
  | cons c rest =>
    obtain ⟨cur₁, q₁, hstep, hwalk⟩ := WeaveM.run_bind_eq_ok.mp hwalk
    rw [Weaver.step_directive hmode hread] at hstep
    obtain ⟨p₁, hends₁, hlater⟩ := hcalls.ends hstep
    refine ⟨p₁, hends₁, hlater.trans (.trans (b := q') ?_ ?_)⟩
    · rw [← WeaveM.leaves_of_ok hwalk]
      exact Weaver.advances_walk (w.advances_below v.room) v.unit.key cur₁ rest q₁
    · rw [← WeaveM.leaves_of_ok hfinish]
      exact Weaver.advances_finish v.unit.key cur' q'

end Visit

/-- Every visit of a scan that ends has ended before. -/
theorem Weaver.Visited.ends {w : Weaver σ} {v u : Visit σ} {p : Pass σ} (h : w.Visited v u)
    (hends : v.Ends w p) : ∃ q, u.Ends w q ∧ w.Later q p := by
  induction h with
  | refl => exact ⟨p, hends, .refl⟩
  | tail _ henters ih =>
    obtain ⟨q, hends', hlater⟩ := ih
    obtain ⟨j, henters⟩ := henters
    obtain ⟨q', hends'', hlater'⟩ := henters.ends hends'
    exact ⟨q', hends'', hlater'.trans hlater⟩

end ShaderWeave
