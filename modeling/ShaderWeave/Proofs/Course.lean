import ShaderWeave.Proofs.Bookkeeping
import ShaderWeave.Proofs.Failure

/-!
# The course of a scan

Between two directives a scan writes to the output and does nothing else: it makes no request,
tells no event and leaves the supplier alone. Where it acts on a directive it does what the
directive asks for. An inclusion is requested under its path, and what the supplier hands out is
woven in its place. A placeholder gets all segments of its name, one below the other. So the
directive lines of a unit, in order, tell what the scan of the unit does, up to the first
directive that cannot be carried out.

What is done for a directive is told here by its effects on the state of the pass, and not by
the actions that the scan takes.

## Main definitions

- `WeaveM.EndsWith`: how an action ends, and in which state.
- `Weaver.Descends`: what weaving a unit in the place of a directive does.
- `Weaver.Injects`: what weaving segments one below the other does.
- `Weaver.Performs`: what is done for a directive.
- `Weaver.Course`: a run that performs directives, and only writes in between.

## Main results

- `Weaver.performs_of_expand`: the expansion of a directive performs it.
- `Weaver.course_of_advance`: a scan performs the directives that it acts on.
- `scan_acts_on_directive_lines`: these are the directives of the directive lines.
-/

namespace ShaderWeave

variable {σ α β : Type}

/-- The action ends in the state `q` if it begins in the state `p`, and it ends with the fault,
if there is one, or succeeds. -/
def WeaveM.EndsWith (act : WeaveM σ α) (p : Pass σ) (fault? : Option Fault) (q : Pass σ) : Prop :=
  match fault? with
  | none => ∃ a, act.run p = .ok a q
  | some fault => act.run p = .error fault q

theorem WeaveM.EndsWith.of_ok {act : WeaveM σ α} {p q q' : Pass σ} {fault? : Option Fault}
    {a : α} (h : act.EndsWith p fault? q) (hrun : act.run p = .ok a q') : fault? = none ∧ q = q' := by
  cases fault? with
  | none =>
    obtain ⟨_, h⟩ := h
    cases hrun.symm.trans h
    exact ⟨rfl, rfl⟩
  | some fault => cases hrun.symm.trans h

theorem WeaveM.EndsWith.of_error {act : WeaveM σ α} {p q q' : Pass σ} {fault? : Option Fault}
    {fault : Fault} (h : act.EndsWith p fault? q) (hrun : act.run p = .error fault q') :
    fault? = some fault ∧ q = q' := by
  cases fault? with
  | none =>
    obtain ⟨_, h⟩ := h
    cases hrun.symm.trans h
  | some fault =>
    cases hrun.symm.trans h
    exact ⟨rfl, rfl⟩

/-- An action followed by another ends with a fault of its own, or as the other ends behind
it. -/
theorem WeaveM.endsWith_bind {act : WeaveM σ α} {next : α → WeaveM σ β} {p q : Pass σ}
    {fault? : Option Fault} (h : (act >>= next).EndsWith p fault? q) :
    (∃ fault, fault? = some fault ∧ act.EndsWith p (some fault) q) ∨
      ∃ a p', act.run p = .ok a p' ∧ (next a).EndsWith p' fault? q := by
  cases fault? with
  | none =>
    obtain ⟨b, h⟩ := h
    obtain ⟨a, p', hact, hnext⟩ := run_bind_eq_ok.mp h
    exact Or.inr ⟨a, p', hact, b, hnext⟩
  | some fault =>
    rcases run_bind_eq_error.mp h with hact | ⟨a, p', hact, hnext⟩
    · exact Or.inl ⟨fault, rfl, hact⟩
    · exact Or.inr ⟨a, p', hact, hnext⟩

namespace Weaver

/-! ## Effects -/

/-- The unit is woven on behalf of the directive at `site`, with room for a number of levels
below the directive's unit. -/
inductive Descends (w : Weaver σ) (room : Nat) (site : Location) (inner : SourceUnit)
    (p : Pass σ) : Option Fault → Pass σ → Prop where
  /-- There is no room, so nothing is done. -/
  | tooDeep (room_eq : room = 0) : Descends w room site inner p (some (.tooDeep site w.limit)) p
  | ends {room' : Nat} {q : Pass σ} (room_eq : room = room' + 1)
    (woven : (⟨room', inner, p⟩ : Visit σ).Ends w q) : Descends w room site inner p none q
  | fails {room' : Nat} {fault : Fault} {q : Pass σ} (room_eq : room = room' + 1)
    (woven : (⟨room', inner, p⟩ : Visit σ).Fails w fault q) :
    Descends w room site inner p (some (.nested site fault)) q

/-- The segments are woven at a column, on behalf of the placeholder at `site`, until one of
them cannot be woven. -/
inductive Injects (w : Weaver σ) (room : Nat) (site : Location) (column : Nat) :
    Pass σ → List Segment → Option Fault → Pass σ → Prop where
  | nothing (p : Pass σ) : Injects w room site column p [] none p
  | last {p q : Pass σ} {s : Segment} (woven : w.Descends room site (s.unit column) p none q) :
    Injects w room site column p [s] none q
  | next {p p' p'' q : Pass σ} {s t : Segment} {others : List Segment} {fault? : Option Fault}
    (woven : w.Descends room site (s.unit column) p none p')
    (separated : (separate site column).run p' = .ok () p'')
    (rest : Injects w room site column p'' (t :: others) fault? q) :
    Injects w room site column p (s :: t :: others) fault? q
  | stops {p q : Pass σ} {s : Segment} {others : List Segment} {fault : Fault}
    (failed : w.Descends room site (s.unit column) p (some fault) q) :
    Injects w room site column p (s :: others) (some fault) q

/-- What the directive at `site` asks for is done, or fails. -/
inductive Performs (w : Weaver σ) (room : Nat) (site : Location) (p : Pass σ) :
    Directive → Option Fault → Pass σ → Prop where
  | malformed : Performs w room site p (.inclusion none) (some (.malformedInclusion site)) p
  | unresolved {path : String} {cause : Cause}
    (reply : (w.supplier.request p.stock path).1 = .failed cause) :
    Performs w room site p (.inclusion (some path)) (some (.unresolved path site cause))
      (w.asked p path)
  | skipped {path : String} (reply : (w.supplier.request p.stock path).1 = .repeated) :
    Performs w room site p (.inclusion (some path)) none
      ((w.asked p path).told (.skipped site path))
  | included {path : String} {inner : SourceUnit} {fault? : Option Fault} {q : Pass σ}
    (reply : (w.supplier.request p.stock path).1 = .fresh inner)
    (woven : w.Descends room site inner
      ((w.asked p path).told (.expanding site path inner.key)) fault? q) :
    Performs w room site p (.inclusion (some path)) fault? q
  | injected {name : String} {q : Pass σ}
    (woven : w.Injects room site p.output.lineWidth p (w.plan.segmentsFor name) none q) :
    Performs w room site p (.placeholder name) none
      (q.told (.injected site name (w.plan.segmentsFor name).length))
  | broken {name : String} {fault : Fault} {q : Pass σ}
    (woven : w.Injects room site p.output.lineWidth p (w.plan.segmentsFor name) (some fault) q) :
    Performs w room site p (.placeholder name) (some fault) q

/-- A run over the unit of a key that performs the directives listed with their lines, one
after the other, and does nothing in between but write. It stops with the fault, if there is
one, at the last directive of the list. -/
inductive Course (w : Weaver σ) (room : Nat) (key : String) :
    Pass σ → List (Nat × Directive) → Option Fault → Pass σ → Prop where
  | rests (p : Pass σ) : Course w room key p [] none p
  | writes {p q : Pass σ} {ds : List (Nat × Directive)} {fault? : Option Fault} (o : Output)
    (rest : Course w room key { p with output := o } ds fault? q) :
    Course w room key p ds fault? q
  | performs {p p' q : Pass σ} {n : Nat} {d : Directive} {ds : List (Nat × Directive)}
    {fault? : Option Fault} (done : w.Performs room ⟨key, n⟩ p d none p')
    (rest : Course w room key p' ds fault? q) : Course w room key p ((n, d) :: ds) fault? q
  | stops {p q : Pass σ} {n : Nat} {d : Directive} {fault : Fault}
    (failed : w.Performs room ⟨key, n⟩ p d (some fault) q) :
    Course w room key p [(n, d)] (some fault) q

variable {w : Weaver σ} {room : Nat} {site : Location} {column : Nat} {key : String}
  {cur : Cursor} {d : Directive} {fault? : Option Fault} {p p' q : Pass σ}

/-! ## Expansions -/

theorem descends_of_below {inner : SourceUnit}
    (h : (w.below room site inner).EndsWith p fault? q) :
    w.Descends room site inner p fault? q := by
  cases fault? with
  | none =>
    obtain ⟨_, h⟩ := h
    obtain ⟨room', hroom, hends⟩ := below_eq_ok.mp h
    exact .ends hroom hends
  | some fault =>
    rcases below_eq_error_iff.mp h with ⟨hroom, rfl, rfl⟩ | ⟨room', inner, hroom, hfails, rfl⟩
    · exact .tooDeep hroom
    · exact .fails hroom hfails

/-- Behind a segment that is not the last, room is made for the others. -/
theorem inject_cons_cons (descend : Location → SourceUnit → WeaveM σ Unit) (site : Location)
    (column : Nat) (s t : Segment) (others : List Segment) :
    inject descend site column (s :: t :: others) = (do
      descend site (s.unit column)
      separate site column
      inject descend site column (t :: others)) := by
  simp [inject]

theorem injects_of_inject {segments : List Segment}
    (h : (inject (w.below room) site column segments).EndsWith p fault? q) :
    w.Injects room site column p segments fault? q := by
  induction segments generalizing p with
  | nil =>
    obtain ⟨rfl, rfl⟩ := h.of_ok rfl
    exact .nothing q
  | cons s segments ih =>
    cases segments with
    | nil =>
      rcases WeaveM.endsWith_bind h with ⟨fault, rfl, hfails⟩ | ⟨_, p', hfirst, hnone⟩
      · exact .stops (descends_of_below hfails)
      · obtain ⟨rfl, rfl⟩ := hnone.of_ok rfl
        exact .last (descends_of_below ⟨_, hfirst⟩)
    | cons t others =>
      rw [inject_cons_cons] at h
      rcases WeaveM.endsWith_bind h with ⟨fault, rfl, hfails⟩ | ⟨_, p', hfirst, h⟩
      · exact .stops (descends_of_below hfails)
      · rcases WeaveM.endsWith_bind h with ⟨fault, rfl, hseparate⟩ | ⟨_, p'', hseparate, h⟩
        · cases hseparate
        · exact .next (descends_of_below ⟨_, hfirst⟩) hseparate (ih h)

/-- The expansion of a directive performs it, if the cursor knows how wide the output line
is. -/
theorem performs_of_expand (hcolumn : cur.column = p.output.lineWidth)
    (h : (w.expand (w.below room) key cur d).EndsWith p fault? q) :
    w.Performs room ⟨key, cur.line + 1⟩ p d fault? q := by
  match d with
  | .inclusion none =>
    obtain ⟨rfl, rfl⟩ := h.of_error rfl
    exact .malformed
  | .inclusion (some path) =>
    have hrun : (w.expand (w.below room) key cur (.inclusion (some path))).run p = _ :=
      run_expand_inclusion path
    cases hreply : (w.supplier.request p.stock path).1 with
    | failed cause =>
      rw [hreply] at hrun
      obtain ⟨rfl, rfl⟩ := h.of_error hrun
      exact .unresolved hreply
    | repeated =>
      rw [hreply] at hrun
      obtain ⟨rfl, rfl⟩ := h.of_ok hrun
      exact .skipped hreply
    | fresh inner =>
      simp only [hreply] at hrun
      refine .included hreply (descends_of_below ?_)
      cases hbelow : (w.below room ⟨key, cur.line + 1⟩ inner).run
          ((w.asked p path).told (.expanding ⟨key, cur.line + 1⟩ path inner.key)) with
      | ok _ q' =>
        rw [hbelow] at hrun
        obtain ⟨rfl, rfl⟩ := h.of_ok hrun
        exact ⟨_, hbelow⟩
      | error fault q' =>
        rw [hbelow] at hrun
        obtain ⟨rfl, rfl⟩ := h.of_error hrun
        exact hbelow
  | .placeholder name =>
    have hrun : (w.expand (w.below room) key cur (.placeholder name)).run p = _ :=
      run_expand_placeholder name
    rw [hcolumn] at hrun
    cases hinject : (inject (w.below room) ⟨key, cur.line + 1⟩ p.output.lineWidth
        (w.plan.segmentsFor name)).run p with
    | ok _ q' =>
      rw [hinject] at hrun
      obtain ⟨rfl, rfl⟩ := h.of_ok hrun
      exact .injected (injects_of_inject ⟨_, hinject⟩)
    | error fault q' =>
      rw [hinject] at hrun
      obtain ⟨rfl, rfl⟩ := h.of_error hrun
      have hfails : (inject (w.below room) ⟨key, cur.line + 1⟩ p.output.lineWidth
          (w.plan.segmentsFor name)).EndsWith p (some fault) q := hinject
      exact .broken (injects_of_inject hfails)

/-! ## Scans -/

theorem Course.append {ds ds' : List (Nat × Directive)} (h : w.Course room key p ds none p')
    (h' : w.Course room key p' ds' fault? q) : w.Course room key p (ds ++ ds') fault? q := by
  generalize hnone : (none : Option Fault) = ended at h
  induction h with
  | rests p => exact h'
  | writes o _ ih => exact .writes o (ih h' hnone)
  | performs done _ ih => exact .performs done (ih h' hnone)
  | stops _ => cases hnone

/-- A step performs the directive that it acts on, or it only writes. -/
theorem course_of_step {c : Char} {done rest : List Char} (hcur : cur.InStep done p.output)
    (h : (w.step (w.below room) key cur c rest).EndsWith p fault? q) :
    w.Course room key p (w.actsOn? cur (c :: rest)).toList fault? q := by
  cases hacts : w.actsOn? cur (c :: rest) with
  | none =>
    obtain ⟨cur', o, hwrites⟩ : ∃ cur' o, (w.step (w.below room) key cur c rest).run p =
        .ok cur' { p with output := o } := run_step_of_actsOn?_eq_none hacts
    obtain ⟨rfl, rfl⟩ := h.of_ok hwrites
    exact .writes o (.rests _)
  | some act =>
    obtain ⟨n, d⟩ := act
    rw [step_of_actsOn? hacts] at h
    obtain ⟨hmode, rfl, -⟩ := actsOn?_eq_some_iff.mp hacts
    have hcolumn : cur.column = p.output.lineWidth := hcur.column (by simp [hmode])
    have hperforms := performs_of_expand hcolumn h
    cases fault? with
    | none => exact .performs hperforms (.rests q)
    | some fault => exact .stops hperforms

/-- A scan performs the directives that it acts on, and only writes in between. -/
theorem course_of_advance {done more rest : List Char} (hcur : cur.InStep done p.output)
    (h : (w.advance (w.below room) key cur more rest).EndsWith p fault? q) :
    w.Course room key p (w.acts (w.below room) key cur more rest p) fault? q := by
  induction more generalizing cur p done with
  | nil =>
    obtain ⟨rfl, rfl⟩ := h.of_ok rfl
    exact .rests q
  | cons c more ih =>
    rw [advance] at h
    rcases WeaveM.endsWith_bind h with ⟨fault, rfl, hfails⟩ | ⟨cur', p', hstep, hmore⟩
    · have herror : (w.step (w.below room) key cur c (more ++ rest)).run p = .error fault q :=
        hfails
      simp only [acts, herror, List.append_nil]
      exact course_of_step hcur hfails
    · simp only [acts, hstep]
      have hfirst : (w.step (w.below room) key cur c (more ++ rest)).EndsWith p none p' :=
        ⟨cur', hstep⟩
      exact (course_of_step hcur hfirst).append (ih (hcur.step hstep) hmore)

end Weaver

namespace Visit

variable {w : Weaver σ} {v : Visit σ} {cur : Cursor} {p q : Pass σ} {fault : Fault}

/-- A scan that comes to the end of its unit has performed all directives it acts on. -/
theorem Stands.course (h : v.Stands w v.text [] cur q) :
    w.Course v.room v.unit.key v.pass (v.acts w) none q :=
  Weaver.course_of_advance (.start v.pass.output) ⟨cur, h.2⟩

/-- A scan that cannot carry out a directive has performed all those in front of it. -/
theorem Acts.course {j : Nat} {d : Directive} (h : v.Acts w j d cur p)
    (hexpand : (w.expand (w.below v.room) v.unit.key cur d).run p = .error fault q) :
    w.Course v.room v.unit.key v.pass (v.acts w) (some fault) q :=
  Weaver.course_of_advance (.start v.pass.output) (h.advance_eq_error hexpand)

/-- The end of the unit performs nothing more. -/
theorem Ends.course (h : v.Ends w q) : w.Course v.room v.unit.key v.pass (v.acts w) none q := by
  obtain ⟨cur, p, hstands, hfinish⟩ := h.exists_stands
  obtain ⟨-, rfl⟩ := Weaver.finish_eq_ok.mp hfinish
  simpa using hstands.course.append (.writes _ (.rests _))

end Visit

/-- The directives that the scan of a unit acts on are those of its directive lines, from the
first to the last. To act on a directive is to do what it asks for, and in between the scan only
writes. Only two things stop a scan: a directive that it acts on and cannot expand, behind which
it acts on no other, and a block comment that is still open when all lines have been read. -/
theorem scan_acts_on_directive_lines (w : Weaver σ) (v : Visit σ) :
    ∃ ds commented,
      (∀ ds' commented', Line.Holds w.plan 0 false (Text.lines v.text) ds' commented' ↔
        ds' = ds ∧ commented' = commented) ∧
      (∀ q, v.Ends w q → v.acts w = ds ∧ commented = false ∧
        w.Course v.room v.unit.key v.pass ds none q) ∧
      ∀ fault q, v.Fails w fault q →
        (v.acts w = ds ∧ commented = true ∧ (∃ point, fault = .unterminated v.unit.key point) ∧
          w.Course v.room v.unit.key v.pass ds none q) ∨
        ∃ front j d later cur p, ds = front ++ (j + 1, d) :: later ∧
          v.acts w = front ++ [(j + 1, d)] ∧ v.Acts w j d cur p ∧
          (w.expand (w.below v.room) v.unit.key cur d).run p = .error fault q ∧
          w.Course v.room v.unit.key v.pass (front ++ [(j + 1, d)]) (some fault) q := by
  refine ⟨Line.listing w.plan 0 false (Text.lines v.text),
    (Text.lines v.text).foldl (Line.commentedNext w.plan) false, ?_, ?_, ?_⟩
  · intro ds' commented'
    exact Line.holds_iff fun l hl => Text.oneLine_of_mem_lines hl
  · intro q h
    obtain ⟨hacts, hopen⟩ := h.acts_eq
    have hcourse := h.course
    rw [hacts] at hcourse
    exact ⟨hacts, hopen, hcourse⟩
  · intro fault q h
    rcases h.cases with ⟨cur, point, hstands, hmode, rfl⟩ |
      ⟨front, j, d, cur, p, hacts, hact, hexpand⟩
    · obtain ⟨hall, hopen⟩ := hstands.acts_eq
      have hcourse := hstands.course
      rw [hall] at hcourse
      refine Or.inl ⟨hall, ?_, ⟨point, rfl⟩, hcourse⟩
      rw [← hopen, hmode]
      rfl
    · obtain ⟨later, hlater⟩ := v.acts_prefix_listing w
      have hcourse := hact.course hexpand
      rw [hacts, List.append_assoc, List.singleton_append] at hlater
      rw [hacts] at hcourse
      exact Or.inr ⟨front, j, d, later, cur, p, hlater.symm, hacts, hact, hexpand, hcourse⟩

/-- The scan of the unit includes the noise, injects a segment, and fails below the third of its
directives. -/
theorem scan_acts_on_directive_lines_sample :
    (∃ q, (Sample.reader.root Sample.listed Sample.shelf).Fails Sample.reader Sample.lost q ∧
      Sample.reader.Course 2 "main" { stock := Sample.shelf }
        [(3, .inclusion (some "noise")), (5, .placeholder "#pragma X"),
          (8, .inclusion (some "deep"))] (some Sample.lost) q) ∧
    ∃ later commented,
      Line.Holds Sample.reader.plan 0 false (Text.lines Sample.listed.text.toList)
        ([(3, .inclusion (some "noise")), (5, .placeholder "#pragma X"),
          (8, .inclusion (some "deep"))] ++ later) commented := by
  have hfails : ∃ q, (Sample.reader.unitAt 2 Sample.listed).run { stock := Sample.shelf } =
      .error Sample.lost q := by decide +kernel
  have hacts : (Sample.reader.root Sample.listed Sample.shelf).acts Sample.reader =
      [(3, .inclusion (some "noise")), (5, .placeholder "#pragma X"),
        (8, .inclusion (some "deep"))] := by decide +kernel
  obtain ⟨q, hfails⟩ := hfails
  obtain ⟨ds, commented, hholds, -, hstop⟩ :=
    scan_acts_on_directive_lines Sample.reader (Sample.reader.root Sample.listed Sample.shelf)
  rcases hstop Sample.lost q hfails with ⟨-, -, ⟨point, hfault⟩, -⟩ |
    ⟨front, j, d, later, -, -, hds, hfront, -, -, hcourse⟩
  · cases hfault
  · rw [← hfront, hacts] at hcourse
    refine ⟨⟨q, hfails, hcourse⟩, later, commented, (hholds _ _).mpr ⟨?_, rfl⟩⟩
    rw [hds, ← hacts, hfront, List.append_assoc]
    rfl

end ShaderWeave
