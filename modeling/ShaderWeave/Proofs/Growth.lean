import Mathlib.Data.List.Induction
import ShaderWeave.Proofs.Sheet
import ShaderWeave.Proofs.Visit

/-!
# How directives grow an output

A visit that begins behind white space which nobody owns adds whole rows to the
output: every line that it begins has an owner when it ends. None of the rows
holds a directive, and block comments that begin in them end in them. Here this
is carried from the visits that a directive leads to over to the directive.

## Main definitions

- `Sheet.Grows`: rows without directives are settled behind those of a sheet.
- `Visit.Runs`, `Visit.Sound`: a visit leads from one sheet to another.
- `Weaver.Fills`: the rows between two sheets come from visits, each from one.

## Main results

- `Weaver.inject_fills`: segments fill the rows that they add.
- `Weaver.expand_cases`: what comes of a directive, if the visits it leads to are
  sound.
-/

namespace ShaderWeave

variable {σ : Type}

/-- Behind the rows of `s` the sheet `t` has settled rows that hold no directive.
The flags tell whether a block comment is open in front of and behind them. -/
def Sheet.Grows (plan : Plan) (commented commented' : Bool) (s t : Sheet) : Prop :=
  ∃ rows, t.settled = s.settled ++ rows ∧
    Line.quiet plan commented (rows.map Row.content) = some commented'

theorem Sheet.grows_of_settled_eq {plan : Plan} {s t : Sheet} (h : t.settled = s.settled)
    (commented : Bool) : s.Grows plan commented commented t :=
  ⟨[], by simp [h], rfl⟩

theorem Sheet.Grows.trans {plan : Plan} {a b c : Bool} {s t u : Sheet} (hst : s.Grows plan a b t)
    (htu : t.Grows plan b c u) : s.Grows plan a c u := by
  obtain ⟨rows, hrows, hquiet⟩ := hst
  obtain ⟨rows', hrows', hquiet'⟩ := htu
  refine ⟨rows ++ rows', by rw [hrows', hrows, List.append_assoc], ?_⟩
  rw [List.map_append, Line.quiet_append, hquiet]
  exact hquiet'

theorem Sheet.Grows.settled_prefix {plan : Plan} {a b : Bool} {s t : Sheet}
    (h : s.Grows plan a b t) : s.settled <+: t.settled := by
  obtain ⟨rows, hrows, _⟩ := h
  exact ⟨rows, hrows.symm⟩

theorem Sheet.grows_of_row {plan : Plan} {commented : Bool} {s t : Sheet} {row : Row}
    (h : t.settled = s.settled ++ [row])
    (hrow : Line.directive? plan commented row.content = none) :
    s.Grows plan commented (Line.commentAfter commented row.content) t :=
  ⟨[row], h, Line.quiet_singleton hrow⟩

/-- The visit begins on the sheet `s`, behind white space that nobody owns, and
ends with success on the sheet `t`, having settled all it has begun. -/
structure Visit.Runs (v : Visit σ) (w : Weaver σ) (s t : Sheet) : Prop where
  start : s.output = v.pass.output
  fresh : s.Fresh
  ends : ∃ q, v.Ends w q ∧ t.output = q.output
  owned : t.Owned
  grows : s.Grows w.plan false false t

/-- Every start behind white space that nobody owns, with an end in success, is a
run from one sheet to another. -/
def Visit.Sound (v : Visit σ) (w : Weaver σ) : Prop :=
  ∀ s q, s.output = v.pass.output → s.Fresh → v.Ends w q → ∃ t, v.Runs w s t

/-- Output lines between the sheets of a run are those that the visit yields. -/
theorem Visit.Runs.yields_iff {v : Visit σ} {w : Weaver σ} {s t : Sheet} (h : v.Runs w s t)
    {i : Nat} : v.Yields w i ↔ s.settled.length ≤ i ∧ i < t.settled.length := by
  obtain ⟨q, hends, hq⟩ := h.ends
  rw [← s.size_origins, ← t.size_origins, h.start, hq]
  constructor
  · rintro ⟨q', hends', hle, hlt⟩
    obtain rfl := hends.unique hends'
    exact ⟨hle, hlt⟩
  · rintro ⟨hle, hlt⟩
    exact ⟨q, hends, hle, hlt⟩

/-- The visit runs, and its rows lie behind those of `s` and among those of `t`. -/
def Visit.Within (v : Visit σ) (w : Weaver σ) (s t : Sheet) : Prop :=
  ∃ s' t', v.Runs w s' t' ∧ s.settled <+: s'.settled ∧ t'.settled <+: t.settled

theorem Visit.Within.of_yields {v : Visit σ} {w : Weaver σ} {s t : Sheet} (h : v.Within w s t)
    {i : Nat} (hi : v.Yields w i) : s.settled.length ≤ i ∧ i < t.settled.length := by
  obtain ⟨s', t', hruns, hs, ht⟩ := h
  have hs := hs.length_le
  have ht := ht.length_le
  have hi := hruns.yields_iff.mp hi
  omega

namespace Weaver

variable {w : Weaver σ} {room : Nat} {key : String} {site : Location} {column : Nat}
  {p q q' : Pass σ} {s : Sheet}

/-! ## Segments -/

theorem separate_grows (hs : s.output = q.output) (howned : s.Owned)
    (h : (separate site column).run q = .ok () q') :
    ∃ t : Sheet, t.output = q'.output ∧ t.Fresh ∧ t.settled = s.settled := by
  cases h
  have hpad : '\n' ∉ List.replicate column ' ' := by simp [List.mem_replicate]
  have hspace : ∀ c ∈ List.replicate column ' ', Text.isSpace c := by
    intro c hc
    rw [List.eq_of_mem_replicate hc]
    decide
  obtain ⟨t, ht, htail, hsettled⟩ := Sheet.exists_ended howned site
  have hnone := t.owner_eq_none htail
  refine ⟨t.write _ hpad, ?_, (Sheet.fresh_of_tail_eq_nil htail).write hspace hpad,
    (t.settled_write hnone hpad).trans hsettled⟩
  rw [t.output_write hpad, ht, hs]

/-- Every row between the sheets `s` and `t` comes from one of the visits, and
from one only. -/
structure Fills (w : Weaver σ) (entered : Visit σ → Prop) (s t : Sheet) : Prop where
  grows : s.Grows w.plan false false t
  within : ∀ u, entered u → u.Within w s t
  covers : ∀ i, s.settled.length ≤ i → i < t.settled.length → ∃ u, entered u ∧ u.Yields w i
  apart : ∀ u u' i, entered u → entered u' → u.Yields w i → u'.Yields w i → u = u'

theorem fills_none {entered : Visit σ → Prop} (h : ∀ u, ¬ entered u) (s : Sheet) :
    w.Fills entered s s where
  grows := Sheet.grows_of_settled_eq rfl false
  within u hu := absurd hu (h u)
  covers i hi hi' := by omega
  apart u _ _ hu := absurd hu (h u)

theorem Fills.congr {entered entered' : Visit σ → Prop} {s s' t t' : Sheet}
    (h : w.Fills entered s t) (hentered : ∀ u, entered' u ↔ entered u)
    (hs : s.settled = s'.settled) (ht : t'.settled = t.settled) : w.Fills entered' s' t' where
  grows := ((Sheet.grows_of_settled_eq hs false).trans h.grows).trans
    (Sheet.grows_of_settled_eq ht false)
  within u hu := by
    obtain ⟨s₁, t₁, hruns, hs₁, ht₁⟩ := h.within u ((hentered u).mp hu)
    exact ⟨s₁, t₁, hruns, hs ▸ hs₁, ht ▸ ht₁⟩
  covers i hi hi' := by
    obtain ⟨u, hu, hyields⟩ := h.covers i (hs ▸ hi) (ht ▸ hi')
    exact ⟨u, (hentered u).mpr hu, hyields⟩
  apart u u' i hu hu' := h.apart u u' i ((hentered u).mp hu) ((hentered u').mp hu')

/-- Visits fill the rows, and behind them a further visit runs. -/
theorem Fills.concat {entered : Visit σ → Prop} {s t t' : Sheet} {v : Visit σ}
    (h : w.Fills entered s t) (hruns : v.Runs w t t') :
    w.Fills (fun u => entered u ∨ u = v) s t' where
  grows := h.grows.trans hruns.grows
  within := by
    rintro u (hu | rfl)
    · obtain ⟨s₁, t₁, hruns₁, hs₁, ht₁⟩ := h.within u hu
      exact ⟨s₁, t₁, hruns₁, hs₁, ht₁.trans hruns.grows.settled_prefix⟩
    · exact ⟨t, t', hruns, h.grows.settled_prefix, List.prefix_refl _⟩
  covers := by
    intro i hi hi'
    by_cases hlt : i < t.settled.length
    · obtain ⟨u, hu, hyields⟩ := h.covers i hi hlt
      exact ⟨u, Or.inl hu, hyields⟩
    · exact ⟨v, Or.inr rfl, hruns.yields_iff.mpr ⟨by omega, hi'⟩⟩
  apart := by
    -- the rows of the further visit begin where those of the others end
    have hapart : ∀ u i, entered u → u.Yields w i → ¬ v.Yields w i := by
      intro u i hu hi hi'
      have hlt := ((h.within u hu).of_yields hi).2
      have hle := (hruns.yields_iff.mp hi').1
      omega
    rintro u u' i (hu | rfl) (hu' | rfl) hi hi'
    · exact h.apart u u' i hu hu' hi hi'
    · exact absurd hi' (hapart u i hu hi)
    · exact absurd hi (hapart u' i hu' hi')
    · rfl

/-- The visits of several segments are those of all but the last, and the last. -/
theorem starts_concat {segments : List Segment} {x : Segment} {room' : Nat} {u : Visit σ}
    (hroom : room = room' + 1)
    (hbegun : (leadIn (w.below room) site column segments).run q = .ok () p) :
    w.Starts room site column q (segments ++ [x]) u ↔
      w.Starts room site column q segments u ∨ u = ⟨room', x.unit column, p⟩ := by
  constructor
  · rintro ⟨hroom₁, hsegments, hbegun₁⟩
    next front others s room₁ q₁ =>
    obtain rfl : room₁ = room' := by omega
    -- a visit with no segment behind it is that of the last segment
    rcases List.eq_nil_or_concat' others with rfl | ⟨others, y, rfl⟩
    · obtain ⟨rfl, hlast⟩ := List.append_inj' hsegments rfl
      cases hlast
      have heq := hbegun.symm.trans hbegun₁
      cases heq
      exact Or.inr rfl
    · rw [← List.cons_append, ← List.append_assoc] at hsegments
      exact Or.inl (.intro hroom (List.append_inj' hsegments rfl).1 hbegun₁)
  · rintro (⟨hroom₁, hsegments, hbegun₁⟩ | rfl)
    · exact .intro hroom₁ (by rw [hsegments, List.append_assoc, List.cons_append]) hbegun₁
    · exact .intro hroom rfl hbegun

theorem inject_concat_fills (hsound : ∀ u : Visit σ, u.room < room → u.Sound w)
    {segments : List Segment} {x : Segment}
    (hfront : ∀ p, (leadIn (w.below room) site column segments).run q = .ok () p →
      ∃ t : Sheet, t.output = p.output ∧ t.Fresh ∧
        w.Fills (w.Starts room site column q segments) s t)
    (h : (inject (w.below room) site column (segments ++ [x])).run q = .ok () q') :
    ∃ t : Sheet, t.output = q'.output ∧ t.Owned ∧
      w.Fills (w.Starts room site column q (segments ++ [x])) s t := by
  rw [inject_append, WeaveM.run_bind_eq_ok] at h
  obtain ⟨_, p, hbegun, h⟩ := h
  obtain ⟨_, _, hbelow, hnone⟩ := WeaveM.run_bind_eq_ok.mp h
  cases hnone
  obtain ⟨t, ht, hfresh, hfills⟩ := hfront p hbegun
  obtain ⟨room', hroom, hends⟩ := below_eq_ok.mp hbelow
  obtain ⟨t', hruns⟩ := hsound ⟨room', x.unit column, p⟩ (by simp [hroom]) t q' ht hfresh hends
  obtain ⟨q₁, hends₁, hq₁⟩ := hruns.ends
  obtain rfl := hends.unique hends₁
  exact ⟨t', hq₁, hruns.owned,
    (hfills.concat hruns).congr (fun u => starts_concat hroom hbegun) rfl rfl⟩

/-- Making room for a further segment adds no row to those of the segments. -/
theorem leadIn_fills (hsound : ∀ u : Visit σ, u.room < room → u.Sound w)
    (hs : s.output = q.output) (hfresh : s.Fresh) {segments : List Segment}
    (h : (leadIn (w.below room) site column segments).run q = .ok () q') :
    ∃ t : Sheet, t.output = q'.output ∧ t.Fresh ∧
      w.Fills (w.Starts room site column q segments) s t := by
  induction segments using List.reverseRecOn generalizing q' with
  | nil =>
    cases h
    refine ⟨s, hs, hfresh, fills_none ?_ s⟩
    rintro u ⟨-, hnil, -⟩
    simp at hnil
  | append_singleton segments x ih =>
    -- the last segment begins where the room made behind the others ends
    rw [leadIn, if_neg (by simp)] at h
    obtain ⟨_, q₁, hinject, hseparate⟩ := WeaveM.run_bind_eq_ok.mp h
    obtain ⟨t, ht, howned, hfills⟩ := inject_concat_fills hsound (fun p => ih) hinject
    obtain ⟨t', ht', hfresh', hsettled⟩ := separate_grows ht howned hseparate
    exact ⟨t', ht', hfresh', hfills.congr (fun _ => Iff.rfl) rfl hsettled⟩

/-- One or more segments fill the rows that they add, and settle all they begin. -/
theorem inject_fills (hsound : ∀ u : Visit σ, u.room < room → u.Sound w)
    (hs : s.output = q.output) (hfresh : s.Fresh) {segments : List Segment} (hne : segments ≠ [])
    (h : (inject (w.below room) site column segments).run q = .ok () q') :
    ∃ t : Sheet, t.output = q'.output ∧ t.Owned ∧
      w.Fills (w.Starts room site column q segments) s t := by
  rcases List.eq_nil_or_concat' segments with rfl | ⟨front, x, rfl⟩
  · exact absurd rfl hne
  · exact inject_concat_fills hsound (fun p => leadIn_fills hsound hs hfresh) h

/-! ## Directives -/

theorem segmentsFor_ne_nil {plan : Plan} {text : List Char} {name : String}
    (h : Directive.read? plan text = some (.placeholder name)) : plan.segmentsFor name ≠ [] := by
  cases text with
  | nil => cases h
  | cons c rest =>
    simp only [Directive.read?] at h
    split_ifs at h with hplain hinclusion
    · cases h
    · obtain ⟨name', hat, heq⟩ := Option.map_eq_some_iff.mp h
      cases heq
      rw [Plan.placeholderAt?_eq] at hat
      split_ifs at hat with hany
      · cases hat
        obtain ⟨s, hs, hname⟩ := List.any_eq_true.mp hany.2
        rw [Plan.segmentsFor_eq]
        exact List.ne_nil_of_mem (List.mem_filter.mpr ⟨hs, hname⟩)

/-- An expansion either drops a repeated inclusion, and then nothing is written
and no unit visited, or it puts whole rows in the place of the directive. -/
theorem expand_cases (hsound : ∀ u : Visit σ, u.room < room → u.Sound w)
    (hs : s.output = q.output) (hfresh : s.Fresh) {cur cur' : Cursor} {d : Directive}
    {text : List Char} (hread : Directive.read? w.plan text = some d)
    (h : (w.expand (w.below room) key cur d).run q = .ok cur' q') :
    (∃ path, d = .inclusion (some path) ∧ (w.supplier.request q.stock path).1 = .repeated ∧
      cur' = { cur with mode := .directive false, line := cur.line + 1 } ∧
      s.output = q'.output ∧ ∀ u, ¬ w.Calls room key cur q d u) ∨
    ∃ t : Sheet, cur' = { cur with mode := .directive true, line := cur.line + 1 } ∧
      t.output = q'.output ∧ t.Owned ∧ w.Fills (w.Calls room key cur q d) s t := by
  rcases expand_eq_ok h with ⟨path, rfl, hreply, hcur, rfl⟩ |
    ⟨path, inner, room', rfl, hroom, hreply, hcur, hends⟩ | ⟨name, q₁, rfl, hcur, hinject, rfl⟩
  · refine Or.inl ⟨path, rfl, hreply, hcur, hs, ?_⟩
    rintro u ⟨-, hfreshReply⟩
    rw [hreply] at hfreshReply
    cases hfreshReply
  · refine Or.inr ?_
    obtain ⟨t, hruns⟩ := hsound _ (by simp [hroom]) s q' hs hfresh hends
    obtain ⟨q₁, hends₁, hq₁⟩ := hruns.ends
    obtain rfl := hends.unique hends₁
    have hfills := (fills_none (fun _ => not_false) s).concat hruns
    refine ⟨t, hcur, hq₁, hruns.owned, hfills.congr (fun u => ?_) rfl rfl⟩
    constructor
    · rintro ⟨hroom₁, hreply₁⟩
      rw [hreply] at hreply₁
      cases hreply₁
      next room₁ =>
      obtain rfl : room₁ = room' := by omega
      exact Or.inr rfl
    · rintro (hfalse | rfl)
      · exact hfalse.elim
      · exact .inclusion hroom hreply
  · refine Or.inr ?_
    obtain ⟨t, ht, howned, hfills⟩ :=
      inject_fills hsound hs hfresh (segmentsFor_ne_nil hread) hinject
    refine ⟨t, hcur, ht, howned, hfills.congr (fun u => ?_) rfl rfl⟩
    constructor
    · intro hcalls
      cases hcalls with
      | placeholder hstarts => exact hstarts
    · intro hstarts
      exact .placeholder hstarts

end Weaver

end ShaderWeave
