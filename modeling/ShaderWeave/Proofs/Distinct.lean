import ShaderWeave.Proofs.Cycle
import ShaderWeave.Proofs.EntryFile
import ShaderWeave.Proofs.Ownership

/-!
# Distinct origins

A library hands out each of its texts once, so in a pass without segments no two visits
have the same key: a unit that is visited later has a key that was still available when
the units visited before it had ended. As a visit owns its output lines in the order of
its lines, the origins of one key come with rising line numbers, and no origin occurs
twice.

## Main results

- `Visit.Stands.ends_of_calls`: a scan goes on only when a visit it has led to has ended.
- `Weaver.Visited.eq_of_key_eq`: visits of a pass that have one key are one visit.
- `Visit.Runs.pairwise_origins`: origins of one key have rising line numbers.
- `included_once_origins_distinct`: the whole statement for passes that succeed.
-/

namespace ShaderWeave

variable {σ : Type}

namespace Visit

variable {v u : Visit σ} {w : Weaver σ} {j j' i i' : Nat} {s t : Sheet}

/-! ## The lines of one visit -/

/-- A line owns at most one output line. -/
theorem Runs.owns_unique (h : v.Runs w s t) (hi : v.Owns w j i) (hi' : v.Owns w j i') :
    i = i' := by
  obtain ⟨q, a, b, hpasses, _, _⟩ := h.exists_passes hi.1.lt_length
  have hbounds := hpasses.produces_iff.mp hi.1
  have hbounds' := hpasses.produces_iff.mp hi'.1
  rcases hpasses.deals.rows with ⟨line, content, _, _, _, hrows⟩ | ⟨_, hfills⟩
  · have hlength : b.settled.length ≤ a.settled.length + 1 := by
      rw [hrows, List.length_append]
      split <;> simp
    omega
  · obtain ⟨u, hu, hyields⟩ := hfills.covers i hbounds.1 hbounds.2
    exact absurd hyields (hi.2 u hu)

/-- Later output lines of a visit are owned by later lines. -/
theorem Runs.owns_lt (h : v.Runs w s t) (hi : v.Owns w j i) (hi' : v.Owns w j' i')
    (hlt : i < i') : j < j' := by
  rcases Nat.lt_trichotomy j j' with hj | rfl | hj
  · exact hj
  · have heq := h.owns_unique hi hi'
    omega
  · have hback := h.produces_lt hi'.1 hi.1 hj
    omega

/-! ## One visit after the other -/

/-- Of two places that a scan comes to, one is the other or lies ahead of it. -/
theorem Stands.same_or_ahead {done done' rest rest' : List Char} {cur cur' : Cursor}
    {q q' : Pass σ} (h : v.Stands w done rest cur q) (h' : v.Stands w done' rest' cur' q') :
    (done = done' ∧ rest = rest' ∧ cur = cur' ∧ q = q') ∨
      (∃ c mid, done' = done ++ c :: mid) ∨ ∃ c mid, done = done' ++ c :: mid := by
  by_cases hdone : done = done'
  · subst hdone
    obtain rfl := List.append_cancel_left (h.1.symm.trans h'.1)
    exact Or.inl ⟨rfl, rfl, h.unique h'⟩
  · -- both places cut the same text, so what lies in front of one begins the other
    rcases List.prefix_or_prefix_of_prefix ⟨rest, h.1.symm⟩ ⟨rest', h'.1.symm⟩ with
      ⟨mid, rfl⟩ | ⟨mid, rfl⟩
    · obtain ⟨c, mid, rfl⟩ : ∃ c tail, mid = c :: tail :=
        List.exists_cons_of_ne_nil fun hnil => hdone (by rw [hnil, List.append_nil])
      exact Or.inr (Or.inl ⟨c, mid, rfl⟩)
    · obtain ⟨c, mid, rfl⟩ : ∃ c tail, mid = c :: tail :=
        List.exists_cons_of_ne_nil fun hnil => hdone (by rw [hnil, List.append_nil])
      exact Or.inr (Or.inr ⟨c, mid, rfl⟩)

/-- Where a scan has come further than a directive, every visit that the directive has
led to has ended before. -/
theorem Stands.ends_of_calls {done mid rest rest' : List Char} {c : Char} {cur cur' : Cursor}
    {q q' : Pass σ} {d : Directive} (h : v.Stands w done rest cur q)
    (hmode : cur.mode = .lineStart) (hread : Directive.read? w.plan rest = some d)
    (hcalls : w.Calls v.room v.unit.key cur q d u)
    (h' : v.Stands w (done ++ c :: mid) rest' cur' q') :
    ∃ p, u.Ends w p ∧ w.Later p q' := by
  have hrest : rest = c :: (mid ++ rest') := by
    have htext := h.1.symm.trans h'.1
    rw [List.append_assoc] at htext
    exact List.append_cancel_left htext
  obtain ⟨cur₀, q₀, hbefore, hadvance⟩ := h'.split
  rw [List.cons_append, ← hrest] at hbefore
  obtain ⟨rfl, rfl⟩ := h.unique hbefore
  -- the next step expands the directive, and what is read behind it makes changes only
  obtain ⟨cur₁, q₁, hstep, hmid⟩ := WeaveM.run_bind_eq_ok.mp hadvance
  rw [hrest] at hread
  rw [Weaver.step_directive hmode hread] at hstep
  obtain ⟨p, hends, hlater⟩ := hcalls.ends hstep
  refine ⟨p, hends, hlater.trans ?_⟩
  rw [← WeaveM.leaves_of_ok hmid]
  exact Weaver.advances_advance (w.advances_below v.room) cur₁ mid rest' q₁

end Visit

/-! ## Visits to the units of a library -/

/-- Without segments the only directive that leads to a visit is an inclusion for which the
supplier hands out a unit. -/
theorem Weaver.Calls.exists_inclusion {w : Weaver σ} (hplan : w.plan.segments = [])
    {room : Nat} {key : String} {cur : Cursor} {q : Pass σ} {d : Directive} {u : Visit σ}
    (h : w.Calls room key cur q d u) :
    ∃ path inner room', d = .inclusion (some path) ∧ room = room' + 1 ∧
      (w.supplier.request q.stock path).1 = .fresh inner ∧
      u = ⟨room', inner,
        (w.asked q path).told (.expanding ⟨key, cur.line + 1⟩ path inner.key)⟩ := by
  cases h with
  | inclusion hroom hreply => exact ⟨_, _, _, rfl, hroom, hreply, rfl⟩
  | placeholder hstarts =>
    obtain ⟨-, hsegments, -⟩ := hstarts
    simp [Plan.segmentsFor_eq, hplan] at hsegments

/-- So it leads to one visit only. -/
theorem Weaver.Calls.unique {w : Weaver σ} (hplan : w.plan.segments = []) {room : Nat}
    {key : String} {cur : Cursor} {q : Pass σ} {d : Directive} {u u' : Visit σ}
    (h : w.Calls room key cur q d u) (h' : w.Calls room key cur q d u') : u = u' := by
  obtain ⟨path, inner, room₁, rfl, hroom, hreply, rfl⟩ := h.exists_inclusion hplan
  obtain ⟨path', inner', room₁', hd, hroom', hreply', rfl⟩ := h'.exists_inclusion hplan
  cases hd
  obtain rfl := Nat.succ.inj (hroom.symm.trans hroom')
  obtain rfl := Reply.fresh.inj (hreply.symm.trans hreply')
  rfl

section

variable {w : Weaver Library} (hlib : w.supplier = Library.supplier)
  (hplan : w.plan.segments = []) {v u u' x x' : Visit Library}
include hlib hplan

/-- The key of a unit that a directive leads to is available until then, and no longer. -/
theorem Weaver.Calls.key_available {room : Nat} {key : String} {cur : Cursor}
    {q : Pass Library} {d : Directive} (h : w.Calls room key cur q d u) :
    u.unit.key ∈ q.stock.available ∧ u.unit.key ∉ u.pass.stock.available ∧ w.Later q u.pass := by
  obtain ⟨path, inner, room', -, -, hreply, rfl⟩ := h.exists_inclusion hplan
  rw [hlib] at hreply
  obtain ⟨rfl, havailable⟩ := Library.mem_available_of_fresh hreply
  have hgone : inner.key ∉ (w.asked q inner.key).stock.available := by
    rw [available_asked hlib]
    exact Finset.notMem_erase inner.key _
  exact ⟨havailable, hgone, .tail (.single (.request inner.key)) (.report _)⟩

theorem Visit.Enters.key_available {j : Nat} (h : v.Enters w j u) :
    u.unit.key ∈ v.pass.stock.available ∧ u.unit.key ∉ u.pass.stock.available ∧
      w.Later v.pass u.pass := by
  obtain ⟨done, rest, cur, q, d, hstands, -, -, -, hcalls⟩ := h
  obtain ⟨havailable, hgone, hlater⟩ := hcalls.key_available hlib hplan
  exact ⟨hstands.later.available_subset hlib havailable, hgone, hstands.later.trans hlater⟩

namespace Weaver

/-- Whatever a visit leads to has a key that was available when the visit began. -/
theorem Visited.eq_or_key_available (h : w.Visited v u) :
    u = v ∨ u.unit.key ∈ v.pass.stock.available ∧ u.unit.key ∉ u.pass.stock.available := by
  induction h using Relation.ReflTransGen.head_induction_on with
  | refl => exact Or.inl rfl
  | head henters _ ih =>
    obtain ⟨j, henters⟩ := henters
    obtain ⟨havailable, hgone, hlater⟩ := henters.key_available hlib hplan
    rcases ih with rfl | ⟨hbelow, hgone'⟩
    · exact Or.inr ⟨havailable, hgone⟩
    · exact Or.inr ⟨hlater.available_subset hlib hbelow, hgone'⟩

/-- When a visit has ended, the keys of all that it has led to are gone. -/
theorem Visited.key_notMem_of_ends (h : w.Visited v u)
    (hv : v.unit.key ∉ v.pass.stock.available) {p : Pass Library} (hends : v.Ends w p) :
    u.unit.key ∉ p.stock.available := by
  obtain ⟨q, hends', hlater⟩ := h.ends hends
  have hgone : u.unit.key ∉ u.pass.stock.available := by
    rcases h.eq_or_key_available hlib hplan with rfl | ⟨-, hgone⟩
    · exact hv
    · exact hgone
  exact fun hmem => hgone (hends'.later.available_subset hlib
    (hlater.available_subset hlib hmem))

/-- What two directives of one unit lead to has different keys: the first visit has ended
before the second directive is reached. -/
theorem key_ne_of_stands {done mid rest rest' : List Char} {c : Char} {cur cur' : Cursor}
    {q q' : Pass Library} {d d' : Directive} (h : v.Stands w done rest cur q)
    (hmode : cur.mode = .lineStart) (hread : Directive.read? w.plan rest = some d)
    (hcalls : w.Calls v.room v.unit.key cur q d x)
    (h' : v.Stands w (done ++ c :: mid) rest' cur' q')
    (hcalls' : w.Calls v.room v.unit.key cur' q' d' x') (hu : w.Visited x u)
    (hu' : w.Visited x' u') : u.unit.key ≠ u'.unit.key := by
  obtain ⟨p, hends, hlater⟩ := h.ends_of_calls hmode hread hcalls h'
  obtain ⟨-, hgone, -⟩ := hcalls.key_available hlib hplan
  obtain ⟨havailable', -, hlater'⟩ := hcalls'.key_available hlib hplan
  have hfirst : u.unit.key ∉ p.stock.available := hu.key_notMem_of_ends hlib hplan hgone hends
  have hsecond : u'.unit.key ∈ q'.stock.available := by
    rcases hu'.eq_or_key_available hlib hplan with rfl | ⟨hbelow, -⟩
    · exact havailable'
    · exact hlater'.available_subset hlib hbelow
  intro hkey
  exact hfirst (hkey ▸ hlater.available_subset hlib hsecond)

/-- Visits that have one key are one visit, if the key of the first unit is not available. -/
theorem Visited.eq_of_key_eq (hv : v.unit.key ∉ v.pass.stock.available) (hu : w.Visited v u)
    (hu' : w.Visited v u') (hkey : u.unit.key = u'.unit.key) : u = u' := by
  induction hu using Relation.ReflTransGen.head_induction_on with
  | refl =>
    rcases hu'.eq_or_key_available hlib hplan with rfl | ⟨havailable, -⟩
    · rfl
    · exact absurd (hkey ▸ havailable) hv
  | @head v x henters hdown ih =>
    rcases hu'.cases_head with rfl | ⟨x', ⟨k', hx'⟩, hdown'⟩
    · rcases Visited.eq_or_key_available hlib hplan (.head henters hdown) with rfl |
        ⟨havailable, -⟩
      · rfl
      · exact absurd (hkey ▸ havailable) hv
    · -- the directives stand at one place, or one of them is passed before the other
      obtain ⟨k, done, rest, cur, q, d, hstands, hmode, -, hread, hcalls⟩ := henters
      obtain ⟨done', rest', cur', q', d', hstands', hmode', -, hread', hcalls'⟩ := hx'
      rcases hstands.same_or_ahead hstands' with ⟨rfl, rfl, rfl, rfl⟩ | ⟨c, mid, rfl⟩ |
        ⟨c, mid, rfl⟩
      · rw [hread] at hread'
        cases hread'
        obtain rfl := hcalls.unique hplan hcalls'
        exact ih (hcalls.key_available hlib hplan).2.1 hdown'
      · exact absurd hkey (key_ne_of_stands hlib hplan hstands hmode hread hcalls hstands'
          hcalls' hdown hdown')
      · exact absurd hkey.symm (key_ne_of_stands hlib hplan hstands' hmode' hread' hcalls'
          hstands hcalls hdown' hdown)

end Weaver

/-! ## The origins of a pass -/

/-- Origins of one key come with rising line numbers. -/
theorem Visit.Runs.pairwise_origins {s t : Sheet} (h : v.Runs w s t) (hs : s.settled = [])
    (hv : v.unit.key ∉ v.pass.stock.available) :
    t.output.origins.toList.Pairwise fun l l' => l.key = l'.key → l.line < l'.line := by
  -- an origin is the key and the line of its owner
  have howner : ∀ i l, t.output.origins.toList[i]? = some l →
      ∃ u j, w.Visited v u ∧ u.Owns w j i ∧ l = ⟨u.unit.key, j + 1⟩ := by
    intro i l hl
    rw [t.toList_origins, List.getElem?_map] at hl
    obtain ⟨row, hrow, rfl⟩ := Option.map_eq_some_iff.mp hl
    have hlt := (List.getElem?_eq_some_iff.mp hrow).1
    obtain ⟨u, j, hu, hi⟩ := h.exists_owner (h.yields_iff.mpr ⟨by simp [hs], hlt⟩)
    obtain ⟨_, _, _, _, _, _, _, _, hrow'⟩ := (h.within_of_visited hu).exists_row hi
    rw [hrow] at hrow'
    cases hrow'
    exact ⟨u, j, hu, hi, rfl⟩
  rw [List.pairwise_iff_getElem]
  intro i i' hi hi' hlt hkey
  obtain ⟨u, j, hu, howns, hl⟩ := howner i _ (List.getElem?_eq_getElem hi)
  obtain ⟨u', j', hu', howns', hl'⟩ := howner i' _ (List.getElem?_eq_getElem hi')
  rw [hl, hl'] at hkey ⊢
  obtain rfl := Weaver.Visited.eq_of_key_eq hlib hplan hv hu hu' hkey
  obtain ⟨_, _, hruns, _, _⟩ := h.within_of_visited hu
  exact Nat.succ_lt_succ (hruns.owns_lt howns howns' hlt)

/-- A visit that begins with an empty output, and ends with success, leaves distinct
origins. -/
theorem Visit.Ends.pairwise_origins {p : Pass Library} (h : v.Ends w p)
    (hv : v.unit.key ∉ v.pass.stock.available) (hempty : v.pass.output = {}) :
    p.output.origins.toList.Pairwise fun l l' => l.key = l'.key → l.line < l'.line := by
  have hfresh : ({} : Sheet).Fresh := Sheet.fresh_of_tail_eq_nil rfl
  obtain ⟨t, hruns⟩ := v.sound w {} p hempty.symm hfresh h
  obtain ⟨p', hends', ht⟩ := hruns.ends
  obtain rfl := h.unique hends'
  rw [← ht]
  exact hruns.pairwise_origins hlib hplan rfl hv

end

/-- Without segments, a pass over a file of a library, or over a unit whose key the library
does not have, leaves an output in which no origin occurs twice. For every key the line
numbers rise from the first output line to the last. -/
theorem included_once_origins_distinct (lib : Library) (limit : Nat) (output : Output)
    (pass : Pass Library) :
    let w : Weaver Library :=
      { supplier := Library.supplier, plan := Inventory.empty.plan, limit := limit }
    ((∃ path, w.weaveFile path lib = .ok output pass) ∨
      ∃ unit, lib.text? unit.key = none ∧ w.weave unit lib = .ok output pass) →
    output.origins.toList.Nodup ∧
      ∀ key, ((output.origins.toList.filter (·.key = key)).map (·.line)).Pairwise (· < ·) := by
  intro w h
  have hpairwise :
      output.origins.toList.Pairwise fun l l' => l.key = l'.key → l.line < l'.line := by
    rcases h with ⟨path, h⟩ | ⟨unit, hkey, h⟩
    · rcases Weaver.weaveFile_eq_ok h with rfl | ⟨unit, p, hreply, hends, rfl⟩
      · exact List.Pairwise.nil
      · -- the key of the entry has been taken away by the request for it
        have hgone : path ∉ (w.asked { stock := lib } path).stock.available := by
          rw [Weaver.available_asked rfl]
          exact Finset.notMem_erase path _
        obtain ⟨rfl, -⟩ := Library.mem_available_of_fresh hreply
        exact hends.pairwise_origins rfl rfl hgone rfl
    · obtain ⟨p, hends, rfl, -⟩ := Weaver.weave_eq_ok h
      have hgone : unit.key ∉ lib.available := fun hmem => (Library.mem_available.mp hmem).1 hkey
      exact hends.pairwise_origins rfl rfl hgone rfl
  constructor
  · refine hpairwise.imp ?_
    rintro l _ hrise rfl
    exact absurd (hrise rfl) (Nat.lt_irrefl _)
  · intro key
    rw [List.pairwise_map]
    refine (hpairwise.filter _).imp_of_mem ?_
    intro l l' hl hl' hrise
    have hkey := (List.mem_filter.mp hl).2
    have hkey' := (List.mem_filter.mp hl').2
    exact hrise ((of_decide_eq_true hkey).trans (of_decide_eq_true hkey').symm)

namespace Sample

/-- Two texts that include each other, the first of which includes itself too, and one that
is empty. -/
def knot : Library :=
  .ofList [("a", "x;\n  #include \"b\"\n#include \"a\"\ny;"),
    ("b", "#include \"a\"\nu;\n\t#include \"c\"\nv;"), ("c", "")]

/-- The empty text owns the line on which it is included behind white space. -/
def knotted : Output where
  text := "x;\n  \nu;\n\t\nv;\n\ny;"
  origins := #[⟨"a", 1⟩, ⟨"b", 1⟩, ⟨"b", 2⟩, ⟨"c", 1⟩, ⟨"b", 4⟩, ⟨"a", 3⟩, ⟨"a", 4⟩]
  closed := 6

end Sample

theorem included_once_origins_distinct_sample :
    ∃ pass, Sample.gatherer.weaveFile "a" Sample.knot = .ok Sample.knotted pass ∧
      Sample.knotted.origins.toList.Nodup ∧
      ((Sample.knotted.origins.toList.filter (·.key = "b")).map (·.line)).Pairwise (· < ·) := by
  have hok : ∃ pass, Sample.gatherer.weaveFile "a" Sample.knot = .ok Sample.knotted pass := by
    decide +kernel
  obtain ⟨pass, hok⟩ := hok
  obtain ⟨hnodup, hrise⟩ :=
    included_once_origins_distinct Sample.knot 3 Sample.knotted pass (Or.inl ⟨"a", hok⟩)
  exact ⟨pass, hok, hnodup, hrise "b"⟩

end ShaderWeave
