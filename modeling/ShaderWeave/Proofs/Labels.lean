import ShaderWeave.Proofs.EntryFile
import ShaderWeave.Proofs.Grouping

/-!
# Labels

The keys of units, the names of segments and the causes of failed requests are labels: a
pass hands them on to the origins, events and faults, and looks at none of them. So two
passes whose texts are the same go the same way, whatever their labels are. They write
the same text with the same line numbers, or fail in the same way on the same lines.

## Main definitions

- `Supplier.after`: the state of a supplier after several requests.
- `Reply.SameButLabels`, `Segment.SameButName`, `Fault.SameButLabels`: what may differ.
- `Pass.SameButLabels`, `Likeness.labels`: passes that differ in labels only.

## Main results

- `Plan.arrange_sameButName`: the emission order does not depend on names.
- `Likeness.lawful_labels`: labels make no difference to any change.
- `labels_never_influence_text`: nor do they to a pass.
-/

namespace ShaderWeave

variable {σ τ : Type}

/-! ## What may differ -/

/-- The state of a supplier after it has been asked for the paths, one after the other. -/
def Supplier.after (supplier : Supplier σ) (stock : σ) (paths : List String) : σ :=
  paths.foldl (fun stock path => (supplier.request stock path).2) stock

/-- The replies differ in the key of the unit, or in the cause, at most. -/
def Reply.SameButLabels : Reply → Reply → Prop :=
  Reply.Like (fun _ _ => True) (fun _ _ => True)

/-- The faults are of one kind, and so are all faults they wrap; they name the same lines,
path, point and limit. Keys and causes may differ. -/
def Fault.SameButLabels : Fault → Fault → Prop :=
  Fault.Like (fun _ _ => True) (fun _ _ => True) Eq

/-- The segments differ in their names at most. -/
structure Segment.SameButName (s s' : Segment) : Prop where
  placeholder : s.placeholder = s'.placeholder
  snippet : s.snippet = s'.snippet
  priority : s.priority = s'.priority

/-! ## Plans -/

theorem Segment.SameButName.before_iff {s s' t t' : Segment} (hs : s.SameButName s')
    (ht : t.SameButName t') : s.Before t ↔ s'.Before t' := by
  simp only [Before, hs.placeholder, hs.priority, ht.placeholder, ht.priority]

namespace Plan

variable {s s' : Segment} {ss ss' : List Segment}

theorem place_sameButName (hs : s.SameButName s')
    (h : List.Forall₂ Segment.SameButName ss ss') :
    List.Forall₂ Segment.SameButName (place Segment.Before s ss) (place Segment.Before s' ss') := by
  induction h with
  | nil => exact .cons hs .nil
  | @cons t t' ts ts' ht hts ih =>
    unfold place
    by_cases hbefore : t.Before s
    · rw [if_pos hbefore, if_pos ((ht.before_iff hs).mp hbefore)]
      exact .cons ht ih
    · rw [if_neg hbefore, if_neg (mt (ht.before_iff hs).mpr hbefore)]
      exact .cons hs (.cons ht hts)

/-- The emission order does not depend on the names of segments. -/
theorem arrange_sameButName (h : List.Forall₂ Segment.SameButName ss ss') :
    List.Forall₂ Segment.SameButName (arrange Segment.Before ss) (arrange Segment.Before ss') := by
  induction h with
  | nil => exact .nil
  | cons hs _ ih => exact place_sameButName hs ih

theorem any_sameButName (h : List.Forall₂ Segment.SameButName ss ss') (name : String) :
    ss.any (·.placeholder.name == name) = ss'.any (·.placeholder.name == name) := by
  induction h with
  | nil => rfl
  | cons hs _ ih => rw [List.any_cons, List.any_cons, hs.placeholder, ih]

variable {plan plan' : Plan} (h : List.Forall₂ Segment.SameButName plan.segments plan'.segments)
include h

theorem segmentsFor_sameButName (name : String) :
    List.Forall₂ Segment.SameButName (plan.segmentsFor name) (plan'.segmentsFor name) := by
  rw [segmentsFor_eq, segmentsFor_eq]
  refine List.rel_filter ?_ h
  intro s s' hs
  simp only [hs.placeholder]

theorem read?_sameButName (text : List Char) :
    Directive.read? plan text = Directive.read? plan' text := by
  have hplaceholder : plan.placeholderAt? text = plan'.placeholderAt? text := by
    simp only [placeholderAt?_eq, any_sameButName h]
  unfold Directive.read?
  rw [hplaceholder]

end Plan

/-! ## Outputs -/

/-- The outputs have the same text, and origins on the same lines. -/
structure Output.SameButLabels (o o' : Output) : Prop where
  text : o.text = o'.text
  lines : o.origins.map (·.line) = o'.origins.map (·.line)
  closed : o.closed = o'.closed

namespace Output.SameButLabels

variable {o o' : Output} (h : o.SameButLabels o') {l l' : Location} (hl : l.line = l'.line)
include h

theorem isMidLine : o.isMidLine = o'.isMidLine := by
  rw [Output.isMidLine, Output.isMidLine, h.text]

theorem pushText (text : String) : (o.pushText text).SameButLabels (o'.pushText text) :=
  ⟨by rw [text_pushText, text_pushText, h.text], h.lines, h.closed⟩

include hl

theorem own : (o.own l).SameButLabels (o'.own l') := by
  have hsize : o.origins.size = o'.origins.size := by
    simpa using congrArg Array.size h.lines
  unfold Output.own
  rw [hsize, h.closed]
  split
  · refine ⟨h.text, ?_, h.closed⟩
    simp only [addOrigin, Array.map_push, h.lines, hl]
  · exact h

theorem endLine : (o.endLine l).SameButLabels (o'.endLine l') := by
  have howned := h.own hl
  refine ⟨?_, howned.lines, ?_⟩
  · rw [text_endLine, text_endLine, h.text]
  · rw [closed_endLine, closed_endLine, h.closed]

theorem flush : (o.flush l).SameButLabels (o'.flush l') := by
  unfold Output.flush
  rw [h.isMidLine]
  split
  · exact h.own hl
  · exact h

end Output.SameButLabels

/-! ## Passes -/

/-- The passes have like outputs and have made the same requests. What they have asked for
since the beginning has brought their suppliers into the states they are in. -/
structure Pass.SameButLabels (supplier : Supplier σ) (supplier' : Supplier τ) (stock : σ)
    (stock' : τ) (p : Pass σ) (p' : Pass τ) : Prop where
  output : p.output.SameButLabels p'.output
  requests : p.requests = p'.requests
  stock_eq : p.stock = supplier.after stock p.requests.toList
  stock_eq' : p'.stock = supplier'.after stock' p'.requests.toList

theorem Weaver.requests_asked (w : Weaver σ) (p : Pass σ) (path : String) :
    (w.asked p path).requests = p.requests.push path := by
  simp [asked, Pass.requests]

/-- A request leads from the state after the earlier requests to the state after all. -/
theorem Weaver.stock_asked {w : Weaver σ} {p : Pass σ} {stock : σ}
    (h : p.stock = w.supplier.after stock p.requests.toList) (path : String) :
    (w.asked p path).stock = w.supplier.after stock (w.asked p path).requests.toList := by
  rw [requests_asked, Array.toList_push, Supplier.after, List.foldl_concat, ← Supplier.after, ← h]
  rfl

/-- Passes that begin with given states of their suppliers, and differ in labels only. -/
def Likeness.labels (supplier : Supplier σ) (supplier' : Supplier τ) (stock : σ) (stock' : τ) :
    Likeness σ τ where
  state := Pass.SameButLabels supplier supplier' stock stock'
  key _ _ := True
  cause _ _ := True

/-- Labels make no difference to any change. -/
theorem Likeness.lawful_labels {w : Weaver σ} {w' : Weaver τ} {stock : σ} {stock' : τ}
    (hplan : List.Forall₂ Segment.SameButName w.plan.segments w'.plan.segments)
    (hlimit : w.limit = w'.limit)
    (hreplies : ∀ paths path,
      (w.supplier.request (w.supplier.after stock paths) path).1.SameButLabels
        (w'.supplier.request (w'.supplier.after stock' paths) path).1) :
    (Likeness.labels w.supplier w'.supplier stock stock').Lawful w w' where
  read := Plan.read?_sameButName hplan
  segments name := (Plan.segmentsFor_sameButName hplan name).imp fun _ _ hs => ⟨trivial, hs.snippet⟩
  limits := hlimit
  isMidLine h := h.output.isMidLine
  lineWidth h := by rw [Output.lineWidth, Output.lineWidth, h.output.text]
  reply h path := by
    rw [h.stock_eq, h.stock_eq', ← h.requests]
    exact hreplies _ path
  asked h path := by
    refine ⟨h.output, ?_, Weaver.stock_asked h.stock_eq path, Weaver.stock_asked h.stock_eq' path⟩
    rw [Weaver.requests_asked, Weaver.requests_asked, h.requests]
  told h _ _ _ := ⟨h.output, h.requests, h.stock_eq, h.stock_eq'⟩
  write h text _ := ⟨h.output.pushText (String.ofList text), h.requests, h.stock_eq, h.stock_eq'⟩
  endLine h _ _ hl := ⟨h.output.endLine hl.2, h.requests, h.stock_eq, h.stock_eq'⟩
  flush h _ _ hl := ⟨h.output.flush hl.2, h.requests, h.stock_eq, h.stock_eq'⟩

/-- Two passes over the same text, with segments that differ in their names and with
suppliers that differ in their labels, whatever paths they have been asked for, make the
same requests. They succeed with the same text and with origins on the same lines, or they
fail with faults that differ in their labels. -/
theorem labels_never_influence_text (supplier : Supplier σ) (supplier' : Supplier τ) (stock : σ)
    (stock' : τ) (inv inv' : Inventory) (key key' text : String) (limit : Nat)
    (hsegments : List.Forall₂ Segment.SameButName inv.segments inv'.segments)
    (hreplies : ∀ paths path,
      (supplier.request (supplier.after stock paths) path).1.SameButLabels
        (supplier'.request (supplier'.after stock' paths) path).1) :
    let run := Weaver.weave ⟨supplier, inv.plan, limit⟩ ⟨key, text⟩ stock
    let run' := Weaver.weave ⟨supplier', inv'.plan, limit⟩ ⟨key', text⟩ stock'
    (∃ o o' p p', run = .ok o p ∧ run' = .ok o' p' ∧ p.requests = p'.requests ∧
      o.text = o'.text ∧ o.origins.map (·.line) = o'.origins.map (·.line)) ∨
    ∃ fault fault' p p', run = .error fault p ∧ run' = .error fault' p' ∧
      p.requests = p'.requests ∧ fault.SameButLabels fault' := by
  intro run run'
  let w : Weaver σ := ⟨supplier, inv.plan, limit⟩
  let w' : Weaver τ := ⟨supplier', inv'.plan, limit⟩
  have hplan : List.Forall₂ Segment.SameButName w.plan.segments w'.plan.segments := by
    have hsorted := Plan.arrange_sameButName hsegments
    rw [← Plan.segments_ofList, ← Plan.segments_ofList] at hsorted
    exact hsorted
  have hlawful : (Likeness.labels w.supplier w'.supplier stock stock').Lawful w w' :=
    Likeness.lawful_labels hplan rfl hreplies
  have hstart : Pass.SameButLabels w.supplier w'.supplier stock stock' { stock := stock }
      { stock := stock' } :=
    ⟨⟨rfl, rfl, rfl⟩, rfl, by simp [Pass.requests, Supplier.after],
      by simp [Pass.requests, Supplier.after]⟩
  have hunit : SourceUnit.Like (fun _ _ => True) ⟨key, text⟩ ⟨key', text⟩ := ⟨trivial, rfl⟩
  have hrun : run = _ := w.run_entry ⟨key, text⟩ { stock := stock }
  have hrun' : run' = _ := w'.run_entry ⟨key', text⟩ { stock := stock' }
  obtain ⟨⟨⟩, ⟨⟩, q, q', hok, hok', -, hsame⟩ |
    ⟨fault, fault', q, q', herror, herror', hfault, hsame⟩ :=
      (hlawful.mirrors_unitAt limit hunit _ _ hstart).ok_or_error
  · rw [Weaver.append, hok] at hrun
    rw [Weaver.append, hok'] at hrun'
    exact Or.inl ⟨_, _, _, _, hrun, hrun', hsame.requests, hsame.output.text, hsame.output.lines⟩
  · rw [Weaver.append, herror] at hrun
    rw [Weaver.append, herror'] at hrun'
    exact Or.inr ⟨fault, fault', q, q', hrun, hrun', hsame.requests, hfault⟩

namespace Sample

/-- Hands out one unit, then knows nothing new, and then fails. The unit has the given key,
and the failure the given cause. -/
def teller (key : String) (cause : Cause) : Supplier Nat where
  request n _ :=
    (match n with
      | 0 => .fresh ⟨key, "#include \"y\"\n#include \"z\""⟩
      | 1 => .repeated
      | _ => .failed cause, n + 1)

def badge (name : String) : Inventory :=
  .ofList [{ placeholder := ⟨"#pragma P", ""⟩, name := name, snippet := "p;" }]

theorem teller_sameButLabels (key key' : String) (cause cause' : Cause) (paths : List String)
    (path : String) :
    ((teller key cause).request ((teller key cause).after 0 paths) path).1.SameButLabels
      ((teller key' cause').request ((teller key' cause').after 0 paths) path).1 := by
  have hafter : (teller key cause).after 0 paths = (teller key' cause').after 0 paths := rfl
  rw [hafter]
  match (teller key' cause').after 0 paths with
  | 0 => exact .fresh ⟨trivial, rfl⟩
  | 1 => exact .repeated
  | n + 2 => exact .failed trivial

end Sample

/-- Under other labels the sample fails on the same lines, for the same path. -/
theorem labels_never_influence_text_sample :
    let run := Weaver.weave ⟨Sample.teller "x1" (.other "gone"), (Sample.badge "left").plan, 1⟩
      ⟨"main", " #pragma P\n#include \"x\""⟩ 0
    let run' := Weaver.weave ⟨Sample.teller "x2" (.notFound "z"), (Sample.badge "right").plan, 1⟩
      ⟨"other", " #pragma P\n#include \"x\""⟩ 0
    ∃ p fault' p', run =
        .error (.nested ⟨"main", 2⟩ (.unresolved "z" ⟨"x1", 2⟩ (.other "gone"))) p ∧
      run' = .error fault' p' ∧ p.requests = p'.requests ∧
      Fault.SameButLabels (.nested ⟨"main", 2⟩ (.unresolved "z" ⟨"x1", 2⟩ (.other "gone")))
        fault' := by
  intro run run'
  have hfails : ∃ p, run =
      .error (.nested ⟨"main", 2⟩ (.unresolved "z" ⟨"x1", 2⟩ (.other "gone"))) p := by
    decide +kernel
  have hsegments : List.Forall₂ Segment.SameButName (Sample.badge "left").segments
      (Sample.badge "right").segments := .cons ⟨rfl, rfl, rfl⟩ .nil
  obtain ⟨p₁, hfails⟩ := hfails
  obtain ⟨o, o', p, p', hok, -⟩ | ⟨fault, fault', p, p', herror, herror', hrequests, hsame⟩ :=
    labels_never_influence_text (Sample.teller "x1" (.other "gone"))
      (Sample.teller "x2" (.notFound "z")) 0 0 (Sample.badge "left") (Sample.badge "right") "main"
      "other" " #pragma P\n#include \"x\"" 1 hsegments
      (Sample.teller_sameButLabels _ _ _ _)
  · cases hfails.symm.trans hok
  · cases hfails.symm.trans herror
    exact ⟨p₁, fault', p', hfails, herror', hrequests, hsame⟩

end ShaderWeave
