import ShaderWeave.Proofs.Likeness
import ShaderWeave.Proofs.Limit
import ShaderWeave.Proofs.Session

/-!
# Entering a file and including it

A unit can be the entry of a pass, or a unit that is nothing but an inclusion can be.
The unit then is one level further down, the limit is used up one level earlier, and a
fault is wrapped once more. Nothing else differs if the limit is raised by one.

## Main definitions

- `SourceUnit.including`: a unit that consists of one inclusion.
- `Fault.withLimit`: the same fault under another limit.
- `Pass.Agrees`: states that may differ in their events only.
- `Weaver.Makes`: a pass, of whichever kind, succeeds with an output.

## Main results

- `Weaver.run_scan_including`: how a unit that consists of one inclusion is read.
- `Weaver.Makes.size_origins`: a pass that succeeds leaves an origin for every line.
- `Likeness.lawful_limits`: the limit has no part in any change.
- `include_agrees_with_entry`: including a file is the same as entering it.
-/

namespace ShaderWeave

variable {σ : Type}

/-- A unit that consists of one inclusion. -/
def SourceUnit.including (key path : String) : SourceUnit :=
  ⟨key, "#include \"" ++ path ++ "\""⟩

/-- The same fault under another limit. -/
def Fault.withLimit (limit : Nat) : Fault → Fault
  | .tooDeep site _ => .tooDeep site limit
  | .nested site inner => .nested site (inner.withLimit limit)
  | fault => fault

/-- The states are the same but for the events. -/
structure Pass.Agrees (p q : Pass σ) : Prop where
  stock : p.stock = q.stock
  output : p.output = q.output
  exchanges : p.exchanges = q.exchanges

/-! ## One inclusion -/

theorem SourceUnit.toList_including (key path : String) :
    (including key path).text.toList =
      Directive.inclusionWord ++ ' ' :: '"' :: (path.toList ++ ['"']) := by
  have hopened : "#include \"".toList = Directive.inclusionWord ++ [' ', '"'] := by decide
  have hclosed : "\"".toList = ['"'] := by decide
  simp only [SourceUnit.including, String.toList_append, hopened, hclosed, List.append_assoc,
    List.cons_append, List.nil_append]

/-- The line is an inclusion of just that path, whatever placeholders there are. -/
theorem Line.directive?_including (plan : Plan) {key path : String} (hquote : '"' ∉ path.toList)
    (hline : '\n' ∉ (SourceUnit.including key path).text.toList) :
    directive? plan false (SourceUnit.including key path).text.toList =
      some (.inclusion (some path)) := by
  rw [directive?_eq_some_iff hline]
  refine ⟨rfl, ?_⟩
  have hquotes : Quotes (' ' :: '"' :: (path.toList ++ ['"'])) path.toList :=
    ⟨[' '], [], rfl, by decide, hquote⟩
  have hword : (SourceUnit.including key path).text.toList.dropWhile Text.isSpace =
      Directive.inclusionWord ++ ' ' :: '"' :: (path.toList ++ ['"']) := by
    rw [SourceUnit.toList_including]
    rfl
  simpa using Asks.quoted hword hquotes

namespace Weaver

variable {w : Weaver σ} {descend : Location → SourceUnit → WeaveM σ Unit}

/-- A unit that consists of one inclusion puts in its place what the supplier hands out,
and owns no line of it. -/
theorem run_scan_including (key : String) {path : String} (hquote : '"' ∉ path.toList)
    (hline : '\n' ∉ path.toList) (p : Pass σ) :
    (w.scan descend (.including key path)).run p =
      match (w.supplier.request p.stock path).1 with
      | .failed cause => .error (.unresolved path ⟨key, 1⟩ cause) (w.asked p path)
      | .repeated =>
        let q := (w.asked p path).told (.skipped ⟨key, 1⟩ path)
        .ok () { q with output := q.output.flush ⟨key, 1⟩ }
      | .fresh inner =>
        match (descend ⟨key, 1⟩ inner).run
          ((w.asked p path).told (.expanding ⟨key, 1⟩ path inner.key)) with
        | .ok _ q => .ok () { q with output := q.output.flush ⟨key, 1⟩ }
        | .error fault q => .error fault q := by
  have htext := SourceUnit.toList_including key path
  have hone : '\n' ∉ (SourceUnit.including key path).text.toList := by
    have hword : '\n' ∉ Directive.inclusionWord := by decide
    rw [htext]
    simp [hword, hline]
  have hlead : (SourceUnit.including key path).text.toList.takeWhile Text.isSpace = [] := by
    rw [htext]
    rfl
  have hwalk : (w.walk descend key { column := p.output.lineWidth }
      (SourceUnit.including key path).text.toList).run p =
        (w.expand descend key { column := p.output.lineWidth } (.inclusion (some path))).run p := by
    rw [walk_eq_advance, advance_directive rfl hone (Line.directive?_including w.plan hquote hone)
      (Or.inl rfl), hlead, Cursor.past_nil, Pass.write_nil]
  have hscan : (w.scan descend (.including key path)).run p =
      (w.walk descend key { column := p.output.lineWidth }
        (SourceUnit.including key path).text.toList >>= finish key).run p := rfl
  rw [hscan, EStateM.run_bind, hwalk, run_expand_inclusion]
  cases (w.supplier.request p.stock path).1 with
  | failed cause => rfl
  | repeated => rfl
  | fresh inner =>
    dsimp only
    cases (descend ⟨key, 1⟩ inner).run
      ((w.asked p path).told (.expanding ⟨key, 1⟩ path inner.key)) <;> rfl

/-! ## Entries -/

theorem run_entry (unit : SourceUnit) (p : Pass σ) :
    (w.entry unit).run p =
      match (w.append unit).run p with
      | .ok _ q => .ok q.output (q.told (.finished unit.key q.output.origins.size))
      | .error fault q => .error fault q := by
  unfold entry
  rw [EStateM.run_bind]
  cases (w.append unit).run p <;> rfl

theorem run_entryFile (path : String) (p : Pass σ) :
    (w.entryFile path).run p =
      match (w.supplier.request p.stock path).1 with
      | .failed cause => .error (.unresolved path ⟨"", 0⟩ cause) (w.asked p path)
      | .repeated => .ok {} (w.asked p path)
      | .fresh unit => (w.entry unit).run (w.asked p path) := by
  have hask : (WeaveM.request w.supplier path).run p =
      .ok (w.supplier.request p.stock path).1 (w.asked p path) := rfl
  unfold entryFile
  rw [EStateM.run_bind, hask]
  cases (w.supplier.request p.stock path).1 <;> rfl

/-- A pass over a file succeeds because the file was handed out before, or because the scan
of the unit that is handed out ends. -/
theorem weaveFile_eq_ok {path : String} {stock : σ} {output : Output} {pass : Pass σ}
    (h : w.weaveFile path stock = .ok output pass) :
    output = {} ∨ ∃ unit p, (w.supplier.request stock path).1 = .fresh unit ∧
      (⟨w.limit, unit, w.asked { stock := stock } path⟩ : Visit σ).Ends w p ∧
      output = p.output := by
  rw [weaveFile, run_entryFile] at h
  cases hreply : (w.supplier.request stock path).1 with
  | failed cause =>
    simp only [hreply] at h
    cases h
  | repeated =>
    simp only [hreply] at h
    cases h
    exact Or.inl rfl
  | fresh unit =>
    simp only [hreply] at h
    obtain ⟨_, p, hends, h⟩ := WeaveM.run_bind_eq_ok.mp h
    cases h
    exact Or.inr ⟨unit, p, rfl, hends, rfl⟩

/-- A pass that begins with the given state of the supplier, over a unit or over a file,
succeeds with the output. -/
def Makes (w : Weaver σ) (stock : σ) (output : Output) : Prop :=
  (∃ unit pass, w.weave unit stock = .ok output pass) ∨
    ∃ path pass, w.weaveFile path stock = .ok output pass

/-- A pass that succeeds leaves an origin for every line that a listing shows. -/
theorem Makes.size_origins {stock : σ} {output : Output} (h : w.Makes stock output) :
    output.origins.size = (Text.shownLines output.text.toList).length := by
  rcases h with ⟨unit, pass, h⟩ | ⟨path, pass, h⟩
  · obtain ⟨_, p, hends, h⟩ := WeaveM.run_bind_eq_ok.mp h
    cases h
    exact size_origins_of_unitAt Output.tallied_empty hends
  · rcases weaveFile_eq_ok h with rfl | ⟨unit, p, -, hends, rfl⟩
    · rfl
    · exact size_origins_of_unitAt Output.tallied_empty hends

/-- A unit that has ended with success has nothing left to settle. -/
theorem flush_of_unitAt_ok {room : Nat} {unit : SourceUnit} {p q : Pass σ}
    (hp : p.output.Tallied) (h : (w.unitAt room unit).run p = .ok () q) (l : Location) :
    q.output.flush l = q.output := by
  obtain ⟨s, hs, howned⟩ := unitAt_ok_owned hp h
  rw [← hs, ← s.output_flush, Sheet.flush_eq_self howned]

/-- A pass over a unit that consists of one inclusion has for its output what the unit
that is handed out leaves. -/
theorem weave_including (w : Weaver σ) (key : String) {path : String}
    (hquote : '"' ∉ path.toList) (hline : '\n' ∉ path.toList) (stock : σ) :
    w.weave (.including key path) stock =
      let p := w.asked { stock := stock } path
      match (w.supplier.request stock path).1 with
      | .failed cause => .error (.unresolved path ⟨key, 1⟩ cause) p
      | .repeated => .ok {} ((p.told (.skipped ⟨key, 1⟩ path)).told (.finished key 0))
      | .fresh inner =>
        match (w.below w.limit ⟨key, 1⟩ inner).run
          (p.told (.expanding ⟨key, 1⟩ path inner.key)) with
        | .ok _ q => .ok q.output (q.told (.finished key q.output.origins.size))
        | .error fault q => .error fault q := by
  rw [weave, run_entry, append, unitAt_eq_scan, run_scan_including key hquote hline]
  cases (w.supplier.request stock path).1 with
  | failed cause => rfl
  | repeated => rfl
  | fresh inner =>
    dsimp only
    cases hbelow : (w.below w.limit ⟨key, 1⟩ inner).run
      ((w.asked { stock := stock } path).told (.expanding ⟨key, 1⟩ path inner.key)) with
    | error fault q => rfl
    | ok _ q =>
      obtain ⟨room, -, hends⟩ := below_eq_ok.mp hbelow
      have hflush := flush_of_unitAt_ok Output.tallied_empty hends ⟨key, 1⟩
      simp only [hflush]
      rfl

end Weaver

/-! ## Two limits -/

/-- Passes of one weaver under two limits, of which the second has its own events. -/
def Likeness.limits (m n : Nat) : Likeness σ σ where
  state := Pass.Agrees
  limit l l' := l = m ∧ l' = n

theorem Likeness.lawful_limits (w : Weaver σ) (m n : Nat) :
    (Likeness.limits m n).Lawful (w.withLimit m) (w.withLimit n) where
  read _ := rfl
  segments _ := Segment.forall₂_like_eq_refl _
  limits := ⟨rfl, rfl⟩
  isMidLine h := by rw [h.output]
  lineWidth h := by rw [h.output]
  reply h path := by
    rw [h.stock]
    exact Reply.like_eq_refl _
  asked h path := by
    refine ⟨?_, h.output, ?_⟩
    · simp only [Weaver.asked, h.stock]
      rfl
    · simp only [Weaver.asked, h.stock, h.exchanges]
      rfl
  told h _ _ _ := ⟨h.stock, h.output, h.exchanges⟩
  write h _ _ := ⟨h.stock, by simp only [Pass.write, h.output], h.exchanges⟩
  endLine h l l' hl := by
    obtain rfl := Location.like_eq.mp hl
    exact ⟨h.stock, by simp only [h.output], h.exchanges⟩
  flush h l l' hl := by
    obtain rfl := Location.like_eq.mp hl
    exact ⟨h.stock, by simp only [h.output], h.exchanges⟩

/-- Faults that are alike under two limits differ in the limit alone. -/
theorem Fault.Like.withLimit_eq {m n : Nat} {fault fault' : Fault}
    (h : fault.Like Eq Eq (fun l l' => l = m ∧ l' = n) fault') :
    fault.withLimit m = fault ∧ fault' = fault.withLimit n := by
  induction h with
  | malformedInclusion hsite =>
    obtain rfl := Location.like_eq.mp hsite
    exact ⟨rfl, rfl⟩
  | unresolved path hsite hcause =>
    obtain rfl := Location.like_eq.mp hsite
    obtain rfl := hcause
    exact ⟨rfl, rfl⟩
  | unterminated hkey point =>
    obtain rfl := hkey
    exact ⟨rfl, rfl⟩
  | tooDeep hsite hlimit =>
    obtain rfl := Location.like_eq.mp hsite
    obtain ⟨rfl, rfl⟩ := hlimit
    exact ⟨rfl, rfl⟩
  | nested hsite _ ih =>
    obtain rfl := Location.like_eq.mp hsite
    obtain ⟨hsame, rfl⟩ := ih
    exact ⟨by rw [Fault.withLimit, hsame], rfl⟩

/-- A pass over a file goes as a pass over a unit that consists of its inclusion, with one
more level allowed. The same requests are made, and get the same replies. If the file was
handed out before, both leave the output empty; if the supplier fails, both fail with its
cause, each at its own place. Otherwise both succeed with the same output, or both fail
with faults that differ in the wrapper and in the limit. -/
theorem include_agrees_with_entry (w : Weaver σ) (m : Nat) (key path : String) (stock : σ)
    (hquote : '"' ∉ path.toList) (hline : '\n' ∉ path.toList) :
    let file := (w.withLimit m).weaveFile path stock
    let wrapped := (w.withLimit (m + 1)).weave (.including key path) stock
    ∃ q q', q.Agrees q' ∧
      match (w.supplier.request stock path).1 with
      | .repeated => file = .ok {} q ∧ wrapped = .ok {} q'
      | .failed cause =>
        file = .error (.unresolved path ⟨"", 0⟩ cause) q ∧
          wrapped = .error (.unresolved path ⟨key, 1⟩ cause) q'
      | .fresh _ =>
        (∃ output, file = .ok output q ∧ wrapped = .ok output q') ∨
          ∃ fault, file = .error fault q ∧ fault.withLimit m = fault ∧
            wrapped = .error (.nested ⟨key, 1⟩ (fault.withLimit (m + 1))) q' := by
  intro file wrapped
  have hfile := Weaver.run_entryFile (w := w.withLimit m) path { stock := stock }
  have hwrapped := (w.withLimit (m + 1)).weave_including key hquote hline stock
  simp only [Weaver.supplier_withLimit, Weaver.asked_withLimit] at hfile hwrapped
  cases hreply : (w.supplier.request stock path).1 with
  | failed cause =>
    simp only [hreply] at hfile hwrapped
    refine ⟨_, _, ?_, hfile, hwrapped⟩
    exact ⟨rfl, rfl, rfl⟩
  | repeated =>
    simp only [hreply] at hfile hwrapped
    refine ⟨_, _, ?_, hfile, hwrapped⟩
    exact ⟨rfl, rfl, rfl⟩
  | fresh unit =>
    simp only [hreply, Weaver.run_entry] at hfile hwrapped
    -- with one level more, the unit has the same room as an entry
    have hends : (Likeness.limits m (m + 1)).Ends Eq
        (((w.withLimit m).append unit).run (w.asked { stock := stock } path))
        (((w.withLimit (m + 1)).unitAt m unit).run
          ((w.asked { stock := stock } path).told (.expanding ⟨key, 1⟩ path unit.key))) :=
      (Likeness.lawful_limits w m (m + 1)).mirrors_unitAt m unit.like_eq_refl _ _ ⟨rfl, rfl, rfl⟩
    have hbelow : (w.withLimit (m + 1)).below (w.withLimit (m + 1)).limit ⟨key, 1⟩ unit =
        ((w.withLimit (m + 1)).unitAt m unit).adaptExcept (Fault.nested ⟨key, 1⟩) := rfl
    rw [hbelow, EStateM.run_adaptExcept] at hwrapped
    obtain ⟨⟨⟩, ⟨⟩, q, q', hok, hok', -, hagrees⟩ |
      ⟨fault, fault', q, q', herror, herror', hfault, hagrees⟩ := hends.ok_or_error
    · obtain ⟨hstock, houtput, hexchanges⟩ := hagrees
      rw [hok] at hfile
      rw [hok'] at hwrapped
      simp only [houtput] at hfile
      refine ⟨_, _, ?_, Or.inl ⟨_, hfile, hwrapped⟩⟩
      exact ⟨hstock, houtput, hexchanges⟩
    · obtain ⟨hsame, rfl⟩ := hfault.withLimit_eq
      rw [herror] at hfile
      rw [herror'] at hwrapped
      exact ⟨q, q', hagrees, Or.inr ⟨fault, hfile, hsame, hwrapped⟩⟩

/-- The limit is reached one level further down, by the same requests. -/
theorem include_agrees_with_entry_sample :
    ∃ q q', (Sample.endless.withLimit 1).weaveFile "a" () =
        .error (.nested ⟨"a", 2⟩ (.tooDeep ⟨"a", 2⟩ 1)) q ∧
      (Sample.endless.withLimit 2).weave (.including "main" "a") () =
        .error (.nested ⟨"main", 1⟩ (.nested ⟨"a", 2⟩ (.tooDeep ⟨"a", 2⟩ 2))) q' ∧
      q'.exchanges = q.exchanges := by
  have hdeep : ∃ q, (Sample.endless.withLimit 1).weaveFile "a" () =
      .error (.nested ⟨"a", 2⟩ (.tooDeep ⟨"a", 2⟩ 1)) q := by decide +kernel
  obtain ⟨q₁, hdeep⟩ := hdeep
  obtain ⟨q, q', hagrees, ⟨output, hok, -⟩ | ⟨fault, herror, -, hwrapped⟩⟩ :=
    include_agrees_with_entry Sample.endless 1 "main" "a" () (by decide) (by decide)
  · rw [hdeep] at hok
    cases hok
  · rw [hdeep] at herror
    cases herror
    exact ⟨_, q', hdeep, hwrapped, hagrees.exchanges.symm⟩

end ShaderWeave
