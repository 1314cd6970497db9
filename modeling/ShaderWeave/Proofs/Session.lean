import Mathlib.Data.List.Induction
import ShaderWeave.Proofs.Advance
import ShaderWeave.Proofs.Verbatim
import ShaderWeave.Supply.Library

/-!
# Sessions on one output

Several calls may weave their units onto one output, each with a weaver and a
supplier of its own, and some of them may stop with a fault. A later call goes
on wherever the one before has left the output. Through all of this the text,
the origins and the count of ended lines stay in step.

## Main definitions

- `Output.Tallied`: text, origins and count of an output are in step.
- `Call`, `Call.run`: a unit to be woven onto an output, and what comes of it.
- `session`: the output after several calls.

## Main results

- `Weaver.size_origins_of_unitAt`: a unit that is woven leaves an origin for every line.
- `session_one_origin_per_line`: the laws that hold after every call.
-/

namespace ShaderWeave

variable {σ : Type}

/-- The text, the origins and the count of ended lines are those of a sheet. -/
def Output.Tallied (o : Output) : Prop :=
  ∃ s : Sheet, s.output = o

/-- A line is begun if the text is not empty and does not end in a line feed. -/
theorem Output.isMidLine_iff (o : Output) :
    o.isMidLine = true ↔ o.text ≠ "" ∧ o.text.toList.getLast? ≠ some '\n' := by
  have hempty : o.text ≠ "" ↔ o.text.toList ≠ [] := by
    rw [ne_eq, ne_eq, ← String.toList_inj, String.toList_empty]
  rw [hempty]
  rcases List.eq_nil_or_concat' o.text.toList with hnil | ⟨front, c, hc⟩
  · simp [Output.isMidLine, String.back?_eq, hnil]
  · simp [Output.isMidLine, String.back?_eq, hc]

namespace Weaver

variable {w : Weaver σ} {p q : Pass σ}

theorem Change.tallied (h : w.Change p q) (hp : p.output.Tallied) : q.output.Tallied := by
  obtain ⟨s, hs⟩ := hp
  cases h with
  | write text htext => exact ⟨s.write text htext, by rw [s.output_write htext, hs]⟩
  | endLine l => exact ⟨s.endLine l, by rw [s.output_endLine l, hs]⟩
  | flush l => exact ⟨s.flush l, by rw [s.output_flush l, hs]⟩
  | report _ => exact ⟨s, hs⟩
  | request _ => exact ⟨s, hs⟩

theorem Later.tallied (h : w.Later p q) (hp : p.output.Tallied) : q.output.Tallied := by
  induction h with
  | refl => exact hp
  | tail _ hchange ih => exact hchange.tallied ih

theorem exists_flush_of_scan_ok {descend : Location → SourceUnit → WeaveM σ Unit}
    {unit : SourceUnit} (h : (w.scan descend unit).run p = .ok () q) :
    ∃ cur q' l, (w.walk descend unit.key { column := p.output.lineWidth } unit.text.toList).run p
        = .ok cur q' ∧ q = { q' with output := q'.output.flush l } := by
  obtain ⟨_, _, hget, h⟩ := WeaveM.run_bind_eq_ok.mp h
  cases hget
  obtain ⟨cur, q', hwalk, hfinish⟩ := WeaveM.run_bind_eq_ok.mp h
  exact ⟨cur, q', _, hwalk, (finish_eq_ok.mp hfinish).2⟩

/-- Weaving a unit onto an output that is in step, with success, leaves it in
step and gives every line that is begun its owner. -/
theorem unitAt_ok_owned {room : Nat} {unit : SourceUnit} (hp : p.output.Tallied)
    (h : (w.unitAt room unit).run p = .ok () q) : ∃ s : Sheet, s.output = q.output ∧ s.Owned := by
  rw [unitAt_eq_scan] at h
  obtain ⟨cur, q', l, hwalk, rfl⟩ := exists_flush_of_scan_ok h
  have hlater : w.Later p q' := by
    rw [← WeaveM.leaves_of_ok hwalk]
    exact advances_walk (advances_below w room) unit.key _ _ p
  obtain ⟨s, hs⟩ := hlater.tallied hp
  exact ⟨s.flush l, by rw [s.output_flush l, hs], s.owned_flush l⟩

/-- It leaves an origin for every line that a listing shows. -/
theorem size_origins_of_unitAt {room : Nat} {unit : SourceUnit} (hp : p.output.Tallied)
    (h : (w.unitAt room unit).run p = .ok () q) :
    q.output.origins.size = (Text.shownLines q.output.text.toList).length := by
  obtain ⟨s, hs, howned⟩ := unitAt_ok_owned hp h
  rw [← hs]
  exact Sheet.size_origins_of_owned howned

end Weaver

/-! ## Calls -/

/-- A unit to be woven onto an output, by a weaver with a supplier in some state. -/
structure Call where
  σ : Type
  weaver : Weaver σ
  stock : σ
  unit : SourceUnit

/-- How the call ends if it begins with the output `o`. -/
def Call.run (call : Call) (o : Output) : EStateM.Result Fault (Pass call.σ) Unit :=
  (call.weaver.append call.unit).run { stock := call.stock, output := o }

/-- The output that the call leaves, whether it succeeds or fails. -/
def Call.output (call : Call) (o : Output) : Output :=
  ((call.weaver.append call.unit).leaves { stock := call.stock, output := o }).output

/-- The output after the calls, made in turn on an output that was empty. -/
def session (calls : List Call) : Output :=
  calls.foldl (fun o call => call.output o) {}

theorem session_concat (calls : List Call) (call : Call) :
    session (calls ++ [call]) = call.output (session calls) := by
  simp [session]

theorem Output.tallied_empty : ({} : Output).Tallied :=
  ⟨{}, rfl⟩

theorem Call.later (call : Call) (o : Output) :
    call.weaver.Later { stock := call.stock, output := o }
      ((call.weaver.append call.unit).leaves { stock := call.stock, output := o }) :=
  Weaver.advances_unitAt call.weaver call.weaver.limit call.unit _

/-- After any calls, failed ones among them, text, origins and count are in step. -/
theorem tallied_session (calls : List Call) : (session calls).Tallied := by
  induction calls using List.reverseRecOn with
  | nil => exact Output.tallied_empty
  | append_singleton calls call ih =>
    rw [session_concat]
    exact (call.later (session calls)).tallied ih

/-- After every call of a session the count of ended lines is the number of line
feeds; the text and the origins from before the call are still there and come
first; there is an origin for every ended line, and at most one more, for a line
that is begun. After a call that succeeds there is one origin for each line. -/
theorem session_one_origin_per_line (calls : List Call) (call : Call) :
    let earlier := session calls
    let o := session (calls ++ [call])
    o.closed = o.text.toList.count '\n' ∧
      earlier.text.toList <+: o.text.toList ∧
      earlier.origins.toList <+: o.origins.toList ∧
      (o.origins.size = o.closed ∨ o.origins.size = o.closed + 1 ∧ o.isMidLine) ∧
      ((∃ p, call.run earlier = .ok () p) →
        o.origins.size = o.text.toList.count '\n' +
          if o.text ≠ "" ∧ o.text.toList.getLast? ≠ some '\n' then 1 else 0) := by
  intro earlier o
  have ho : o = call.output earlier := session_concat calls call
  have hextends := (call.later earlier).extends
  obtain ⟨s, hs⟩ : o.Tallied := tallied_session (calls ++ [call])
  refine ⟨hs ▸ s.closed_output, ho ▸ hextends.text, ho ▸ hextends.origins, ?_, ?_⟩
  · rw [← hs, s.size_origins_eq_closed, s.isMidLine_output]
    by_cases howner : s.owner = none
    · simp [howner]
    · have hne : s.tail ≠ [] := mt s.owner_eq_none howner
      simp [howner, hne]
  · rintro ⟨p, hp⟩
    have hpo : o = p.output := by
      rw [ho]
      exact congrArg Pass.output (WeaveM.leaves_of_ok hp)
    obtain ⟨t, ht, howned⟩ := Weaver.unitAt_ok_owned (tallied_session calls) hp
    have hmid : o.isMidLine = true ↔ t.tail ≠ [] := by
      rw [hpo, ← ht, t.isMidLine_output]
      simp
    -- after a success a line is owned just if it is begun
    have howner : t.owner = none ↔ t.tail = [] :=
      ⟨fun h => by_contra fun hne => howned hne h, t.owner_eq_none⟩
    have hsize : o.origins.size = o.text.toList.count '\n' + if t.tail = [] then 0 else 1 := by
      rw [hpo, ← ht, t.size_origins_eq_closed, t.closed_output]
      simp only [howner]
    rw [hsize]
    simp only [← o.isMidLine_iff, hmid, ne_eq, ite_not]

/-- A call that weaves a text by itself. -/
def Call.ofText (key text : String) : Call :=
  ⟨Library, { supplier := Library.supplier }, .empty, ⟨key, text⟩⟩

/-- A call that fails leaves a line begun without an origin. The next call goes on
there, and owns the line. -/
theorem session_one_origin_per_line_sample :
    (session [.ofText "a" "x\ny /*"]).origins.size = 1 ∧
      (session [.ofText "a" "x\ny /*"]).isMidLine ∧
      (session [.ofText "a" "x\ny /*", .ofText "b" "z"]).origins.size = 2 := by
  refine ⟨by decide +kernel, by decide +kernel, ?_⟩
  obtain ⟨-, -, -, -, hsize⟩ :=
    session_one_origin_per_line [.ofText "a" "x\ny /*"] (.ofText "b" "z")
  have hok : ∃ p, (Call.ofText "b" "z").run (session [.ofText "a" "x\ny /*"]) = .ok () p := by
    decide +kernel
  rw [show session [.ofText "a" "x\ny /*", .ofText "b" "z"] =
    session ([.ofText "a" "x\ny /*"] ++ [.ofText "b" "z"]) from rfl, hsize hok]
  decide +kernel

end ShaderWeave
