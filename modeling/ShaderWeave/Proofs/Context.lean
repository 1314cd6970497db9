import ShaderWeave.Proofs.Likeness
import ShaderWeave.Supply.Library

/-!
# Weaving behind other output

A scan reads the output back: whether a line is begun, how wide it is, and whether it
has its origin. At the start of a line that has no origin yet, none of these depends on
what stands in front. So whatever is woven there comes out as on an empty output, and
stands behind all that was there.

## Main definitions

- `Output` has `++`: one output behind another.
- `Pass.onto`, `Likeness.onto`: passes that differ by an output in front.

## Main results

- `Likeness.lawful_onto`: an output in front makes no difference to any change.
- `append_context_free`: nor does it to weaving a unit.
-/

namespace ShaderWeave

variable {σ : Type}

namespace Output

/-- The text and the origins of the second output stand behind those of the first. -/
instance : Append Output where
  append o x :=
    { text := o.text ++ x.text, origins := o.origins ++ x.origins, closed := o.closed + x.closed }

theorem append_def (o x : Output) :
    o ++ x = ⟨o.text ++ x.text, o.origins ++ x.origins, o.closed + x.closed⟩ := rfl

theorem append_empty (o : Output) : o ++ ({} : Output) = o := by
  simp [append_def]

variable {o : Output}

theorem pushText_append (x : Output) (text : String) :
    (o ++ x).pushText text = o ++ x.pushText text := by
  simp [append_def, pushText, String.append_assoc]

/-! ## At the start of a line -/

theorem isMidLine_append (ho : o.isMidLine = false) (x : Output) :
    (o ++ x).isMidLine = x.isMidLine := by
  rcases List.eq_nil_or_concat' x.text.toList with hnil | ⟨front, c, hc⟩
  · have hx : x.isMidLine = false := by simp [isMidLine, String.back?_eq, hnil]
    rw [hx, ← ho]
    simp [isMidLine, String.back?_eq, append_def, hnil]
  · simp [isMidLine, String.back?_eq, append_def, hc]

theorem lineWidth_append (ho : o.isMidLine = false) (x : Output) :
    (o ++ x).lineWidth = x.lineWidth := by
  -- nothing stands behind the last line feed of `o`, so counting back from the end stops there
  have hzero : o.text.toList.reverse.takeWhile (· != '\n') = [] := by
    rcases List.eq_nil_or_concat' o.text.toList with hnil | ⟨front, c, hc⟩
    · simp [hnil]
    · have hfeed : c = '\n' := by simpa [isMidLine, String.back?_eq, hc] using ho
      simp [hc, hfeed]
  simp only [lineWidth, append_def, String.toList_append, List.reverse_append,
    List.takeWhile_append, hzero, List.append_nil]
  split
  · next hall => rw [hall]
  · rfl

section

variable (ho : o.origins.size = o.closed)
include ho

theorem own_append (x : Output) (l : Location) : (o ++ x).own l = o ++ x.own l := by
  unfold own
  by_cases hx : x.origins.size = x.closed
  · rw [if_pos hx, if_pos (by simp [append_def, ho, hx])]
    simp [addOrigin, append_def]
  · rw [if_neg hx, if_neg (by simpa [append_def, ho] using hx)]

theorem endLine_append (x : Output) (l : Location) : (o ++ x).endLine l = o ++ x.endLine l := by
  unfold endLine
  rw [own_append ho]
  simp [append_def, Nat.add_assoc, ← String.append_singleton, String.append_assoc]

theorem flush_append (hline : o.isMidLine = false) (x : Output) (l : Location) :
    (o ++ x).flush l = o ++ x.flush l := by
  unfold flush
  rw [isMidLine_append hline, own_append ho]
  split <;> rfl

end

end Output

/-- The state with an output in front of what has been written. -/
def Pass.onto (p : Pass σ) (o : Output) : Pass σ :=
  { p with output := o ++ p.output }

/-- Passes that differ by an output in front of the second. -/
def Likeness.onto (o : Output) : Likeness σ σ where
  state p p' := p' = p.onto o

/-- At the start of a line, an output in front makes no difference to any change. -/
theorem Likeness.lawful_onto {o : Output} (hline : o.isMidLine = false)
    (hcount : o.origins.size = o.closed) (w : Weaver σ) : (Likeness.onto o).Lawful w w where
  read _ := rfl
  segments name := Segment.forall₂_like_eq_refl _
  limits := rfl
  isMidLine := by
    rintro p _ rfl
    exact (Output.isMidLine_append hline p.output).symm
  lineWidth := by
    rintro p _ rfl
    exact (Output.lineWidth_append hline p.output).symm
  reply := by
    rintro p _ rfl path
    exact Reply.like_eq_refl _
  asked := by
    rintro p _ rfl path
    rfl
  told := by
    rintro p _ rfl e e' he
    rw [he.eq]
    rfl
  write := by
    rintro p _ rfl text -
    simp only [onto, Pass.onto, Pass.write, Output.pushText_append]
  endLine := by
    rintro p _ rfl l l' hl
    obtain rfl := Location.like_eq.mp hl
    simp only [onto, Pass.onto, Output.endLine_append hcount]
  flush := by
    rintro p _ rfl l l' hl
    obtain rfl := Location.like_eq.mp hl
    simp only [onto, Pass.onto, Output.flush_append hcount hline]

/-- Where an output has no line begun, and as many origins as ended lines, weaving a
unit onto it ends as weaving the unit onto an empty output does, with the same fault if
it fails. The same requests are made and get the same replies, and the text and the
origins that an empty output gets are put behind those that were there. -/
theorem append_context_free (w : Weaver σ) (unit : SourceUnit) (stock : σ) {o : Output}
    (hline : o.isMidLine = false) (hcount : o.origins.size = o.closed) :
    let fresh := (w.append unit).run { stock := stock }
    let onto := (w.append unit).run { stock := stock, output := o }
    ∃ f q, q.output.text = o.text ++ f.output.text ∧
      q.output.origins = o.origins ++ f.output.origins ∧
      q.output.closed = o.closed + f.output.closed ∧
      q.exchanges = f.exchanges ∧ q.events = f.events ∧ q.stock = f.stock ∧
      ((fresh = .ok () f ∧ onto = .ok () q) ∨
        ∃ fault, fresh = .error fault f ∧ onto = .error fault q) := by
  intro fresh onto
  have hstart : (Likeness.onto o).state { stock := stock } { stock := stock, output := o } := by
    simp only [Likeness.onto, Pass.onto, Output.append_empty]
  have hends : (Likeness.onto o).Ends Eq fresh onto :=
    (Likeness.lawful_onto hline hcount w).mirrors_unitAt w.limit unit.like_eq_refl _ _ hstart
  obtain ⟨⟨⟩, ⟨⟩, f, q, hfresh, honto, -, rfl⟩ |
    ⟨fault, fault', f, q, hfresh, honto, hfault, rfl⟩ := hends.ok_or_error
  · exact ⟨f, f.onto o, rfl, rfl, rfl, rfl, rfl, rfl, Or.inl ⟨hfresh, honto⟩⟩
  · obtain rfl := hfault.eq
    exact ⟨f, f.onto o, rfl, rfl, rfl, rfl, rfl, rfl, Or.inr ⟨fault, hfresh, honto⟩⟩

namespace Sample

/-- Two lines, and one origin for both. -/
def header : Output where
  text := "a\nb\n"
  origins := #[⟨"header", 9⟩]
  closed := 1

def linker : Weaver Library where
  supplier := Library.supplier

def links : Library :=
  .ofList [("x", "y")]

def linked : SourceUnit :=
  ⟨"main", " #include \"x\"\n/*"⟩

end Sample

/-- A unit that fails inside a comment leaves what it has written behind the header. -/
theorem append_context_free_sample :
    ∃ q, (Sample.linker.append Sample.linked).run
        { stock := Sample.links, output := Sample.header } =
        .error (.unterminated "main" .inside) q ∧
      q.output.text = "a\nb\n y\n/*" ∧ q.output.origins = #[⟨"header", 9⟩, ⟨"x", 1⟩] := by
  have hfails : ∃ f, (Sample.linker.append Sample.linked).run { stock := Sample.links } =
      .error (.unterminated "main" .inside) f := by decide +kernel
  have hleft : ((Sample.linker.append Sample.linked).leaves { stock := Sample.links }).output =
      ⟨" y\n/*", #[⟨"x", 1⟩], 1⟩ := by decide +kernel
  obtain ⟨f₁, hfails⟩ := hfails
  obtain ⟨f, q, htext, horigins, -, -, -, -, ⟨hok, -⟩ | ⟨fault, herror, honto⟩⟩ :=
    append_context_free Sample.linker Sample.linked Sample.links (o := Sample.header)
      (by decide +kernel) (by decide)
  · rw [hfails] at hok
    cases hok
  · rw [hfails] at herror
    cases herror
    rw [WeaveM.leaves_of_error hfails] at hleft
    rw [hleft] at htext horigins
    exact ⟨q, honto, htext, horigins⟩

end ShaderWeave
