import ShaderWeave.Proofs.Account
import ShaderWeave.Proofs.Cycle

/-!
# What a library replies after a history

A library keeps its texts and the keys that it has handed out. What it replies can be
told without either, from its history alone: which texts have been inserted, and what has
been handed out since the last reset. A pass is a part of that history like any other, as
all it does to a library is to make requests. So a reset takes back all that passes have
done.

## Main definitions

- `SinceLast`: something has happened since the last reset of a history.
- `Errand`: a pass over a unit or over a file.
- `Library.Use`, `Library.after`: what is done with a library, and what comes of it.
- `Library.kept`, `Library.latest?`: the texts that have been inserted.
- `Library.HandedOutSince`: a path has been handed out since the last reset.

## Main results

- `Library.text?_after`, `Library.mem_handedOut_after`: a library holds what its history says.
- `Likeness.lawful_libraries`: libraries of the same content give the same replies.
- `library_refines_history`: the replies of a library, and the passes after a reset.
-/

namespace ShaderWeave

variable {σ : Type}

/-! ## Since the last reset -/

section

variable {α : Type} {reset : α} {happened : List α → α → Prop} {history : List α}

/-- Something has happened in the history, and no reset has come after it. What has happened
is said of a step and of the steps in front of it. -/
def SinceLast (reset : α) (happened : List α → α → Prop) (history : List α) : Prop :=
  ∃ earlier a later, history = earlier ++ a :: later ∧ reset ∉ later ∧ happened earlier a

theorem not_sinceLast_nil : ¬ SinceLast reset happened [] := by
  rintro ⟨earlier, a, later, hnil, -⟩
  simp at hnil

theorem sinceLast_concat {a : α} :
    SinceLast reset happened (history ++ [a]) ↔
      happened history a ∨ a ≠ reset ∧ SinceLast reset happened history := by
  constructor
  · rintro ⟨earlier, b, later, heq, hreset, hhappened⟩
    rcases List.eq_nil_or_concat' later with rfl | ⟨front, c, rfl⟩
    · obtain ⟨rfl, hab⟩ := List.append_inj' heq rfl
      cases hab
      exact Or.inl hhappened
    · rw [← List.cons_append, ← List.append_assoc] at heq
      obtain ⟨rfl, hac⟩ := List.append_inj' heq rfl
      cases hac
      simp only [List.mem_append, List.mem_singleton, not_or] at hreset
      exact Or.inr ⟨Ne.symm hreset.2, earlier, b, front, rfl, hreset.1, hhappened⟩
  · rintro (hhappened | ⟨hne, earlier, b, later, rfl, hreset, hhappened⟩)
    · exact ⟨history, a, [], rfl, List.not_mem_nil, hhappened⟩
    · refine ⟨earlier, b, later ++ [a], by simp, ?_, hhappened⟩
      simp [hreset, Ne.symm hne]

end

/-! ## Passes of all kinds -/

/-- A pass to be made. -/
inductive Errand where
  /-- Weave a unit onto an output that is there. -/
  | onto (unit : SourceUnit) (output : Output)
  | entry (unit : SourceUnit)
  | file (path : String)

namespace Errand

def action (w : Weaver σ) : Errand → WeaveM σ Output
  | onto unit _ => do
    w.append unit
    return (← get).output
  | entry unit => w.entry unit
  | file path => w.entryFile path

/-- The state in which the pass begins. -/
def start (stock : σ) : Errand → Pass σ
  | onto _ output => { stock := stock, output := output }
  | _ => { stock := stock }

def run (errand : Errand) (w : Weaver σ) (stock : σ) : Outcome σ :=
  (errand.action w).run (errand.start stock)

/-- The state that the pass leaves, whether it succeeds or fails. -/
def leaves (errand : Errand) (w : Weaver σ) (stock : σ) : Pass σ :=
  (errand.action w).leaves (errand.start stock)

theorem advances_action (errand : Errand) (w : Weaver σ) : w.Advances (errand.action w) := by
  cases errand with
  | onto unit output =>
    refine (w.advances_unitAt w.limit unit).bind fun _ => ?_
    exact Weaver.advances_get.bind fun _ => Weaver.advances_pure _
  | entry unit => exact w.advances_entry unit
  | file path =>
    refine (Weaver.advances_request path).bind fun reply => ?_
    cases reply with
    | failed cause => exact Weaver.advances_throw _
    | repeated => exact Weaver.advances_pure _
    | fresh unit => exact w.advances_entry unit

/-- All that a pass does to the supplier is to make its requests, one after the other. -/
theorem answers_leaves (errand : Errand) (w : Weaver σ) (stock : σ) :
    w.supplier.Answers stock (errand.leaves w stock).exchanges.toList
      (errand.leaves w stock).stock := by
  refine (errand.advances_action w (errand.start stock)).answers ?_
  cases errand <;> exact .nil

end Errand

/-- The passes end in the same way: both succeed with one output, or both fail with one
fault. They leave the same output and have made the same requests, with the same replies,
and told the same events. -/
def Outcome.Same (outcome outcome' : Outcome σ) : Prop :=
  ∃ p p', p.output = p'.output ∧ p.exchanges = p'.exchanges ∧ p.events = p'.events ∧
    ((∃ output, outcome = .ok output p ∧ outcome' = .ok output p') ∨
      ∃ fault, outcome = .error fault p ∧ outcome' = .error fault p')

namespace Library

variable {lib lib' : Library} {path : String}

/-! ## What is done with a library -/

/-- Something that is done with a library. -/
inductive Use where
  | insert (key text : String)
  | request (path : String)
  | reset
  /-- A pass with the library for its supplier. -/
  | pass (plan : Plan) (limit : Nat) (errand : Errand)

def weaver (plan : Plan) (limit : Nat) : Weaver Library :=
  ⟨supplier, plan, limit⟩

def use (lib : Library) : Use → Library
  | .insert key text => lib.insert key text
  | .request path => (lib.request path).2
  | .reset => lib.reset
  | .pass plan limit errand => (errand.leaves (weaver plan limit) lib).stock

/-- The library after all uses, the first one first. -/
def after (lib : Library) (uses : List Use) : Library :=
  uses.foldl use lib

/-- The requests that are made by a use of the library, and the replies. -/
def Use.exchanges (lib : Library) : Use → List Exchange
  | .request path => [⟨path, (lib.request path).1⟩]
  | .pass plan limit errand => (errand.leaves (weaver plan limit) lib).exchanges.toList
  | _ => []

/-- The keys and texts that are inserted by the uses. -/
def kept (uses : List Use) : List (String × String) :=
  uses.filterMap fun
    | .insert key text => some (key, text)
    | _ => none

/-- The last text for a key. -/
def latest? (pairs : List (String × String)) (key : String) : Option String :=
  pairs.reverse.lookup key

/-- Since the last reset, a request for the path has been answered with a text. -/
def HandedOutSince (lib : Library) (uses : List Use) (path : String) : Prop :=
  SinceLast .reset
    (fun earlier u => ∃ unit, ⟨path, .fresh unit⟩ ∈ u.exchanges (lib.after earlier)) uses

theorem after_concat (lib : Library) (uses : List Use) (u : Use) :
    lib.after (uses ++ [u]) = (lib.after uses).use u := by
  simp [after]

theorem after_append (lib : Library) (uses later : List Use) :
    lib.after (uses ++ later) = (lib.after uses).after later :=
  List.foldl_append

/-! ## Requests -/

theorem request_of_text?_eq_none (h : lib.text? path = none) :
    lib.request path = (.failed (.notFound path), lib) := by
  simp [request, h]

theorem request_of_mem {text : String} (h : lib.text? path = some text)
    (hgone : path ∈ lib.handedOut) : lib.request path = (.repeated, lib) := by
  simp [request, h, hgone]

theorem request_of_not_mem {text : String} (h : lib.text? path = some text)
    (hnew : path ∉ lib.handedOut) :
    lib.request path = (.fresh ⟨path, text⟩, { lib with handedOut := path :: lib.handedOut }) := by
  simp [request, h, hnew]

theorem texts_request (lib : Library) (path : String) :
    (lib.request path).2.texts = lib.texts := by
  rcases lib.request_cases path with ⟨-, text, hrequest⟩ | ⟨-, -, hsame⟩
  · rw [hrequest]
  · rw [hsame]

theorem mem_handedOut_request (lib : Library) (path key : String) :
    key ∈ (lib.request path).2.handedOut ↔
      key ∈ lib.handedOut ∨
        ∃ unit, (⟨key, .fresh unit⟩ : Exchange) = ⟨path, (lib.request path).1⟩ := by
  rcases lib.request_cases path with ⟨-, text, hrequest⟩ | ⟨-, hnone, hsame⟩
  · simp [hrequest, or_comm]
  · have hno : ∀ unit, (⟨key, .fresh unit⟩ : Exchange) ≠ ⟨path, (lib.request path).1⟩ := by
      intro unit heq
      rw [← (Exchange.mk.inj heq).2] at hnone
      cases hnone
    simp [hsame, hno]

section

variable {exchanges : List Exchange} (h : supplier.Answers lib exchanges lib')
include h

theorem texts_of_answers : lib'.texts = lib.texts := by
  induction h with
  | nil => rfl
  | concat _ path ih => exact (texts_request _ path).trans ih

/-- What has been handed out after several requests is what had been before, and what they
were answered with. -/
theorem mem_handedOut_of_answers (path : String) :
    path ∈ lib'.handedOut ↔
      path ∈ lib.handedOut ∨ ∃ unit, (⟨path, .fresh unit⟩ : Exchange) ∈ exchanges := by
  induction h with
  | nil => simp
  | concat _ asked ih =>
    refine (mem_handedOut_request _ asked path).trans ?_
    rw [ih]
    simp only [List.mem_append, List.mem_singleton, exists_or, or_assoc]
    rfl

end

/-! ## What a library holds after a history -/

theorem latest?_concat (pairs : List (String × String)) (key text path : String) :
    latest? (pairs ++ [(key, text)]) path =
      if path = key then some text else latest? pairs path := by
  by_cases h : path = key
  · simp [latest?, h]
  · simp [latest?, List.lookup_cons, h, beq_eq_false_iff_ne.mpr h]

theorem latest?_eq_none_iff {pairs : List (String × String)} :
    latest? pairs path = none ↔ ∀ text, (path, text) ∉ pairs := by
  simp only [latest?, List.lookup_eq_none_iff, List.mem_reverse, Prod.forall, bne_iff_ne]
  constructor
  · intro h text hmem
    exact h path text hmem rfl
  · rintro h key text hmem rfl
    exact h text hmem

theorem text?_ofList (pairs : List (String × String)) (path : String) :
    (ofList pairs).text? path = latest? pairs path := by
  induction pairs using List.reverseRecOn with
  | nil => rfl
  | append_singleton pairs pair ih =>
    have hinsert : ofList (pairs ++ [pair]) = (ofList pairs).insert pair.1 pair.2 := by
      simp [ofList]
    rw [hinsert, text?_insert, latest?_concat, ih]

/-- A library keeps the text that was inserted last. -/
theorem text?_after (pairs : List (String × String)) (uses : List Use) (path : String) :
    ((ofList pairs).after uses).text? path = latest? (pairs ++ kept uses) path := by
  induction uses using List.reverseRecOn with
  | nil =>
    simp only [kept, List.filterMap_nil, List.append_nil]
    exact text?_ofList pairs path
  | append_singleton uses u ih =>
    rw [after_concat]
    simp only [kept, List.filterMap_append] at ih ⊢
    cases u with
    | insert key text =>
      simp only [use, text?_insert, List.filterMap_cons, List.filterMap_nil, ← List.append_assoc,
        latest?_concat, ih]
    | request asked =>
      simp only [use, text?, texts_request, List.filterMap_cons, List.filterMap_nil,
        List.append_nil]
      exact ih
    | reset =>
      simp only [List.filterMap_cons, List.filterMap_nil, List.append_nil]
      exact ih
    | pass plan limit errand =>
      simp only [use, text?, texts_of_answers (errand.answers_leaves (weaver plan limit) _),
        List.filterMap_cons, List.filterMap_nil, List.append_nil]
      exact ih

theorem mem_handedOut_use (lib : Library) (u : Use) (path : String) :
    path ∈ (lib.use u).handedOut ↔
      (∃ unit, ⟨path, .fresh unit⟩ ∈ u.exchanges lib) ∨ u ≠ .reset ∧ path ∈ lib.handedOut := by
  cases u with
  | insert key text => simp [use, Use.exchanges, insert]
  | request asked =>
    simp only [use, Use.exchanges, mem_handedOut_request, List.mem_singleton]
    simp [or_comm]
  | reset => simp [use, Use.exchanges, reset]
  | pass plan limit errand =>
    have hpass := mem_handedOut_of_answers (errand.answers_leaves (weaver plan limit) lib) path
    simp [use, Use.exchanges, hpass, or_comm]

theorem handedOutSince_concat (lib : Library) (uses : List Use) (u : Use) (path : String) :
    lib.HandedOutSince (uses ++ [u]) path ↔
      (∃ unit, ⟨path, .fresh unit⟩ ∈ u.exchanges (lib.after uses)) ∨
        u ≠ .reset ∧ lib.HandedOutSince uses path := by
  unfold HandedOutSince
  rw [sinceLast_concat]

/-- A library remembers what it has handed out since the last reset. -/
theorem mem_handedOut_after (pairs : List (String × String)) (uses : List Use) (path : String) :
    path ∈ ((ofList pairs).after uses).handedOut ↔ HandedOutSince (ofList pairs) uses path := by
  induction uses using List.reverseRecOn with
  | nil =>
    have hempty : (ofList pairs).handedOut = [] := by
      induction pairs using List.reverseRecOn with
      | nil => rfl
      | append_singleton pairs pair ih => simpa [ofList, insert] using ih
    simp [after, hempty, HandedOutSince, not_sinceLast_nil]
  | append_singleton uses u ih =>
    rw [after_concat, mem_handedOut_use, ih, handedOutSince_concat]

/-! ## Replies -/

/-- A request that hands out no text changes nothing. -/
theorem request_eq_self (h : ∀ unit, (lib.request path).1 ≠ .fresh unit) :
    (lib.request path).2 = lib := by
  rcases lib.request_cases path with ⟨-, text, hrequest⟩ | ⟨-, -, hsame⟩
  · exact absurd (congrArg Prod.fst hrequest) (h _)
  · exact hsame

theorem reply_eq_notFound_iff :
    (lib.request path).1 = .failed (.notFound path) ↔ lib.text? path = none := by
  cases htext : lib.text? path with
  | none => simp [request_of_text?_eq_none htext]
  | some text =>
    by_cases hgone : path ∈ lib.handedOut
    · simp [request_of_mem htext hgone]
    · simp [request_of_not_mem htext hgone]

theorem reply_eq_repeated_iff :
    (lib.request path).1 = .repeated ↔ lib.text? path ≠ none ∧ path ∈ lib.handedOut := by
  cases htext : lib.text? path with
  | none => simp [request_of_text?_eq_none htext]
  | some text =>
    by_cases hgone : path ∈ lib.handedOut
    · simp [request_of_mem htext hgone, hgone]
    · simp [request_of_not_mem htext hgone, hgone]

/-! ## Libraries of the same content -/

/-- The libraries keep the same texts, and have handed out the same ones. They may have been
filled and asked in another order. -/
structure SameContent (lib lib' : Library) : Prop where
  text? : ∀ key, lib.text? key = lib'.text? key
  handedOut : ∀ key, key ∈ lib.handedOut ↔ key ∈ lib'.handedOut

theorem SameContent.request (h : lib.SameContent lib') (path : String) :
    (lib.request path).1 = (lib'.request path).1 ∧
      (lib.request path).2.SameContent (lib'.request path).2 := by
  cases htext : lib.text? path with
  | none =>
    rw [request_of_text?_eq_none htext, request_of_text?_eq_none (h.text? path ▸ htext)]
    exact ⟨rfl, h⟩
  | some text =>
    have htext' : lib'.text? path = some text := h.text? path ▸ htext
    by_cases hgone : path ∈ lib.handedOut
    · rw [request_of_mem htext hgone, request_of_mem htext' ((h.handedOut path).mp hgone)]
      exact ⟨rfl, h⟩
    · rw [request_of_not_mem htext hgone,
        request_of_not_mem htext' (mt (h.handedOut path).mpr hgone)]
      refine ⟨rfl, h.text?, fun key => ?_⟩
      simp only [List.mem_cons, h.handedOut key]

end Library

/-- Passes that differ in their libraries, which have the same content. -/
structure Pass.SameButLibrary (p p' : Pass Library) : Prop where
  output : p.output = p'.output
  exchanges : p.exchanges = p'.exchanges
  events : p.events = p'.events
  stock : p.stock.SameContent p'.stock

namespace Likeness

def libraries : Likeness Library Library where
  state := Pass.SameButLibrary

/-- Libraries of the same content make no difference to any change. -/
theorem lawful_libraries (plan : Plan) (limit : Nat) :
    libraries.Lawful (Library.weaver plan limit) (Library.weaver plan limit) where
  read _ := rfl
  segments _ := Segment.forall₂_like_eq_refl _
  limits := rfl
  isMidLine h := by rw [h.output]
  lineWidth h := by rw [h.output]
  reply {p p'} h path := by
    have hreply : (p.stock.request path).1 = (p'.stock.request path).1 := (h.stock.request path).1
    simp only [Library.weaver, Library.supplier, hreply]
    exact Reply.like_eq_refl _
  asked {p p'} h path := by
    have hreply : (p.stock.request path).1 = (p'.stock.request path).1 := (h.stock.request path).1
    refine ⟨h.output, ?_, h.events, (h.stock.request path).2⟩
    simp only [Weaver.asked, Library.weaver, Library.supplier, h.exchanges, hreply]
  told h e e' he := by
    obtain rfl := he.eq
    exact ⟨h.output, h.exchanges, by simp only [Pass.told, h.events], h.stock⟩
  write h _ _ := ⟨by simp only [Pass.write, h.output], h.exchanges, h.events, h.stock⟩
  endLine h l l' hl := by
    obtain rfl := Location.like_eq.mp hl
    exact ⟨by simp only [h.output], h.exchanges, h.events, h.stock⟩
  flush h l l' hl := by
    obtain rfl := Location.like_eq.mp hl
    exact ⟨by simp only [h.output], h.exchanges, h.events, h.stock⟩

theorem mirrors_entry_libraries (plan : Plan) (limit : Nat) (unit : SourceUnit) :
    libraries.Mirrors Eq ((Library.weaver plan limit).entry unit)
      ((Library.weaver plan limit).entry unit) := by
  have hL := lawful_libraries plan limit
  refine (hL.mirrors_unitAt limit unit.like_eq_refl).bind fun _ _ _ p p' hstate => ?_
  have hevent : Event.Like libraries.key (.finished unit.key p.output.origins.size)
      (.finished unit.key p'.output.origins.size) := by
    rw [hstate.output]
    exact .finished rfl _
  exact .ok hstate.output (hL.told hstate hevent)

theorem mirrors_errand (plan : Plan) (limit : Nat) (errand : Errand) :
    libraries.Mirrors Eq (errand.action (Library.weaver plan limit))
      (errand.action (Library.weaver plan limit)) := by
  have hL := lawful_libraries plan limit
  cases errand with
  | onto unit output =>
    refine (hL.mirrors_unitAt limit unit.like_eq_refl).bind fun _ _ _ p p' hstate => ?_
    exact .ok hstate.output hstate
  | entry unit => exact mirrors_entry_libraries plan limit unit
  | file path =>
    refine (hL.mirrors_request path).bind fun reply reply' hreply => ?_
    cases hreply with
    | failed hcause => exact mirrors_throw (.unresolved path ⟨rfl, rfl⟩ hcause)
    | repeated => exact mirrors_pure rfl
    | @fresh unit unit' hunit =>
      obtain rfl : unit = unit' := by
        cases unit
        cases unit'
        simpa [SourceUnit.Like, libraries] using hunit
      exact mirrors_entry_libraries plan limit unit

end Likeness

/-- Every pass ends in the same way with either of two libraries of the same content. -/
theorem Library.SameContent.run {lib lib' : Library} (h : lib.SameContent lib') (plan : Plan)
    (limit : Nat) (errand : Errand) :
    Outcome.Same (errand.run (weaver plan limit) lib) (errand.run (weaver plan limit) lib') := by
  have hstart : (errand.start lib).SameButLibrary (errand.start lib') := by
    cases errand <;> exact ⟨rfl, rfl, rfl, h⟩
  obtain ⟨output, output', q, q', hok, hok', rfl, hsame⟩ |
    ⟨fault, fault', q, q', herror, herror', hfault, hsame⟩ :=
      (Likeness.mirrors_errand plan limit errand _ _ hstart).ok_or_error
  · exact ⟨q, q', hsame.output, hsame.exchanges, hsame.events, Or.inl ⟨output, hok, hok'⟩⟩
  · obtain rfl := hfault.eq
    exact ⟨q, q', hsame.output, hsame.exchanges, hsame.events, Or.inr ⟨fault, herror, herror'⟩⟩

/-- What a library replies after any uses, passes among them, follows from its history. A
path is not found just if no text was ever kept for it. It is repeated just if one was, and
a request for the path has been answered with a text since the last reset. Otherwise the
reply is the last text kept for the path, with the path for its key. A request that is not
answered with a text might as well not have been made. And after a reset every pass ends as
it does with a new library of the same texts. -/
theorem library_refines_history (pairs : List (String × String)) :
    (∀ uses path,
      let reply := (((Library.ofList pairs).after uses).request path).1
      let texts := pairs ++ Library.kept uses
      let handedOut := (Library.ofList pairs).HandedOutSince uses path
      (reply = .failed (.notFound path) ↔ ∀ text, (path, text) ∉ texts) ∧
      (reply = .repeated ↔ (∃ text, (path, text) ∈ texts) ∧ handedOut) ∧
      ((∃ text, (path, text) ∈ texts) → ¬ handedOut →
        ∃ text, Library.latest? texts path = some text ∧ reply = .fresh ⟨path, text⟩)) ∧
    (∀ earlier path later,
      (∀ unit, (((Library.ofList pairs).after earlier).request path).1 ≠ .fresh unit) →
      (Library.ofList pairs).after (earlier ++ .request path :: later) =
        (Library.ofList pairs).after (earlier ++ later)) ∧
    ∀ uses pairs', (∀ path, Library.latest? pairs' path =
        Library.latest? (pairs ++ Library.kept uses) path) →
      ∀ plan limit errand,
        Outcome.Same
          (Errand.run errand (Library.weaver plan limit) ((Library.ofList pairs).after uses).reset)
          (Errand.run errand (Library.weaver plan limit) (Library.ofList pairs')) := by
  refine ⟨fun uses path => ?_, fun earlier path later hnone => ?_,
    fun uses pairs' htexts plan limit errand => ?_⟩
  · have hkept : ((Library.ofList pairs).after uses).text? path ≠ none ↔
        ∃ text, (path, text) ∈ pairs ++ Library.kept uses := by
      rw [Library.text?_after, ne_eq, Library.latest?_eq_none_iff]
      push Not
      rfl
    refine ⟨?_, ?_, fun hinserted hnew => ?_⟩
    · rw [Library.reply_eq_notFound_iff, Library.text?_after, Library.latest?_eq_none_iff]
    · rw [Library.reply_eq_repeated_iff, hkept, Library.mem_handedOut_after]
    · obtain ⟨text, htext⟩ := Option.ne_none_iff_exists'.mp (hkept.mpr hinserted)
      refine ⟨text, Library.text?_after pairs uses path ▸ htext, ?_⟩
      have hleft := mt (Library.mem_handedOut_after pairs uses path).mp hnew
      rw [Library.request_of_not_mem htext hleft]
  · rw [Library.after_append, Library.after_append]
    -- the request leaves the library as it is, so what comes later begins in the same state
    exact congrArg (Library.after · later) (Library.request_eq_self hnone)
  · refine Library.SameContent.run ⟨fun key => ?_, fun key => ?_⟩ plan limit errand
    · rw [Library.text?_ofList, htexts key]
      exact Library.text?_after pairs uses key
    · have hnew := Library.mem_handedOut_after pairs' [] key
      simp only [Library.HandedOutSince, not_sinceLast_nil, iff_false] at hnew
      exact ⟨fun hmem => (List.not_mem_nil hmem).elim, fun hmem => absurd hmem hnew⟩

namespace Sample

def oldTexts : List (String × String) :=
  [("a", "old;"), ("b", "#include \"a\"\n#include \"lost\"")]

/-- A pass that is handed both texts and then fails. -/
def failing : Library.Use :=
  .pass .empty 2 (.entry ⟨"main", "#include \"b\""⟩)

/-- A lost text is asked for once more, and a text that was handed out is replaced. -/
def uses : List Library.Use :=
  [failing, .request "lost", .insert "a" "new;"]

end Sample

/-- The new text is not handed out before a reset, and then it is the one that a pass gets. -/
theorem library_refines_history_sample :
    (Library.ofList Sample.oldTexts).HandedOutSince Sample.uses "a" ∧
    (Library.ofList Sample.oldTexts).after Sample.uses =
      (Library.ofList Sample.oldTexts).after [Sample.failing, .insert "a" "new;"] ∧
    Outcome.Same
      (Errand.run (.file "a") (Library.weaver .empty 0)
        ((Library.ofList Sample.oldTexts).after Sample.uses).reset)
      (Errand.run (.file "a") (Library.weaver .empty 0)
        (Library.ofList [("b", "#include \"a\"\n#include \"lost\""), ("a", "new;")])) := by
  obtain ⟨hreplies, hidle, hreset⟩ := library_refines_history Sample.oldTexts
  refine ⟨?_, ?_, ?_⟩
  · exact ((hreplies Sample.uses "a").2.1.mp (by decide +kernel)).2
  · have hlost : (((Library.ofList Sample.oldTexts).after [Sample.failing]).request "lost").1 =
        .failed (.notFound "lost") := by decide +kernel
    exact hidle [Sample.failing] "lost" [.insert "a" "new;"] (by simp [hlost])
  · refine hreset Sample.uses _ (fun path => ?_) .empty 0 (.file "a")
    by_cases ha : path = "a"
    · subst ha
      rfl
    · simp [Library.latest?, Library.kept, Sample.uses, Sample.failing, Sample.oldTexts,
        List.lookup_cons, beq_eq_false_iff_ne.mpr ha]

end ShaderWeave
