import ShaderWeave.Proofs.LineReading

/-!
# What makes a directive line

Which lines of a text are directives is said here from the lines alone: from what
stands on a line between the white space at its ends, and from whether the line
begins inside a block comment. Neither the modes of the scan nor its way of
looking ahead come in. The reading that the scan makes use of is shown to agree.

## Main definitions

- `Line.Quotes`: a text quotes a path.
- `Line.Asks`: a line consists of a directive.
- `Line.Holds`: the directives of several lines, and the comment they leave open.
- `Line.listing`: the same, computed.

## Main results

- `Line.directive?_eq_some_iff`: the directive that a line is read as is the one it
  consists of.
- `Line.holds_iff`: lines hold their listing and nothing else.
-/

namespace ShaderWeave.Line

/-- The text holds two double quotes or more, and `path` stands between the first
two of them. -/
def Quotes (text path : List Char) : Prop :=
  ∃ front back, text = front ++ '"' :: (path ++ '"' :: back) ∧ '"' ∉ front ∧ '"' ∉ path

/-- The line without the white space at its two ends. -/
def trimmed (line : List Char) : List Char :=
  Text.trimEnd (line.dropWhile Text.isSpace)

/-- The line, unless it begins inside a block comment, consists of the directive. -/
inductive Asks (plan : Plan) (line : List Char) : Directive → Prop where
  /-- Behind white space stand the word for an inclusion and a quoted path. -/
  | quoted {rest path : List Char}
    (word : line.dropWhile Text.isSpace = Directive.inclusionWord ++ rest)
    (quotes : Quotes rest path) : Asks plan line (.inclusion (some (String.ofList path)))
  /-- The word for an inclusion stands there, but no quoted path. -/
  | unquoted {rest : List Char}
    (word : line.dropWhile Text.isSpace = Directive.inclusionWord ++ rest)
    (quotes : ∀ path, ¬ Quotes rest path) : Asks plan line (.inclusion none)
  /-- The line is no inclusion and no comment, and has the name of a placeholder
  for its content. -/
  | named {name : String}
    (word : ¬ Directive.inclusionWord <+: line.dropWhile Text.isSpace)
    (slash : (line.dropWhile Text.isSpace).head? ≠ some '/')
    (content : trimmed line = name.toList) (nonempty : name ≠ "")
    (registered : ∃ s ∈ plan.segments, s.placeholder.name = name) :
    Asks plan line (.placeholder name)

/-- The lines `ls` hold the directives `ds`, each with the number of its line. There
are `n` lines in front of them. The first flag tells whether the lines begin inside
a block comment, and the second whether they end inside one. -/
inductive Holds (plan : Plan) :
    Nat → Bool → List (List Char) → List (Nat × Directive) → Bool → Prop where
  | none (n : Nat) (commented : Bool) : Holds plan n commented [] [] commented
  /-- A directive line leaves no comment open, whatever stands on it. -/
  | directive {n : Nat} {line : List Char} {ls : List (List Char)} {d : Directive}
    {ds : List (Nat × Directive)} {commented : Bool} (asks : Asks plan line d)
    (rest : Holds plan (n + 1) false ls ds commented) :
    Holds plan n false (line :: ls) ((n + 1, d) :: ds) commented
  /-- On any other line comments begin and end as they stand there. -/
  | plain {n : Nat} {line : List Char} {ls : List (List Char)} {ds : List (Nat × Directive)}
    {commented commented' : Bool} (asks : commented = false → ∀ d, ¬ Asks plan line d)
    (rest : Holds plan (n + 1) (commentAfter commented line) ls ds commented') :
    Holds plan n commented (line :: ls) ds commented'

/-- The directives of the lines, each with the number of its line. -/
def listing (plan : Plan) : Nat → Bool → List (List Char) → List (Nat × Directive)
  | _, _, [] => []
  | n, commented, line :: ls =>
    ((directive? plan commented line).map (n + 1, ·)).toList ++
      listing plan (n + 1) (commentedNext plan commented line) ls

/-! ## Quoted paths -/

theorem quotedPath?_eq_some_iff {text path : List Char} :
    Directive.quotedPath? text = some path ↔ Quotes text path := by
  have hpass : ∀ {front : List Char}, '"' ∉ front → ∀ c ∈ front, (c != '"') = true := by
    intro front hfront c hc
    have hne : c ≠ '"' := by
      rintro rfl
      exact hfront hc
    simp [hne]
  constructor
  · intro h
    by_cases hopen : '"' ∈ text
    · obtain ⟨front, opened, rfl, hfront⟩ := List.eq_append_cons_of_mem hopen
      rw [Directive.quotedPath?, List.dropWhile_append_of_pos (hpass hfront)] at h
      simp only [bne_self_eq_false, Bool.false_eq_true, not_false_eq_true,
        List.dropWhile_cons_of_neg] at h
      split at h
      · next hclose =>
        obtain ⟨path', back, rfl, hpath⟩ := List.eq_append_cons_of_mem hclose
        rw [List.takeWhile_append_of_pos (hpass hpath)] at h
        obtain rfl : path' = path := by simpa using h
        exact ⟨front, back, rfl, hfront, hpath⟩
      · cases h
    · have hnil : text.dropWhile (· != '"') = [] :=
        List.dropWhile_eq_nil_iff.mpr (hpass hopen)
      rw [Directive.quotedPath?, hnil] at h
      cases h
  · rintro ⟨front, back, rfl, hfront, hpath⟩
    rw [Directive.quotedPath?, List.dropWhile_append_of_pos (hpass hfront)]
    simp [List.takeWhile_append_of_pos (hpass hpath)]

theorem quotedPath?_eq_none_iff {text : List Char} :
    Directive.quotedPath? text = none ↔ ∀ path, ¬ Quotes text path := by
  simp only [← quotedPath?_eq_some_iff, Option.eq_none_iff_forall_ne_some, ne_eq]

/-! ## Directives of a line -/

variable {plan : Plan} {line : List Char}

theorem asks_inclusion_iff {rest : List Char} {d : Directive}
    (hword : line.dropWhile Text.isSpace = Directive.inclusionWord ++ rest) :
    Asks plan line d ↔ d = .inclusion ((Directive.quotedPath? rest).map String.ofList) := by
  constructor
  · intro h
    cases h with
    | quoted hword' hquotes =>
      rw [hword] at hword'
      obtain rfl := List.append_cancel_left hword'
      rw [quotedPath?_eq_some_iff.mpr hquotes]
      rfl
    | unquoted hword' hquotes =>
      rw [hword] at hword'
      obtain rfl := List.append_cancel_left hword'
      rw [quotedPath?_eq_none_iff.mpr hquotes]
      rfl
    | named hno _ _ _ _ => exact absurd ⟨rest, hword.symm⟩ hno
  · rintro rfl
    cases hpath : Directive.quotedPath? rest with
    | none => exact .unquoted hword (quotedPath?_eq_none_iff.mp hpath)
    | some path => exact .quoted hword (quotedPath?_eq_some_iff.mp hpath)

theorem asks_placeholder_iff {d : Directive}
    (hword : ¬ Directive.inclusionWord <+: line.dropWhile Text.isSpace) :
    Asks plan line d ↔ (line.dropWhile Text.isSpace).head? ≠ some '/' ∧
      ∃ name, d = .placeholder name ∧ String.ofList (trimmed line) = name ∧ name ≠ "" ∧
        plan.segments.any (·.placeholder.name == name) := by
  constructor
  · intro h
    cases h with
    | quoted hword' _ => exact absurd ⟨_, hword'.symm⟩ hword
    | unquoted hword' _ => exact absurd ⟨_, hword'.symm⟩ hword
    | named _ hslash hcontent hne hregistered =>
      refine ⟨hslash, _, rfl, ?_, hne, ?_⟩
      · rw [hcontent, String.ofList_toList]
      · simpa using hregistered
  · rintro ⟨hslash, name, rfl, hcontent, hne, hregistered⟩
    refine .named hword hslash ?_ hne (by simpa using hregistered)
    rw [← hcontent, String.toList_ofList]

theorem firstLine_of_oneLine {body : List Char} (h : '\n' ∉ body) : Text.firstLine body = body := by
  simpa using Text.firstLine_append h (Or.inl rfl)

theorem read?_inclusion (plan : Plan) {rest : List Char} (h : '\n' ∉ rest) :
    Directive.read? plan (Directive.inclusionWord ++ rest) =
      some (.inclusion ((Directive.quotedPath? rest).map String.ofList)) := by
  have hword : Directive.inclusionWord = '#' :: "include".toList := by decide
  have hline : '\n' ∉ Directive.inclusionWord ++ rest := by
    intro hmem
    rcases List.mem_append.mp hmem with hmem | hmem
    · exact absurd hmem (by decide)
    · exact h hmem
  have hstart : ¬ (Text.isSpace '#' ∨ '#' = '/') := by decide
  have hstarts : Directive.inclusionWord.isPrefixOf (Directive.inclusionWord ++ rest) = true := by
    simp
  have hread : Directive.read? plan (Directive.inclusionWord ++ rest) =
      if Text.isSpace '#' ∨ '#' = '/' then none
      else if Directive.inclusionWord.isPrefixOf (Directive.inclusionWord ++ rest) then
        some (.inclusion ((Directive.quotedPath? ((Text.firstLine
          (Directive.inclusionWord ++ rest)).drop Directive.inclusionWord.length)).map
            String.ofList))
      else (plan.placeholderAt? (Directive.inclusionWord ++ rest)).map .placeholder := by
    rw [hword]
    rfl
  rw [hread, if_neg hstart, if_pos hstarts, firstLine_of_oneLine hline, List.drop_left]

theorem read?_placeholder_iff {body : List Char} {d : Directive} (hline : '\n' ∉ body)
    (hhead : ∀ c ∈ body.head?, Text.isSpace c = false)
    (hword : ¬ Directive.inclusionWord <+: body) :
    Directive.read? plan body = some d ↔ body.head? ≠ some '/' ∧
      ∃ name, d = .placeholder name ∧ String.ofList (Text.trimEnd body) = name ∧ name ≠ "" ∧
        plan.segments.any (·.placeholder.name == name) := by
  cases body with
  | nil =>
    constructor
    · intro h
      cases h
    · rintro ⟨-, name, -, hname, hne, -⟩
      exact absurd hname.symm hne
  | cons c body =>
    have hspace : Text.isSpace c = false := hhead c rfl
    have hstarts : Directive.inclusionWord.isPrefixOf (c :: body) = false := by
      rw [Bool.eq_false_iff, ne_eq, List.isPrefixOf_iff_prefix]
      exact hword
    by_cases hslash : c = '/'
    · simp [Directive.read?, hslash]
    · simp only [Directive.read?, hspace, hslash, hstarts, Bool.false_eq_true, or_self, if_false,
        Plan.placeholderAt?_eq, firstLine_of_oneLine hline, Option.map_eq_some_iff, List.head?_cons,
        ne_eq, Option.some.injEq, not_false_eq_true, true_and]
      constructor
      · rintro ⟨name, hname, rfl⟩
        split at hname
        · next h =>
          cases hname
          exact ⟨_, rfl, rfl, h.1, h.2⟩
        · cases hname
      · rintro ⟨name, rfl, rfl, hne, hany⟩
        exact ⟨_, if_pos ⟨hne, hany⟩, rfl⟩

/-- The directive that a line is read as is the one it consists of. -/
theorem directive?_eq_some_iff (hline : '\n' ∉ line) {commented : Bool} {d : Directive} :
    directive? plan commented line = some d ↔ commented = false ∧ Asks plan line d := by
  cases commented with
  | true => simp [directive?]
  | false =>
    have hbody : '\n' ∉ line.dropWhile Text.isSpace := fun h =>
      hline (List.dropWhile_subset _ h)
    have hhead : ∀ c ∈ (line.dropWhile Text.isSpace).head?, Text.isSpace c = false := by
      intro c hc
      have hnot := List.head?_dropWhile_not Text.isSpace line
      rw [Option.mem_def.mp hc] at hnot
      simpa using hnot
    simp only [directive?, Bool.false_eq_true, if_false, true_and]
    by_cases hword : Directive.inclusionWord <+: line.dropWhile Text.isSpace
    · obtain ⟨rest, hrest⟩ := hword
      rw [asks_inclusion_iff hrest.symm, ← hrest,
        read?_inclusion plan (Text.oneLine_append (hrest ▸ hbody)).2, Option.some.injEq, eq_comm]
    · rw [asks_placeholder_iff hword]
      exact read?_placeholder_iff hbody hhead hword

theorem directive?_eq_none_iff (hline : '\n' ∉ line) {commented : Bool} :
    directive? plan commented line = none ↔ (commented = false → ∀ d, ¬ Asks plan line d) := by
  simp only [Option.eq_none_iff_forall_ne_some, ne_eq, directive?_eq_some_iff hline, not_and]
  exact forall_comm

/-! ## Directives of several lines -/

theorem listing_directive {n : Nat} {commented : Bool} {ls : List (List Char)} {d : Directive}
    (h : directive? plan commented line = some d) :
    listing plan n commented (line :: ls) = (n + 1, d) :: listing plan (n + 1) false ls := by
  simp [listing, commentedNext, h]

theorem listing_plain {n : Nat} {commented : Bool} {ls : List (List Char)}
    (h : directive? plan commented line = none) :
    listing plan n commented (line :: ls) =
      listing plan (n + 1) (commentAfter commented line) ls := by
  simp [listing, commentedNext, h]

/-- Lines hold the directives of their listing, and no others. -/
theorem holds_iff {ls : List (List Char)} (hclean : ∀ l ∈ ls, '\n' ∉ l) {n : Nat}
    {commented commented' : Bool} {ds : List (Nat × Directive)} :
    Holds plan n commented ls ds commented' ↔
      ds = listing plan n commented ls ∧ commented' = ls.foldl (commentedNext plan) commented := by
  induction ls generalizing n commented ds with
  | nil =>
    constructor
    · intro h
      cases h
      exact ⟨rfl, rfl⟩
    · rintro ⟨rfl, rfl⟩
      exact .none _ _
  | cons line ls ih =>
    have hline : '\n' ∉ line := hclean line List.mem_cons_self
    have hrest := fun l hl => hclean l (List.mem_cons_of_mem _ hl)
    rw [List.foldl_cons]
    cases hd : directive? plan commented line with
    | some d =>
      obtain ⟨rfl, hasks⟩ := (directive?_eq_some_iff hline).mp hd
      have hnext : commentedNext plan false line = false := by simp [commentedNext, hd]
      rw [listing_directive hd, hnext]
      constructor
      · intro h
        cases h with
        | directive hasks' hholds =>
          have hd' := (directive?_eq_some_iff hline).mpr ⟨rfl, hasks'⟩
          rw [hd] at hd'
          cases hd'
          obtain ⟨rfl, hflag⟩ := (ih hrest).mp hholds
          exact ⟨rfl, hflag⟩
        | plain hnone _ => exact absurd hasks (hnone rfl d)
      · rintro ⟨rfl, hflag⟩
        exact .directive hasks ((ih hrest).mpr ⟨rfl, hflag⟩)
    | none =>
      have hnone := (directive?_eq_none_iff hline).mp hd
      have hnext : commentedNext plan commented line = commentAfter commented line := by
        simp [commentedNext, hd]
      rw [listing_plain hd, hnext]
      constructor
      · intro h
        cases h with
        | directive hasks _ => exact absurd hasks (hnone rfl _)
        | plain _ hholds => exact (ih hrest).mp hholds
      · intro h
        exact .plain hnone ((ih hrest).mpr h)

theorem exists_of_mem_listing {ls : List (List Char)} {n k : Nat} {commented : Bool}
    {d : Directive} (h : (k, d) ∈ listing plan n commented ls) :
    ∃ i line, k = n + i + 1 ∧ ls[i]? = some line ∧
      directive? plan ((ls.take i).foldl (commentedNext plan) commented) line = some d := by
  induction ls generalizing n commented with
  | nil => cases h
  | cons line ls ih =>
    rcases List.mem_append.mp h with hhere | hbehind
    · obtain ⟨d', hd', heq⟩ := Option.map_eq_some_iff.mp (Option.mem_toList.mp hhere)
      cases heq
      exact ⟨0, line, rfl, rfl, hd'⟩
    · obtain ⟨i, line', hk, hline', hd⟩ := ih hbehind
      exact ⟨i + 1, line', by omega, hline', hd⟩

/-- What is listed for the lines of a text are the directives of these lines. -/
theorem directiveAt?_of_mem_listing {text : List Char} {j : Nat} {d : Directive}
    (h : (j + 1, d) ∈ listing plan 0 false (Text.lines text)) :
    directiveAt? plan text j = some d := by
  obtain ⟨i, line, hi, hline, hd⟩ := exists_of_mem_listing h
  obtain rfl : i = j := by omega
  rw [directiveAt?_eq hline]
  exact hd

end ShaderWeave.Line
