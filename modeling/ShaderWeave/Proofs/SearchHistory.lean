import ShaderWeave.Proofs.LibraryHistory
import ShaderWeave.Supply.SearchPath

/-!
# What a search path hands out

A file that is looked up along a search path has three names: the path that was asked for,
the spelling by which it was found first, and its canonical path. It is reported under the
second and counted under the third. Files may come and go between two requests, so all
that is known of them is what they answer at each request. Still no file is handed out
twice before a reset, and a request that fails leaves no trace.

## Main definitions

- `FileSystem.Coherent`: a path leads to the same content as its canonical path.
- `SearchPath.Finds`: the first directory that holds a file of a path.
- `SearchPath.Use`, `SearchPath.after`: what is done with a search path, and what comes of it.
- `SearchPath.HandedOutSince`: a file has been handed out since the last reset.

## Main results

- `SearchPath.request_of_unhanded`: a file is handed out if it can be read and has not been
  handed out.
- `SearchPath.mem_handedOut_after`: a search path remembers what its history says.
- `SearchPath.hands_out_each_file_once`: the laws of all requests.
-/

namespace ShaderWeave

/-- A path leads to the same content as its canonical path, which is one more name of the same
file. -/
def FileSystem.Coherent (fs : FileSystem) : Prop :=
  ∀ path file, fs.canonical path = .ok file → fs.read path = fs.read file

namespace SearchPath

variable {s : SearchPath} {fs : FileSystem} {path found file : String} {unit : SourceUnit}

/-! ## Looking up a path -/

/-- The path is found under the spelling `found`: some directory holds a file of that path, and
none in front of it does. -/
def Finds (directories : List String) (fs : FileSystem) (path found : String) : Prop :=
  ∃ front d back, directories = front ++ d :: back ∧ candidate d path = found ∧
    fs.isFile found = true ∧ ∀ d' ∈ front, fs.isFile (candidate d' path) = false

theorem find?_eq_some_iff : s.find? fs path = some found ↔ Finds s.directories fs path found := by
  simp only [find?, List.find?_map, Option.map_eq_some_iff, List.find?_eq_some_iff_append]
  constructor
  · rintro ⟨d, ⟨hfile, front, back, hsplit, hfront⟩, rfl⟩
    exact ⟨front, d, back, hsplit, rfl, hfile, by simpa using hfront⟩
  · rintro ⟨front, d, back, hsplit, rfl, hfile, hfront⟩
    exact ⟨d, ⟨hfile, front, back, hsplit, by simpa using hfront⟩, rfl⟩

theorem find?_eq_none_iff :
    s.find? fs path = none ↔ ∀ d ∈ s.directories, fs.isFile (candidate d path) = false := by
  simp [find?]

theorem Finds.append {directories : List String} (h : Finds directories fs path found)
    (more : List String) : Finds (directories ++ more) fs path found := by
  obtain ⟨front, d, back, rfl, hfound⟩ := h
  exact ⟨front, d, back ++ more, by simp, hfound⟩

/-! ## Requests -/

theorem request_of_find?_eq_none (h : s.find? fs path = none) :
    s.request fs path = (.failed (.notFound path), s) := by
  simp [request, h]

theorem request_of_not_canonical {reason : String} (h : s.find? fs path = some found)
    (hcanonical : fs.canonical found = .error reason) :
    s.request fs path = (.failed (.unreadable path reason), s) := by
  simp [request, h, hcanonical]

theorem request_of_mem (h : s.find? fs path = some found)
    (hcanonical : fs.canonical found = .ok file) (hgone : file ∈ s.handedOut) :
    s.request fs path = (.repeated, s) := by
  simp [request, h, hcanonical, hgone]

theorem request_of_unreadable {reason : String} (h : s.find? fs path = some found)
    (hcanonical : fs.canonical found = .ok file) (hnew : file ∉ s.handedOut)
    (hread : fs.read file = .error reason) :
    s.request fs path = (.failed (.unreadable path reason), s) := by
  simp [request, h, hcanonical, hnew, hread]

/-- A file is handed out, under the spelling it was found by, if it can be read and has not
been handed out. -/
theorem request_of_unhanded {text : String} (h : s.find? fs path = some found)
    (hcanonical : fs.canonical found = .ok file) (hnew : file ∉ s.handedOut)
    (hread : fs.read file = .ok text) :
    s.request fs path = (.fresh ⟨found, text⟩, { s with handedOut := file :: s.handedOut }) := by
  simp [request, h, hcanonical, hnew, hread]

/-- A file that could not be read is handed out once it can be, by whatever spelling. -/
theorem reply_after_unreadable {reason path' found' text : String} {fs' : FileSystem}
    (h : s.find? fs path = some found) (hcanonical : fs.canonical found = .ok file)
    (hnew : file ∉ s.handedOut) (hread : fs.read file = .error reason)
    (h' : s.find? fs' path' = some found') (hcanonical' : fs'.canonical found' = .ok file)
    (hread' : fs'.read file = .ok text) :
    ((s.request fs path).2.request fs' path').1 = .fresh ⟨found', text⟩ := by
  rw [request_of_unreadable h hcanonical hnew hread]
  exact congrArg Prod.fst (request_of_unhanded h' hcanonical' hnew hread')

/-- A request hands out a file that has not been handed out, or hands out nothing and changes
nothing. -/
theorem request_cases (s : SearchPath) (fs : FileSystem) (path : String) :
    (∃ found file text, s.find? fs path = some found ∧ fs.canonical found = .ok file ∧
      file ∉ s.handedOut ∧ fs.read file = .ok text ∧
      s.request fs path =
        (.fresh ⟨found, text⟩, { s with handedOut := file :: s.handedOut })) ∨
    (∀ unit, (s.request fs path).1 ≠ .fresh unit) ∧ (s.request fs path).2 = s := by
  cases hfind : s.find? fs path with
  | none => simp [request_of_find?_eq_none hfind]
  | some found =>
    cases hcanonical : fs.canonical found with
    | error reason => simp [request_of_not_canonical hfind hcanonical]
    | ok file =>
      by_cases hgone : file ∈ s.handedOut
      · simp [request_of_mem hfind hcanonical hgone]
      · cases hread : fs.read file with
        | error reason => simp [request_of_unreadable hfind hcanonical hgone hread]
        | ok text =>
          exact Or.inl ⟨found, file, text, rfl, hcanonical, hgone, hread,
            request_of_unhanded hfind hcanonical hgone hread⟩

theorem exists_of_fresh (h : (s.request fs path).1 = .fresh unit) :
    ∃ file, s.find? fs path = some unit.key ∧ fs.canonical unit.key = .ok file ∧
      file ∉ s.handedOut ∧ fs.read file = .ok unit.text ∧
      (s.request fs path).2 = { s with handedOut := file :: s.handedOut } := by
  rcases s.request_cases fs path with
    ⟨found, file, text, hfind, hcanonical, hnew, hread, hrequest⟩ | ⟨hnone, -⟩
  · rw [hrequest] at h
    cases h
    exact ⟨file, hfind, hcanonical, hnew, hread, by rw [hrequest]⟩
  · exact absurd h (hnone unit)

/-- A request that hands out nothing changes nothing. -/
theorem request_eq_self (h : ∀ unit, (s.request fs path).1 ≠ .fresh unit) :
    (s.request fs path).2 = s := by
  rcases s.request_cases fs path with ⟨found, file, text, -, -, -, -, hrequest⟩ | ⟨-, hsame⟩
  · exact absurd (congrArg Prod.fst hrequest) (h _)
  · exact hsame

/-- A file that is found is repeated just if it was handed out before. -/
theorem reply_eq_repeated_iff (h : s.find? fs path = some found)
    (hcanonical : fs.canonical found = .ok file) :
    (s.request fs path).1 = .repeated ↔ file ∈ s.handedOut := by
  by_cases hgone : file ∈ s.handedOut
  · simp [request_of_mem h hcanonical hgone, hgone]
  · cases hread : fs.read file with
    | error reason => simp [request_of_unreadable h hcanonical hgone hread, hgone]
    | ok text => simp [request_of_unhanded h hcanonical hgone hread, hgone]

theorem reply_eq_notFound_iff :
    (s.request fs path).1 = .failed (.notFound path) ↔ s.find? fs path = none := by
  unfold request
  cases s.find? fs path with
  | none => simp
  | some found =>
    simp only [reduceCtorEq, iff_false]
    split
    · simp
    · split
      · simp
      · split <;> simp

/-- The directories are looked up only to find the file. -/
theorem reply_congr {s' : SearchPath} (hfind : s.find? fs path = s'.find? fs path)
    (hgone : s.handedOut = s'.handedOut) : (s.request fs path).1 = (s'.request fs path).1 := by
  unfold request
  rw [hfind, hgone]
  split
  · rfl
  · split
    · rfl
    · split
      · rfl
      · split <;> rfl

/-! ## What is done with a search path -/

/-- Something that is done with a search path. Every request meets the files as they are at
that moment. -/
inductive Use where
  | request (fs : FileSystem) (path : String)
  | addDirectory (directory : String)
  | reset

def use (s : SearchPath) : Use → SearchPath
  | .request fs path => (s.request fs path).2
  | .addDirectory directory => s.addDirectory directory
  | .reset => s.reset

/-- The search path after all uses, the first one first. -/
def after (s : SearchPath) (uses : List Use) : SearchPath :=
  uses.foldl use s

/-- The directories that are added by the uses. -/
def added (uses : List Use) : List String :=
  uses.filterMap fun
    | .addDirectory directory => some directory
    | _ => none

/-- The use is a request that hands out the file of the given canonical path. -/
def HandsOut (s : SearchPath) (file : String) : Use → Prop
  | .request fs path =>
    ∃ unit, (s.request fs path).1 = .fresh unit ∧ fs.canonical unit.key = .ok file
  | _ => False

/-- The file has been handed out since the last reset. -/
def HandedOutSince (s : SearchPath) (uses : List Use) (file : String) : Prop :=
  SinceLast .reset (fun earlier u => (s.after earlier).HandsOut file u) uses

theorem after_concat (s : SearchPath) (uses : List Use) (u : Use) :
    s.after (uses ++ [u]) = (s.after uses).use u := by
  simp [after]

/-- Directories are only added, each behind the ones that are there. -/
theorem directories_after (s : SearchPath) (uses : List Use) :
    (s.after uses).directories = s.directories ++ added uses := by
  induction uses using List.reverseRecOn with
  | nil => simp [after, added]
  | append_singleton uses u ih =>
    rw [after_concat]
    cases u with
    | request fs path =>
      have hkept : ((s.after uses).request fs path).2.directories = (s.after uses).directories := by
        rcases (s.after uses).request_cases fs path with
          ⟨found, file, text, -, -, -, -, hrequest⟩ | ⟨-, hsame⟩
        · rw [hrequest]
        · rw [hsame]
      simpa [use, added, hkept] using ih
    | addDirectory directory => simp [use, addDirectory, added, ih]
    | reset => simpa [use, reset, added] using ih

theorem mem_handedOut_use (s : SearchPath) (u : Use) (file : String) :
    file ∈ (s.use u).handedOut ↔ s.HandsOut file u ∨ u ≠ .reset ∧ file ∈ s.handedOut := by
  cases u with
  | request fs path =>
    rcases s.request_cases fs path with
      ⟨found, file', text, -, hcanonical, -, -, hrequest⟩ | ⟨hnone, hsame⟩
    · simp [use, HandsOut, hrequest, hcanonical, eq_comm]
    · simp [use, HandsOut, hnone, hsame]
  | addDirectory directory => simp [use, HandsOut, addDirectory]
  | reset => simp [use, HandsOut, reset]

theorem handedOutSince_concat (s : SearchPath) (uses : List Use) (u : Use) (file : String) :
    s.HandedOutSince (uses ++ [u]) file ↔
      (s.after uses).HandsOut file u ∨ u ≠ .reset ∧ s.HandedOutSince uses file := by
  unfold HandedOutSince
  rw [sinceLast_concat]

/-- A search path remembers what it has handed out since the last reset. -/
theorem mem_handedOut_after (hs : s.handedOut = []) (uses : List Use) (file : String) :
    file ∈ (s.after uses).handedOut ↔ s.HandedOutSince uses file := by
  induction uses using List.reverseRecOn with
  | nil => simp [after, hs, HandedOutSince, not_sinceLast_nil]
  | append_singleton uses u ih =>
    rw [after_concat, mem_handedOut_use, ih, handedOutSince_concat]

/-- Between two resets no two requests hand out files of one canonical path. -/
theorem canonical_ne_of_fresh (hs : s.handedOut = []) {earlier middle : List Use}
    {fs' : FileSystem} {path' : String} {unit' : SourceUnit} (hreset : Use.reset ∉ middle)
    (hfirst : ((s.after earlier).request fs path).1 = .fresh unit)
    (hsecond : ((s.after (earlier ++ .request fs path :: middle)).request fs' path').1 =
      .fresh unit') : fs.canonical unit.key ≠ fs'.canonical unit'.key := by
  intro heq
  obtain ⟨file, -, hcanonical, -⟩ := exists_of_fresh hfirst
  obtain ⟨file', -, hcanonical', hnew, -⟩ := exists_of_fresh hsecond
  rw [hcanonical, hcanonical'] at heq
  cases heq
  have hsince : s.HandedOutSince (earlier ++ .request fs path :: middle) file :=
    ⟨earlier, _, middle, rfl, hreset, unit, hfirst, hcanonical⟩
  exact hnew ((mem_handedOut_after hs _ _).mpr hsince)

theorem find?_after (s : SearchPath) (uses : List Use) :
    (s.after uses).find? fs path = some found ↔
      Finds (s.directories ++ added uses) fs path found := by
  rw [find?_eq_some_iff, directories_after]

/-- Further directories do not change the reply for a path that is found without them. -/
theorem reply_addDirectories (hfind : s.find? fs path = some found) (more : List String) :
    ((s.after (more.map .addDirectory)).request fs path).1 = (s.request fs path).1 := by
  have hadded : added (more.map .addDirectory) = more := by
    simp [added, List.filterMap_map]
  have hgone : (s.after (more.map .addDirectory)).handedOut = s.handedOut := by
    induction more using List.reverseRecOn with
    | nil => rfl
    | append_singleton more directory ih =>
      rw [List.map_append, List.map_singleton, after_concat]
      exact ih (by simp [added, List.filterMap_map])
  refine reply_congr ?_ hgone
  rw [hfind, find?_after, hadded]
  exact (find?_eq_some_iff.mp hfind).append more

/-- Between two resets no two requests hand out files of one canonical path, by whatever
spellings these are found. A request that hands out nothing changes nothing. A file that is
found is repeated just if it has been handed out since the last reset. If it has not been, then
it is handed out if it can be read; and if it cannot be read, a later request that can read it
gets it. What is handed out is the content of the first file found, under the spelling it
was found by, and the path is not found just if no directory holds it. The content is read by
the canonical path, so it is what the spelling itself leads to as far as files are coherent.
Further directories do not change the reply for a path that is found without them. -/
theorem hands_out_each_file_once (directories : List String) :
    let start : SearchPath := { directories := directories }
    (∀ earlier fs path middle fs' path' unit unit', Use.reset ∉ middle →
      ((start.after earlier).request fs path).1 = .fresh unit →
      ((start.after (earlier ++ .request fs path :: middle)).request fs' path').1 = .fresh unit' →
      fs.canonical unit.key ≠ fs'.canonical unit'.key) ∧
    ∀ uses fs path,
      let s := start.after uses
      let reply := (s.request fs path).1
      let searched := directories ++ added uses
      ((∀ unit, reply ≠ .fresh unit) → (s.request fs path).2 = s) ∧
      (∀ found file, Finds searched fs path found → fs.canonical found = .ok file →
        (reply = .repeated ↔ start.HandedOutSince uses file) ∧
        (¬ start.HandedOutSince uses file →
          (∀ text, fs.read file = .ok text → reply = .fresh ⟨found, text⟩) ∧
          ∀ reason, fs.read file = .error reason → reply = .failed (.unreadable path reason) ∧
            ∀ fs' path' found' text, Finds searched fs' path' found' →
              fs'.canonical found' = .ok file → fs'.read file = .ok text →
              ((start.after (uses ++ [.request fs path])).request fs' path').1 =
                .fresh ⟨found', text⟩)) ∧
      (∀ unit, reply = .fresh unit → Finds searched fs path unit.key ∧
        (∃ file, fs.canonical unit.key = .ok file ∧ fs.read file = .ok unit.text) ∧
        (fs.Coherent → fs.read unit.key = .ok unit.text)) ∧
      (reply = .failed (.notFound path) ↔
        ∀ d ∈ searched, fs.isFile (candidate d path) = false) ∧
      ∀ found (more : List String), Finds searched fs path found →
        ((start.after (uses ++ more.map .addDirectory)).request fs path).1 = reply := by
  intro start
  have hhanded : ∀ uses file,
      file ∈ (start.after uses).handedOut ↔ start.HandedOutSince uses file :=
    mem_handedOut_after rfl
  constructor
  · intro earlier fs path middle fs' path' unit unit' hreset hfirst hsecond
    exact canonical_ne_of_fresh rfl hreset hfirst hsecond
  · intro uses fs path s reply searched
    refine ⟨request_eq_self, fun found file hfinds hcanonical => ?_, fun unit hfresh => ?_, ?_,
      fun found more hfinds => ?_⟩
    · have hfind := (find?_after start uses).mpr hfinds
      rw [← hhanded uses file]
      refine ⟨reply_eq_repeated_iff hfind hcanonical, fun hnew => ⟨fun text hread => ?_, ?_⟩⟩
      · exact congrArg Prod.fst (request_of_unhanded hfind hcanonical hnew hread)
      · intro reason hread
        have hrequest := request_of_unreadable hfind hcanonical hnew hread
        refine ⟨congrArg Prod.fst hrequest, ?_⟩
        intro fs' path' found' text hfinds' hcanonical' hread'
        rw [after_concat]
        exact reply_after_unreadable hfind hcanonical hnew hread
          ((find?_after start uses).mpr hfinds') hcanonical' hread'
    · obtain ⟨file, hfind, hcanonical, -, hread, -⟩ := exists_of_fresh hfresh
      refine ⟨(find?_after start uses).mp hfind, ⟨file, hcanonical, hread⟩, fun hcoherent => ?_⟩
      rw [hcoherent _ file hcanonical, hread]
    · rw [reply_eq_notFound_iff, find?_eq_none_iff, directories_after]
    · have hfind := (find?_after start uses).mpr hfinds
      have happend : start.after (uses ++ more.map .addDirectory) =
          s.after (more.map .addDirectory) := List.foldl_append
      rw [happend]
      exact reply_addDirectories hfind more

end SearchPath

namespace Sample

/-- The canonical paths of two files, each of which goes by several spellings. -/
def whereabouts (path : String) : Except String String :=
  if path ∈ ["lib/x", "lib/./x", "/lib/x"] then .ok "/lib/x"
  else if path ∈ ["lib/y", "/lib/y"] then .ok "/lib/y"
  else .error "no such file"

/-- The files can be read or not, whatever they are called. -/
def files (readable : Bool) : FileSystem where
  isFile path := (whereabouts path).isOk
  canonical := whereabouts
  read path :=
    match whereabouts path with
    | .ok file => if readable then .ok ("in " ++ file) else .error "denied"
    | .error reason => .error reason

theorem coherent_files (readable : Bool) : (files readable).Coherent := by
  intro path file hcanonical
  replace hcanonical : whereabouts path = .ok file := hcanonical
  -- a canonical path is its own canonical path
  have hfixed : whereabouts file = .ok file := by
    unfold whereabouts at hcanonical
    split_ifs at hcanonical with hx hy
    · cases hcanonical
      decide
    · cases hcanonical
      decide
  simp only [files, hcanonical, hfixed]

theorem finds_files (readable : Bool) {path found : String}
    (hfound : SearchPath.candidate "lib" path = found) (hfile : (whereabouts found).isOk = true) :
    SearchPath.Finds ["lib"] (files readable) path found :=
  ⟨[], "lib", [], rfl, hfound, hfile, by simp⟩

end Sample

/-- Two files are two, a file is found again under its other spelling, and one that could not
be read is handed out when it can be, with the content that the other spelling has. -/
theorem SearchPath.hands_out_each_file_once_sample :
    let start : SearchPath := { directories := ["lib"] }
    (Sample.files true).canonical "lib/x" ≠ (Sample.files true).canonical "lib/y" ∧
    start.HandedOutSince [.request (Sample.files true) "x"] "/lib/x" ∧
    ((start.after [.request (Sample.files false) "x"]).request (Sample.files true) "./x").1 =
      .fresh ⟨"lib/./x", "in /lib/x"⟩ ∧
    (Sample.files true).Coherent ∧ (Sample.files true).read "lib/./x" = .ok "in /lib/x" := by
  intro start
  obtain ⟨honce, hlaws⟩ := hands_out_each_file_once ["lib"]
  have hx : candidate "lib" "x" = "lib/x" := by decide +kernel
  have hdotted : candidate "lib" "./x" = "lib/./x" := by decide +kernel
  have hlater : ((start.after [.request (Sample.files false) "x"]).request (Sample.files true)
      "./x").1 = .fresh ⟨"lib/./x", "in /lib/x"⟩ := by
    have hfirst := (hlaws [] (Sample.files false) "x").2.1 "lib/x" "/lib/x"
      (Sample.finds_files false hx (by decide)) (by decide)
    have hdenied := (hfirst.2 not_sinceLast_nil).2 "denied" (by decide)
    exact hdenied.2 (Sample.files true) "./x" "lib/./x" "in /lib/x"
      (Sample.finds_files true hdotted (by decide)) (by decide) (by decide)
  have hcontent := ((hlaws [.request (Sample.files false) "x"] (Sample.files true) "./x").2.2.1
    ⟨"lib/./x", "in /lib/x"⟩ hlater).2.2 (Sample.coherent_files true)
  refine ⟨?_, ?_, hlater, Sample.coherent_files true, hcontent⟩
  · exact honce [] (Sample.files true) "x" [.addDirectory "lib/."] (Sample.files true) "y"
      ⟨"lib/x", "in /lib/x"⟩ ⟨"lib/y", "in /lib/y"⟩ (by simp) (by decide +kernel)
      (by decide +kernel)
  · have hagain := (hlaws [.request (Sample.files true) "x"] (Sample.files true) "./x").2.1
      "lib/./x" "/lib/x" (Sample.finds_files true hdotted (by decide)) (by decide)
    exact hagain.1.mp (by decide +kernel)

end ShaderWeave
