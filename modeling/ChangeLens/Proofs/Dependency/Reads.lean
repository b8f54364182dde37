import ChangeLens.Proofs.Dependency.Placement

/-! Which files a build reads. The content of a file is asked for from outside. The answer may be anything, a failure as
well, and need not be the same the next time, and so the build is followed question by question. It asks for the changed
files and then for the first of the files that are scanned, and for none of them twice. -/
namespace ChangeLens.Codebase

/-- What is answered to a question for the content of a file, after all the questions before it. -/
abbrev Answers := (asked : List (String × String)) → (ref path : String) → Content

variable (c : Codebase) (answers : Answers) (ref : String)

def ask (path : String) (m : Memory) : Content × Memory :=
  (answers m.reads ref path, { m with reads := m.reads ++ [(ref, path)] })

def forwardAsking : (changed : List String) → Memory → List Edge × Memory
  | [], m => ([], m)
  | path :: changed, m =>
    let (content, m) := ask answers ref path m
    let (edges, m) := forwardAsking changed m
    (c.edgesIn content path ++ edges, m)

def importsAsking (path : String) (m : Memory) : List Import × Memory :=
  match m.known.lookup path with
  | some imports => (imports, m)
  | none =>
    let (content, m) := ask answers ref path m
    let imports := c.importsIn content path
    (imports, { m with known := (path, imports) :: m.known })

def scanAsking (targets skip : List String) : (files : List String) → List Edge → Memory → List Edge × Memory
  | [], edges, m => (edges, m)
  | file :: files, edges, m =>
    if (edges.length : Int) ≥ c.bounds.edges then (edges, m)
    else if skip.contains file then scanAsking targets skip files edges m
    else
      let (imports, m) := importsAsking c answers ref file m
      scanAsking targets skip files ((c.edgesOf file imports).foldl (c.addEdge targets) edges) m

def buildAsking (changed : List String) : Built :=
  let (forward, m) := forwardAsking c answers ref changed {}
  let candidates := c.candidates changed
  let (reverse, m) := scanAsking c answers ref changed [] candidates [] m
  let dependents := DependencyGraph.sources reverse
  let (second, m) :=
    if !dependents.isEmpty && (dependents.length : Int) ≤ c.bounds.secondRing
    then scanAsking c answers ref dependents dependents candidates [] m else ([], m)
  ⟨⟨forward, reverse, second, candidates.length, 0⟩, m.reads⟩

def Memory.after (before : List (String × String)) (m : Memory) : Memory := { m with reads := before ++ m.reads }

variable (before : List (String × String)) (m : Memory)

theorem forwardAsking_eq (changed : List String) :
    c.forwardAsking (fun _ => c.content) ref changed m =
      (c.forward ref changed, { m with reads := m.reads ++ changed.map (ref, ·) }) := by
  induction changed generalizing m with
  | nil => simp [forwardAsking, forward]
  | cons path changed ih =>
    simp only [forwardAsking, ask, ih, forward, List.flatMap_cons, List.map_cons, List.append_assoc, List.singleton_append]
    rfl

theorem importsAsking_eq (path : String) :
    c.importsAsking (fun _ => c.content) ref path (m.after before) =
      ((c.importsOf ref path m).1, (c.importsOf ref path m).2.after before) := by
  simp only [importsAsking, importsOf, Memory.after]
  cases m.known.lookup path with
  | some imports => rfl
  | none => simp [ask, importsIn, Content.words?]

theorem scanAsking_eq (targets skip files : List String) (edges : List Edge) :
    c.scanAsking (fun _ => c.content) ref targets skip files edges (m.after before) =
      ((c.scan ref targets skip files edges m).1, (c.scan ref targets skip files edges m).2.after before) := by
  induction files generalizing edges m with
  | nil => rfl
  | cons file files ih =>
    rw [scanAsking, scan]
    split
    next => rfl
    next =>
      split
      next => exact ih m edges
      next =>
        rw [importsAsking_eq]
        exact ih _ _

/-- With a content for every file, whenever it is asked for, this is the build. -/
theorem buildAsking_eq (changed : List String) : c.buildAsking (fun _ => c.content) ref changed = c.build changed ref := by
  have start : ({ reads := [] ++ changed.map (ref, ·) } : Memory) = Memory.after (changed.map (ref, ·)) {} := by
    simp [Memory.after]
  simp only [buildAsking, build, forwardAsking_eq, start, scanAsking_eq]
  split <;> rfl

/-- What is known are the files that have been read in the scans, and the reads are those, after earlier ones. -/
structure Remembers (ref : String) (before : List (String × String)) (read : List String) (m : Memory) : Prop where
  reads : m.reads = before ++ read.map (ref, ·)
  known : ∀ path, m.known.lookup path = none ↔ path ∉ read

variable {c answers ref before m}

theorem Remembers.start (reads : m.reads = before) (known : m.known = []) : Remembers ref before [] m := by
  refine ⟨by simp [reads], fun path => ?_⟩
  simp [known]

/-- A file that has been read is not asked for, and one that has not is. -/
theorem Remembers.importsAsking {read : List String} (remembers : Remembers ref before read m) (c : Codebase)
    (answers : Answers) (path : String) :
    Remembers ref before (if path ∈ read then read else read ++ [path]) (c.importsAsking answers ref path m).2 := by
  simp only [Codebase.importsAsking]
  cases known : m.known.lookup path with
  | some imports =>
    have member : path ∈ read := by
      by_contra fresh
      rw [(remembers.known path).mpr fresh] at known
      contradiction
    rw [if_pos member]
    exact remembers
  | none =>
    rw [if_neg ((remembers.known path).mp known)]
    refine ⟨by simp [ask, remembers.reads], fun other => ?_⟩
    by_cases same : other = path
    · simp [ask, same]
    · simp [ask, same, List.lookup_cons, beq_false_of_ne same, remembers.known other]

/-- A scan over the rest of some files, of which a beginning has been read, reads on from there. -/
theorem scanAsking_reads (c : Codebase) (answers : Answers) (targets done : List String) {skip rest : List String}
    (edges : List Edge) {k : Nat} (distinct : (done ++ rest).Nodup) (skipped : ∀ path ∈ skip, path ∈ done ++ rest.take k)
    (remembers : Remembers ref before (done ++ rest.take k) m) :
    ∃ n, Remembers ref before (done ++ rest.take n) (c.scanAsking answers ref targets skip rest edges m).2 ∧
      ∀ e ∈ (c.scanAsking answers ref targets skip rest edges m).1, e ∈ edges ∨ e.source ∈ done ++ rest.take n := by
  induction rest generalizing done edges m k with
  | nil => exact ⟨k, remembers, fun e member => .inl member⟩
  | cons file rest ih =>
    have distinct' : ((done ++ [file]) ++ rest).Nodup := by simpa using distinct
    have fresh : file ∉ done := by
      rw [List.nodup_append] at distinct
      exact fun member => distinct.2.2 file member file (.head _) rfl
    -- the rest of the scan, with what is known before it told by the files in front of the rest
    have goesOn {edges' : List Edge} {m' : Memory} {k : Nat}
        (skipped : ∀ path ∈ skip, path ∈ (done ++ [file]) ++ rest.take k)
        (remembers : Remembers ref before ((done ++ [file]) ++ rest.take k) m')
        (sources : ∀ e ∈ edges', e ∈ edges ∨ e.source = file) :
        ∃ n, Remembers ref before (done ++ (file :: rest).take n) (c.scanAsking answers ref targets skip rest edges' m').2 ∧
          ∀ e ∈ (c.scanAsking answers ref targets skip rest edges' m').1,
            e ∈ edges ∨ e.source ∈ done ++ (file :: rest).take n := by
      obtain ⟨n, last, found⟩ := ih (done ++ [file]) edges' distinct' skipped remembers
      refine ⟨n + 1, by simpa using last, fun e member => ?_⟩
      rcases found e member with earlier | later
      · exact (sources e earlier).imp_right fun same => by simp [same]
      · exact .inr (by simpa using later)
    rw [scanAsking]
    split
    next => exact ⟨k, remembers, fun e member => .inl member⟩
    next =>
      split
      next skip_it =>
        -- a file that is skipped has been read before
        cases k with
        | zero =>
          have := skipped file (by simpa using skip_it)
          simp [fresh] at this
        | succ k => exact goesOn (by simpa using skipped) (by simpa using remembers) fun e member => .inl member
      next =>
        have kept := remembers.importsAsking c answers file
        generalize c.importsAsking answers ref file m = found at kept ⊢
        obtain ⟨imports, m'⟩ := found
        have sources : ∀ e ∈ (c.edgesOf file imports).foldl (c.addEdge targets) edges,
            e ∈ edges ∨ e.source = file := by
          intro e member
          rw [foldl_addEdge] at member
          exact (List.mem_append.mp member).imp_right fun made =>
            (mem_edgesOf (List.mem_of_mem_filter (List.mem_of_mem_take made))).1
        cases k with
        | zero =>
          rw [List.take_zero, List.append_nil, if_neg fresh] at kept
          have skipped : ∀ path ∈ skip, path ∈ (done ++ [file]) ++ rest.take 0 := by
            intro path member
            simp [show path ∈ done by simpa using skipped path member]
          exact goesOn skipped (by simpa using kept) sources
        | succ k =>
          rw [if_pos (by simp)] at kept
          exact goesOn (by simpa using skipped) (by simpa using kept) sources

/-- A scan of some files, of which a beginning has been read before, reads a beginning of them. -/
theorem scanAsking_reads_whole (c : Codebase) (answers : Answers) (targets : List String) {skip files : List String}
    {k : Nat} (distinct : files.Nodup) (skipped : ∀ path ∈ skip, path ∈ files.take k)
    (remembers : Remembers ref before (files.take k) m) :
    ∃ n, Remembers ref before (files.take n) (c.scanAsking answers ref targets skip files [] m).2 ∧
      ∀ e ∈ (c.scanAsking answers ref targets skip files [] m).1, e.source ∈ files.take n := by
  obtain ⟨n, last, found⟩ := c.scanAsking_reads answers targets [] [] distinct skipped remembers
  exact ⟨n, last, fun e member => (found e member).resolve_left List.not_mem_nil⟩

theorem forwardAsking_memory (changed : List String) :
    (c.forwardAsking answers ref changed m).2 = { m with reads := m.reads ++ changed.map (ref, ·) } := by
  induction changed generalizing m with
  | nil => simp [forwardAsking]
  | cons path changed ih => simp [forwardAsking, ask, ih]

/-- The second scan begins anew, but all files that it skips and all that it meets first have been read by the first. -/
theorem buildAsking_reads {changed : List String} (distinct : (c.candidates changed).Nodup) :
    ∃ n, (c.buildAsking answers ref changed).reads = (changed ++ (c.candidates changed).take n).map (ref, ·) := by
  have start : Remembers ref (changed.map (ref, ·)) ((c.candidates changed).take 0)
      (c.forwardAsking answers ref changed {}).2 := .start (by simp [forwardAsking_memory]) (by simp [forwardAsking_memory])
  obtain ⟨k, first, sources⟩ := c.scanAsking_reads_whole answers changed distinct (List.forall_mem_nil _) start
  have told {n : Nat} {m : Memory} (remembers : Remembers ref (changed.map (ref, ·)) ((c.candidates changed).take n) m) :
      m.reads = (changed ++ (c.candidates changed).take n).map (ref, ·) := by
    rw [remembers.reads, List.map_append]
  simp only [buildAsking]
  split
  next =>
    have skipped : ∀ path ∈ DependencyGraph.sources
        (c.scanAsking answers ref changed [] (c.candidates changed) [] (c.forwardAsking answers ref changed {}).2).1,
        path ∈ (c.candidates changed).take k := by
      intro path member
      obtain ⟨e, found, rfl⟩ := DependencyGraph.mem_sources.mp member
      exact sources e found
    obtain ⟨n, second, -⟩ := c.scanAsking_reads_whole answers _ distinct skipped first
    exact ⟨n, told second⟩
  next => exact ⟨k, told first⟩

/-- Reads that spare every file a second one. -/
structure Sparing (ref : String) (changed scanned : List String) (reads : List (String × String)) : Prop where
  /-- The changed files are read, and then the first of the others. -/
  ordered : ∃ n, reads = (changed ++ scanned.take n).map (ref, ·)
  once : ∀ path, (reads.map (·.2)).count path ≤ 1
  /-- A file that was asked for is not asked for again, whatever came of it. -/
  settled : ∀ before after path, reads = before ++ (ref, path) :: after → ∀ later, (later, path) ∉ after

theorem sparing_of_nodup {changed scanned : List String} {reads : List (String × String)}
    (distinct : (changed ++ scanned).Nodup) (ordered : ∃ n, reads = (changed ++ scanned.take n).map (ref, ·)) :
    Sparing ref changed scanned reads := by
  obtain ⟨n, rfl⟩ := ordered
  have paths : (((changed ++ scanned.take n).map (ref, ·)).map (·.2)) = changed ++ scanned.take n := by
    simp [Function.comp_def]
  have distinct := distinct.sublist ((List.take_sublist n scanned).append_left changed)
  refine ⟨⟨n, rfl⟩, fun path => ?_, fun before after path split later member => ?_⟩
  · rw [paths]
    exact List.nodup_iff_count_le_one.mp distinct path
  · rw [← paths, split, List.map_append, List.map_cons, List.nodup_append, List.nodup_cons] at distinct
    exact distinct.2.1.1 (List.mem_map_of_mem (f := (·.2)) member)

theorem nodup_changed_append_candidates {changed : List String} (sorted : c.tracked.Pairwise (· < ·))
    (counts : 0 ≤ c.bounds.files) (distinct : changed.Nodup) : (changed ++ c.candidates changed).Nodup := by
  refine List.nodup_append.mpr ⟨distinct, nodup_candidates sorted counts changed, fun path listed other scanned => ?_⟩
  rintro rfl
  exact (mem_candidates scanned).2.1 listed

/-- A build reads each file at most once. It reads the changed files and, of the other tracked files that can be scanned,
some of the first, as many as may be scanned at most. This holds whatever is answered, and of the build as it runs. -/
theorem build_reads_once (tools : Toolchain) (listing : Option (List String))
    (content : (ref path : String) → Content) (edges ring files : Nat) {changed : List String}
    (distinct : changed.Nodup) (ref : String) :
    let c := ofListing tools listing content edges ring files
    ∃ others : List String, others.Pairwise (· < ·) ∧
      (∀ path, path ∈ others ↔ (path ∈ listing.getD [] ∧ path ≠ "") ∧ path ∉ changed ∧
        c.familyFor path ∈ Import.scannedFamilies) ∧
      Sparing ref changed (others.take files) (c.build changed ref).reads ∧
      ∀ answers, Sparing ref changed (others.take files) (c.buildAsking answers ref changed).reads ∧
        ((∀ asked, answers asked = content) → c.buildAsking answers ref changed = c.build changed ref) := by
  intro c
  have sorted : c.tracked.Pairwise (· < ·) := FileIndex.pairwise_snapshot listing
  have counts : 0 ≤ c.bounds.files := Int.natCast_nonneg files
  have scanned : c.candidates changed = (c.tracked.filter fun path =>
      !changed.contains path && Import.scannedFamilies.contains (c.familyFor path)).take files :=
    candidates_eq c changed counts
  have apart := nodup_changed_append_candidates sorted counts distinct
  have sparing (answers : Answers) : Sparing ref changed (c.candidates changed) (c.buildAsking answers ref changed).reads :=
    sparing_of_nodup apart (buildAsking_reads (nodup_candidates sorted counts changed))
  have same : c.buildAsking (fun _ => content) ref changed = c.build changed ref := c.buildAsking_eq ref changed
  refine ⟨_, sorted.filter fun path => !changed.contains path && Import.scannedFamilies.contains (c.familyFor path),
    fun path => ?_, ?_, fun answers => ⟨?_, fun constant => ?_⟩⟩
  · simp [c, ofListing, FileIndex.mem_snapshot]
  · rw [← scanned, ← same]
    exact sparing _
  · rw [← scanned]
    exact sparing answers
  · rw [← same, funext constant]

/-- A file that can be read only later, when it is not asked for any more. -/
theorem build_reads_once_late :
    let tools : Toolchain := ⟨.standard, .everything, fun _ _ => .failed⟩
    let content (_ path : String) : Content := if path = "late.js" then .unreadable else .text "import './core';"
    let late : Answers := fun asked ref path => if asked.length < 3 then content ref path else .text "import './user';"
    let c := ofListing tools (some ["user.js", "late.js", "core.js"]) content 1 5 9
    ["core.js"].Nodup ∧ ∃ others : List String, "late.js" ∈ others ∧
      ((c.build ["core.js"] "HEAD").reads.map (·.2)).count "late.js" ≤ 1 ∧
      ((c.buildAsking late "HEAD" ["core.js"]).reads.map (·.2)).count "late.js" ≤ 1 := by
  intro tools content late c
  have distinct : ["core.js"].Nodup := by decide
  obtain ⟨others, -, listed, build, asking⟩ :=
    build_reads_once tools (some ["user.js", "late.js", "core.js"]) content 1 5 9 distinct "HEAD"
  have family : c.familyFor "late.js" ∈ Import.scannedFamilies := by
    change Registry.standard.familyFor "late.js" ∈ Import.scannedFamilies
    decide +kernel
  exact ⟨distinct, others, (listed "late.js").mpr ⟨by decide, by decide, family⟩, build.once _, (asking late).1.once _⟩

end ChangeLens.Codebase
