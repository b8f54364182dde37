import ChangeLens.Dependency.Graph
import ChangeLens.Import.Scan
import ChangeLens.Import.Tree
import ChangeLens.Resolution
import ChangeLens.Toolchain

/-! Building the graph around some changed files. Files are visited in the order of their paths before any
bound cuts them off, so a graph that is cut off is the same on every run. Each file is read at most once in
the two scans, which share what they have read. -/
namespace ChangeLens

inductive Content where
  | text (content : String)
  | absent
  | unreadable

def Content.text? : Content → Option String
  | text content => some content
  | _ => none

structure Bounds where
  /-- How many edges each of the two scans may find. -/
  edges : Int := 100
  /-- With more dependents than this there is no second scan. -/
  secondRing : Int := 50
  /-- How many files are scanned. -/
  files : Int := 5000

structure Codebase where
  tools : Toolchain
  /-- The tracked files, sorted. -/
  tracked : List String
  content : (ref path : String) → Content
  bounds : Bounds

namespace Codebase

def familyFor (c : Codebase) (path : String) : String := c.tools.registry.familyFor path

def scannedImports (c : Codebase) (source path : String) : List Import :=
  Import.ofText (Resolution.familyOf (c.familyFor path) path) source

def imports (c : Codebase) (source path : String) : List Import :=
  let scanned := c.scannedImports source path
  match c.tools.registry.forPath? path with
  | none => scanned
  | some l =>
    if Import.parsedFamilies.contains l.family then
      match c.tools.parse l.id source with
      | .tree root => Import.ofRoot l.family root
      | _ => scanned
    else scanned

def targets (c : Codebase) (i : Import) (fromFile : String) : List (String × List String) :=
  Resolution.targets c.tracked i fromFile (c.familyFor fromFile)

def edgesOf (c : Codebase) (file : String) (imports : List Import) : List Edge :=
  imports.flatMap fun i => (c.targets i file).map fun (target, symbols) => ⟨file, target, i.specifier, symbols⟩

/-- The tracked files that are scanned: those of a scannable family that are not excluded, up to a bound. -/
def candidates (c : Codebase) (exclude : List String) : List String :=
  let all := c.tracked.filter fun path =>
    !exclude.contains path && Import.scannedFamilies.contains (c.familyFor path)
  if (all.length : Int) > c.bounds.files then Text.takeSigned c.bounds.files all else all

/-- What the scans remember: the imports of the files read, and all reads in order. -/
structure Memory where
  known : List (String × List Import) := []
  reads : List (String × String) := []

/-- The imports of a file in the scans. It is read only if it has not been read before. -/
def importsOf (c : Codebase) (ref path : String) (m : Memory) : List Import × Memory :=
  match m.known.lookup path with
  | some imports => (imports, m)
  | none =>
    let imports := (((c.content ref path).text?.filter (!·.isEmpty)).map (c.scannedImports · path)).getD []
    (imports, ⟨(path, imports) :: m.known, m.reads ++ [(ref, path)]⟩)

/-- Adds an edge that leads to one of the targets, as long as there is room for it. -/
def addEdge (c : Codebase) (targets : List String) (edges : List Edge) (e : Edge) : List Edge :=
  if targets.contains e.target && (edges.length : Int) < c.bounds.edges then edges ++ [e] else edges

/-- Scans files for edges to the targets. It stops at the first file for which there is no room left. -/
def scan (c : Codebase) (ref : String) (targets skip : List String) :
    (files : List String) → List Edge → Memory → List Edge × Memory
  | [], edges, m => (edges, m)
  | file :: files, edges, m =>
    if (edges.length : Int) ≥ c.bounds.edges then (edges, m)
    else if skip.contains file then scan c ref targets skip files edges m
    else
      let (imports, m) := c.importsOf ref file m
      scan c ref targets skip files ((c.edgesOf file imports).foldl (c.addEdge targets) edges) m

/-- The edges from the changed files to other files. Each changed file is read, and read anew if it is
listed twice. -/
def forward (c : Codebase) (ref : String) (changed : List String) : List Edge :=
  changed.flatMap fun path =>
    match (c.content ref path).text?.filter (!·.isEmpty) with
    | none => []
    | some text => (c.edgesOf path (c.imports text path)).filter (·.target != path)

structure Built where
  graph : DependencyGraph
  reads : List (String × String)

def build (c : Codebase) (changed : List String) (ref : String) : Built :=
  let forward := c.forward ref changed
  let candidates := c.candidates changed
  let (reverse, m) := c.scan ref changed [] candidates [] {}
  let dependents := DependencyGraph.sources reverse
  let (second, m) :=
    if !dependents.isEmpty && (dependents.length : Int) ≤ c.bounds.secondRing
    then c.scan ref dependents dependents candidates [] m else ([], m)
  ⟨⟨forward, reverse, second, candidates.length, 0⟩, changed.map (ref, ·) ++ m.reads⟩

end Codebase
end ChangeLens
