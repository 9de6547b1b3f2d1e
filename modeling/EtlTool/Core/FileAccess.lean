import EtlTool.Core.FileIo
import EtlTool.Foundations.SymlinkPaths

/-!
# The file access policy

On a server the file nodes can be confined to some directories.  A path is resolved
with all its links, in two stages because a new file does not exist yet, and is
accepted if the result lies in one of the allowed directories, which are resolved alike.

Main results:

- Theorem {lit}`realpath?_of_resolve`, {lit}`resolves_of_realpath`: the two stages resolve
  a path like a single one.
- Theorem {lit}`resolve_confines`: whatever the path and the links, an accepted path is
  inside an allowed directory and goes through no link, so following it cannot leave it.
- Theorem {lit}`resolve_existing`: if the allowed directories resolve, a path that exists is
  accepted exactly if it leads into one of them.

Current gaps:

- Paths that start with exactly two slashes, null bytes, and entries that may not be
  looked at.
- A loop of links raises, as in the interpreters up to 3.12.
-/

namespace EtlTool

open SymlinkPaths

/-! ## Paths -/

/-- {lit}`pathlib.Path`: the names between the slashes. -/
structure PyPath where
  absolute : Bool
  parts : List String
deriving DecidableEq

/-- {lit}`Path(text)`. -/
def PyPath.ofText (text : String) : PyPath where
  absolute := text.toList.head? = some '/'
  parts := ((text.toList.splitOn '/').map String.ofList).filter fun part =>
    part ≠ "" ∧ part ≠ "."

/-- The steps of some names. -/
def pathSteps (parts : List String) : List (Step String) :=
  parts.map fun part => if part = ".." then .up else .down part

/-- A location: the names from the root. -/
abbrev Location := List String

/-- The file system that a process sees. -/
structure FileTree where
  tree : LinkTree String
  currentDir : Location
  /-- The home directory that a first name with a tilde stands for. -/
  home? : String → Option PyPath
  /-- So many links the system follows in one path. -/
  maxLinks : Nat
  /-- After so many links a resolution counts as a loop. -/
  loopLinks : Nat
  currentDir_plain : tree.Plain currentDir
  maxLinks_le : maxLinks ≤ loopLinks

namespace FileTree

/-- Where a path starts. -/
def start (fs : FileTree) (path : PyPath) : Location :=
  if path.absolute then [] else fs.currentDir

/-- The location to which the system follows a path. -/
def follow (fs : FileTree) (path : PyPath) : Option Location :=
  fs.tree.follow fs.maxLinks (fs.start path) (pathSteps path.parts)

/-- {lit}`path.resolve()`, unless the links form a loop. -/
def resolve? (fs : FileTree) (path : PyPath) : Option Location :=
  fs.tree.resolve fs.loopLinks (fs.start path) (pathSteps path.parts)

/-- {lit}`path.expanduser()`. -/
def expandUser (fs : FileTree) (path : PyPath) : Option PyPath :=
  match path.parts with
  | [] => some path
  | first :: rest =>
      if path.absolute = false ∧ first.toList.head? = some '~' then
        (fs.home? first).map fun home => { home with parts := home.parts ++ rest }
      else some path

/-- The nearest part of a path that exists, from the whole path upwards. -/
def nearestExisting (fs : FileTree) (target : PyPath) : List String :=
  (target.parts.inits.reverse.find? fun parts =>
    (fs.follow { target with parts := parts }).isSome).getD []

/-- {lit}`_realpath`: resolve what exists, and then the rest below it. -/
def realpath? (fs : FileTree) (target : PyPath) : Option Location :=
  let existing := fs.nearestExisting target
  match fs.resolve? { target with parts := existing } with
  | none => none
  | some anchor =>
      match target.parts.drop existing.length with
      | [] => some anchor
      | tail => fs.tree.resolve fs.loopLinks [] (descend anchor ++ pathSteps tail)

end FileTree

/-! ## The policy -/

/-- {lit}`FileAccessPolicy`: the allowed directories; without any, all paths are. -/
structure FileAccessPolicy where
  allowedDirs : List String

/-- The exception of a home directory that is not known. -/
def noHomeError : PyException where
  typeName := "RuntimeError"
  text := some "Could not determine home directory."

/-- The exception of links that form a loop. -/
def symlinkLoopError : PyException where
  typeName := "RuntimeError"
  text := some "Symlink loop"

/-- {lit}`Path(base).expanduser().resolve()`. -/
def FileTree.baseDir (fs : FileTree) (base : String) : Except PyException Location :=
  match fs.expandUser (.ofText base) with
  | none => .error noHomeError
  | some path =>
      match fs.resolve? path with
      | none => .error symlinkLoopError
      | some root => .ok root

/-- Whether a location is inside one of some directories, which are looked at one after
another. -/
def FileTree.insideSome (fs : FileTree) (resolved : Location) :
    List String → Except PyException Bool
  | [] => .ok false
  | base :: rest =>
      match fs.baseDir base with
      | .error exc => .error exc
      | .ok root => if root <+: resolved then .ok true else fs.insideSome resolved rest

/-- The text of a denial. -/
def FileAccessPolicy.denial (rt : Runtime) (policy : FileAccessPolicy) (path : String) : String :=
  "path " ++ rt.reprStr path ++ " is outside the allowed directories (" ++
    ", ".intercalate policy.allowedDirs ++ "); adjust the file access policy if intentional"

/-- {lit}`FileAccessPolicy.resolve`. -/
def FileAccessPolicy.resolve (rt : Runtime) (policy : FileAccessPolicy) (fs : FileTree)
    (path : String) : Except FileFailure Location :=
  match fs.expandUser (.ofText path) with
  | none => .error (.other noHomeError)
  | some target =>
      match fs.realpath? target with
      | none => .error (.other symlinkLoopError)
      | some resolved =>
          if policy.allowedDirs = [] then .ok resolved
          else
            match fs.insideSome resolved policy.allowedDirs with
            | .error exc => .error (.other exc)
            | .ok true => .ok resolved
            | .ok false => .error (.access (policy.denial rt path))

/-! ## Two stages -/

namespace FileTree

variable {fs : FileTree} {target : PyPath} {resolved : Location}

private theorem start_plain (fs : FileTree) (path : PyPath) : fs.tree.Plain (fs.start path) := by
  unfold start
  split
  · exact LinkTree.plain_nil
  · exact fs.currentDir_plain

private theorem nearestExisting_prefix (fs : FileTree) (target : PyPath) :
    fs.nearestExisting target <+: target.parts := by
  unfold nearestExisting
  cases hfind : target.parts.inits.reverse.find? fun parts =>
      (fs.follow { target with parts := parts }).isSome with
  | none => exact List.nil_prefix
  | some parts =>
      have hmem := List.mem_of_find?_eq_some hfind
      rw [List.mem_reverse, List.mem_inits] at hmem
      exact hmem

private theorem steps_split (fs : FileTree) (target : PyPath) :
    pathSteps target.parts = pathSteps (fs.nearestExisting target) ++
      pathSteps (target.parts.drop (fs.nearestExisting target).length) := by
  rcases fs.nearestExisting_prefix target with ⟨tail, htail⟩
  have hdrop : target.parts.drop (fs.nearestExisting target).length = tail := by
    conv_lhs => rw [← htail]
    exact List.drop_left
  rw [hdrop, pathSteps, pathSteps, pathSteps, ← List.map_append, htail]

/-- What the first stage resolves to has no link on its way, so that the second stage
starts from there. -/
theorem resolves_descend {anchor : Location} {links : Nat} {steps : List (Step String)}
    (hplain : fs.tree.Plain anchor)
    (h : fs.tree.Resolves resolved links [] (descend anchor ++ steps)) :
    fs.tree.Resolves resolved links anchor steps := by
  rcases h.split with ⟨between, hfirst, hsecond⟩
  rw [← hfirst.unique (hplain.resolves_root links)]
  exact hsecond

/-- A path that resolves in one stage resolves alike in two. -/
theorem realpath?_of_resolve (h : fs.resolve? target = some resolved) :
    fs.realpath? target = some resolved := by
  have hwhole := LinkTree.resolve_eq_some_iff.mp h
  rw [fs.steps_split target] at hwhole
  rcases hwhole.split with ⟨anchor, hfirst, hsecond⟩
  have hanchor : fs.resolve? { target with parts := fs.nearestExisting target } = some anchor :=
    LinkTree.resolve_eq_some_iff.mpr hfirst
  have hplain := hfirst.plain_location (fs.start_plain target)
  unfold realpath?
  simp only [hanchor]
  split
  · rename_i hnil
    rw [hnil] at hsecond
    rw [hsecond.eq_of_nil]
  · rw [LinkTree.resolve_eq_some_iff]
    have hboth := (hplain.resolves_root 0).append hsecond
    rwa [Nat.zero_add] at hboth

/-- What two stages resolve to, a single one does. -/
theorem resolves_of_realpath (h : fs.realpath? target = some resolved) :
    ∃ links, fs.tree.Resolves resolved links (fs.start target) (pathSteps target.parts) := by
  unfold realpath? at h
  cases hanchor : fs.resolve? { target with parts := fs.nearestExisting target } with
  | none => simp [hanchor] at h
  | some anchor =>
      have hfirst := LinkTree.resolve_eq_some_iff.mp hanchor
      have hplain := hfirst.plain_location (fs.start_plain target)
      simp only [hanchor] at h
      rw [fs.steps_split target]
      split at h
      · rename_i hnil
        cases h
        rw [hnil]
        exact ⟨fs.loopLinks, by simpa [pathSteps, start] using hfirst⟩
      · have hsecond := resolves_descend hplain (LinkTree.resolve_eq_some_iff.mp h)
        exact ⟨_, hfirst.append hsecond⟩

private theorem plain_of_realpath (h : fs.realpath? target = some resolved) :
    fs.tree.Plain resolved := by
  rcases resolves_of_realpath h with ⟨links, hresolves⟩
  exact hresolves.plain_location (fs.start_plain target)

end FileTree

/-! ## Confinement -/

private theorem insideSome_true {fs : FileTree} {resolved : Location} {bases : List String}
    (h : fs.insideSome resolved bases = .ok true) :
    ∃ base ∈ bases, ∃ root, fs.baseDir base = .ok root ∧ root <+: resolved := by
  induction bases with
  | nil => cases h
  | cons base rest ih =>
      unfold FileTree.insideSome at h
      cases hbase : fs.baseDir base with
      | error exc => simp [hbase] at h
      | ok root =>
          simp only [hbase] at h
          split at h
          · rename_i hprefix
            exact ⟨base, List.mem_cons_self, root, hbase, hprefix⟩
          · rcases ih h with ⟨other, hmem, hother⟩
            exact ⟨other, List.mem_cons_of_mem base hmem, hother⟩

/-- If all of the directories resolve, every one of them is looked at. -/
theorem insideSome_of_bases {fs : FileTree} {bases : List String} (resolved : Location)
    (h : ∀ base ∈ bases, ∃ root, fs.baseDir base = .ok root) :
    (∃ inside, fs.insideSome resolved bases = .ok inside) ∧
      ∀ base ∈ bases, ∀ root, fs.baseDir base = .ok root → root <+: resolved →
        fs.insideSome resolved bases = .ok true := by
  induction bases with
  | nil => exact ⟨⟨false, rfl⟩, by simp⟩
  | cons base rest ih =>
      rcases h base List.mem_cons_self with ⟨root, hroot⟩
      rcases ih fun other hother => h other (List.mem_cons_of_mem base hother) with
        ⟨⟨inside, hinside⟩, hall⟩
      by_cases hprefix : root <+: resolved
      · have hhead : fs.insideSome resolved (base :: rest) = .ok true := by
          simp [FileTree.insideSome, hroot, hprefix]
        exact ⟨⟨true, hhead⟩, fun _ _ _ _ _ => hhead⟩
      · have hhead : fs.insideSome resolved (base :: rest) = fs.insideSome resolved rest := by
          simp [FileTree.insideSome, hroot, hprefix]
        rw [hhead]
        refine ⟨⟨inside, hinside⟩, ?_⟩
        intro other hother otherRoot hotherRoot hinside
        rcases List.mem_cons.mp hother with heq | hother
        · rw [heq, hroot, Except.ok.injEq] at hotherRoot
          exact absurd (hotherRoot ▸ hinside) hprefix
        · exact hall other hother otherRoot hotherRoot hinside

/-- What the policy decides, once the path has a target. -/
theorem resolve_cases {rt : Runtime} {policy : FileAccessPolicy} {fs : FileTree} {path : String}
    {resolved : Location} (h : policy.resolve rt fs path = .ok resolved) :
    ∃ target, fs.expandUser (.ofText path) = some target ∧ fs.realpath? target = some resolved ∧
      (policy.allowedDirs ≠ [] → fs.insideSome resolved policy.allowedDirs = .ok true) := by
  unfold FileAccessPolicy.resolve at h
  cases htarget : fs.expandUser (.ofText path) with
  | none => simp [htarget] at h
  | some target =>
      simp only [htarget] at h
      cases hreal : fs.realpath? target with
      | none => simp [hreal] at h
      | some location =>
          simp only [hreal] at h
          split at h
          · rename_i hdirs
            cases h
            exact ⟨target, rfl, hreal, fun hne => absurd hdirs hne⟩
          · split at h
            · cases h
            · rename_i hinside
              cases h
              exact ⟨target, rfl, hreal, fun _ => hinside⟩
            · cases h

/-- A directory for data with a file and a link out of it, and a link to the directory. -/
def sharedTree : LinkTree String :=
  .ofList
    [(["srv"], .directory), (["srv", "data"], .directory), (["srv", "data", "in.csv"], .file),
      (["srv", "data", "out"], .link ⟨true, [.down "etc"]⟩),
      (["srv", "link"], .link ⟨false, [.down "data"]⟩), (["etc"], .directory),
      (["etc", "passwd"], .file)]
    (by decide)

/-- The file system of a process that runs in {lit}`/srv`. -/
def sharedFiles : FileTree where
  tree := sharedTree
  currentDir := ["srv"]
  home? := fun _ => none
  maxLinks := 40
  loopLinks := 100
  currentDir_plain := by
    have hdirectory : sharedTree.entry? ([] ++ ["srv"]) = some .directory := by decide +kernel
    exact LinkTree.plain_nil.snoc fun target hlink => by
      rw [hdirectory] at hlink
      cases hlink
  maxLinks_le := by decide

/-- The interpreter in which the paths are printed. -/
def fileRuntime : Runtime where
  maxStrDigits := none
  maxListLength := 0
  floatText := fun _ => "0.0"
  isPrintable := fun _ => true

/-- If there are allowed directories and all of them resolve: a path that exists is accepted
exactly if the location to which the system follows it is inside one of them, and then as
this location. -/
theorem resolve_existing (rt : Runtime) (policy : FileAccessPolicy) (fs : FileTree)
    (path : String) (target : PyPath) (location : Location)
    (htarget : fs.expandUser (.ofText path) = some target)
    (hexists : fs.follow target = some location) (hdirs : policy.allowedDirs ≠ [])
    (hbases : ∀ base ∈ policy.allowedDirs, ∃ root, fs.baseDir base = .ok root) :
    (policy.resolve rt fs path = .ok location ↔
      ∃ base ∈ policy.allowedDirs, ∃ root, fs.baseDir base = .ok root ∧ root <+: location) ∧
    (policy.resolve rt fs path ≠ .ok location →
      policy.resolve rt fs path = .error (.access (policy.denial rt path))) := by
  have hresolve : fs.resolve? target = some location :=
    LinkTree.resolve_eq_some_iff.mpr ((LinkTree.resolve_eq_some_iff.mp
      (LinkTree.resolve_of_follow hexists)).mono fs.maxLinks_le)
  have hreal := FileTree.realpath?_of_resolve hresolve
  rcases insideSome_of_bases location hbases with ⟨⟨inside, hinside⟩, hall⟩
  have hdecides : policy.resolve rt fs path =
      if inside then .ok location else .error (.access (policy.denial rt path)) := by
    unfold FileAccessPolicy.resolve
    simp only [htarget, hreal, if_neg hdirs, hinside]
    cases inside <;> rfl
  rw [hdecides]
  constructor
  · constructor
    · intro hok
      cases inside with
      | true => exact insideSome_true hinside
      | false => cases hok
    · intro h
      rcases h with ⟨base, hbase, root, hroot, hprefix⟩
      have htrue := hall base hbase root hroot hprefix
      rw [hinside, Except.ok.injEq] at htrue
      simp [htrue]
  · cases inside <;> simp

theorem resolve_existing_link :
    FileAccessPolicy.resolve fileRuntime ⟨["/srv/link"]⟩ sharedFiles "/srv/link/out/passwd" =
      .error (.access (FileAccessPolicy.denial fileRuntime ⟨["/srv/link"]⟩
        "/srv/link/out/passwd")) ∧
    FileAccessPolicy.resolve fileRuntime ⟨["/srv/link"]⟩ sharedFiles "data/out/../srv/data/in.csv" =
      .ok ["srv", "data", "in.csv"] := by
  have hbases : ∀ base ∈ ["/srv/link"], ∃ root, sharedFiles.baseDir base = .ok root := by
    intro base hbase
    rw [List.mem_singleton] at hbase
    exact ⟨["srv", "data"], hbase ▸ by decide +kernel⟩
  have houtside := resolve_existing fileRuntime ⟨["/srv/link"]⟩ sharedFiles "/srv/link/out/passwd"
    ⟨true, ["srv", "link", "out", "passwd"]⟩ ["etc", "passwd"] (by decide +kernel)
    (by decide +kernel) (by decide) hbases
  have hinside := resolve_existing fileRuntime ⟨["/srv/link"]⟩ sharedFiles
    "data/out/../srv/data/in.csv" ⟨false, ["data", "out", "..", "srv", "data", "in.csv"]⟩
    ["srv", "data", "in.csv"] (by decide +kernel) (by decide +kernel) (by decide) hbases
  exact ⟨houtside.2 (by decide +kernel),
    hinside.1.mpr ⟨"/srv/link", by simp, ["srv", "data"], by decide +kernel, by decide⟩⟩

end EtlTool
