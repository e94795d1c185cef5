import RealMode.Command.Run
import RealMode.Proofs.ConfigSearch
import RealMode.Proofs.DocumentRoundTrip
import RealMode.Proofs.Outcome

/-!
# What commands write

A command reads first and writes last, if at all. What it has read before it writes is
therefore what a disk shows that is only looked at.

- `ReadsAs`: a part of a command that only reads gives the same on every disk that shows
  the tree, and leaves the state (`Disk.Shows.readsAs_prepare`).
- `Command.Compiles`: what it takes for a command to have a compiled program, with its
  settings from the flags, else from the configuration that the search finds, else the
  defaults. A command that has none fails (`Command.compiles_or_failure`).
- `Command.Effect`: what a command does to a tree (`Command.exists_effect`).
- An input that has been read lies in a directory, to which its parent path leads, so that
  it is known which configuration has been found (`Command.exists_directory_of_readText`).
-/

namespace RealMode

/-! ## Dry runs -/

/-- The disk of a tree that is only looked at: writing tells whether it could be done. -/
def FileTree.dry (tree : FileTree) : Disk Id where
  readText := tree.readText
  hasEntry := tree.hasEntry
  writeText path text := (tree.writeText path text).map fun _ => ()

@[simp] theorem FileTree.readText_dry (tree : FileTree) (path : String) :
    Id.run (tree.dry.readText path) = tree.readText path :=
  rfl

@[simp] theorem FileTree.hasEntry_dry (tree : FileTree) (path : String) :
    Id.run (tree.dry.hasEntry path) = tree.hasEntry path :=
  rfl

/-- Looking for the first path that exists is a search of the list. -/
theorem FileTree.findFirst_dry (tree : FileTree) (paths : List String) :
    Id.run (tree.dry.findFirst paths) = paths.find? tree.hasEntry := by
  induction paths with
  | nil => rfl
  | cons path paths ih =>
    rw [Disk.findFirst, Id.run_bind, hasEntry_dry, List.find?_cons]
    cases tree.hasEntry path with
    | false => exact ih
    | true => rfl

/-- A file tree with the files that have been written, as a disk. -/
def FileTree.recording : Disk (StateM (FileTree × List (String × String))) where
  readText path := return (← get).1.readText path
  hasEntry path := return (← get).1.hasEntry path
  writeText path text := do
    let (tree, written) ← get
    match tree.writeText path text with
    | .ok after =>
      set (after, written ++ [(path, text)])
      return .ok ()
    | .error fault => return .error fault

/-- A write that succeeds is recorded. -/
theorem FileTree.run_recording_of_ok {tree after : FileTree}
    {written : List (String × String)} {path text : String}
    (h : tree.writeText path text = .ok after) :
    (recording.writeText path text).run (tree, written) =
      (.ok (), after, written ++ [(path, text)]) := by
  simp only [recording, StateT.run_bind, StateT.run_get, pure_bind, h]
  rfl

/-- A write that fails is not recorded, and leaves the tree as it was. -/
theorem FileTree.run_recording_of_error {tree : FileTree}
    {written : List (String × String)} {path text : String} {fault : FileFault}
    (h : tree.writeText path text = .error fault) :
    (recording.writeText path text).run (tree, written) =
      (.error fault, tree, written) := by
  simp only [recording, StateT.run_bind, StateT.run_get, pure_bind, h]
  rfl

/-- The recording disk reads from the tree it carries. -/
theorem FileTree.shows_recording : recording.Shows Prod.fst where
  readText _ _ := rfl
  hasEntry _ _ := rfl

variable {σ α β : Type} {s : σ}

/-- A computation gives a value from a state and leaves the state. -/
def ReadsAs (s : σ) (x : StateM σ α) (y : Id α) : Prop :=
  x.run s = (Id.run y, s)

theorem ReadsAs.pure (a : α) : ReadsAs s (pure a) (pure a) :=
  rfl

/-- Two steps in turn only read if each of them does. -/
theorem ReadsAs.bind {x : StateM σ α} {y : Id α} {f : α → StateM σ β} {g : α → Id β}
    (hx : ReadsAs s x y) (hf : ∀ a, ReadsAs s (f a) (g a)) :
    ReadsAs s (x >>= f) (y >>= g) := by
  rw [ReadsAs, StateT.run_bind, show x.run s = (Id.run y, s) from hx]
  exact hf (Id.run y)

variable {disk : Disk (StateM σ)} {view : σ → FileTree}

namespace Disk.Shows

/-- Reading a file only reads. -/
theorem readsAs_readText (h : disk.Shows view) (path : String) (s : σ) :
    ReadsAs s (disk.readText path) ((view s).dry.readText path) :=
  h.readText path s

theorem readsAs_loadProgram (h : disk.Shows view) (path : String) (s : σ) :
    ReadsAs s (disk.loadProgram path) ((view s).dry.loadProgram path) := by
  refine (h.readsAs_readText path s).bind fun answer => ?_
  cases answer with
  | error fault => exact .pure _
  | ok source =>
    dsimp only
    cases Node.parse source with
    | error e => exact .pure _
    | ok tree => exact .pure _

theorem readsAs_loadConfig (h : disk.Shows view) (path : String) (s : σ) :
    ReadsAs s (disk.loadConfig path) ((view s).dry.loadConfig path) := by
  refine (h.readsAs_readText path s).bind fun answer => ?_
  cases answer with
  | error fault => exact .pure _
  | ok text =>
    dsimp only
    cases Config.parse text with
    | error fault => exact .pure _
    | ok config => exact .pure _

/-- So does looking for the first path that exists, by induction on the paths. -/
theorem readsAs_findFirst (h : disk.Shows view) (paths : List String) (s : σ) :
    ReadsAs s (disk.findFirst paths) ((view s).dry.findFirst paths) := by
  rw [ReadsAs, h.run_findFirst, FileTree.findFirst_dry]

/-- Settling the settings only reads: the configuration, if one is found. -/
theorem readsAs_settings (h : disk.Shows view) (command : Invocation) (s : σ) :
    ReadsAs s (Command.settings disk command)
      (Command.settings (view s).dry command) := by
  refine (h.readsAs_findFirst _ s).bind fun found => ?_
  cases found with
  | none => exact .pure _
  | some path =>
    refine (h.readsAs_loadConfig path s).bind fun answer => ?_
    cases answer with
    | error d => exact .pure _
    | ok config => exact .pure _

/-- Everything a command does before its own part only reads. -/
theorem readsAs_prepare (h : disk.Shows view) (command : Invocation) (s : σ) :
    ReadsAs s (Command.prepare disk command) (Command.prepare (view s).dry command) := by
  refine (h.readsAs_settings command s).bind fun answer => ?_
  cases answer with
  | error d => exact .pure _
  | ok settings =>
    refine (h.readsAs_loadProgram command.input s).bind fun answer => ?_
    cases answer with
    | error d => exact .pure _
    | ok program => exact .pure _

theorem readsAs_data (h : disk.Shows view) (command : Invocation) (s : σ) :
    ReadsAs s (Command.data disk command) (Command.data (view s).dry command) := by
  refine (h.readsAs_loadProgram command.input s).bind fun answer => ?_
  cases answer with
  | error d => exact .pure _
  | ok program => exact .pure _

end Disk.Shows

/-! ## Compiled programs -/

/-- The path of the configuration that is found for an input. -/
def FileTree.configFor (tree : FileTree) (input : String) : Option String :=
  (configCandidates ((Path.parentText? input).getD ".")).find? tree.hasEntry

/-- What a configuration that may have been found sets. -/
def FileTree.Configures (tree : FileTree) : Option String → Config → Prop
  | none, config => config = {}
  | some path, config =>
    ∃ text, tree.readText path = .ok text ∧ Config.parse text = .ok config

namespace Invocation

/-- Each setting from its flag, else from the configuration, else the default. -/
def choose (command : Invocation) (config : Config) : Settings where
  redeclaration := (command.redeclare.or config.redeclaration).getD .warn
  maxDepth := (command.maxDepth.or config.maxDepth).getD 256

/-- The path of the listing. -/
def artifact (command : Invocation) : String :=
  Path.artifact (command.output.getD (Path.defaultBase command.input))

end Invocation

namespace Command

/-- A command has a compiled program: its input can be read, as a program that compiles
with the settings chosen, and its flags and its configuration are in order. -/
def Compiles (tree : FileTree) (command : Invocation) (compiled : Compiled) : Prop :=
  command.maxDepth ≠ some 0 ∧ ∃ config source root,
    tree.Configures (tree.configFor command.input) config ∧
    tree.readText command.input = .ok source ∧ Node.parse source = .ok root ∧
    Compilation.compile (command.choose config) root = .ok compiled

variable {tree : FileTree} {command : Invocation} {compiled : Compiled}

/-- An input that compiles can be read. -/
theorem Compiles.exists_readText (h : Compiles tree command compiled) :
    ∃ source, tree.readText command.input = .ok source := by
  obtain ⟨-, config, source, root, -, hsource, -⟩ := h
  exact ⟨source, hsource⟩

/-- The flags are accepted unless the depth they give is zero. -/
theorem applyFlags_apply_eq_ok_iff {config : Config} {chosen : Settings} :
    applyFlags command (config.apply {}) = .ok chosen ↔
      command.maxDepth ≠ some 0 ∧ chosen = command.choose config := by
  have hchoose : (⟨command.redeclare.getD (config.apply {}).redeclaration,
      command.maxDepth.getD (config.apply {}).maxDepth⟩ : Settings) =
      command.choose config := by
    unfold Invocation.choose Config.apply
    cases command.redeclare <;> cases command.maxDepth <;> rfl
  rw [applyFlags, hchoose]
  by_cases hdepth : command.maxDepth = some 0
  · simp [hdepth]
  · simp [hdepth, eq_comm]

/-- A configuration loads when the file can be read and its entries are accepted. -/
theorem loadConfig_dry_eq_ok_iff {path : String} {config : Config} :
    Id.run (tree.dry.loadConfig path) = .ok config ↔
      tree.Configures (some path) config := by
  rw [Disk.loadConfig, Id.run_bind, FileTree.readText_dry, FileTree.Configures]
  cases tree.readText path with
  | error fault => simp
  | ok text =>
    cases hparse : Config.parse text with
    | error fault => simp [hparse]
    | ok config => simp [hparse]

/-- The settings are those of the nearest configuration, overridden by the flags. -/
theorem settings_dry_eq_ok_iff {chosen : Settings} :
    Id.run (settings tree.dry command) = .ok chosen ↔
      command.maxDepth ≠ some 0 ∧ ∃ config,
        tree.Configures (tree.configFor command.input) config ∧
        chosen = command.choose config := by
  rw [settings, Id.run_bind, Disk.findConfig, FileTree.findFirst_dry,
    ← FileTree.configFor]
  cases tree.configFor command.input with
  | none =>
    show applyFlags command (Config.apply {} {}) = .ok chosen ↔ _
    rw [applyFlags_apply_eq_ok_iff]
    simp [FileTree.Configures]
  | some path =>
    simp only [Id.run_bind, ← loadConfig_dry_eq_ok_iff]
    cases Id.run (tree.dry.loadConfig path) with
    | error d => simp
    | ok config =>
      show applyFlags command (config.apply {}) = .ok chosen ↔ _
      rw [applyFlags_apply_eq_ok_iff]
      simp

/-- A program loads when its file can be read and parsed. -/
theorem loadProgram_dry_eq_ok_iff {path : String} {program : Program} :
    Id.run (tree.dry.loadProgram path) = .ok program ↔
      program.path = path ∧ tree.readText path = .ok program.source ∧
        Node.parse program.source = .ok program.tree := by
  rw [Disk.loadProgram, Id.run_bind, FileTree.readText_dry]
  cases tree.readText path with
  | error fault => simp
  | ok source =>
    cases hparse : Node.parse source with
    | error e =>
      simp only [hparse]
      constructor
      · intro h
        cases h
      · rintro ⟨-, hsource, htree⟩
        rw [← Except.ok.inj hsource, hparse] at htree
        cases htree
    | ok tree =>
      simp only [hparse]
      constructor
      · intro h
        cases h
        exact ⟨rfl, rfl, hparse⟩
      · obtain ⟨path', source', tree'⟩ := program
        rintro ⟨rfl, hsource, htree⟩
        cases hsource
        cases hparse.symm.trans htree
        rfl

/-- With settings and a program, preparing is compiling. -/
theorem prepare_dry_of_ok {chosen : Settings} {program : Program}
    (hsettings : Id.run (settings tree.dry command) = .ok chosen)
    (hprogram : Id.run (tree.dry.loadProgram command.input) = .ok program) :
    Id.run (prepare tree.dry command) =
      compileReport program (Compilation.compile chosen program.tree) := by
  rw [prepare, Id.run_bind, hsettings]
  show Id.run (tree.dry.loadProgram command.input >>= _) = _
  rw [Id.run_bind, hprogram]
  rfl

/-- A command whose input compiles is prepared with the warnings to show. -/
theorem prepare_dry_of_compiles (h : Compiles tree command compiled) :
    Id.run (prepare tree.dry command) =
      .ok (compiled, headlines (compiled.warnings.map Warning.diagnostic)) := by
  obtain ⟨hdepth, config, source, root, hconfig, hsource, hroot, hcompile⟩ := h
  have hsettings := settings_dry_eq_ok_iff.mpr ⟨hdepth, config, hconfig, rfl⟩
  have hprogram : Id.run (tree.dry.loadProgram command.input) =
      .ok ⟨command.input, source, root⟩ :=
    loadProgram_dry_eq_ok_iff.mpr ⟨rfl, hsource, hroot⟩
  rw [prepare_dry_of_ok hsettings hprogram, hcompile]
  rfl

/-- A command has a compiled program or fails. -/
theorem compiles_or_failure (tree : FileTree) (command : Invocation) :
    (∃ compiled, Compiles tree command compiled) ∨
      ∃ text, Id.run (prepare tree.dry command) = .error (failure text) := by
  cases hsettings : Id.run (settings tree.dry command) with
  | error d =>
    refine .inr ⟨line d.render, ?_⟩
    rw [prepare, Id.run_bind, hsettings]
    rfl
  | ok chosen =>
    cases hprogram : Id.run (tree.dry.loadProgram command.input) with
    | error d =>
      refine .inr ⟨line d.headline, ?_⟩
      rw [prepare, Id.run_bind, hsettings]
      show Id.run (tree.dry.loadProgram command.input >>= _) = _
      rw [Id.run_bind, hprogram]
      rfl
    | ok program =>
      cases hcompile : Compilation.compile chosen program.tree with
      | error f =>
        rw [prepare_dry_of_ok hsettings hprogram, hcompile]
        exact .inr ⟨_, rfl⟩
      | ok compiled =>
        obtain ⟨hdepth, config, hconfig, rfl⟩ := settings_dry_eq_ok_iff.mp hsettings
        obtain ⟨-, hsource, hroot⟩ := loadProgram_dry_eq_ok_iff.mp hprogram
        exact .inl ⟨compiled, hdepth, config, _, _, hconfig, hsource, hroot, hcompile⟩

/-! ## Running a command -/

/-- Every subcommand but `build` only reads. -/
theorem readsAs_invoke (h : disk.Shows view) (hsub : command.subcommand ≠ .build)
    (s : σ) :
    ReadsAs s (invoke disk command) (invoke (view s).dry command) := by
  have hprepare := h.readsAs_prepare command s
  unfold invoke
  cases hcommand : command.subcommand with
  | data => exact h.readsAs_data command s
  | build => exact absurd hcommand hsub
  | check | symbols =>
    refine hprepare.bind fun answer => ?_
    cases answer with
    | error outcome => exact .pure _
    | ok prepared => exact .pure _

/-- What a build tells, by the answer to its write. -/
def buildOutcome (command : Invocation) (compiled : Compiled) :
    Except FileFault Unit → Outcome
  | .ok () => ⟨0, "", headlines (compiled.warnings.map Warning.diagnostic) ++
      line s!"Compiled -> {command.artifact}"⟩
  | .error fault => failure (headlines (compiled.warnings.map Warning.diagnostic) ++
      line (fault.writeDiagnostic command.artifact).render)

/-- A build whose program compiles leaves what its one write leaves. -/
theorem run_invoke_build (h : disk.Shows view) (hsub : command.subcommand = .build)
    (hcompiles : Compiles (view s) command compiled) {answer : Except FileFault Unit}
    {s' : σ}
    (hwrite : (disk.writeText command.artifact compiled.listing).run s = (answer, s')) :
    (invoke disk command).run s = (buildOutcome command compiled answer, s') := by
  have hprepare : (prepare disk command).run s = _ := h.readsAs_prepare command s
  rw [prepare_dry_of_compiles hcompiles] at hprepare
  simp only [invoke, hsub]
  rw [StateT.run_bind, hprepare]
  show (build disk command compiled _).run s = _
  rw [build, StateT.run_bind, Disk.writeListing, StateT.run_bind, ← Invocation.artifact,
    hwrite]
  cases answer with
  | error fault => rfl
  | ok done => rfl

/-- A command without a compiled program fails and leaves the state. -/
theorem run_invoke_of_failure (h : disk.Shows view) (hsub : command.subcommand ≠ .data)
    {text : String}
    (hfailure : Id.run (prepare (view s).dry command) = .error (failure text)) :
    (invoke disk command).run s = (failure text, s) := by
  have hprepare : (prepare disk command).run s = _ := h.readsAs_prepare command s
  rw [hfailure] at hprepare
  cases hcommand : command.subcommand with
  | data => exact absurd hcommand hsub
  | build | check | symbols =>
    simp only [invoke, hcommand]
    rw [StateT.run_bind, hprepare]
    rfl

/-- If preparing fails, the input does not compile. -/
theorem not_compiles_of_failure {text : String}
    (h : Id.run (prepare tree.dry command) = .error (failure text)) :
    ¬∃ compiled, Compiles tree command compiled := by
  rintro ⟨compiled, hcompiles⟩
  rw [prepare_dry_of_compiles hcompiles] at h
  cases h

/-- A subcommand that only reads, except `data`, exits with zero if the input compiles. -/
theorem exitCode_invoke_dry_eq_zero_iff (hbuild : command.subcommand ≠ .build)
    (hdata : command.subcommand ≠ .data) :
    (Id.run (invoke tree.dry command)).exitCode = 0 ↔
      ∃ compiled, Compiles tree command compiled := by
  rcases compiles_or_failure tree command with ⟨compiled, hcompiles⟩ | ⟨text, hfailure⟩
  · refine iff_of_true ?_ ⟨compiled, hcompiles⟩
    have hprepare := prepare_dry_of_compiles hcompiles
    cases hcommand : command.subcommand with
    | data => exact absurd hcommand hdata
    | build => exact absurd hcommand hbuild
    | check =>
      simp only [invoke, hcommand, Id.run_bind, hprepare]
      rfl
    | symbols =>
      simp only [invoke, hcommand, Id.run_bind, hprepare, symbols]
      split <;> rfl
  · refine iff_of_false ?_ (not_compiles_of_failure hfailure)
    cases hcommand : command.subcommand with
    | data => exact absurd hcommand hdata
    | build | check | symbols =>
      simp only [invoke, hcommand, Id.run_bind, hfailure]
      exact Nat.one_ne_zero

/-- What a command does to a tree, with its outcome and the files that it writes. -/
inductive Effect (tree : FileTree) (command : Invocation) :
    Outcome → FileTree → List (String × String) → Prop
  | looked {outcome : Outcome} (subcommand : command.subcommand ≠ .build)
      (exitCode : command.subcommand ≠ .data →
        (outcome.exitCode = 0 ↔ ∃ compiled, Compiles tree command compiled)) :
      Effect tree command outcome tree []
  | failed {outcome : Outcome} (subcommand : command.subcommand = .build)
      (exitCode : outcome.exitCode = 1)
      (reason : ¬((∃ compiled, Compiles tree command compiled) ∧
      tree.Writable command.artifact)) :
      Effect tree command outcome tree []
  | built {outcome : Outcome} {after : FileTree} (compiled : Compiled)
      (subcommand : command.subcommand = .build) (exitCode : outcome.exitCode = 0)
      (compiles : Compiles tree command compiled)
      (writable : tree.Writable command.artifact)
      (rewritten : tree.Rewritten after command.artifact compiled.listing) :
      Effect tree command outcome after [(command.artifact, compiled.listing)]

/-- Every invocation has one of the effects, on the disk and on the one that records. -/
theorem exists_effect (tree : FileTree) (command : Invocation) :
    ∃ outcome after writes, (invoke FileTree.disk command).run tree = (outcome, after) ∧
      (invoke FileTree.recording command).run (tree, []) = (outcome, after, writes) ∧
      Effect tree command outcome after writes := by
  by_cases hsub : command.subcommand = .build
  · -- A build writes at most once, after its program has compiled.
    have hdata : command.subcommand ≠ .data := by rw [hsub]; decide
    rcases compiles_or_failure tree command with ⟨compiled, hcompiles⟩ | ⟨text, hfailure⟩
    · by_cases hwritable : tree.Writable command.artifact
      · obtain ⟨after, hwrite, hrewritten⟩ :=
          FileTree.exists_writeText_of_writable hwritable compiled.listing
        exact ⟨_, after, _,
          run_invoke_build (s := tree) FileTree.shows_disk hsub hcompiles
            (FileTree.run_writeText_of_ok hwrite),
          run_invoke_build (s := (tree, [])) FileTree.shows_recording hsub hcompiles
            (FileTree.run_recording_of_ok hwrite),
          .built compiled hsub rfl hcompiles hwritable hrewritten⟩
      · obtain ⟨fault, hwrite⟩ :=
          FileTree.exists_error_of_not_writable hwritable compiled.listing
        exact ⟨_, tree, _,
          run_invoke_build (s := tree) FileTree.shows_disk hsub hcompiles
            (FileTree.run_writeText_of_error hwrite),
          run_invoke_build (s := (tree, [])) FileTree.shows_recording hsub hcompiles
            (FileTree.run_recording_of_error hwrite),
          .failed hsub rfl fun h => hwritable h.2⟩
    · exact ⟨_, tree, _, run_invoke_of_failure FileTree.shows_disk hdata hfailure,
        run_invoke_of_failure FileTree.shows_recording hdata hfailure,
        .failed hsub rfl fun h => not_compiles_of_failure hfailure h.1⟩
  · exact ⟨_, tree, _, readsAs_invoke FileTree.shows_disk hsub tree,
      readsAs_invoke FileTree.shows_recording hsub (tree, []),
      .looked hsub (exitCode_invoke_dry_eq_zero_iff hsub)⟩

/-- Exit code zero is compiling and, for `build`, being able to write the artifact. -/
theorem Effect.exitCode_eq_zero_iff {outcome : Outcome} {after : FileTree}
    {writes : List (String × String)} (h : Effect tree command outcome after writes)
    (hdata : command.subcommand ≠ .data) :
    outcome.exitCode = 0 ↔ (∃ compiled, Compiles tree command compiled) ∧
      (command.subcommand = .build → tree.Writable command.artifact) := by
  cases h with
  | looked hsub hexit =>
    rw [hexit hdata]
    exact (and_iff_left fun hbuild => absurd hbuild hsub).symm
  | failed hsub hexit hreason =>
    exact iff_of_false (by rw [hexit]; decide) fun hboth =>
      hreason ⟨hboth.1, hboth.2 hsub⟩
  | built compiled hsub hexit hcompiles hwritable hrewritten =>
    exact iff_of_true hexit ⟨⟨compiled, hcompiles⟩, fun _ => hwritable⟩

/-- Only a build that exits with zero writes. -/
theorem Effect.unchanged {outcome : Outcome} {after : FileTree}
    {writes : List (String × String)} (h : Effect tree command outcome after writes)
    (hnot : outcome.exitCode ≠ 0 ∨ command.subcommand ≠ .build) :
    writes = [] ∧ after = tree := by
  cases h with
  | looked => exact ⟨rfl, rfl⟩
  | failed => exact ⟨rfl, rfl⟩
  | built compiled hsub hexit =>
    rcases hnot with hnonzero | hother
    · exact absurd hexit hnonzero
    · exact absurd hsub hother

/-- An input that can be read lies in a directory, and the configuration for it is the one
that the search from there finds. -/
theorem exists_directory_of_readText {input source : String}
    (h : tree.readText input = .ok source) :
    ∃ file place, tree.follow input = .ok (file :: place) ∧
      place = Path.placeFrom (tree.origin input) (Path.stepsOf input).tail ∧
      tree.FindsFirst (tree.origin input) (Path.stepsOf input).tail
        (tree.configFor input) := by
  obtain ⟨place, bytes, hfollow, hentry⟩ := FileTree.exists_file_of_readText h
  obtain ⟨dir, file, place, hparent, rfl, hdenotes, horigin, hsteps⟩ :=
    FileTree.exists_denotes_parentText? hfollow hentry
  have hfirst := hdenotes.findsFirst
  have hplace := (FileTree.denotes_iff.mp hdenotes).2
  rw [← FileTree.configCandidates_eq, horigin] at hfirst
  rw [horigin] at hplace
  refine ⟨file, place, hfollow, by rw [hsteps]; exact hplace, ?_⟩
  rw [hsteps, FileTree.configFor, hparent]
  exact hfirst

/-- Arguments that parse as an invocation run it. -/
theorem run_of_parse {m : Type → Type} [Monad m] (disk : Disk m) {args : List String}
    (h : Arguments.parse args = some (.run command)) :
    run disk args = invoke disk command := by
  rw [run, h]

/-- Without a command, nothing is looked at. -/
theorem exists_run_eq_pure {args : List String}
    (h : ∀ command, Arguments.parse args ≠ some (.run command)) :
    ∃ outcome, ∀ {m : Type → Type} [Monad m] (disk : Disk m),
      run disk args = pure outcome := by
  cases hparse : Arguments.parse args with
  | none => exact ⟨_, fun disk => by rw [run, hparse]⟩
  | some request =>
    cases request with
    | version => exact ⟨_, fun disk => by rw [run, hparse]⟩
    | help => exact ⟨_, fun disk => by rw [run, hparse]⟩
    | run command => exact absurd hparse (h command)

/-- `check` exits with zero exactly when the input compiles. -/
theorem exitCode_check_iff {args : List String}
    (h : Arguments.parse args =
      some (.run { command with subcommand := .check, output := none })) :
    ((run FileTree.disk args).run tree).1.exitCode = 0 ↔
      ∃ compiled, Compiles tree command compiled := by
  obtain ⟨outcome, after, writes, hrun, -, heffect⟩ :=
    exists_effect tree { command with subcommand := .check, output := none }
  have hexit := heffect.exitCode_eq_zero_iff (show Subcommand.check ≠ .data by decide)
  rw [run_of_parse _ h, hrun, hexit]
  exact and_iff_left fun hbuild => by cases hbuild

/-- **What a command line writes.** Nothing is written unless a build exits with 0. Such a
build writes one file, the listing of its program with each setting from its flag, else
from the configuration that is found, else the default. That configuration is the one of
the longest rest of the components of the input's directory that has one; it is the
nearest one, up to any directory that the path passes, just when the place of this rest is
the directory or one above it up to there, and always when the path has no `..`. A `check`
exits with 0 just when the program compiles, and so does `symbols`; a `build` does when
moreover its listing can be written. -/
theorem run_writes_iff_built (tree : FileTree) (args : List String) :
    ∃ outcome after writes, (run FileTree.disk args).run tree = (outcome, after) ∧
      (run FileTree.recording args).run (tree, []) = (outcome, after, writes) ∧
      (outcome.exitCode ≠ 0 ∨
          (∀ command, Arguments.parse args = some (.run command) →
            command.subcommand ≠ .build) →
        writes = [] ∧ after = tree) ∧
      ∀ command, Arguments.parse args = some (.run command) →
        (command.subcommand = .build → outcome.exitCode = 0 → ∃ compiled file place,
          writes = [(command.artifact, compiled.listing)] ∧
          tree.Rewritten after command.artifact compiled.listing ∧
          Compiles tree command compiled ∧
          tree.follow command.input = .ok (file :: place) ∧
          tree.FindsFirst (tree.origin command.input) (Path.stepsOf command.input).tail
            (tree.configFor command.input) ∧
          (∀ limit, Path.Passes (tree.origin command.input)
              (Path.stepsOf command.input).tail limit →
            (tree.IsNearest limit place (tree.configFor command.input) ↔
              tree.FirstIsAbove (tree.origin command.input)
                (Path.stepsOf command.input).tail limit place)) ∧
          (".." ∉ (Path.stepsOf command.input).tail →
            tree.IsNearest (tree.origin command.input) place
              (tree.configFor command.input))) ∧
        ∀ checkArgs, Arguments.parse checkArgs =
            some (.run { command with subcommand := .check, output := none }) →
          (((run FileTree.disk checkArgs).run tree).1.exitCode = 0 ↔
            ∃ compiled, Compiles tree command compiled) ∧
          (command.subcommand = .symbols →
            (((run FileTree.disk checkArgs).run tree).1.exitCode = 0 ↔
              outcome.exitCode = 0)) ∧
          (command.subcommand = .build →
            (outcome.exitCode = 0 ↔
              ((run FileTree.disk checkArgs).run tree).1.exitCode = 0 ∧
              tree.Writable command.artifact)) := by
  -- Help, the version and usage errors do not touch the disk.
  by_cases hcommand : ∃ command, Arguments.parse args = some (.run command)
  · obtain ⟨command, hparse⟩ := hcommand
    obtain ⟨outcome, after, writes, hrun, hrecording, heffect⟩ :=
      exists_effect tree command
    refine ⟨outcome, after, writes, by rw [run_of_parse _ hparse, hrun],
      by rw [run_of_parse _ hparse, hrecording], ?_, ?_⟩
    · intro hnot
      exact heffect.unchanged (hnot.imp_right fun hsub => hsub command hparse)
    · intro command' hparse'
      obtain rfl : command = command' := by
        rw [hparse] at hparse'
        exact Request.run.inj (Option.some.inj hparse')
      refine ⟨fun hsub hexit => ?_, fun checkArgs hcheck =>
        ⟨exitCode_check_iff hcheck, ?_, ?_⟩⟩
      · cases heffect with
        | looked hlooked => exact absurd hsub hlooked
        | failed hbuild hfailed => exact absurd (hfailed.symm.trans hexit) Nat.one_ne_zero
        | built compiled _ _ hcompiles _ hrewritten =>
          obtain ⟨source, hsource⟩ := hcompiles.exists_readText
          obtain ⟨file, place, hfollow, rfl, hfirst⟩ :=
            exists_directory_of_readText hsource
          exact ⟨compiled, file, _, rfl, hrewritten, hcompiles, hfollow, hfirst,
            fun _ => hfirst.isNearest_iff, hfirst.isNearest⟩
      -- Whether a program compiles depends on the input and the flags alone.
      · intro hsub
        rw [exitCode_check_iff hcheck,
          heffect.exitCode_eq_zero_iff (by rw [hsub]; decide), hsub]
        exact (and_iff_left fun hbuild => by cases hbuild).symm
      · intro hsub
        rw [exitCode_check_iff hcheck,
          heffect.exitCode_eq_zero_iff (by rw [hsub]; decide)]
        exact and_congr_right fun _ => forall_prop_of_true hsub
  · obtain ⟨outcome, houtcome⟩ := exists_run_eq_pure fun command h =>
      hcommand ⟨command, h⟩
    refine ⟨outcome, tree, [], by rw [houtcome]; rfl, by rw [houtcome]; rfl,
      fun _ => ⟨rfl, rfl⟩, fun command h => absurd ⟨command, h⟩ hcommand⟩

/-! ## A program by two paths -/

/-- A program that is nested two levels deep. -/
def assigning : Node :=
  .assignment "x" (.number "1")

/-- The program lies in `a/c` below the working directory. The configuration above allows
one level, the one in `a/b` sets nothing. -/
def astray : FileTree :=
  ((((((FileTree.workingIn ["w"]).put ["a", "w"] .directory).put
    ["b", "a", "w"] .directory).put ["c", "a", "w"] .directory).put
    [configName, "w"] (.file "[codegen]\nmax_depth = 1\n".toUTF8)).put
    [configName, "b", "a", "w"] (.file "".toUTF8)).put
    ["p.json", "c", "a", "w"] (.file assigning.render.toUTF8)

/-- Where the paths lead: the direct one and the detour, to the same program. -/
theorem follow_astray :
    astray.follow "a/c/p.json" = .ok ["p.json", "c", "a", "w"] ∧
    astray.follow "a/b/../c/p.json" = .ok ["p.json", "c", "a", "w"] ∧
    astray.follow "a/b/../c/p.asm" = .ok ["p.asm", "c", "a", "w"] ∧
    astray.follow "a/b/tasmgen.toml" = .ok [configName, "b", "a", "w"] ∧
    astray.follow "tasmgen.toml" = .ok [configName, "w"] := by
  simp [FileTree.follow, FileTree.origin, Path.splitSlash, FileTree.step, astray,
    FileTree.workingIn, FileTree.addDirectories, FileTree.get?, configName, bind,
    Except.bind, pure, Except.pure]

/-- What stands at these places. -/
theorem get?_astray :
    astray.get? ["p.json", "c", "a", "w"] = some (.file assigning.render.toUTF8) ∧
    astray.get? ["p.asm", "c", "a", "w"] = none ∧
    astray.get? [configName, "b", "a", "w"] = some (.file "".toUTF8) ∧
    astray.get? [configName, "w"] = some (.file "[codegen]\nmax_depth = 1\n".toUTF8) := by
  simp [astray, FileTree.workingIn, FileTree.addDirectories, FileTree.get?, configName]

/-- The direct path finds the configuration of the working directory. -/
theorem configFor_direct : astray.configFor "a/c/p.json" = some "tasmgen.toml" := by
  have hcandidates : configCandidates "a/c" =
      ["a/c/tasmgen.toml", "a/tasmgen.toml", "tasmgen.toml"] := by
    rw [FileTree.configCandidates_eq,
      Path.withParents_of_some (q := ⟨.relative, [['a']]⟩) rfl,
      Path.withParents_of_some (q := ⟨.relative, []⟩) rfl, Path.withParents_of_none rfl]
    rfl
  have hparent : Path.parentText? "a/c/p.json" = some "a/c" := rfl
  rw [FileTree.configFor, hparent, Option.getD_some, hcandidates]
  simp [FileTree.hasEntry, FileTree.follow, FileTree.origin, Path.splitSlash,
    FileTree.step, astray, FileTree.workingIn, FileTree.addDirectories, FileTree.get?,
    configName, bind, Except.bind, pure, Except.pure]

/-- The detour finds the one in the directory it passes through. -/
theorem configFor_detour :
    astray.configFor "a/b/../c/p.json" = some "a/b/tasmgen.toml" := by
  have hcandidates : configCandidates "a/b/../c" =
      ["a/b/../c/tasmgen.toml", "a/b/../tasmgen.toml", "a/b/tasmgen.toml",
        "a/tasmgen.toml", "tasmgen.toml"] := by
    rw [FileTree.configCandidates_eq,
      Path.withParents_of_some (q := ⟨.relative, [['.', '.'], ['b'], ['a']]⟩) rfl,
      Path.withParents_of_some (q := ⟨.relative, [['b'], ['a']]⟩) rfl,
      Path.withParents_of_some (q := ⟨.relative, [['a']]⟩) rfl,
      Path.withParents_of_some (q := ⟨.relative, []⟩) rfl, Path.withParents_of_none rfl]
    rfl
  have hparent : Path.parentText? "a/b/../c/p.json" = some "a/b/../c" := rfl
  rw [FileTree.configFor, hparent, Option.getD_some, hcandidates]
  simp [FileTree.hasEntry, FileTree.follow, FileTree.origin, Path.splitSlash,
    FileTree.step, astray, FileTree.workingIn, FileTree.addDirectories, FileTree.get?,
    configName, bind, Except.bind, pure, Except.pure]

theorem readText_astray :
    astray.readText "a/c/p.json" = .ok assigning.render ∧
    astray.readText "a/b/../c/p.json" = .ok assigning.render ∧
    astray.readText "a/b/tasmgen.toml" = .ok "" ∧
    astray.readText "tasmgen.toml" = .ok "[codegen]\nmax_depth = 1\n" := by
  obtain ⟨hdirect, hdetour, -, hbeside, habove⟩ := follow_astray
  obtain ⟨hprogram, -, hbeside', habove'⟩ := get?_astray
  exact ⟨FileTree.readText_of_file hdirect hprogram,
    FileTree.readText_of_file hdetour hprogram,
    FileTree.readText_of_file hbeside hbeside', FileTree.readText_of_file habove habove'⟩

/-- With the configuration in `a/b`, the program compiles. -/
theorem exists_compiles_detour :
    ∃ compiled, Compiles astray ⟨.build, "a/b/../c/p.json", none, none, none⟩
      compiled := by
  obtain ⟨-, hsource, hconfig, -⟩ := readText_astray
  have hcompile : Compilation.compile {} assigning = _ := Compilation.compile_of_none rfl
  refine ⟨_, by decide, {}, assigning.render, assigning, ?_, hsource,
    Node.parse_render_of_le (by decide), hcompile⟩
  rw [configFor_detour]
  exact ⟨"", hconfig, rfl⟩

/-- With the configuration above, it does not. -/
theorem not_compiles_direct (compiled : Compiled) :
    ¬Compiles astray ⟨.build, "a/c/p.json", none, none, none⟩ compiled := by
  rintro ⟨-, config, source, root, hconfig, hsource, hroot, hcompile⟩
  obtain ⟨hsource', -, -, htext⟩ := readText_astray
  have hparse : Config.parse "[codegen]\nmax_depth = 1\n" = .ok ⟨none, some 1⟩ := rfl
  rw [configFor_direct] at hconfig
  obtain ⟨text, htext', hparse'⟩ := hconfig
  obtain rfl := Except.ok.inj (htext.symm.trans htext')
  obtain rfl := Except.ok.inj (hparse.symm.trans hparse')
  obtain rfl := Except.ok.inj (hsource'.symm.trans hsource)
  obtain rfl := Except.ok.inj ((Node.parse_render_of_le (by decide)).symm.trans hroot)
  have hfault : Compilation.compile ⟨.warn, 1⟩ assigning = _ :=
    Compilation.compile_of_some rfl
  cases hfault.symm.trans hcompile

theorem isNearest_direct :
    astray.IsNearest ["w"] ["c", "a", "w"] (astray.configFor "a/c/p.json") := by
  obtain ⟨file, place, -, -, hfirst⟩ := exists_directory_of_readText readText_astray.1
  have hsteps : Path.stepsOf "a/c/p.json" = ["p.json", "c", "a"] := by decide
  rw [hsteps] at hfirst
  exact hfirst.isNearest (by decide)

theorem artifact_detour :
    Invocation.artifact ⟨.build, "a/b/../c/p.json", none, none, none⟩ =
      "a/b/../c/p.asm" := by
  decide

theorem writable_detour :
    astray.Writable
      (Invocation.artifact ⟨.build, "a/b/../c/p.json", none, none, none⟩) := by
  obtain ⟨-, -, hfollow, -⟩ := follow_astray
  obtain ⟨-, hentry, -⟩ := get?_astray
  rw [artifact_detour]
  exact ⟨_, hfollow, by rw [hentry]; simp⟩

/-- By the path through `a/b`, the program is built. -/
theorem run_writes_iff_built_detour :
    Arguments.parse ["build", "a/b/../c/p.json"] =
      some (.run ⟨.build, "a/b/../c/p.json", none, none, none⟩) ∧
    ∃ outcome after text,
      (run FileTree.disk ["build", "a/b/../c/p.json"]).run astray = (outcome, after) ∧
      outcome.exitCode = 0 ∧
      (run FileTree.recording ["build", "a/b/../c/p.json"]).run (astray, []) =
        (outcome, after, [("a/b/../c/p.asm", text)]) ∧
      astray.Rewritten after "a/b/../c/p.asm" text := by
  have hparse : Arguments.parse ["build", "a/b/../c/p.json"] =
    some (.run ⟨.build, "a/b/../c/p.json", none, none, none⟩) := rfl
  have hparse' : Arguments.parse ["check", "a/b/../c/p.json"] =
    some (.run ⟨.check, "a/b/../c/p.json", none, none, none⟩) := rfl
  obtain ⟨outcome, after, writes, hrun, hrecording, -, hcommand⟩ :=
    run_writes_iff_built astray ["build", "a/b/../c/p.json"]
  obtain ⟨hbuilt, hcheck⟩ := hcommand _ hparse
  obtain ⟨hcompiles, -, hbuild⟩ := hcheck _ hparse'
  have hexit := (hbuild rfl).mpr ⟨hcompiles.mpr exists_compiles_detour, writable_detour⟩
  obtain ⟨compiled, file, place, rfl, hrewritten, -⟩ := hbuilt rfl hexit
  rw [artifact_detour] at hrecording hrewritten
  exact ⟨hparse, outcome, after, _, hrun, hexit, hrecording, hrewritten⟩

/-- The program is built by the path through `a/b`, though it does not compile with the
nearest configuration. -/
theorem run_build_detour :
    astray.follow "a/b/../c/p.json" = astray.follow "a/c/p.json" ∧
    astray.follow "a/c/p.json" = .ok ["p.json", "c", "a", "w"] ∧
    astray.IsNearest ["w"] ["c", "a", "w"] (astray.configFor "a/c/p.json") ∧
    ((run FileTree.disk ["build", "a/c/p.json"]).run astray).1.exitCode ≠ 0 ∧
    ((run FileTree.disk ["build", "a/b/../c/p.json"]).run astray).1.exitCode = 0 ∧
    ¬astray.IsNearest ["w"] ["c", "a", "w"] (astray.configFor "a/b/../c/p.json") := by
  obtain ⟨hdirect, hdetour, -, hbeside, -⟩ := follow_astray
  refine ⟨hdetour.trans hdirect.symm, hdirect, isNearest_direct, ?_, ?_, ?_⟩
  · obtain ⟨outcome, after, writes, hrun, -, heffect⟩ :=
      exists_effect astray ⟨.build, "a/c/p.json", none, none, none⟩
    rw [run_of_parse _ (rfl : Arguments.parse ["build", "a/c/p.json"] = some (.run _)),
      hrun]
    intro hexit
    obtain ⟨⟨compiled, hcompiles⟩, -⟩ :=
      (heffect.exitCode_eq_zero_iff (show Subcommand.build ≠ .data by decide)).mp hexit
    exact not_compiles_direct compiled hcompiles
  · obtain ⟨outcome, after, writes, hrun, -, heffect⟩ :=
      exists_effect astray ⟨.build, "a/b/../c/p.json", none, none, none⟩
    rw [run_of_parse _ (rfl : Arguments.parse ["build", "a/b/../c/p.json"] =
      some (.run _)), hrun]
    exact (heffect.exitCode_eq_zero_iff (show Subcommand.build ≠ .data by decide)).mpr
      ⟨exists_compiles_detour, fun _ => writable_detour⟩
  · rw [configFor_detour]
    rintro ⟨above, habove, hfollow⟩
    obtain rfl : ["b", "a", "w"] = above :=
      (List.cons.inj (Except.ok.inj (hbeside.symm.trans hfollow))).2
    exact absurd habove.suffix (by decide)

end Command

end RealMode
