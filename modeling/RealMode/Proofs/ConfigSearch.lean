import RealMode.Project
import RealMode.Proofs.FilePlaces

/-!
# Which configuration file is found

The search for a configuration goes up the text of a path, component by component. A `..`
is a component like a name, so a rest of the text may lead to a directory that is not
above the one the whole text leads to.

- A search finds the configuration of the longest rest of the components whose place has
  one (`FileTree.findsFirst_find?`).
- Between a place on the way and the place of the whole path, each directory is the place
  of a rest of the components, nearer ones of longer rests (`Path.exists_placeFrom_eq`).
  So what is found is the nearest configuration just when the first rest that has one
  leads to no directory that the path leaves again (`FileTree.findConfig_isNearest_iff`).
-/

namespace RealMode

namespace Path

/-- There is a candidate for each component, one for the start, and one more for a leading
`.`. -/
theorem length_configCandidates_le (dir : String) :
    (configCandidates dir).length ≤ (stepsOf dir).length + 2 := by
  rw [configCandidates, textsUpward, List.length_map, List.length_map, length_withParents,
    stepsOf_eq, steps, List.length_map]
  split <;> omega

/-- A way passes a place: some rest of its components leads there. -/
def Passes (start steps place : List String) : Prop :=
  ∃ rest, rest <:+ steps ∧ placeFrom start rest = place

theorem passes_start (start steps : List String) : Passes start steps start :=
  ⟨[], List.nil_suffix, rfl⟩

/-- Between the place of a rest of the components and the place of all of them, each
directory is the place of a rest in between. -/
theorem exists_placeFrom_eq {start near rest steps : List String} (hrest : rest <:+ steps)
    (hlow : placeFrom start rest <:+ near) (hhigh : near <:+ placeFrom start steps) :
    ∃ cut, rest <:+ cut ∧ cut <:+ steps ∧ placeFrom start cut = near := by
  induction steps with
  | nil =>
    obtain rfl := List.suffix_nil.mp hrest
    exact ⟨[], List.suffix_rfl, List.suffix_rfl, hlow.eq_of_length_le hhigh.length_le⟩
  | cons name steps ih =>
    have hwhole : near = placeFrom start (name :: steps) →
        ∃ cut, rest <:+ cut ∧ cut <:+ name :: steps ∧ placeFrom start cut = near :=
      fun h => ⟨name :: steps, hrest, List.suffix_rfl, h.symm⟩
    rcases List.suffix_cons_iff.mp hrest with rfl | hrest
    · exact hwhole (hhigh.eq_of_length_le hlow.length_le)
    · have hfurther : near <:+ placeFrom start steps →
          ∃ cut, rest <:+ cut ∧ cut <:+ name :: steps ∧ placeFrom start cut = near := by
        intro h
        obtain ⟨cut, hlonger, hcut, hplace⟩ := ih hrest h
        exact ⟨cut, hlonger, hcut.trans (List.suffix_cons name steps), hplace⟩
      -- A `..` only takes a name away, so no directory above the place is passed over.
      by_cases hup : name = ".."
      · rw [placeFrom, if_pos hup] at hhigh
        exact hfurther (hhigh.trans (List.tail_suffix _))
      · rw [placeFrom, if_neg hup] at hhigh
        rcases List.suffix_cons_iff.mp hhigh with hnear | hnear
        · exact hwhole (by rw [placeFrom, if_neg hup, hnear])
        · exact hfurther hnear

end Path

/-! ## Disks that show a tree -/

/-- A disk shows a file tree: it reads what the tree has, and reading leaves the state. -/
structure Disk.Shows {σ : Type} (disk : Disk (StateM σ)) (view : σ → FileTree) :
    Prop where
  readText : ∀ path s, (disk.readText path).run s = ((view s).readText path, s)
  hasEntry : ∀ path s, (disk.hasEntry path).run s = ((view s).hasEntry path, s)

theorem Disk.Shows.run_findFirst {σ : Type} {disk : Disk (StateM σ)} {view : σ → FileTree}
    (h : disk.Shows view) (paths : List String) (s : σ) :
    (disk.findFirst paths).run s = (paths.find? (view s).hasEntry, s) := by
  induction paths with
  | nil => rfl
  | cons path paths ih =>
    rw [Disk.findFirst, StateT.run_bind, h.hasEntry, List.find?_cons]
    show (StateT.run (if (view s).hasEntry path then _ else _) s : Id _) = _
    cases (view s).hasEntry path with
    | false => exact ih
    | true => rfl

namespace FileTree

open RealMode.Path

variable {tree : FileTree} {start place : List String}

theorem shows_disk : disk.Shows id where
  readText _ _ := rfl
  hasEntry _ _ := rfl

/-! ## The search -/

/-- The path of the configuration in the directory of a path. -/
def configAt (p : Path) : String :=
  child (String.ofList p.chars) configName

theorem configCandidates_eq (dir : String) :
    configCandidates dir = (ofChars dir.toList).withParents.map configAt := by
  rw [configCandidates, textsUpward, List.map_map]
  rfl

/-- A directory has an entry with the name of configuration files. -/
def HasConfig (tree : FileTree) (place : List String) : Prop :=
  (tree.get? (configName :: place)).isSome

/-- The path of a configuration starts where the path of its directory starts. -/
theorem origin_configAt {p : Path} :
    tree.origin (configAt p) = tree.origin (String.ofList p.chars) := by
  rw [origin, origin, configAt, head?_child, String.toList_ofList]
  cases p.chars.head? with
  | none => rfl
  | some c => rfl

/-- Below the directory of a path, the path of its configuration leads to the entry with
that name. -/
theorem follow_configAt {p : Path} (hp : p.Rewrites)
    (horigin : tree.origin (String.ofList p.chars) = start)
    (hleads : tree.Leads start (steps p.parts)) :
    tree.follow (configAt p) = .ok (configName :: placeFrom start (steps p.parts)) := by
  obtain ⟨parts, hparts, hactive⟩ :=
    exists_splitSlash_child (String.ofList p.chars) configName (by decide)
  have hsteps : steps parts.reverse = steps p.parts := by
    rw [← hp.stepsOf_chars, steps, active_reverse, hactive, ← active_reverse]
    rfl
  have hne : configAt p ≠ "" := by
    intro h
    rw [configAt] at h
    rw [h] at hparts
    have hlast := congrArg List.getLast? hparts
    rw [List.getLast?_concat] at hlast
    cases hlast
  have hdirectory := reach_eq_ok_iff.mpr ⟨hsteps ▸ hleads, rfl⟩
  rw [follow_eq_reach hne, origin_configAt, horigin, configAt, hparts,
    List.reverse_concat, ← hsteps]
  refine reach_cons_eq_ok_iff.mpr ⟨_, hdirectory, ?_⟩
  rw [if_neg (by decide), String.ofList_toList, if_neg (by decide)]

theorem hasEntry_configAt_iff {p : Path} (hp : p.Rewrites)
    (horigin : tree.origin (String.ofList p.chars) = start)
    (hleads : tree.Leads start (steps p.parts)) :
    tree.hasEntry (configAt p) = true ↔
      tree.HasConfig (placeFrom start (steps p.parts)) := by
  rw [hasEntry, follow_configAt hp horigin hleads]
  rfl

/-- The longest rest of a list of names that has a property. -/
structure LongestRest (P : List String → Prop) (names rest : List String) : Prop where
  suffix : rest <:+ names
  holds : P rest
  longest : ∀ longer, rest <:+ longer → longer <:+ names → P longer → longer = rest

theorem LongestRest.eq {P : List String → Prop} {names rest rest' : List String}
    (h : LongestRest P names rest) (h' : LongestRest P names rest') : rest = rest' := by
  rcases List.suffix_or_suffix_of_suffix h.suffix h'.suffix with hle | hle
  · exact (h.longest rest' hle h'.suffix h'.holds).symm
  · exact h'.longest rest hle h.suffix h.holds

/-- What is found is the configuration of the longest rest of the components whose place
has one. -/
def FindsFirst (tree : FileTree) (start steps : List String) : Option String → Prop
  | none => ∀ rest, rest <:+ steps → ¬tree.HasConfig (placeFrom start rest)
  | some path => ∃ rest,
      LongestRest (fun rest => tree.HasConfig (placeFrom start rest)) steps rest ∧
      tree.follow path = .ok (configName :: placeFrom start rest)

/-- What is found is the configuration of the nearest directory that has one, among a
directory and those above it up to a limit. -/
def IsNearest (tree : FileTree) (limit place : List String) : Option String → Prop
  | none => ∀ above, limit <:+ above → above <:+ place → ¬tree.HasConfig above
  | some path => ∃ above,
      LongestRest (fun above => limit <:+ above ∧ tree.HasConfig above) place above ∧
      tree.follow path = .ok (configName :: above)

/-- The longest rest of the components whose place has a configuration, if any has, leads
to a directory between a limit and a place. -/
def FirstIsAbove (tree : FileTree) (start steps limit place : List String) : Prop :=
  ∀ rest, LongestRest (fun rest => tree.HasConfig (placeFrom start rest)) steps rest →
    limit <:+ placeFrom start rest ∧ placeFrom start rest <:+ place

/-- A component whose place has no configuration does not change what is found. -/
theorem FindsFirst.cons {steps : List String} {found : Option String}
    (h : tree.FindsFirst start steps found) {name : String}
    (hname : ¬tree.HasConfig (placeFrom start (name :: steps))) :
    tree.FindsFirst start (name :: steps) found := by
  cases found with
  | none =>
    intro rest hrest
    rcases List.suffix_cons_iff.mp hrest with rfl | hrest
    · exact hname
    · exact h rest hrest
  | some path =>
    obtain ⟨rest, hrest, hfollow⟩ := h
    refine ⟨rest, ⟨hrest.suffix.trans (List.suffix_cons name steps), hrest.holds, ?_⟩,
      hfollow⟩
    intro longer hlonger hsuffix hconfig
    rcases List.suffix_cons_iff.mp hsuffix with rfl | hsuffix
    · exact absurd hconfig hname
    · exact hrest.longest longer hlonger hsuffix hconfig

/-- One candidate of the search: it is taken if it is there, and else the others are
tried. -/
theorem findsFirst_find?_cons {p : Path} (hp : p.Rewrites)
    (horigin : tree.origin (String.ofList p.chars) = start)
    (hleads : tree.Leads start (steps p.parts)) {paths : List String}
    (h : ¬tree.HasConfig (placeFrom start (steps p.parts)) →
      tree.FindsFirst start (steps p.parts) (paths.find? tree.hasEntry)) :
    tree.FindsFirst start (steps p.parts)
      ((configAt p :: paths).find? tree.hasEntry) := by
  by_cases hentry : tree.hasEntry (configAt p) = true
  · have hconfig := (hasEntry_configAt_iff hp horigin hleads).mp hentry
    rw [List.find?_cons_of_pos hentry]
    refine ⟨_, ⟨List.suffix_rfl, hconfig, ?_⟩, follow_configAt hp horigin hleads⟩
    intro longer hlonger hsuffix _
    exact hsuffix.eq_of_length_le hlonger.length_le
  · rw [List.find?_cons_of_neg hentry]
    exact h (hentry ∘ (hasEntry_configAt_iff hp horigin hleads).mpr)

/-- Of the paths for a directory and its parents, the first with an entry is the
configuration of the longest rest of the components that has one. -/
theorem findsFirst_find? {p : Path}
    (hp : ∀ q ∈ p.withParents, q.Rewrites ∧ tree.origin (String.ofList q.chars) = start)
    (hleads : tree.Leads start (steps p.parts)) :
    tree.FindsFirst start (steps p.parts)
      ((p.withParents.map configAt).find? tree.hasEntry) := by
  induction p using parentInduction with
  | none p hparent =>
    rw [withParents_of_none hparent] at hp ⊢
    obtain ⟨hrewrites, horigin⟩ := hp p List.mem_cons_self
    refine findsFirst_find?_cons hrewrites horigin hleads fun hconfig => ?_
    rcases parent?_cases p with ⟨q, name, hq, -⟩ | ⟨-, -, hq⟩ | ⟨hactive, -, -⟩
    · cases hparent.symm.trans hq
    · cases hparent.symm.trans hq
    · intro rest hrest
      rw [steps, hactive] at hrest hconfig
      obtain rfl := List.suffix_nil.mp hrest
      exact hconfig
  | some p q hparent ih =>
    rw [withParents_of_some hparent] at hp ⊢
    obtain ⟨⟨hrewrites, horigin⟩, hparents⟩ := List.forall_mem_cons.mp hp
    refine findsFirst_find?_cons hrewrites horigin hleads fun hconfig => ?_
    rcases parent?_cases p with ⟨q', name, hq, -, -, hactive⟩ | ⟨hactive, -, hq⟩ |
      ⟨-, -, hq⟩
    · obtain rfl := Option.some.inj (hparent.symm.trans hq)
      have hsteps : steps p.parts = String.ofList name :: steps q.parts := by
        rw [steps, hactive, List.map_cons]
        rfl
      rw [hsteps] at hconfig hleads ⊢
      exact (ih hparents (leads_cons_iff.mp hleads).1).cons hconfig
    · -- Only the leading `.` goes: the working directory is looked at once more.
      obtain rfl := Option.some.inj (hparent.symm.trans hq)
      have hsteps : steps p.parts = steps [] := by rw [steps, hactive]; rfl
      rw [hsteps] at hleads ⊢
      exact ih hparents hleads
    · cases hparent.symm.trans hq

theorem run_findConfig (dir : String) :
    (disk.findConfig dir).run tree =
      (((ofChars dir.toList).withParents.map configAt).find? tree.hasEntry, tree) := by
  rw [Disk.findConfig, shows_disk.run_findFirst, configCandidates_eq]
  rfl

theorem Denotes.findsFirst {dir : String} (h : tree.Denotes dir place) :
    tree.FindsFirst (tree.origin dir) (stepsOf dir)
      (((ofChars dir.toList).withParents.map configAt).find? tree.hasEntry) := by
  obtain ⟨hleads, -⟩ := denotes_iff.mp h
  rw [stepsOf_eq] at hleads ⊢
  exact findsFirst_find?
    (fun q hq => ⟨rewrites_of_mem_withParents hq, origin_of_mem_withParents hq⟩) hleads

/-- A configuration in a directory above the place of the components is not missed, up to
any directory on the way. -/
theorem FindsFirst.isSome {steps limit above : List String} {found : Option String}
    (h : tree.FindsFirst start steps found) (hlimit : Passes start steps limit)
    (hlow : limit <:+ above) (hhigh : above <:+ placeFrom start steps)
    (hconfig : tree.HasConfig above) : found.isSome = true := by
  cases found with
  | some path => rfl
  | none =>
    obtain ⟨rest, hrest, rfl⟩ := hlimit
    obtain ⟨cut, -, hcut, rfl⟩ := exists_placeFrom_eq hrest hlow hhigh
    exact absurd hconfig (h cut hcut)

/-- What is found is the nearest just when the rest that it belongs to leads to the
directory or to one above it. -/
theorem FindsFirst.isNearest_iff {steps limit : List String} {found : Option String}
    (h : tree.FindsFirst start steps found) (hlimit : Passes start steps limit) :
    tree.IsNearest limit (placeFrom start steps) found ↔
      tree.FirstIsAbove start steps limit (placeFrom start steps) := by
  cases found with
  | none =>
    refine iff_of_true (fun above hlow hhigh hconfig => ?_) fun rest hrest => ?_
    · cases h.isSome hlimit hlow hhigh hconfig
    · exact absurd hrest.holds (h rest hrest.suffix)
  | some path =>
    obtain ⟨first, hfirst, hfollow⟩ := h
    constructor
    · rintro ⟨above, habove, hfollow'⟩ rest hrest
      obtain rfl := hfirst.eq hrest
      have hplace : configName :: placeFrom start first = configName :: above :=
        Except.ok.inj (hfollow.symm.trans hfollow')
      rw [(List.cons.inj hplace).2]
      exact ⟨habove.holds.1, habove.suffix⟩
    · intro hplace
      obtain ⟨hlow, hhigh⟩ := hplace first hfirst
      refine ⟨placeFrom start first, ⟨hhigh, ⟨hlow, hfirst.holds⟩, ?_⟩, hfollow⟩
      rintro near hnear hsuffix ⟨-, hconfig⟩
      obtain ⟨cut, hlonger, hcut, rfl⟩ := exists_placeFrom_eq hfirst.suffix hnear hsuffix
      rw [hfirst.longest cut hlonger hcut hconfig]

/-- Without a `..`, every rest leads to a directory above. -/
theorem FindsFirst.isNearest {steps : List String} {found : Option String}
    (h : tree.FindsFirst start steps found) (hup : ".." ∉ steps) :
    tree.IsNearest start (placeFrom start steps) found := by
  refine (h.isNearest_iff (passes_start start steps)).mpr fun rest hrest => ?_
  rw [placeFrom_eq_append hup,
    placeFrom_eq_append fun hmem => hup (hrest.suffix.subset hmem)]
  obtain ⟨front, rfl⟩ := hrest.suffix
  exact ⟨List.suffix_append rest start, front, (List.append_assoc front rest start).symm⟩

/-- **Which configuration is nearest.** For a path to a directory, the search ends after
at most two candidates more than the path has components, and finds the configuration of
the longest rest of the components that has one. It finds some if the directory or one
above it has one, up to any directory that the path passes, such as the one where it
starts. What it finds is the nearest of these just when the place of that rest is among
them, which it is when no component is `..`. -/
theorem findConfig_isNearest_iff {dir : String} (h : tree.Denotes dir place) :
    ∃ found, (disk.findConfig dir).run tree = (found, tree) ∧
      (configCandidates dir).length ≤ (stepsOf dir).length + 2 ∧
      tree.FindsFirst (tree.origin dir) (stepsOf dir) found ∧
      (∀ limit, Passes (tree.origin dir) (stepsOf dir) limit →
        (∀ above, limit <:+ above → above <:+ place → tree.HasConfig above →
          found.isSome = true) ∧
        (tree.IsNearest limit place found ↔
          tree.FirstIsAbove (tree.origin dir) (stepsOf dir) limit place)) ∧
      (".." ∉ stepsOf dir → tree.IsNearest (tree.origin dir) place found) := by
  have hfirst := h.findsFirst
  obtain ⟨-, rfl⟩ := denotes_iff.mp h
  exact ⟨_, run_findConfig dir, length_configCandidates_le dir, hfirst,
    fun _ hlimit => ⟨fun _ => hfirst.isSome hlimit, hfirst.isNearest_iff hlimit⟩,
    hfirst.isNearest⟩

/-- A working directory with a configuration, and one in its directory `a`. -/
def climbed : FileTree :=
  ((((workingIn ["w"]).put ["a", "w"] .directory).put ["b", "a", "w"] .directory).put
    [configName, "a", "w"] (.file .empty)).put [configName, "w"] (.file .empty)

/-- From `a/b/..` the configuration in `a` is found, not the one above it. -/
theorem findConfig_nearest_of_climbed :
    climbed.Denotes "a/b/.." ["a", "w"] ∧ climbed.HasConfig ["w"] ∧
      ∃ path, (disk.findConfig "a/b/..").run climbed = (some path, climbed) ∧
        climbed.IsNearest ["w"] ["a", "w"] (some path) := by
  have hdenotes : climbed.Denotes "a/b/.." ["a", "w"] := by
    refine denotes_iff.mpr ⟨?_, rfl⟩
    simp [climbed, workingIn, addDirectories, origin, stepsOf, steps, active, isIdle,
      splitSlash, leads_cons_iff, leads_nil_iff, get?, placeFrom, configName]
  have hconfig : climbed.HasConfig ["a", "w"] := by
    simp [HasConfig, climbed, workingIn, addDirectories, get?, configName]
  obtain ⟨found, hrun, -, -, hlimit, -⟩ := findConfig_isNearest_iff hdenotes
  obtain ⟨hsome, hnearest⟩ := hlimit ["w"] (passes_start ["w"] _)
  obtain ⟨path, rfl⟩ := Option.isSome_iff_exists.mp
    (hsome ["a", "w"] (List.suffix_cons "a" _) List.suffix_rfl hconfig)
  refine ⟨hdenotes, ?_, path, hrun, hnearest.mpr ?_⟩
  · simp [HasConfig, climbed, workingIn, addDirectories, get?]
  · -- The whole path has a configuration, so no shorter rest is the longest.
    intro rest hrest
    rw [← hrest.longest ["..", "b", "a"] hrest.suffix List.suffix_rfl hconfig]
    exact ⟨List.suffix_cons "a" _, List.suffix_rfl⟩

/-- A working directory with a configuration in its directory `a` alone. -/
def aside : FileTree :=
  ((workingIn ["w"]).put ["a", "w"] .directory).put [configName, "a", "w"] (.file .empty)

/-- From `a/..`, which is the working directory, the configuration in `a` is found. -/
theorem findConfig_not_nearest :
    aside.Denotes "a/.." ["w"] ∧
      (disk.findConfig "a/..").run aside = (some "a/tasmgen.toml", aside) ∧
      aside.IsNearest ["w"] ["w"] none ∧
      ¬aside.IsNearest ["w"] ["w"] (some "a/tasmgen.toml") := by
  have hnone : ¬aside.HasConfig ["w"] := by
    simp [HasConfig, aside, workingIn, addDirectories, get?, configName]
  refine ⟨denotes_iff.mpr ⟨?_, rfl⟩, ?_, ?_, ?_⟩
  · simp [aside, workingIn, addDirectories, origin, stepsOf, steps, active, isIdle,
      splitSlash, leads_cons_iff, leads_nil_iff, get?, placeFrom, configName]
  · have hhere : aside.hasEntry "a/../tasmgen.toml" = false := by
      simp [hasEntry, follow, origin, splitSlash, step, aside, workingIn, addDirectories,
        get?, configName, bind, Except.bind, pure, Except.pure]
    have hthere : aside.hasEntry "a/tasmgen.toml" = true := by
      simp [hasEntry, follow, origin, splitSlash, step, aside, workingIn, addDirectories,
        get?, configName, bind, Except.bind, pure, Except.pure]
    rw [run_findConfig, withParents_of_some (q := ⟨.relative, [['a']]⟩) rfl,
      withParents_of_some (q := ⟨.relative, []⟩) rfl, withParents_of_none rfl]
    show (List.find? aside.hasEntry ["a/../tasmgen.toml", "a/tasmgen.toml",
      "tasmgen.toml"], aside) = _
    rw [List.find?_cons_of_neg (by simp [hhere]), List.find?_cons_of_pos hthere]
  · intro above hlow hhigh
    rwa [hhigh.eq_of_length_le hlow.length_le]
  · rintro ⟨above, habove, -⟩
    rw [habove.suffix.eq_of_length_le habove.holds.1.length_le] at habove
    exact hnone habove.holds.2

end FileTree

end RealMode
