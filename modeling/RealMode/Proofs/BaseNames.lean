import RealMode.Proofs.CommandEffects

/-!
# Base names and listings

The listing for a base name is kept in the file that has `.asm` after it, and the base
name for an input is its path without the extension. The first appends to a text, the
second goes by the components of a path and the dots of its last one.

- A text is cut before its last part (`Path.exists_front`). Up to there, all paths with a
  name at the end are read alike (`Path.exists_ofChars_append`).
- `Path.dropExtension_append`: an extension after a name is taken off again, whatever
  stands before the name and whatever dots the name has, unless it is a single one.
- An input that is named like a listing is built in place
  (`Command.exists_run_build_in_place`).
-/

namespace RealMode

namespace Path

variable {front stem name ext : List Char}

/-! ## The last part of a text -/

/-- What stands before the last part of a text: nothing, or something that ends in a
slash. -/
def IsFront (front : List Char) : Prop :=
  front = [] ∨ ∃ dir, front = dir ++ ['/']

/-- Every path is a front, up to its last slash, and a name. -/
theorem exists_front (cs : List Char) :
    ∃ front name, cs = front ++ name ∧ IsFront front ∧ '/' ∉ name := by
  induction cs using List.reverseRecOn with
  | nil => exact ⟨[], [], rfl, .inl rfl, List.not_mem_nil⟩
  | append_singleton cs c ih =>
    by_cases hc : c = '/'
    · subst hc
      exact ⟨_, [], (List.append_nil _).symm, .inr ⟨cs, rfl⟩, List.not_mem_nil⟩
    · obtain ⟨front, name, rfl, hfront, hname⟩ := ih
      refine ⟨front, name ++ [c], List.append_assoc .., hfront, ?_⟩
      simpa [hname] using Ne.symm hc

/-- The name is the last part. -/
theorem getLast?_splitSlash_append (hfront : IsFront front) (hname : '/' ∉ name) :
    (splitSlash (front ++ name)).getLast? = some name := by
  rcases hfront with rfl | ⟨dir, rfl⟩
  · rw [List.nil_append, splitSlash_of_not_mem hname]
    rfl
  · rw [List.append_assoc, List.singleton_append, splitSlash_append,
      splitSlash_of_not_mem hname, List.getLast?_append]
    rfl

/-- A path that starts at neither the root nor the current directory is read whole. -/
theorem splitStart_of_relative {cs : List Char} (hroot : ∀ rest, cs ≠ '/' :: rest)
    (hdot : cs ≠ ['.']) (hcurrent : ∀ rest, cs ≠ '.' :: '/' :: rest) :
    splitStart cs = (.relative, cs) := by
  fun_cases splitStart cs with
  | case1 rest => exact absurd rfl (hroot rest)
  | case2 => exact absurd rfl hdot
  | case3 rest => exact absurd rfl (hcurrent rest)
  | case4 => rfl

/-- What follows a slash does not change where the text before it starts. -/
theorem splitStart_append_slash {dir : List Char} (hdir : dir ≠ []) (rest : List Char) :
    splitStart (dir ++ '/' :: rest) =
      ((splitStart dir).1, (splitStart dir).2 ++ '/' :: rest) := by
  fun_cases splitStart dir with
  | case1 more => rfl
  | case2 => rfl
  | case3 more => rfl
  | case4 _ hroot hdot hcurrent =>
    obtain ⟨c, dir, rfl⟩ := List.exists_cons_of_ne_nil hdir
    refine splitStart_of_relative ?_ ?_ ?_
    · rintro more h
      exact hroot dir (by rw [(List.cons.inj h).1])
    · intro h
      simp at h
    · intro more h
      obtain ⟨rfl, htail⟩ := List.cons.inj h
      cases dir with
      | nil => exact hdot rfl
      | cons c' dir =>
        obtain rfl : c' = '/' := (List.cons.inj htail).1
        exact hcurrent dir rfl

theorem ofChars_eq (cs : List Char) :
    ofChars cs = ⟨(splitStart cs).1, (splitSlash (splitStart cs).2).reverse⟩ :=
  rfl

/-- The name is the last part of the path, and what stands before it decides about all
else. -/
theorem exists_ofChars_append (hfront : IsFront front) :
    ∃ start others, ∀ name, '/' ∉ name → isIdle name = false →
      ofChars (front ++ name) = ⟨start, name :: others⟩ := by
  rcases hfront with rfl | ⟨dir, rfl⟩
  · refine ⟨.relative, [], fun name hname hidle => ?_⟩
    have hstart : splitStart name = (.relative, name) := by
      refine splitStart_of_relative ?_ ?_ ?_
      · rintro rest rfl
        exact hname List.mem_cons_self
      · rintro rfl
        cases hidle
      · rintro rest rfl
        simp at hname
    rw [List.nil_append, ofChars_eq, hstart, splitSlash_of_not_mem hname]
    rfl
  · by_cases hdir : dir = []
    · subst hdir
      refine ⟨.root, [], fun name hname _ => ?_⟩
      have hstart : splitStart ([] ++ ['/'] ++ name) = (.root, name) := rfl
      rw [ofChars_eq, hstart, splitSlash_of_not_mem hname]
      rfl
    · refine ⟨(splitStart dir).1, (splitSlash (splitStart dir).2).reverse,
        fun name hname _ => ?_⟩
      rw [List.append_assoc, List.singleton_append, ofChars_eq,
        splitStart_append_slash hdir, splitSlash_append, splitSlash_of_not_mem hname,
        List.reverse_append]
      rfl

theorem components_cons {start : PathStart} {others : List (List Char)}
    (h : isIdle name = false) :
    (⟨start, name :: others⟩ : Path).components = name :: others :=
  List.dropWhile_cons_of_neg (by rw [h]; decide)

/-! ## File names -/

theorem isIdle_eq_false_iff : isIdle name = false ↔ name ≠ [] ∧ name ≠ ['.'] := by
  simp [isIdle]

/-- A part that names a file. -/
structure IsFileName (name : List Char) : Prop where
  no_slash : '/' ∉ name
  active : isIdle name = false
  ne_dots : name ≠ ['.', '.']

/-- A name with an extension names a file. The extension may be empty if what stands
before its dot is a component. -/
theorem isFileName_append (hstem : '/' ∉ stem) (hslash : '/' ∉ ext) (hext : '.' ∉ ext)
    (h : isIdle stem = false ∨ ext ≠ []) : IsFileName (stem ++ '.' :: ext) := by
  have hsingle {part : List Char} : part ++ '.' :: ext = ['.'] ↔
      part = [] ∧ ext = [] := by
    simp [List.append_eq_singleton_iff]
  refine ⟨by simp [hstem, hslash], isIdle_eq_false_iff.mpr ⟨by simp, fun heq => ?_⟩,
    fun heq => ?_⟩
  · obtain ⟨rfl, rfl⟩ := hsingle.mp heq
    cases h.resolve_right fun hne => hne rfl
  · cases stem with
    | nil =>
      obtain rfl : ext = ['.'] := (List.cons.inj heq).2
      exact hext List.mem_cons_self
    | cons c stem =>
      obtain ⟨rfl, htail⟩ := List.cons.inj heq
      obtain ⟨rfl, rfl⟩ := hsingle.mp htail
      cases h.resolve_right fun hne => hne rfl

/-- A name after a front is the path's file name. -/
theorem fileName?_append (hfront : IsFront front) (hname : IsFileName name) :
    (ofChars (front ++ name)).fileName? = some name := by
  obtain ⟨start, others, hread⟩ := exists_ofChars_append hfront
  rw [hread name hname.no_slash hname.active, fileName?, components_cons hname.active]
  exact if_neg hname.ne_dots

/-! ## Extensions -/

/-- A name is cut at its last dot, unless that is its first character. -/
theorem splitName_append (hext : '.' ∉ ext) :
    splitName (stem ++ '.' :: ext) =
      if stem = [] then ('.' :: ext, none) else (stem, some ext) := by
  have hreverse : (stem ++ '.' :: ext).reverse =
      ext.reverse ++ '.' :: stem.reverse := by simp
  have hpos : ∀ c ∈ ext.reverse, (c != '.') = true := by
    intro c hc
    rw [List.mem_reverse] at hc
    exact bne_iff_ne.mpr fun h => hext (h ▸ hc)
  have hbehind : (ext.reverse ++ '.' :: stem.reverse).takeWhile (· != '.') =
      ext.reverse := by
    rw [List.takeWhile_append_of_pos hpos, List.takeWhile_cons_of_neg (by decide),
      List.append_nil]
  have hbefore : (ext.reverse ++ '.' :: stem.reverse).dropWhile (· != '.') =
      '.' :: stem.reverse := by
    rw [List.dropWhile_append_of_pos hpos, List.dropWhile_cons_of_neg (by decide)]
  rw [splitName, hreverse, hbehind, hbefore]
  cases stem with
  | nil => rfl
  | cons c stem => simp

/-- A path is cut after the stem of its name. -/
theorem chars_cutAfterStem_append (hfront : IsFront front) (hname : IsFileName name)
    (hstem : '/' ∉ (splitName name).1) (hactive : isIdle (splitName name).1 = false) :
    (cutAfterStem (ofChars (front ++ name))).chars = front ++ (splitName name).1 := by
  have hfile := fileName?_append hfront hname
  obtain ⟨start, others, hread⟩ := exists_ofChars_append hfront
  rw [hread name hname.no_slash hname.active] at hfile ⊢
  have hcut : cutAfterStem ⟨start, name :: others⟩ =
      ⟨start, (splitName name).1 :: others⟩ := by
    rw [cutAfterStem, hfile, components_cons hname.active]
  rw [hcut, ← hread _ hstem hactive, chars_ofChars]

/-- A path that ends in `..` has no name to be cut. -/
theorem chars_cutAfterStem_append_dots (hfront : IsFront front) :
    (cutAfterStem (ofChars (front ++ ['.', '.']))).chars = front ++ ['.', '.'] := by
  obtain ⟨start, others, hread⟩ := exists_ofChars_append hfront
  have hdots := hread ['.', '.'] (by decide) rfl
  have hkept : cutAfterStem ⟨start, ['.', '.'] :: others⟩ =
      ⟨start, ['.', '.'] :: others⟩ := rfl
  rw [hdots, hkept, ← hdots, chars_ofChars]

/-- What is left of a text with an extension at its end. Without a name before it, the
extension is itself the name. A name that is a single dot becomes `..` when the extension
is taken off up to its dot, and this is no name that could be cut. -/
theorem dropExtension_append (hfront : IsFront front) (hstem : '/' ∉ stem)
    (hslash : '/' ∉ ext) (hext : '.' ∉ ext) (hne : ext ≠ []) :
    dropExtension (front ++ (stem ++ '.' :: ext)) =
      front ++ if stem = [] then '.' :: ext else if stem = ['.'] then
        ['.', '.'] else stem := by
  have hname := isFileName_append hstem hslash hext (.inr hne)
  have hsplit : splitName (stem ++ '.' :: ext) = _ := splitName_append hext
  rw [dropExtension, fileName?_append hfront hname]
  by_cases hempty : stem = []
  · subst hempty
    rw [if_pos rfl] at hsplit ⊢
    have hcut :=
      chars_cutAfterStem_append hfront hname (by rw [hsplit]; exact hname.no_slash)
      (by rw [hsplit]; exact hname.active)
    rw [hsplit] at hcut
    simp only [hsplit]
    exact hcut
  · rw [if_neg hempty] at hsplit ⊢
    -- The first cut leaves the dot, which makes the rest a name with an empty extension.
    have hwhole : front ++ (stem ++ '.' :: ext) =
        front ++ (stem ++ ['.']) ++ ext := by simp
    have htake : (front ++ (stem ++ '.' :: ext)).take
        ((front ++ (stem ++ '.' :: ext)).length - ext.length) =
          front ++ (stem ++ ['.']) := by
      rw [hwhole, List.length_append, Nat.add_sub_cancel, List.take_left]
    simp only [hsplit]
    rw [htake]
    by_cases hdot : stem = ['.']
    · subst hdot
      exact chars_cutAfterStem_append_dots hfront
    · have hactive : isIdle stem = false := isIdle_eq_false_iff.mpr ⟨hempty, hdot⟩
      have hshort := isFileName_append hstem List.not_mem_nil List.not_mem_nil
        (.inl hactive)
      have hsplit' : splitName (stem ++ ['.']) = (stem, some []) :=
        (splitName_append List.not_mem_nil).trans (if_neg hempty)
      have hcut := chars_cutAfterStem_append hfront hshort (by rwa [hsplit'])
        (by rwa [hsplit'])
      rw [if_neg hdot, hcut, hsplit']

/-! ## Base names -/

/-- A base name: a text with something after its last slash that is not a single dot. -/
structure IsBase (b : String) : Prop where
  ne_empty : b ≠ ""
  last_ne_slash : b.toList.getLast? ≠ some '/'
  lastPart_ne_dot : (splitSlash b.toList).getLast? ≠ some ['.']

/-- A base is a front and a stem that is neither empty nor a dot. -/
theorem isBase_iff {b : String} (hb : b.toList = front ++ stem) (hfront : IsFront front)
    (hstem : '/' ∉ stem) : IsBase b ↔ isIdle stem = false := by
  have hlast : (splitSlash b.toList).getLast? = some stem := by
    rw [hb, getLast?_splitSlash_append hfront hstem]
  rw [isIdle_eq_false_iff]
  constructor
  · rintro ⟨hne, hslash, hdot⟩
    refine ⟨?_, fun h => hdot (h ▸ hlast)⟩
    rintro rfl
    rw [List.append_nil] at hb
    rcases hfront with rfl | ⟨dir, rfl⟩
    · exact hne (String.toList_eq_nil_iff.mp hb)
    · exact hslash (by rw [hb, List.getLast?_concat])
  · rintro ⟨hne, hdot⟩
    refine ⟨?_, fun h => ?_, fun h => hdot (Option.some.inj (hlast.symm.trans h))⟩
    · rintro rfl
      exact hne (List.append_eq_nil_iff.mp hb.symm).2
    · rw [hb, List.getLast?_append_of_ne_nil _ hne] at h
      exact hstem (List.mem_of_getLast? h)

/-- A text comes back from the path of its listing exactly when it is a base name. -/
theorem defaultBase_artifact_eq_iff (b : String) :
    defaultBase (artifact b) = b ↔ IsBase b := by
  obtain ⟨front, stem, hb, hfront, hstem⟩ := exists_front b.toList
  have hartifact : (artifact b).toList = front ++ (stem ++ '.' :: ['a', 's', 'm']) := by
    rw [artifact, String.toList_append, hb, List.append_assoc]
    rfl
  have hleft : dropExtension (front ++ (stem ++ '.' :: ['a', 's', 'm'])) = _ :=
    dropExtension_append hfront hstem (by decide) (by decide) (by decide)
  rw [defaultBase, hartifact, hleft, ← String.toList_inj, String.toList_ofList, hb,
    List.append_right_inj, isBase_iff hb hfront hstem, isIdle_eq_false_iff]
  by_cases hempty : stem = []
  · subst hempty
    simp
  · by_cases hdot : stem = ['.']
    · subst hdot
      simp
    · simp [hempty, hdot]

/-- A path is its own artifact when it is the artifact of a base. -/
theorem artifact_defaultBase_eq_iff (p : String) :
    artifact (defaultBase p) = p ↔ ∃ b, IsBase b ∧ p = artifact b := by
  constructor
  · intro h
    refine ⟨defaultBase p, ?_, h.symm⟩
    rw [← defaultBase_artifact_eq_iff, h]
  · rintro ⟨b, hb, rfl⟩
    rw [(defaultBase_artifact_eq_iff b).mpr hb]

end Path

namespace Command

variable {tree : FileTree} {command : Invocation} {compiled : Compiled}

/-! ## Building in place -/

/-- A build whose listing has the path of its input replaces the input. -/
theorem exists_run_build_in_place (hsub : command.subcommand = .build)
    (hartifact : command.artifact = command.input)
    (hcompiles : Compiles tree command compiled) :
    ∃ outcome after, (invoke FileTree.recording command).run (tree, []) =
        (outcome, after, [(command.input, compiled.listing)]) ∧
      outcome.exitCode = 0 ∧ after.readText command.input = .ok compiled.listing := by
  -- What can be read is a file, and so it can be written.
  obtain ⟨source, hsource⟩ := hcompiles.exists_readText
  obtain ⟨place, bytes, hfollow, hentry⟩ := FileTree.exists_file_of_readText hsource
  have hwritable : tree.Writable command.input := ⟨place, hfollow, by rw [hentry]; simp⟩
  obtain ⟨after, hwrite, hread, -⟩ :=
    FileTree.exists_writeText_of_writable hwritable compiled.listing
  rw [← hartifact] at hwrite
  have hrun := run_invoke_build (s := (tree, [])) FileTree.shows_recording hsub hcompiles
    (FileTree.run_recording_of_ok hwrite)
  rw [hartifact] at hrun
  exact ⟨_, after, hrun, rfl, hread⟩

/-- **The base name of a listing is the one that it was made for.** A text comes back from
the path of its listing exactly when something stands after its last slash that is not a
single dot; all other dots, `..`, `.` and slashes in it make no difference. So a path is
the listing of its own base name exactly when it is the listing of such a text. Building
an input with such a path, with no other base name given, writes the listing over the
input. -/
theorem defaultBase_undoes_artifact (b p : String) :
    (Path.IsBase b ↔ Path.defaultBase (Path.artifact b) = b) ∧
    ((∃ b, Path.IsBase b ∧ p = Path.artifact b) ↔
      Path.artifact (Path.defaultBase p) = p) ∧
    ((∃ b, Path.IsBase b ∧ p = Path.artifact b) → ∀ args command,
      Arguments.parse args = some (.run command) → command.subcommand = .build →
      command.input = p → command.output = none → command.artifact = p ∧
        ∀ tree compiled, Compiles tree command compiled → ∃ outcome after,
          (run FileTree.recording args).run (tree, []) =
            (outcome, after, [(p, compiled.listing)]) ∧
          outcome.exitCode = 0 ∧ after.readText p = .ok compiled.listing) := by
  refine ⟨(Path.defaultBase_artifact_eq_iff b).symm,
    (Path.artifact_defaultBase_eq_iff p).symm, ?_⟩
  rintro hp args command hparse hsub rfl houtput
  have hartifact : command.artifact = command.input := by
    rw [Invocation.artifact, houtput]
    exact (Path.artifact_defaultBase_eq_iff command.input).mpr hp
  refine ⟨hartifact, fun tree compiled hcompiles => ?_⟩
  rw [run_of_parse _ hparse]
  exact exists_run_build_in_place hsub hartifact hcompiles

/-- A program in a file that is named like a listing, by a name with dots at both ends. -/
def inPlace : FileTree :=
  ((FileTree.workingIn ["w"]).put ["a", "w"] .directory).put ["..b..asm", "a", "w"]
    (.file assigning.render.toUTF8)

theorem readText_inPlace : inPlace.readText "a/.//..b..asm" = .ok assigning.render := by
  have hfollow : inPlace.follow "a/.//..b..asm" = .ok ["..b..asm", "a", "w"] := by
    simp [FileTree.follow, FileTree.origin, Path.splitSlash, FileTree.step, inPlace,
      FileTree.workingIn, FileTree.addDirectories, FileTree.get?, bind, Except.bind, pure,
      Except.pure]
  refine FileTree.readText_of_file hfollow ?_
  simp [inPlace, FileTree.workingIn, FileTree.addDirectories, FileTree.get?]

theorem configFor_inPlace : inPlace.configFor "a/.//..b..asm" = none := by
  have hcandidates : configCandidates "a" = ["a/tasmgen.toml", "tasmgen.toml"] := by
    rw [FileTree.configCandidates_eq, Path.withParents_of_some (q := ⟨.relative, []⟩) rfl,
      Path.withParents_of_none rfl]
    rfl
  have hparent : Path.parentText? "a/.//..b..asm" = some "a" := rfl
  rw [FileTree.configFor, hparent, Option.getD_some, hcandidates]
  simp [FileTree.hasEntry, FileTree.follow, FileTree.origin, Path.splitSlash,
    FileTree.step, inPlace, FileTree.workingIn, FileTree.addDirectories, FileTree.get?,
    bind, Except.bind, pure, Except.pure]

/-- The file is overwritten with the listing of the program in it. -/
theorem defaultBase_undoes_artifact_in_place :
    Path.IsBase "a/.//..b." ∧ Path.defaultBase "a/.//..b..asm" = "a/.//..b." ∧
    ∃ outcome after text,
      (run FileTree.recording ["build", "a/.//..b..asm"]).run (inPlace, []) =
        (outcome, after, [("a/.//..b..asm", text)]) ∧
      outcome.exitCode = 0 ∧ after.readText "a/.//..b..asm" = .ok text := by
  have hbase : Path.IsBase "a/.//..b." := ⟨by decide, by decide, by decide⟩
  have hcompiles : ∃ compiled,
      Compiles inPlace ⟨.build, "a/.//..b..asm", none, none, none⟩ compiled := by
    have hcompile : Compilation.compile {} assigning = _ :=
      Compilation.compile_of_none rfl
    refine ⟨_, by decide, {}, assigning.render, assigning, ?_, readText_inPlace,
      Node.parse_render_of_le (by decide), hcompile⟩
    rw [configFor_inPlace]
    rfl
  obtain ⟨hback, -, hbuild⟩ := defaultBase_undoes_artifact "a/.//..b." "a/.//..b..asm"
  obtain ⟨compiled, hcompiles⟩ := hcompiles
  obtain ⟨-, hrun⟩ := hbuild ⟨_, hbase, rfl⟩ ["build", "a/.//..b..asm"] _ rfl rfl rfl rfl
  obtain ⟨outcome, after, hwrites, hexit, hread⟩ := hrun inPlace compiled hcompiles
  exact ⟨hbase, hback.mp hbase, outcome, after, _, hwrites, hexit, hread⟩

end Command

end RealMode
