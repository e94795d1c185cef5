import Mathlib.Logic.Relation
import RealMode.Proofs.ConfigEntries

/-!
# The settings of a configuration file

The entries of a configuration settle what is read from it: the first bad one is the
fault, and of good ones with a key the last counts. `Config.Settles.set` is the step for
one more entry.

Lines that are no entries with a known key may be put in or left out. `Config.Inserted`
are these changes, made on the lines of a text: idle lines, comments behind a line, and
other sections between two sections. None of them changes the keys and values that matter
(`Config.Inserted.known_eq`).

`Config.parse_by_entries` puts both together.
-/

namespace RealMode

/-! ## Natural numbers of 64 bits -/

namespace Decimal

/-- The text is digits for the number, after a plus sign at most, and the number has 64
bits. -/
def Natural64 (text : String) (n : Nat) : Prop :=
  ∃ sign ds, text.toList = sign ++ ds ∧ (sign = [] ∨ sign = ['+']) ∧ Digits ds ∧
    n = digitsValue ds ∧ n < 2 ^ 64

/-- Takes a plus sign off the front. -/
def unsigned : List Char → List Char
  | '+' :: rest => rest
  | cs => cs

theorem unsigned_spec (cs : List Char) :
    ∃ sign, (sign = [] ∨ sign = ['+']) ∧ cs = sign ++ unsigned cs := by
  fun_cases unsigned cs with
  | case1 rest => exact ⟨_, .inr rfl, rfl⟩
  | case2 => exact ⟨_, .inl rfl, rfl⟩

/-- A plus sign before digits is all that is taken off. -/
theorem unsigned_append {sign ds : List Char} (hsign : sign = [] ∨ sign = ['+'])
    (hds : Digits ds) :
    unsigned (sign ++ ds) = ds := by
  rcases hsign with rfl | rfl
  · rw [List.nil_append, unsigned]
    rintro rest rfl
    exact (ne_sign_of_isDigit (hds.2 '+' List.mem_cons_self)).1 rfl
  · rfl

/-- A number is accepted when it is written as a natural number of 64 bits. -/
theorem natural?_eq_some_iff {text : String} {n : Nat} :
    natural? text = some n ↔ Natural64 text n := by
  have hread : natural? text =
      if (unsigned text.toList).isEmpty ||
        !(unsigned text.toList).all Char.isDigit then none
      else if natValue (unsigned text.toList) < Nat.pow 2 64 then
        some (natValue (unsigned text.toList))
      else none := rfl
  have hdigits (ds : List Char) : (ds.isEmpty || !ds.all Char.isDigit) = false ↔
      Digits ds := by
    simp [Digits]
  constructor
  · intro h
    rw [hread] at h
    split_ifs at h with hbad hlt
    obtain ⟨sign, hsign, hcs⟩ := unsigned_spec text.toList
    refine ⟨sign, _, hcs, hsign, (hdigits _).mp (Bool.eq_false_of_not_eq_true hbad), ?_⟩
    rw [natValue_eq] at h hlt
    obtain rfl := Option.some.inj h
    exact ⟨rfl, hlt⟩
  · rintro ⟨sign, ds, hcs, hsign, hds, rfl, hlt⟩
    have hlt' : natValue ds < Nat.pow 2 64 := by
      rw [natValue_eq]
      exact hlt
    rw [hread, hcs, unsigned_append hsign hds, (hdigits ds).mpr hds,
      if_neg Bool.false_ne_true, if_pos hlt', natValue_eq]

end Decimal

/-! ## Settings -/

/-- The entry has a value that its key takes. Any value will do for an unknown key. -/
def ConfigEntry.Valid (entry : ConfigEntry) : Prop :=
  (entry.key = "redeclaration" → entry.value = "warn" ∨ entry.value = "allow") ∧
    (entry.key = "max_depth" → ∃ n, 1 ≤ n ∧ Decimal.Natural64 entry.value n)

/-- The fault names the key, the value and the line of the entry. -/
def ConfigFault.Names (fault : ConfigFault) (entry : ConfigEntry) : Prop :=
  fault.diagnostic.isError = true ∧
    fault.diagnostic.message =
      "invalid value '" ++ entry.value ++ "' for '" ++ entry.key ++ "' in tasmgen.toml" ∧
    fault.diagnostic.notes = ["line " ++ toString entry.line]

/-- A policy is accepted by its own name only. -/
theorem Policy.ofName?_eq_some_iff {text : String} {policy : Policy} :
    Policy.ofName? text = some policy ↔ text = policy.name := by
  rw [Policy.ofName?]
  split_ifs with hwarn hallow
  · cases policy <;> simp [hwarn, Policy.name]
  · cases policy <;> simp [hallow, Policy.name]
  · cases policy <;> simp [hwarn, hallow, Policy.name]

namespace Config

/-- A depth is accepted when it is such a number and not zero. -/
theorem limit?_eq_some_iff {text : String} {n : Nat} :
    limit? text = some n ↔ 1 ≤ n ∧ Decimal.Natural64 text n := by
  rw [← Decimal.natural?_eq_some_iff, limit?]
  split
  · rename_i hzero
    rw [hzero]
    constructor
    · intro h
      cases h
    · rintro ⟨hpos, h⟩
      obtain rfl := Option.some.inj h
      omega
  · rename_i hne
    refine (and_iff_right_of_imp fun h => Nat.one_le_iff_ne_zero.mpr ?_).symm
    rintro rfl
    exact hne h

/-- The last entry with a key. -/
def last? (entries : List ConfigEntry) (key : String) : Option ConfigEntry :=
  (entries.filter (·.key = key)).getLast?

/-- The last entry of a key is the newest one that has it. -/
theorem last?_concat (entries : List ConfigEntry) (entry : ConfigEntry) (key : String) :
    last? (entries ++ [entry]) key = if entry.key = key then
      some entry else last? entries key := by
  rw [last?, List.filter_append]
  split_ifs with h
  · simp [h]
  · simp [h, last?]

/-- Each setting is the value of the last entry with its key, or unset. -/
structure Settles (entries : List ConfigEntry) (config : Config) : Prop where
  redeclaration : config.redeclaration.map Policy.name =
    (last? entries "redeclaration").map ConfigEntry.value
  maxDepth : Option.Rel (fun n entry => 1 ≤ n ∧ Decimal.Natural64 entry.value n)
    config.maxDepth
    (last? entries "max_depth")

theorem settles_nil : Settles [] {} :=
  ⟨rfl, .none⟩

/-- An entry of an unknown key changes nothing. -/
theorem set_of_unknown {entry : ConfigEntry} (hpolicy : entry.key ≠ "redeclaration")
    (hlimit : entry.key ≠ "max_depth") (config : Config) :
    set config entry = .ok config := by
  rw [set, if_neg hpolicy, if_neg hlimit]

/-- A good entry is the last with its key. -/
theorem Settles.set {entries : List ConfigEntry} {config : Config}
    (h : Settles entries config) {entry : ConfigEntry} (hvalid : entry.Valid) :
    ∃ config', config.set entry = .ok config' ∧ Settles (entries ++ [entry]) config' := by
  by_cases hpolicy : entry.key = "redeclaration"
  · obtain ⟨policy, hname⟩ : ∃ policy : Policy, entry.value = policy.name := by
      rcases hvalid.1 hpolicy with hwarn | hallow
      · exact ⟨.warn, hwarn⟩
      · exact ⟨.allow, hallow⟩
    refine ⟨{ config with redeclaration := some policy }, ?_, ?_, ?_⟩
    · rw [Config.set, if_pos hpolicy, Policy.ofName?_eq_some_iff.mpr hname]
    · rw [last?_concat, if_pos hpolicy, Option.map_some, Option.map_some, hname]
    · rw [last?_concat, if_neg (by simp [hpolicy])]
      exact h.maxDepth
  · by_cases hlimit : entry.key = "max_depth"
    · obtain ⟨n, hn⟩ := hvalid.2 hlimit
      refine ⟨{ config with maxDepth := some n }, ?_, ?_, ?_⟩
      · rw [Config.set, if_neg hpolicy, if_pos hlimit, limit?_eq_some_iff.mpr hn]
      · rw [last?_concat, if_neg hpolicy]
        exact h.redeclaration
      · rw [last?_concat, if_pos hlimit]
        exact .some hn
    · refine ⟨config, set_of_unknown hpolicy hlimit config, ?_, ?_⟩
      · rw [last?_concat, if_neg hpolicy]
        exact h.redeclaration
      · rw [last?_concat, if_neg hlimit]
        exact h.maxDepth

/-- A bad entry is the fault. -/
theorem exists_set_eq_error (config : Config) {entry : ConfigEntry} (h : ¬ entry.Valid) :
    ∃ fault : ConfigFault, config.set entry = .error fault ∧ fault.Names entry := by
  by_cases hpolicy : entry.key = "redeclaration"
  · have hnone : Policy.ofName? entry.value = none := by
      refine Option.eq_none_iff_forall_ne_some.mpr fun policy hname => h ⟨fun _ => ?_, ?_⟩
      · rw [Policy.ofName?_eq_some_iff.mp hname]
        cases policy with
        | warn => exact .inl rfl
        | allow => exact .inr rfl
      · simp [hpolicy]
    refine ⟨.redeclaration entry.value entry.line, ?_, rfl, ?_, rfl⟩
    · rw [Config.set, if_pos hpolicy, hnone]
    · rw [hpolicy]
      rfl
  · by_cases hlimit : entry.key = "max_depth"
    · have hnone : limit? entry.value = none := by
        refine Option.eq_none_iff_forall_ne_some.mpr fun n hn =>
          h ⟨fun hkey => ?_, fun _ => ?_⟩
        · exact absurd hkey hpolicy
        · exact ⟨n, limit?_eq_some_iff.mp hn⟩
      refine ⟨.maxDepth entry.value entry.line, ?_, rfl, ?_, rfl⟩
      · rw [Config.set, if_neg hpolicy, if_pos hlimit, hnone]
      · rw [hlimit]
        rfl
    · exact absurd ⟨fun hkey => absurd hkey hpolicy, fun hkey => absurd hkey hlimit⟩ h

/-- Valid entries are all accepted, and the last of each key settles it. -/
theorem exists_foldlM_eq_ok {entries : List ConfigEntry}
    (h : ∀ entry ∈ entries, entry.Valid) :
    ∃ config, entries.foldlM Config.set {} = Except.ok config ∧
    Settles entries config := by
  induction entries using List.reverseRecOn with
  | nil => exact ⟨{}, rfl, settles_nil⟩
  | append_singleton entries entry ih =>
    obtain ⟨config, hfold, hsettles⟩ := ih fun e he => h e (List.mem_append_left _ he)
    obtain ⟨config', hset, hsettles'⟩ := hsettles.set (h entry (by simp))
    refine ⟨config', ?_, hsettles'⟩
    rw [List.foldlM_append, hfold]
    exact (bind_pure (Config.set config entry)).trans hset

/-- The first entry that is not valid is the one the fault names. -/
theorem exists_foldlM_eq_error {before after : List ConfigEntry} {entry : ConfigEntry}
    (hbefore : ∀ entry ∈ before, entry.Valid) (hbad : ¬ entry.Valid) :
    ∃ fault : ConfigFault,
      (before ++ entry :: after).foldlM Config.set {} = Except.error fault ∧
      fault.Names entry := by
  obtain ⟨config, hfold, -⟩ := exists_foldlM_eq_ok hbefore
  obtain ⟨fault, hset, hnames⟩ := exists_set_eq_error config hbad
  refine ⟨fault, ?_, hnames⟩
  rw [List.foldlM_append, hfold]
  show (Config.set config entry >>= fun config => after.foldlM Config.set config) = _
  rw [hset]
  rfl

theorem exists_first_not_valid {entries : List ConfigEntry}
    (h : ¬ ∀ entry ∈ entries, entry.Valid) :
    ∃ before entry after, entries = before ++ entry :: after ∧ (∀ e ∈ before, e.Valid) ∧
      ¬ entry.Valid := by
  induction entries with
  | nil => exact absurd (fun _ => nofun) h
  | cons first entries ih =>
    by_cases hfirst : first.Valid
    · obtain ⟨before, entry, after, rfl, hbefore, hbad⟩ :=
        ih fun hall => h (by simpa [hfirst] using hall)
      exact ⟨first :: before, entry, after, rfl, by simpa [hfirst] using hbefore, hbad⟩
    · exact ⟨[], first, entries, rfl, fun _ => nofun, hfirst⟩

/-! ## Lines that do not matter -/

/-- The keys that set something. -/
def isKnown (key : String) : Bool :=
  key == "redeclaration" || key == "max_depth"

/-- The line is blank or a comment, or it sets an unknown key. -/
def Idle (line : List Char) : Prop :=
  Says line [] ∨ ∃ key value, Sets line key value ∧ isKnown key = false

/-- Between these lines a section ends, or none begins that matters: the lines before are
not in the section `codegen`, or what follows is a head, idle lines aside, or nothing. -/
def Separate (before after : List (List Char)) : Prop :=
  ¬ InCodegen before ∨ ∃ between rest, after = between ++ rest ∧
    (∀ line ∈ between, Idle line) ∧
    ∀ line ∈ rest.head?, ∃ name, Heads line name

/-- The second text is the first with an idle line put in, with a comment put behind a
line, or with other sections put in where a section ends. -/
inductive Inserted : List (List Char) → List (List Char) → Prop
  | idle {before after : List (List Char)} {line : List Char} (h : Idle line) :
    Inserted (before ++ after) (before ++ line :: after)
  | comment {before after : List (List Char)} {line comment : List Char} :
    Inserted (before ++ line :: after) (before ++ (line ++ '#' :: comment) :: after)
  | sections {before after body : List (List Char)} {head : List Char} {name : String}
    (hhead : Heads head name) (hname : name ≠ "codegen")
    (hbody : ∀ line ∈ body, ¬ Heads line "codegen")
    (hplace : Separate before after) :
    Inserted (before ++ after) (before ++ (head :: body ++ after))

/-- The keys and values of the entries with a known key. -/
def knownPairs (entries : List ConfigEntry) : List (String × String) :=
  (entries.filter (isKnown ·.key)).map fun entry => (entry.key, entry.value)

theorem knownPairs_append (entries entries' : List ConfigEntry) :
    knownPairs (entries ++ entries') = knownPairs entries ++ knownPairs entries' := by
  rw [knownPairs, List.filter_append, List.map_append]
  rfl

/-- Of the entries, only those with a known key matter, and their lines do not. -/
theorem toOption_foldlM (entries : List ConfigEntry) (config : Config) :
    (entries.foldlM Config.set config).toOption =
      (knownPairs entries).foldlM
        (fun config pair => (config.set ⟨0, pair.1, pair.2⟩).toOption)
        config := by
  induction entries generalizing config with
  | nil => rfl
  | cons entry entries ih =>
    rw [List.foldlM_cons]
    by_cases hknown : isKnown entry.key = true
    · have hpairs : knownPairs (entry :: entries) =
          (entry.key, entry.value) :: knownPairs entries := by
        simp [knownPairs, hknown]
      have hset : (config.set entry).toOption =
          (config.set ⟨0, entry.key, entry.value⟩).toOption := by
        rw [Config.set, Config.set]
        split_ifs
        · cases Policy.ofName? entry.value <;> rfl
        · cases limit? entry.value <;> rfl
        · rfl
      rw [hpairs, List.foldlM_cons, ← hset]
      cases config.set entry with
      | error fault => rfl
      | ok config' => exact ih config'
    · have hpairs : knownPairs (entry :: entries) = knownPairs entries := by
        simp [knownPairs, hknown]
      have hkey : entry.key ≠ "redeclaration" ∧ entry.key ≠ "max_depth" := by
        simpa [isKnown] using hknown
      rw [hpairs, set_of_unknown hkey.1 hkey.2, ← ih]
      rfl

/-- The keys and values that lines give, with known keys only. -/
def known (inSection : Bool) (lines : List (List Char)) : List (String × String) :=
  knownPairs (entriesOf inSection 1 lines)

/-- What is known of the entries does not depend on how the lines are numbered. -/
theorem knownPairs_entriesOf (inSection : Bool) (number : Nat)
    (lines : List (List Char)) :
    knownPairs (entriesOf inSection number lines) = known inSection lines := by
  have hshift (m n : Nat) :
      knownPairs (entriesOf inSection m lines) =
        knownPairs (entriesOf inSection n lines) := by
    induction lines generalizing inSection m n with
    | nil => rfl
    | cons line lines ih =>
      rw [entriesOf_cons, entriesOf_cons, knownPairs_append, knownPairs_append, ih]
      congr 1
      cases inSection with
      | false => rfl
      | true =>
        rw [entryAt?, entryAt?]
        cases sectionName? (content line) with
        | some name => rfl
        | none =>
          cases keyValue? (content line) with
          | none => rfl
          | some pair => cases hknown : isKnown pair.1 <;> simp [knownPairs, hknown]
  exact hshift number 1

theorem known_cons (inSection : Bool) (line : List Char) (rest : List (List Char)) :
    known inSection (line :: rest) =
      knownPairs (if inSection then (entryAt? 1 line).toList else []) ++
        known (sectionAfter inSection line) rest := by
  rw [known, entriesOf_cons, knownPairs_append, knownPairs_entriesOf]

/-- Later lines are read in the section the earlier ones end in. -/
theorem known_append (inSection : Bool) (before after : List (List Char)) :
    known inSection (before ++ after) =
      known inSection before ++ known (before.foldl sectionAfter inSection) after := by
  rw [known, entriesOf_append, knownPairs_append, knownPairs_entriesOf,
    knownPairs_entriesOf]

/-- A head sets nothing itself and opens its section. -/
theorem known_cons_of_heads {line : List Char} {name : String} (h : Heads line name)
    (inSection : Bool) (rest : List (List Char)) :
    known inSection (line :: rest) = known (name == "codegen") rest := by
  have hnone : entryAt? 1 line = none := by rw [entryAt?, heads_iff.mp h]
  rw [known_cons, sectionAfter_of_heads h, hnone]
  cases inSection <;> rfl

/-- An idle line is no head. -/
theorem Idle.not_heads {line : List Char} (h : Idle line) (name : String) :
    ¬ Heads line name := by
  rw [heads_iff]
  rcases h with hblank | ⟨key, value, hsets, -⟩
  · rw [← says_iff.mp hblank]
    exact nofun
  · rw [(sets_iff.mp hsets).1]
    exact nofun

/-- An idle line can be left out. -/
theorem Idle.known_cons {line : List Char} (h : Idle line) (inSection : Bool)
    (rest : List (List Char)) :
    known inSection (line :: rest) = known inSection rest := by
  have hnothing : knownPairs (entryAt? 1 line).toList = [] := by
    rcases h with hblank | ⟨key, value, hsets, hkey⟩
    · rw [entryAt?, ← says_iff.mp hblank]
      rfl
    · have hentry : entryAt? 1 line = some ⟨1, key, value⟩ :=
        entryAt?_eq_some_iff.mpr ⟨hsets, rfl⟩
      simp [hentry, knownPairs, hkey]
  rw [Config.known_cons, sectionAfter_of_not_heads h.not_heads]
  cases inSection with
  | false => rfl
  | true => rw [if_pos rfl, hnothing, List.nil_append]

theorem known_idle_append {between : List (List Char)} (h : ∀ line ∈ between, Idle line)
    (inSection : Bool) (rest : List (List Char)) :
    known inSection (between ++ rest) = known inSection rest := by
  induction between with
  | nil => rfl
  | cons line between ih =>
    rw [List.cons_append, (h line List.mem_cons_self).known_cons,
      ih fun l hl => h l (List.mem_cons_of_mem _ hl)]

/-- Outside the section `codegen` nothing is set, and only its head leads into it. -/
theorem known_false_append {body : List (List Char)}
    (h : ∀ line ∈ body, ¬ Heads line "codegen") (rest : List (List Char)) :
    known false (body ++ rest) = known false rest := by
  induction body with
  | nil => rfl
  | cons line body ih =>
    have hsection : sectionAfter false line = false := by
      by_cases hhead : ∃ name, Heads line name
      · obtain ⟨name, hname⟩ := hhead
        rw [sectionAfter_of_heads hname, beq_eq_false_iff_ne]
        rintro rfl
        exact h line List.mem_cons_self hname
      · exact sectionAfter_of_not_heads (not_exists.mp hhead) false
    rw [List.cons_append, known_cons, hsection,
      ih fun l hl => h l (List.mem_cons_of_mem _ hl)]
    rfl

/-- Where two pieces of text are separate, the second is read as if it stood alone. -/
theorem Separate.known_eq {before after : List (List Char)} (h : Separate before after) :
    known (before.foldl sectionAfter false) after = known false after := by
  rcases h with hsection | ⟨between, rest, rfl, hidle, hhead⟩
  · rw [← foldl_sectionAfter_iff, Bool.not_eq_true] at hsection
    rw [hsection]
  · rw [known_idle_append hidle, known_idle_append hidle]
    cases rest with
    | nil => rfl
    | cons line rest =>
      obtain ⟨name, hname⟩ := hhead line rfl
      rw [known_cons_of_heads hname, known_cons_of_heads hname]

/-- None of the changes touches the known keys and values. -/
theorem Inserted.known_eq {lines lines' : List (List Char)} (h : Inserted lines lines') :
    known false lines' = known false lines := by
  cases h with
  | idle hidle => rw [known_append, known_append, hidle.known_cons]
  | comment =>
    refine congrArg knownPairs (entriesOf_congr ?_ false 1)
    simp [content_append_comment]
  | sections hhead hname hbody hplace =>
    rw [List.cons_append, known_append, known_append, known_cons_of_heads hhead,
      beq_eq_false_iff_ne.mpr hname, known_false_append hbody, hplace.known_eq]

/-- Whether a text is accepted, and as what, depends on its known settings alone. -/
theorem toOption_parse (text : String) :
    (parse text).toOption =
      (known false (lines text)).foldlM
        (fun config pair => (config.set ⟨0, pair.1, pair.2⟩).toOption) {} := by
  rw [parse, toOption_foldlM, entries_eq]
  rfl

theorem known_eq_of_inserted {lines lines' : List (List Char)}
    (h : Relation.ReflTransGen Inserted lines lines') :
    known false lines' = known false lines := by
  induction h with
  | refl => rfl
  | tail _ hstep ih => rw [hstep.known_eq, ih]

theorem parse_eq_ok_iff_toOption {text : String} {config : Config} :
    parse text = .ok config ↔ (parse text).toOption = some config := by
  cases parse text with
  | ok config' => simp [Except.toOption]
  | error fault => simp [Except.toOption]

/-- **A configuration follows from its entries.** The lines of the section `codegen` that
set something are one list of entries. A text is read exactly if each of them is valid,
and then each setting is that of the last entry with its key; otherwise the fault names
the first bad one. So blank lines, comments, unknown keys and other sections can be put in
anywhere, a section where one ends, and no nesting limit is zero. -/
theorem parse_by_entries (text : String) :
    ∃ entries, (∀ list, IsEntries (lines text) list ↔ list = entries) ∧
      ((∃ config, parse text = .ok config) ↔ ∀ entry ∈ entries, entry.Valid) ∧
      (∀ config, parse text = .ok config → Settles entries config) ∧
      (∀ before entry after, entries = before ++ entry :: after →
        (∀ e ∈ before, e.Valid) → ¬ entry.Valid →
        ∃ fault, parse text = .error fault ∧ fault.Names entry) ∧
      (∀ text', Relation.ReflTransGen Inserted (lines text) (lines text') →
        ∀ config, parse text' = .ok config ↔ parse text = .ok config) ∧
      ∀ config, parse text = .ok config → config.maxDepth ≠ some 0 := by
  have hok : (∃ config, parse text = .ok config) ↔
      ∀ entry ∈ entries text, entry.Valid := by
    constructor
    · rintro ⟨config, hconfig⟩
      by_contra hbad
      obtain ⟨before, entry, after, hsplit, hbefore, hentry⟩ :=
        exists_first_not_valid hbad
      obtain ⟨fault, hfault, -⟩ := exists_foldlM_eq_error hbefore hentry
      rw [parse, hsplit, hfault] at hconfig
      cases hconfig
    · intro hvalid
      obtain ⟨config, hconfig, -⟩ := exists_foldlM_eq_ok hvalid
      exact ⟨config, hconfig⟩
  have hsettles : ∀ config, parse text = .ok config → Settles (entries text) config := by
    intro config hconfig
    obtain ⟨config', hconfig', hsettles⟩ := exists_foldlM_eq_ok (hok.mp ⟨config, hconfig⟩)
    rw [parse, hconfig'] at hconfig
    obtain rfl := Except.ok.inj hconfig
    exact hsettles
  refine ⟨entries text, fun list => ⟨fun h => h.eq (isEntries_entries text), ?_⟩, hok,
    hsettles, ?_, ?_, ?_⟩
  · rintro rfl
    exact isEntries_entries text
  · intro before entry after hsplit hbefore hbad
    rw [parse, hsplit]
    exact exists_foldlM_eq_error hbefore hbad
  · intro text' hinserted config
    rw [parse_eq_ok_iff_toOption, parse_eq_ok_iff_toOption, toOption_parse,
      toOption_parse, known_eq_of_inserted hinserted]
  · intro config hconfig hzero
    have hrel := (hsettles config hconfig).maxDepth
    rw [hzero] at hrel
    generalize last? (entries text) "max_depth" = last at hrel
    cases hrel with
    | some h => exact absurd h.1 (by decide)

/-- A comment put between two lines, and a limit of zero behind a carriage return. -/
theorem parse_by_entries_comment :
    parse "[codegen]\n# seven\nmax_depth = +7" = .ok ⟨none, some 7⟩ ∧
      ∃ fault, parse "[ codegen ]\r\n\"max_depth\" = 0\n" = .error fault ∧
        fault.Names ⟨2, "max_depth", "0"⟩ := by
  constructor
  · obtain ⟨entries, -, -, -, -, hinserted, -⟩ :=
      parse_by_entries "[codegen]\nmax_depth = +7"
    have hlines : lines "[codegen]\nmax_depth = +7" =
        ["[codegen]".toList] ++ ["max_depth = +7".toList] := by decide
    have hlines' : lines "[codegen]\n# seven\nmax_depth = +7" =
        ["[codegen]".toList] ++ "# seven".toList :: ["max_depth = +7".toList] := by decide
    have hcomment : Idle "# seven".toList := .inl (says_iff.mpr (by decide))
    refine (hinserted _ ?_ _).mpr (by decide)
    rw [hlines, hlines']
    exact .single (.idle hcomment)
  · obtain ⟨entries, hentries, -, -, hfault, -⟩ :=
      parse_by_entries "[ codegen ]\r\n\"max_depth\" = 0\n"
    have hlist : Config.entries "[ codegen ]\r\n\"max_depth\" = 0\n" =
        [⟨2, "max_depth", "0"⟩] := by
      decide
    have hsplit : [⟨2, "max_depth", "0"⟩] = entries := by
      rw [← hlist]
      exact (hentries _).mp (isEntries_entries _)
    refine hfault [] _ [] hsplit.symm (fun _ => nofun) fun hvalid => ?_
    obtain ⟨n, hn⟩ := hvalid.2 rfl
    have hnone : limit? "0" = none := by decide
    rw [← limit?_eq_some_iff, hnone] at hn
    cases hn

end Config

end RealMode
