import Mathlib.Data.List.Dedup
import Mathlib.Data.List.DropRight
import RealMode.Proofs.SymbolWarnings

/-!
# Symbol tables and their histories

What a symbol table answers is determined by the requests that were made to it since it
was empty. Here this is said without a table: the entry of a variable and the warnings
that nobody has taken are read off the list of requests.

- `Request` lists the operations of a table, and `after history` is the table that they
  lead to.
- `recorded history name` is the entry of a variable: the kind of its first declaration,
  with the last integer and the last text that were recorded after it.
- `warningsOf` is what the requests since the last `takeWarnings` are warned of.
- `get?_after` and `pending_after` say that the table agrees. Both go through a history
  from its last request: what one request does to an entry (`get?_perform`) is what it
  adds to the history (`recorded_concat`).
-/

namespace RealMode.SymbolTable

/-! ## Requests -/

/-- An operation on a symbol table. -/
inductive Request
  | declare (name : String) (kind : ValueKind)
  | updateInt (name : String) (value : Int)
  | updateStr (name : String) (text : String)
  | lookup (name : String)
  | get (name : String)
  | isDeclared (name : String)
  | entries
  | takeWarnings
deriving DecidableEq

namespace Request

/-- The table after a request. Queries leave it alone; a variable that is looked up and is
not there adds a warning. -/
def perform (table : SymbolTable) : Request → SymbolTable
  | .declare name kind => table.declare name kind
  | .updateInt name value => table.updateInt name value
  | .updateStr name text => table.updateStr name text
  | .lookup name => (table.lookup name).2
  | .get _ | .isDeclared _ | .entries => table
  | .takeWarnings => table.takeWarnings.2

/-- The variable that a request declares. -/
def declared? : Request → Option String
  | .declare name _ => some name
  | _ => none

/-- The kind with which a request declares the variable. -/
def kind? (name : String) : Request → Option ValueKind
  | .declare x kind => if x = name then some kind else none
  | _ => none

/-- The integer that a request records for the variable. -/
def int? (name : String) : Request → Option Int
  | .updateInt x value => if x = name then some value else none
  | _ => none

/-- The text that a request records for the variable. -/
def text? (name : String) : Request → Option String
  | .updateStr x text => if x = name then some text else none
  | _ => none

end Request

/-- The table after a history of requests, from the empty one. -/
def after (history : List Request) : SymbolTable :=
  history.foldl Request.perform .empty

theorem after_concat (history : List Request) (request : Request) :
    after (history ++ [request]) = request.perform (after history) := by
  rw [after, List.foldl_append]
  rfl

/-! ## What a history says of a variable -/

/-- The kind with which a variable was first declared. -/
def declaredKind? (history : List Request) (name : String) : Option ValueKind :=
  history.findSome? (Request.kind? name)

/-- The requests from the first declaration of a variable on. -/
def sinceDeclared (history : List Request) (name : String) : List Request :=
  history.dropWhile fun request => (request.kind? name).isNone

/-- The last of what the requests say. -/
def last? {α : Type} (part : Request → Option α) (requests : List Request) : Option α :=
  requests.reverse.findSome? part

/-- What is recorded of a variable that was declared: the kind of its first declaration,
the last integer and the last text of the requests since. -/
def recorded (history : List Request) (name : String) : Option Symbol :=
  (declaredKind? history name).map fun kind =>
    ⟨kind, (last? (Request.int? name) (sinceDeclared history name)).getD 0,
      last? (Request.text? name) (sinceDeclared history name)⟩

theorem isSome_declaredKind?_iff {history : List Request} {name : String} :
    (declaredKind? history name).isSome ↔
      ∃ kind, Request.declare name kind ∈ history := by
  rw [declaredKind?, List.findSome?_isSome_iff]
  constructor
  · rintro ⟨request, hmem, hsome⟩
    cases request with
    | declare x kind =>
      by_cases hx : x = name
      · subst hx
        exact ⟨kind, hmem⟩
      · simp [Request.kind?, hx] at hsome
    | _ => cases hsome
  · rintro ⟨kind, hmem⟩
    exact ⟨_, hmem, by simp [Request.kind?]⟩

theorem sinceDeclared_eq_nil_iff {history : List Request} {name : String} :
    sinceDeclared history name = [] ↔ declaredKind? history name = none := by
  simp [sinceDeclared, declaredKind?, List.findSome?_eq_none_iff]

theorem last?_concat {α : Type} (part : Request → Option α) (requests : List Request)
    (request : Request) :
    last? part (requests ++ [request]) = (part request).or (last? part requests) := by
  rw [last?, List.reverse_append, List.findSome?_append]
  cases h : part request <;> simp [h, last?]

namespace Request

/-- What a request makes of the entry of a variable: it declares one that is not there, or
records a value of one that is. -/
def change (request : Request) (name : String) : Option Symbol → Option Symbol
  | none => (request.kind? name).map fun kind => ⟨kind, 0, none⟩
  | some symbol =>
    some ⟨symbol.kind, (request.int? name).getD symbol.int,
      (request.text? name).or symbol.str⟩

/-- A declaration records no value. -/
theorem values_of_kind? {request : Request} {name : String} {kind : ValueKind}
    (h : request.kind? name = some kind) :
    request.int? name = none ∧ request.text? name = none := by
  cases request with
  | declare => exact ⟨rfl, rfl⟩
  | _ => cases h

/-- A request that says nothing of a variable leaves its entry alone. -/
theorem eq_change_of_none {request : Request} {name : String} {entry : Option Symbol}
    (hkind : request.kind? name = none) (hint : request.int? name = none)
    (htext : request.text? name = none) : entry = request.change name entry := by
  cases entry with
  | none => rw [change, hkind, Option.map_none]
  | some symbol => rw [change, hint, htext, Option.getD_none, Option.none_or]

end Request

/-- One more request changes what a history says of a variable as it changes an entry. -/
theorem recorded_concat (history : List Request) (request : Request) (name : String) :
    recorded (history ++ [request]) name =
      request.change name (recorded history name) := by
  have hkind : declaredKind? (history ++ [request]) name =
      (declaredKind? history name).or (request.kind? name) := by
    rw [declaredKind?, List.findSome?_append, List.findSome?_singleton]
    rfl
  have hsince : sinceDeclared (history ++ [request]) name =
      if (sinceDeclared history name).isEmpty then sinceDeclared [request] name
      else sinceDeclared history name ++ [request] :=
    List.dropWhile_append
  cases hfirst : declaredKind? history name with
  | none =>
    -- The request is the first that may declare the variable.
    rw [sinceDeclared_eq_nil_iff.mpr hfirst, List.isEmpty_nil, if_pos rfl] at hsince
    rw [recorded, hkind, hsince, recorded, hfirst, Option.none_or, Option.map_none,
      Request.change]
    cases hnew : request.kind? name with
    | none => rfl
    | some kind =>
      obtain ⟨hint, htext⟩ := Request.values_of_kind? hnew
      simp [sinceDeclared, last?, hnew, hint, htext]
  | some kind =>
    have hne : ¬ (sinceDeclared history name).isEmpty := by
      rw [List.isEmpty_iff, sinceDeclared_eq_nil_iff, hfirst]
      exact Option.some_ne_none kind
    rw [if_neg hne] at hsince
    rw [recorded, hkind, hsince, recorded, hfirst, last?_concat, last?_concat,
      Option.some_or, Option.map_some, Option.map_some, Request.change, Option.getD_or]

/-! ## The entries of the table -/

/-- A request changes the entry of every variable as it says, and no other. -/
theorem get?_perform (table : SymbolTable) (request : Request) (name : String) :
    (request.perform table).get? name = request.change name (table.get? name) := by
  cases request with
  | declare x kind =>
    rw [Request.perform, get?_declare]
    by_cases hx : x = name
    · subst hx
      cases table.get? x <;> simp [Request.change, Request.kind?, Request.int?,
        Request.text?]
    · rw [if_neg fun h => hx h.1.symm]
      exact Request.eq_change_of_none (if_neg hx) rfl rfl
  | updateInt x value =>
    rw [Request.perform, updateInt, get?_modify]
    by_cases hx : x = name
    · subst hx
      cases table.get? x <;> simp [Request.change, Request.kind?, Request.int?,
        Request.text?]
    · rw [if_neg (Ne.symm hx)]
      exact Request.eq_change_of_none rfl (if_neg hx) rfl
  | updateStr x text =>
    rw [Request.perform, updateStr, get?_modify]
    by_cases hx : x = name
    · subst hx
      cases table.get? x <;> simp [Request.change, Request.kind?, Request.int?,
        Request.text?]
    · rw [if_neg (Ne.symm hx)]
      exact Request.eq_change_of_none rfl rfl (if_neg hx)
  | lookup x =>
    have hlookup : (table.lookup x).2.get? name = table.get? name := by
      unfold lookup
      split <;> rfl
    rw [Request.perform, hlookup]
    exact Request.eq_change_of_none rfl rfl rfl
  | get | isDeclared | entries | takeWarnings =>
    exact Request.eq_change_of_none rfl rfl rfl

/-- The table holds what its history says of each variable. -/
theorem get?_after (history : List Request) (name : String) :
    (after history).get? name = recorded history name := by
  induction history using List.reverseRecOn with
  | nil => simp [after, empty, get?, recorded, declaredKind?]
  | append_singleton history request ih =>
    rw [after_concat, get?_perform, ih, recorded_concat]

example :
    (after [.updateInt "x" 1, .declare "x" .integer, .updateInt "x" 2, .updateInt "y" 3,
    .declare "x" .string]).get? "x" = some ⟨.integer, 2, none⟩ := by
  rfl

theorem kind?_after (history : List Request) (name : String) :
    (after history).kind? name = declaredKind? history name := by
  rw [kind?, get?_after, recorded, Option.map_map]
  exact Option.map_id_apply

theorem isDeclared_after_iff {history : List Request} {name : String} :
    (after history).isDeclared name ↔ ∃ kind, Request.declare name kind ∈ history := by
  rw [isDeclared_eq_isSome_kind?, kind?_after, isSome_declaredKind?_iff]

/-- The table has as many variables as there are names that were declared. -/
theorem size_after (history : List Request) :
    (after history).size = (history.filterMap Request.declared?).dedup.length := by
  have hnodup : (after history).entries.keys.Nodup :=
    Std.TreeMap.distinct_keys.imp fun hne heq => hne (Std.compare_eq_iff_eq.mpr heq)
  have hdeclared : ∀ name, name ∈ history.filterMap Request.declared? ↔
      ∃ kind, Request.declare name kind ∈ history := by
    intro name
    rw [List.mem_filterMap]
    constructor
    · rintro ⟨request, hmem, hname⟩
      cases request with
      | declare x kind =>
        obtain rfl := Option.some.inj hname
        exact ⟨kind, hmem⟩
      | _ => cases hname
    · rintro ⟨kind, hmem⟩
      exact ⟨_, hmem, rfl⟩
  have hperm : (after history).entries.keys.Perm
      (history.filterMap Request.declared?).dedup := by
    refine (List.perm_ext_iff_of_nodup hnodup (List.nodup_dedup _)).mpr fun name => ?_
    rw [Std.TreeMap.mem_keys, List.mem_dedup, hdeclared, ← isDeclared_after_iff]
    exact Std.TreeMap.contains_iff_mem.symm
  rw [size, ← Std.TreeMap.length_keys, hperm.length_eq]

/-! ## Warnings -/

/-- The warning of a request that comes after the given ones: a variable is declared
again, or is changed or looked up and was not declared. -/
def Request.warning? (earlier : List Request) : Request → Option Warning
  | .declare name _ => redeclaration? .warn name (declaredKind? earlier name)
  | .updateInt name _ | .updateStr name _ | .lookup name =>
    absence? name (declaredKind? earlier name)
  | .get _ | .isDeclared _ | .entries | .takeWarnings => none

/-- The warnings of requests that come after the given ones, in order. -/
def warningsOf (earlier : List Request) : List Request → List Warning
  | [] => []
  | request :: rest =>
    (request.warning? earlier).toList ++ warningsOf (earlier ++ [request]) rest

/-- The requests up to the last that took the warnings. -/
def untilTaken (history : List Request) : List Request :=
  history.rdropWhile (· ≠ .takeWarnings)

/-- The requests after the last that took the warnings. -/
def sinceTaken (history : List Request) : List Request :=
  history.rtakeWhile (· ≠ .takeWarnings)

theorem warningsOf_concat (earlier requests : List Request) (request : Request) :
    warningsOf earlier (requests ++ [request]) =
      warningsOf earlier requests ++ (request.warning? (earlier ++ requests)).toList := by
  induction requests generalizing earlier with
  | nil => simp [warningsOf]
  | cons first rest ih =>
    rw [List.cons_append, warningsOf, warningsOf, ih, List.append_assoc,
      List.append_assoc, List.singleton_append]

/-- A request that takes no warnings adds its own. -/
theorem pending_perform {table : SymbolTable} {earlier : List Request}
    (hkind : ∀ name, table.kind? name = declaredKind? earlier name) {request : Request}
    (hrequest : request ≠ .takeWarnings) :
    (request.perform table).pending =
      table.pending ++ (request.warning? earlier).toList := by
  cases request with
  | declare name kind => rw [Request.perform, pending_declare, hkind, Request.warning?]
  | updateInt name value =>
    rw [Request.perform, updateInt, pending_modify, hkind, Request.warning?]
  | updateStr name text =>
    rw [Request.perform, updateStr, pending_modify, hkind, Request.warning?]
  | lookup name => rw [Request.perform, pending_lookup, hkind, Request.warning?]
  | get | isDeclared | entries => exact (List.append_nil _).symm
  | takeWarnings => exact absurd rfl hrequest

/-- What is pending are the warnings of the requests since the last that took them. -/
theorem pending_after (history : List Request) :
    (after history).pending = warningsOf (untilTaken history) (sinceTaken history) := by
  induction history using List.reverseRecOn with
  | nil => rfl
  | append_singleton history request ih =>
    rw [after_concat]
    by_cases htake : request = .takeWarnings
    · subst htake
      rw [sinceTaken, List.rtakeWhile_concat_neg _ _ _ (by simp)]
      rfl
    · have huntil : untilTaken (history ++ [request]) = untilTaken history :=
        List.rdropWhile_concat_pos _ _ _ (by simpa using htake)
      have hsince : sinceTaken (history ++ [request]) = sinceTaken history ++ [request] :=
        List.rtakeWhile_concat_pos _ _ _ (by simpa using htake)
      have hsplit : untilTaken history ++ sinceTaken history = history :=
        List.rdropWhile_append_rtakeWhile
      rw [pending_perform (kind?_after history) htake, ih, huntil, hsince,
        warningsOf_concat, hsplit]

/-! ## Histories -/

/-- **A symbol table is a function of its history.** After any requests, a variable is
there if it was declared, with the kind of its first declaration and the last integer and
text recorded since; the size is the number of names that were declared; the variables are
listed once each, in strictly increasing order; looking up a variable that is not there
gives the undefined symbol and adds no entry; and the warnings that are handed over are
those of the requests since they were last taken, one for each variable that was declared
again, and for each that was changed or looked up and was not there. -/
theorem determined_by_history (history : List Request) :
    (∀ name, (after history).get? name = recorded history name) ∧
    (∀ name, (after history).isDeclared name ↔
      ∃ kind, Request.declare name kind ∈ history) ∧
    (after history).size = (history.filterMap Request.declared?).dedup.length ∧
    (after history).toList.Pairwise (fun entry entry' => entry.1 < entry'.1) ∧
    (∀ name symbol,
      (name, symbol) ∈ (after history).toList ↔ recorded history name = some symbol) ∧
    (∀ name, ((after history).lookup name).1 = (recorded history name).getD .undefined ∧
      ((after history).lookup name).2.entries = (after history).entries) ∧
    (after history).takeWarnings.1 =
      warningsOf (untilTaken history) (sinceTaken history) := by
  refine ⟨get?_after history, fun name => isDeclared_after_iff, size_after history,
    ?_, ?_, ?_, pending_after history⟩
  · have hordered := Std.TreeMap.ordered_keys_toList (t := (after history).entries)
    exact hordered.imp fun hlt => compareOfLessAndEq_eq_lt.mp hlt
  · intro name symbol
    rw [← get?_after]
    exact Std.TreeMap.mem_toList_iff_getElem?_eq_some
  · intro name
    rw [← get?_after, lookup]
    cases (after history).get? name <;> exact ⟨rfl, rfl⟩

end RealMode.SymbolTable
