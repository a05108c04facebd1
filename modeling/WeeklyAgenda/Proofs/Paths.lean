import WeeklyAgenda.Proofs.Loading
import WeeklyAgenda.Storage.Tree

/-! Where paths lead in a tree of directories. A walk goes back only along the way that it
came, so that it stays in the tree and ends at the entry that is left of its names when
each step back is taken together with the step before it. The other way round each entry
is found by the path that is written with its names. What is loaded through the disk of a
tree is the text of the file at the end of the path. -/

namespace WeeklyAgenda.Tree

open Pieces

/-- The entry that names lead to, each inside the one before. -/
def at? : Tree → List String → Option Tree
  | t, [] => some t
  | file _, _ :: _ => none
  | directory entries, name :: names => entry? entries name |>.bind fun next => at? next names

/-! ### Walks -/

/-- The names from the root, the nearest first, after one more of a path. -/
def step (passed : List String) (name : String) : List String :=
  if name = "" ∨ name = "." then passed
  else if name = ".." then passed.tail
  else name :: passed

/-- The names that a path comes to, from the root. -/
def resolve (names : List String) : List String := (names.foldl step []).reverse

/-- The way from the root: its names and the directories in which they were found. -/
inductive Trail (root : Tree) : List String → List Tree → Tree → Prop
  | start : Trail root [] [] root
  | enter {passed : List String} {above : List Tree} {entries : List (String × Tree)}
      {name : String} {next : Tree} (trail : Trail root passed above (directory entries))
      (found : entry? entries name = some next) :
      Trail root (name :: passed) (directory entries :: above) next

/-- What a name of a path does to a walk that goes on. Behind the root there is only the root
again. -/
inductive Moves : List Tree → Tree → String → List Tree → Tree → Prop
  | stay {above : List Tree} {entries : List (String × Tree)} {name : String}
      (idle : name = "" ∨ name = ".") :
      Moves above (directory entries) name above (directory entries)
  | back {above : List Tree} {entries : List (String × Tree)} :
      Moves above (directory entries) ".." above.tail (above.headD (directory entries))
  | enter {above : List Tree} {entries : List (String × Tree)} {name : String} {next : Tree}
      (moving : ¬ (name = "" ∨ name = ".")) (forward : name ≠ "..")
      (found : entry? entries name = some next) :
      Moves above (directory entries) name (directory entries :: above) next

/-- Why a walk can fail. -/
def walkFaults : List Fault := [.notFound, .notDirectory, .nameTooLong]

/-- The names that a path has, from the root. -/
def namesFrom (working : List String) (path : String) : List String :=
  if path.toList.head? = some '/' then names path else working ++ names path

/-- A name with which an entry can be found. -/
structure Plain (name : String) : Prop where
  ne_empty : name ≠ ""
  ne_dot : name ≠ "."
  ne_dots : name ≠ ".."
  size_le : name.utf8ByteSize ≤ longestName
  slash_not_mem : '/' ∉ name.toList
  nul_not_mem : '\x00' ∉ name.toList

/-- The path of an entry. -/
def pathOf (names : List String) : String := "/" ++ "/".intercalate names

variable {root here here' t : Tree} {above above' : List Tree} {entries : List (String × Tree)}
  {passed names : List String} {name : String}

theorem walk_nil : walk above here [] = .ok here := rfl

theorem walk_file (bytes : List UInt8) :
    walk above (file bytes) (name :: names) = .error .notDirectory := rfl

theorem walk_directory :
    walk above (directory entries) (name :: names) =
      if name = "" ∨ name = "." then walk above (directory entries) names
      else if name = ".." then walk above.tail (above.headD (directory entries)) names
      else if longestName < name.utf8ByteSize then .error .nameTooLong
      else
        match entry? entries name with
        | none => .error .notFound
        | some next => walk (directory entries :: above) next names := by
  cases above <;> rfl

theorem walk_cons (above : List Tree) (here : Tree) (name : String) (names : List String) :
    (∃ above' here', Moves above here name above' here' ∧
      walk above here (name :: names) = walk above' here' names) ∨
    ∃ f ∈ walkFaults, walk above here (name :: names) = .error f := by
  cases here with
  | file bytes => exact .inr ⟨.notDirectory, by decide, walk_file bytes⟩
  | directory entries =>
    rw [walk_directory]
    by_cases hstay : name = "" ∨ name = "."
    · exact .inl ⟨_, _, .stay hstay, if_pos hstay⟩
    rw [if_neg hstay]
    by_cases hback : name = ".."
    · rw [if_pos hback, hback]
      exact .inl ⟨_, _, .back, rfl⟩
    rw [if_neg hback]
    by_cases hlong : longestName < name.utf8ByteSize
    · exact .inr ⟨.nameTooLong, by decide, if_pos hlong⟩
    rw [if_neg hlong]
    cases found : entry? entries name with
    | none => exact .inr ⟨.notFound, by decide, rfl⟩
    | some next => exact .inl ⟨_, _, .enter hstay hback found, rfl⟩

theorem at?_concat (h : root.at? names = some (directory entries)) (name : String) :
    root.at? (names ++ [name]) = entry? entries name := by
  induction names generalizing root with
  | nil =>
    cases h
    exact Option.bind_fun_some _
  | cons first names ih =>
    cases root with
    | file bytes => cases h
    | directory own =>
      obtain ⟨next, hnext, hrest⟩ := Option.bind_eq_some_iff.mp h
      rw [List.cons_append, at?, hnext, Option.bind_some]
      exact ih hrest

namespace Trail

theorem at?_eq (h : Trail root passed above here) : root.at? passed.reverse = some here := by
  induction h with
  | start => rfl
  | @enter passed _ entries name next _ found ih =>
    rw [List.reverse_cons, at?_concat ih, found]

theorem back (h : Trail root passed above here) :
    Trail root passed.tail above.tail (above.headD here) := by
  cases h with
  | start => exact .start
  | enter trail found => exact trail

theorem moves (h : Trail root passed above here) (hmoves : Moves above here name above' here') :
    Trail root (step passed name) above' here' := by
  cases hmoves with
  | stay idle => rwa [step, if_pos idle]
  | back =>
    rw [step, if_neg (by decide), if_pos rfl]
    exact h.back
  | enter moving forward found =>
    rw [step, if_neg moving, if_neg forward]
    exact .enter h found

theorem along (h : Trail root passed above here) (hwalk : walk above here names = .ok t) :
    ∃ above', Trail root (names.foldl step passed) above' t := by
  induction names generalizing passed above here with
  | nil =>
    cases hwalk
    exact ⟨above, h⟩
  | cons name names ih =>
    rcases walk_cons above here name names with ⟨above', here', hmoves, heq⟩ | ⟨f, -, heq⟩
    · rw [heq] at hwalk
      exact ih (h.moves hmoves) hwalk
    · rw [heq] at hwalk
      cases hwalk

end Trail

/-- A walk from the root ends where the names lead that it comes to. -/
theorem at?_of_walk (h : walk [] root names = .ok t) : root.at? (resolve names) = some t := by
  obtain ⟨above, trail⟩ := Trail.start.along h
  exact trail.at?_eq

theorem error_of_walk {f : Fault} (h : walk above here names = .error f) : f ∈ walkFaults := by
  induction names generalizing above here with
  | nil => cases h
  | cons name names ih =>
    rcases walk_cons above here name names with ⟨above', here', -, heq⟩ | ⟨f', hf', heq⟩
    · rw [heq] at h
      exact ih h
    · rw [heq] at h
      cases h
      exact hf'

/-! ### Paths -/

theorem locate_eq (root : Tree) (working : List String) (path : String) :
    locate root working path =
      if path.toList.contains '\x00' then .error .nulInName
      else if path = "" then .error .notFound
      else if longestPath < path.utf8ByteSize then .error .nameTooLong
      else walk [] root (namesFrom working path) := by
  rw [locate, namesFrom]
  split_ifs <;> rfl

/-- A path leads into the tree, to where its names lead. -/
theorem at?_of_locate {working : List String} {path : String}
    (h : locate root working path = .ok t) :
    root.at? (resolve (namesFrom working path)) = some t := by
  rw [locate_eq] at h
  split_ifs at h
  exact at?_of_walk h

theorem error_of_locate {working : List String} {path : String} {f : Fault}
    (h : locate root working path = .error f) : f = .nulInName ∨ f ∈ walkFaults := by
  rw [locate_eq] at h
  split_ifs at h
  · cases h
    exact .inl rfl
  · cases h
    exact .inr (by decide)
  · cases h
    exact .inr (by decide)
  · exact .inr (error_of_walk h)

theorem walk_eq_ok_iff (h : ∀ name ∈ names, Plain name) :
    walk above here names = .ok t ↔ here.at? names = some t := by
  induction names generalizing above here with
  | nil => rw [walk_nil, at?, Except.ok.injEq, Option.some.injEq]
  | cons name names ih =>
    obtain ⟨hname, hnames⟩ := List.forall_mem_cons.mp h
    cases here with
    | file bytes => simp [walk_file, at?]
    | directory entries =>
      rw [walk_directory, if_neg (not_or.mpr ⟨hname.ne_empty, hname.ne_dot⟩), if_neg hname.ne_dots,
        if_neg (Nat.not_lt.mpr hname.size_le), at?]
      cases entry? entries name with
      | none => simp
      | some next => exact ih hnames

theorem toList_pathOf (names : List String) :
    (pathOf names).toList = '/' :: ['/'].intercalate (names.map String.toList) := by
  rw [pathOf, String.toList_append, String.toList_intercalate]
  rfl

theorem names_pathOf (hne : names ≠ []) (h : ∀ name ∈ names, Plain name) :
    Tree.names (pathOf names) = "" :: names := by
  have hslash : ∀ part ∈ names.map String.toList, '/' ∉ part :=
    List.forall_mem_map.mpr fun name hname => (h name hname).slash_not_mem
  have hsplit := List.splitOn_intercalate '/' hslash (by simpa using hne)
  rw [List.splitOn_eq_splitOnP, ← pieces_eq_splitOnP] at hsplit
  rw [Tree.names, toList_pathOf, pieces_cons_sep _ (by decide), hsplit]
  simp

theorem walk_names_pathOf (hne : names ≠ []) (h : ∀ name ∈ names, Plain name) :
    walk [] root (Tree.names (pathOf names)) = .ok t ↔ root.at? names = some t := by
  rw [names_pathOf hne h]
  cases root with
  | file bytes =>
    obtain ⟨name, names, rfl⟩ := List.exists_cons_of_ne_nil hne
    simp [walk_file, at?]
  | directory entries =>
    rw [walk_directory, if_pos (.inl rfl)]
    exact walk_eq_ok_iff h

theorem nul_not_mem_pathOf (h : ∀ name ∈ names, Plain name) : '\x00' ∉ (pathOf names).toList := by
  have hparts : ∀ part ∈ names.map String.toList, Free (· == '\x00') part :=
    List.forall_mem_map.mpr fun name hname => free_beq.mpr (h name hname).nul_not_mem
  rw [toList_pathOf]
  exact free_beq.mp (free_cons.mpr ⟨by decide, .intercalate (by decide) hparts⟩)

/-- Each entry is found by its path, and nothing else is. -/
theorem locate_pathOf (working : List String) (hne : names ≠ []) (h : ∀ name ∈ names, Plain name)
    (hsize : (pathOf names).utf8ByteSize ≤ longestPath) :
    locate root working (pathOf names) = .ok t ↔ root.at? names = some t := by
  have hempty : pathOf names ≠ "" := by
    rw [← String.toList_inj.ne, toList_pathOf]
    exact List.cons_ne_nil _ _
  have hhead : (pathOf names).toList.head? = some '/' := by
    rw [toList_pathOf]
    rfl
  rw [locate_eq, if_neg (by simpa using nul_not_mem_pathOf h), if_neg hempty,
    if_neg (Nat.not_lt.mpr hsize), namesFrom, if_pos hhead]
  exact walk_names_pathOf hne h

/-! ### Files -/

/-- An agenda is loaded from the file at the end of a path. A directory there is opened but not
read, and a path without an end is not opened. -/
theorem load_disk (root : Tree) (working : List String) (path : String) :
    Agenda.load (disk root working) path =
      match locate root working path with
      | .ok (file bytes) => .ok (.ofLines (textLines (Utf8.decode bytes)))
      | .ok (directory _) => .error (.unread .isDirectory)
      | .error f => .error (.unopened path f) := by
  have hdisk : disk root working path = (locate root working path).map reader := rfl
  cases hlocate : locate root working path with
  | error f =>
    rw [hlocate] at hdisk
    exact Agenda.load_of_unopened hdisk
  | ok t =>
    rw [hlocate] at hdisk
    rw [Agenda.load_of_open hdisk]
    cases t with
    | file bytes =>
      rw [reader, Agenda.ofReader_eq, List.flatten_singleton, Reader.linesOf_eq_textLines]
    | directory entries => exact Agenda.ofReader_fault [] .isDirectory

theorem load_pathOf {bytes : List UInt8} (working : List String) (hne : names ≠ [])
    (h : ∀ name ∈ names, Plain name) (hsize : (pathOf names).utf8ByteSize ≤ longestPath)
    (hfile : root.at? names = some (file bytes)) :
    Agenda.load (disk root working) (pathOf names) =
      .ok (.ofLines (textLines (Utf8.decode bytes))) := by
  rw [load_disk, (locate_pathOf working hne h hsize).mpr hfile]

end WeeklyAgenda.Tree
