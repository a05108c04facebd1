import WeeklyAgenda.Storage.Load

/-! Files in a tree of directories, and the walk from a path to a file. -/

namespace WeeklyAgenda

inductive Tree where
  | file (bytes : List UInt8)
  | directory (entries : List (String × Tree))

namespace Tree

/-- The longest name of an entry and the longest path, in bytes. -/
def longestName : Nat := 255

def longestPath : Nat := 4095

def entry? (entries : List (String × Tree)) (name : String) : Option Tree :=
  (entries.find? fun e => e.1 == name).map Prod.snd

/-- Walks down from `here`; `above` holds the directories passed on the way, the
nearest first, for the steps back. -/
def walk (above : List Tree) (here : Tree) : List String → Except Fault Tree
  | [] => .ok here
  | name :: rest =>
    match here with
    | file _ => .error .notDirectory
    | directory entries =>
      if name = "" ∨ name = "." then walk above here rest
      else if name = ".." then
        match above with
        | [] => walk [] here rest
        | parent :: above => walk above parent rest
      else if longestName < name.utf8ByteSize then .error .nameTooLong
      else
        match entry? entries name with
        | none => .error .notFound
        | some next => walk (here :: above) next rest

def names (path : String) : List String :=
  (Pieces.pieces (· == '/') path.toList).map String.ofList

/-- The file or directory at a path. A path that does not start with a slash is
walked from the working directory, given by its names from the root. -/
def locate (root : Tree) (working : List String) (path : String) : Except Fault Tree :=
  if path.toList.contains '\x00' then .error .nulInName
  else if path = "" then .error .notFound
  else if longestPath < path.utf8ByteSize then .error .nameTooLong
  else if path.toList.head? = some '/' then walk [] root (names path)
  else walk [] root (working ++ names path)

/-- A directory can be opened, but not read. -/
def reader : Tree → Reader
  | file bytes => ⟨[bytes], none⟩
  | directory _ => ⟨[], some .isDirectory⟩

def disk (root : Tree) (working : List String) : Disk := fun path =>
  (locate root working path).map reader

end Tree

end WeeklyAgenda
