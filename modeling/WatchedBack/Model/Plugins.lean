import WatchedBack.Model.Services

/-! The constructor of `alerterManager`: the alerters that it finds in two directories, and their
rows in `c$properties`. -/

namespace WatchedBack

/-! ### Directories -/

/-- What `readdir` and `stat` say of an entry: whether the bit `S_IFDIR` is set, or that `stat`
fails. -/
structure DirEntry where
  name : List Char
  isDirectory : Option Bool
  deriving DecidableEq, Repr

/-- A hidden entry, one that `stat` fails on, or a directory. -/
def DirEntry.passed (e : DirEntry) : Bool := e.name.head? = some '.' ∨ e.isDirectory ≠ some false

/-- `file_name.substr(0,file_name.rfind("."))` -/
def stem (name : List Char) : List Char :=
  if '.' ∈ name then ((name.reverse.dropWhile (· ≠ '.')).drop 1).reverse else name

/-- `file_name.substr(file_name.rfind("."))`; none if this throws, which nobody catches. -/
def extension (name : List Char) : Option (List Char) :=
  if '.' ∈ name then some ('.' :: (name.reverse.takeWhile (· ≠ '.')).reverse) else none

/-- The names of the plugins of a directory up to a file that has no extension, and whether the
loop comes to its end. -/
def plugins (suffix : List Char) : List DirEntry → List String × Bool
  | [] => ([], true)
  | e :: entries =>
      if e.passed then plugins suffix entries
      else
        match extension e.name with
        | none => ([], false)
        | some ext =>
            let (names, ended) := plugins suffix entries
            (if ext = suffix then String.ofList (stem e.name) :: names else names, ended)

/-! ### The constructor -/

/-- `load` is what a C++ plugin adds to `alerterFactory`; `done` says of which alerters the insert
is carried out. A directory that is not there is none. -/
structure AlerterStart where
  cpp : Option (List DirEntry)
  lua : Option (List DirEntry)
  load : String → List String
  done : String → Bool

namespace AlerterStart

variable (s : AlerterStart)

/-- `alerterFactory` is a map, whose names come in order. -/
def factory : List String :=
  (((plugins ".so".toList (s.cpp.getD [])).1.flatMap s.load).dedup).insertionSort (· ≤ ·)

/-- A Lua alerter, unless there is one of this name. -/
def addLua (alerters : List String) (name : String) : List String :=
  if name ∈ alerters then alerters else alerters ++ [name]

/-- The alerters in the order of `addAlerter`, also of a constructor that throws. -/
def added : List String :=
  if (plugins ".so".toList (s.cpp.getD [])).2 then
    (plugins ".lua".toList (s.lua.getD [])).1.foldl addLua s.factory
  else []

/-- Whether the constructor returns. -/
def returns : Bool :=
  (plugins ".so".toList (s.cpp.getD [])).2 && (plugins ".lua".toList (s.lua.getD [])).2

/-- The alerters of the backend, if it starts. -/
def alerters : Option (List String) := if s.returns then some s.added else none

end AlerterStart

/-! ### `c$properties` -/

/-- The insert of `addAlerter`. -/
def addAlerter (col : Collation) (properties : List NameRow) (name : String) : List NameRow :=
  ServiceTables.upsert (fun row => col.same row.name name) (fun row => { row with name := name })
    ⟨nextId (properties.map NameRow.id), name⟩ properties

/-- The inserts of a start that are carried out. -/
def AlerterStart.inserted (s : AlerterStart) : List String := s.added.filter s.done

end WatchedBack
