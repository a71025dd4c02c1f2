import UiScript.Files.Basic
import UiScript.Files.Listing
import UiScript.Path

/-!
# Disks

A disk is a tree of files, links and folders, with a working folder from which relative paths start.
-/

namespace UiScript

inductive Item where
  /-- Contents, and when they were written, in seconds. -/
  | file (bytes : List UInt8) (modified : Int)
  | link (target : String)
  | folder (entries : List (String × Item))
  deriving Inhabited

namespace Item

def isFolder : Item → Bool
  | .folder _ => true
  | _ => false

def child? : Item → String → Option Item
  | .folder entries, name => entries.lookup name
  | _, _ => none

/-- What stands at the end of a chain of names; links are not followed. -/
def get? (item : Item) : List String → Option Item
  | [] => some item
  | name :: more =>
    match item.child? name with
    | some next => get? next more
    | none => none

/-- Replaces the entry of a name, or adds it at the end. -/
def setEntry (name : String) (item : Item) : List (String × Item) → List (String × Item)
  | [] => [(name, item)]
  | (key, old) :: more =>
    if key == name then (name, item) :: more else (key, old) :: setEntry name item more

/-- The tree with another item at the end of a chain of names. Only the last name may be new. -/
def set (item new : Item) : List String → Item
  | [] => new
  | name :: more =>
    match item with
    | .folder entries =>
      match entries.lookup name with
      | some old => .folder (setEntry name (old.set new more) entries)
      | none => if more.isEmpty then .folder (setEntry name new entries) else item
    | _ => item

/-- The tree without the item at the end of a chain of names. -/
def erase (item : Item) : List String → Item
  | [] => item
  | [name] =>
    match item with
    | .folder entries => .folder (entries.filter (·.1 != name))
    | _ => item
  | name :: more =>
    match item with
    | .folder entries =>
      match entries.lookup name with
      | some old => .folder (setEntry name (old.erase more) entries)
      | none => item
    | _ => item

/-- Where a path leads: to an item, or to a name that is still free in a folder. A slash behind a
free name asks for a folder. -/
inductive Spot where
  | found (place : List String) (item : Item)
  | free (folder : List String) (name : String) (asFolder : Bool)
  deriving Inhabited

/-- Follows the parts of a path from a place. Behind a link it goes on as `jump` says. -/
def walk (root : Item) (jump : List String → List String → Except FileTrouble Spot)
    (place : List String) : List String → Except FileTrouble Spot
  | [] =>
    match root.get? place with
    | some item => .ok (.found place item)
    | none => .error .missing
  | part :: more =>
    match root.get? place with
    | some (.folder entries) =>
      if part.isEmpty || part == "." then walk root jump place more
      else if part == ".." then walk root jump place.dropLast more
      else
        match entries.lookup part with
        | some (.link target) =>
          jump (if target.startsWith "/" then [] else place) (Path.segments target ++ more)
        | some _ => walk root jump (place ++ [part]) more
        | none =>
          if more.all (·.isEmpty) then .ok (.free place part (!more.isEmpty)) else .error .missing
    | some _ => .error .notFolder
    | none => .error .missing

/-- Follows the parts of a path from a place, through at most some links. -/
def follow (root : Item) : Nat → List String → List String → Except FileTrouble Spot
  | 0 => walk root fun _ _ => .error .tooManyLinks
  | links + 1 => walk root (follow root links)

mutual

/-- What stands below an item. A linked folder is not entered; other links count as files. -/
def listing (leadsToFolder : List String → Bool) (place : List String) : Item → Listing
  | .folder entries =>
    .mk (fileNames leadsToFolder place entries) (folderListings leadsToFolder place entries)
  | _ => .mk [] []

def fileNames (leadsToFolder : List String → Bool) (place : List String) :
    List (String × Item) → List String
  | [] => []
  | (name, item) :: more =>
    let isFile :=
      match item with
      | .file _ _ => true
      | .link _ => !leadsToFolder (place ++ [name])
      | .folder _ => false
    if isFile then name :: fileNames leadsToFolder place more
    else fileNames leadsToFolder place more

def folderListings (leadsToFolder : List String → Bool) (place : List String) :
    List (String × Item) → List (String × Listing)
  | [] => []
  | (name, item) :: more =>
    let rest := folderListings leadsToFolder place more
    if item.isFolder then (name, listing leadsToFolder (place ++ [name]) item) :: rest else rest

end

mutual

/-- All files of a tree with their contents; links are left out. -/
def contents (place : List String) : Item → List (List String × List UInt8)
  | .file bytes _ => [(place, bytes)]
  | .link _ => []
  | .folder entries => contentsOfEntries place entries

def contentsOfEntries (place : List String) : List (String × Item) → List (List String × List UInt8)
  | [] => []
  | (name, item) :: more =>
    contents (place ++ [name]) item ++ contentsOfEntries place more

end

end Item

structure Disk where
  root : Item := .folder []
  workingDir : String := "/"
  locked : List (List String) := []
  deriving Inhabited

namespace Disk

variable (d : Disk) (path : String)

/-- The most links on the way of one path. -/
def maxLinks : Nat := 40

def locate : Except FileTrouble Item.Spot :=
  if path.isEmpty then .error .missing
  else d.root.follow maxLinks [] (Path.segments (Path.join d.workingDir path))

/-! ### Looking -/

def item : Except FileError Item :=
  match d.locate path with
  | .ok (.found _ item) => .ok item
  | .ok (.free _ _ _) => .error { trouble := .missing, path }
  | .error trouble => .error { trouble, path }

def isFile : Bool :=
  match d.item path with
  | .ok (.file _ _) => true
  | _ => false

def isFolder : Bool :=
  match d.item path with
  | .ok (.folder _) => true
  | _ => false

def holds : Bool := (d.item path).toBool

/-- The path leads to a file that may not be read. -/
def isLocked : Bool :=
  match d.locate path with
  | .ok (.found place _) => d.locked.contains place
  | _ => false

def read : Except FileError (List UInt8) := do
  match ← d.item path with
  | .file bytes _ =>
    if d.isLocked path then throw { trouble := .denied, path }
    return bytes
  | _ => throw { trouble := .isFolder, path }

/-- When a file was written. -/
def modified? : Option Int :=
  match d.item path with
  | .ok (.file _ modified) => some modified
  | _ => none

/-- What stands below a folder; nothing stands below anything else. -/
def listing : Listing :=
  let leadsToFolder (place : List String) : Bool :=
    match d.root.follow maxLinks [] place with
    | .ok (.found _ (.folder _)) => true
    | _ => false
  match d.locate path with
  | .ok (.found place item) => item.listing leadsToFolder place
  | _ => .mk [] []

/-! ### Changing -/

/-- A change of the disk. What was done before some trouble stays done. -/
abbrev Action := ExceptT FileError (StateM Disk) Unit

/-- The parts of a path to a folder and to what stands in it; slashes at the end do not count. -/
def splitParts (path : String) : List String × String :=
  let parts := Path.segments path
  let parts := (parts.reverse.dropWhile (·.isEmpty)).reverse
  (parts.dropLast, parts.getLastD "")

def put (place : List String) (item : Item) : Action :=
  modify fun d => { d with root := d.root.set item place }

def makeFolder (path : String) : Action := do
  let d ← get
  let fail (trouble : FileTrouble) : Action := throw { trouble, path }
  if path.isEmpty then fail .missing
  else
    let (parents, name) := splitParts (Path.join d.workingDir path)
    match d.root.follow maxLinks [] parents with
    | .error trouble => fail trouble
    | .ok (.free _ _ _) => fail .missing
    | .ok (.found place (.folder entries)) =>
      if name.isEmpty || name == "." || name == ".." || (entries.lookup name).isSome then
        fail .taken
      else put (place ++ [name]) (.folder [])
    | .ok (.found _ _) => fail .notFolder

/-- Makes a folder unless it is there. -/
def ensureFolder (path : String) : Action :=
  tryCatch (makeFolder path) fun e => do
    if (← get).isFolder path then return () else throw e

/-- Makes a folder with all folders above it. The number bounds how many there are. -/
def makeFoldersFrom : Nat → String → Action
  | 0, path => ensureFolder path
  | n + 1, path => do
    let (parent, name) :=
      if (Path.name path).isEmpty then
        let shorter := Path.folder path
        (Path.folder shorter, Path.name shorter)
      else (Path.folder path, Path.name path)
    if parent.isEmpty || name.isEmpty || (← get).holds parent then ensureFolder path
    else
      -- what is in the way is noticed again at the folder itself
      tryCatch (makeFoldersFrom n parent) fun e =>
        if e.trouble == .taken then return () else throw e
      if name != "." then ensureFolder path

/-- Makes a folder with all folders above it, as far as they are missing. -/
def makeFolders (path : String) : Action := makeFoldersFrom path.length path

def write (path : String) (bytes : List UInt8) (time : Int) : Action := do
  let fail (trouble : FileTrouble) : Action := throw { trouble, path }
  match (← get).locate path with
  | .error trouble => fail trouble
  | .ok (.found _ (.folder _)) => fail .isFolder
  | .ok (.found place _) => put place (.file bytes time)
  | .ok (.free folder name asFolder) =>
    if asFolder then fail .isFolder else put (folder ++ [name]) (.file bytes time)

/-- Puts an item at a path, which is taken as it stands, and makes the folders above it. -/
def place (item : Item) : Disk :=
  let parts := (Path.segments (Path.join d.workingDir path)).filter (!·.isEmpty)
  let above := (List.range parts.length).foldl (fun (root : Item) n =>
    if (root.get? (parts.take n)).isSome then root else root.set (.folder []) (parts.take n)) d.root
  { d with root := above.set item parts }

def remove : Disk :=
  let parts := (Path.segments (Path.join d.workingDir path)).filter (!·.isEmpty)
  { d with root := d.root.erase parts }

def files : List (String × List UInt8) :=
  let parts := (Path.segments d.workingDir).filter (!·.isEmpty)
  match d.root.get? parts with
  | some item => (item.contents []).map fun (place, bytes) => (String.intercalate "/" place, bytes)
  | none => []

end Disk

end UiScript
