/-!
# Listings

What stands below a folder: its files by name, and its folders with what stands below them in turn.
-/

namespace UiScript

inductive Listing where
  | mk (files : List String) (folders : List (String × Listing))
  deriving Inhabited

namespace Listing

/-- Puts an entry before the first one with a greater name. -/
def insertByName {α : Type} (name : α → String) (a : α) : List α → List α
  | [] => [a]
  | b :: bs => if name b < name a then b :: insertByName name a bs else a :: b :: bs

/-- The entries by ascending name; of equal names the first stays first. -/
def sortByName {α : Type} (name : α → String) : List α → List α
  | [] => []
  | a :: as => insertByName name a (sortByName name as)

mutual

/-- The paths of all files: those of a folder itself by name, then those of its folders by name. A
path is the list of its parts. -/
def paths : Listing → List (List String)
  | .mk files folders =>
    (sortByName id files).map (fun name => [name]) ++
      (sortByName Prod.fst (pathsOfFolders folders)).flatMap fun (name, below) =>
        below.map (name :: ·)

/-- The paths below each folder, with the folder's name. -/
def pathsOfFolders : List (String × Listing) → List (String × List (List String))
  | [] => []
  | (name, listing) :: more => (name, paths listing) :: pathsOfFolders more

end

end Listing

end UiScript
