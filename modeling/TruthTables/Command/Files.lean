import TruthTables.Text.Quoted

/-!
# Files — the paths of a command line, and what is found there

    A path is brought into a plain form first: empty parts and single dots
    go, double dots stay, and a path of nothing is the dot.  Opening it
    yields the bytes of a file, or says why there are none.
-/

namespace TruthTables.Command

/-- The plain form of a path: two slashes in front stay two, any other
    number of them becomes one. -/
def plainPath (path : String) : String :=
  let cs := path.toList
  let slashes := (cs.takeWhile (· = '/')).length
  let root := if slashes = 0 then "" else if slashes = 2 then "//" else "/"
  let parts := (path.splitOn "/").filter fun part => part ≠ "" && part ≠ "."
  let plain := root ++ "/".intercalate parts
  if plain = "" then "." else plain

/-- Why a path yields no bytes. -/
inductive OpenError where
  | absent
  | isDirectory
  | notDirectory
  | nameTooLong
  | denied
  /-- The path holds the character that ends paths. -/
  | nul
deriving DecidableEq, Repr

/-- What is wrong with opening the given path, in words. -/
def OpenError.message (path : String) : OpenError → String
  | .absent => "Formula file not found: " ++ path
  | .isDirectory => "[Errno 21] Is a directory: " ++ Text.quote path
  | .notDirectory => "[Errno 20] Not a directory: " ++ Text.quote path
  | .nameTooLong => "[Errno 36] File name too long: " ++ Text.quote path
  | .denied => "[Errno 13] Permission denied: " ++ Text.quote path
  | .nul => "embedded null byte"

/-- A directory with files in it, by their paths below it. -/
abbrev Folder := List (String × List UInt8)

namespace Folder

/-- The greatest number of bytes in the name of a file, and in a path. -/
def nameLimit : Nat := 255

/-- The greatest number of bytes in a path. -/
def pathLimit : Nat := 4095

/-- Walks the parts of a path from a directory above the top, where there
    are directories further up and nothing else. -/
def walkAbove : List String → Except OpenError (List UInt8)
  | [] => .error .isDirectory
  | part :: parts =>
      if part = ".." then walkAbove parts
      else if nameLimit < part.utf8ByteSize then .error .nameTooLong
      else .error .absent

/-- Walks the parts of a path from the directory `here` below the top. -/
def walk (folder : Folder) (here : List String) : List String → Except OpenError (List UInt8)
  | [] => .error .isDirectory
  | part :: parts =>
      if part = ".." then
        if here = [] then walkAbove parts else walk folder here.dropLast parts
      else if nameLimit < part.utf8ByteSize then .error .nameTooLong
      else
        let there := here ++ [part]
        match folder.lookup ("/".intercalate there) with
        | some bytes => if parts = [] then .ok bytes else .error .notDirectory
        | none =>
            if folder.any fun (name, _) => there.isPrefixOf (name.splitOn "/") then
              walk folder there parts
            else .error .absent

/-- Opens a path in plain form. -/
def openFile (folder : Folder) (path : String) : Except OpenError (List UInt8) :=
  if '\x00' ∈ path.toList then .error .nul
  else if pathLimit < path.utf8ByteSize then .error .nameTooLong
  else
    let parts := (path.splitOn "/").filter fun part => part ≠ "" && part ≠ "."
    if path.startsWith "/" then walkAbove parts else walk folder [] parts

end Folder

end TruthTables.Command
