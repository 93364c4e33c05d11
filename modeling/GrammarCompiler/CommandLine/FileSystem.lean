import GrammarCompiler.Text.Join
import GrammarCompiler.Text.Search

/-!
# Files

Paths as the command line writes them, and a model of the files that it reads
and writes: a map from places to contents, in which a path may fail to reach a
place.
-/

namespace GrammarCompiler

/-- Why a file cannot be read or written. -/
inductive FileError where
  | notFound
  | notDirectory
  | isDirectory
  | nameTooLong
  | nulByte
  /-- Anything else, in the words of the operating system. -/
  | other (text : String)
  deriving DecidableEq

namespace FileError

/-- The message of the operating system. -/
def message : FileError → String
  | .notFound => "No such file or directory (os error 2)"
  | .notDirectory => "Not a directory (os error 20)"
  | .isDirectory => "Is a directory (os error 21)"
  | .nameTooLong => "File name too long (os error 36)"
  | .nulByte => "file name contained an unexpected NUL byte"
  | .other text => text

end FileError

namespace FilePath

/-- A part of a path that leads nowhere else. -/
def isTrivial (part : String) : Bool :=
  part = "" || part = "."

/-- Drop trivial parts at the end, but not the first part. -/
def dropTrivial : List String → List String
  | [] => []
  | first :: rest => first :: (rest.reverse.dropWhile isTrivial).reverse

/-- The path of the directory that holds a path. -/
def parent (path : String) : String :=
  match dropTrivial ((dropTrivial (Text.split '/' path)).dropLast) with
  | [""] => "/"
  | parts => Text.joinWith "/" parts

/-- A name inside a directory. -/
def join (directory name : String) : String :=
  if directory = "" then name
  else if directory.toList.getLast? = some '/' then directory ++ name
  else directory ++ "/" ++ name

end FilePath

/-- A map from places to contents.  The place of a path, and whether it can be
read or written, depend on the path alone. -/
structure FileSystem where
  /-- The place that a path leads to. -/
  place : String → String
  readError? : String → Option FileError
  writeError? : String → Option FileError
  /-- The contents by place; each place stands once. -/
  contents : List (String × String)

namespace FileSystem

/-- Read the file at a path. -/
def read (files : FileSystem) (path : String) : Except FileError String :=
  match files.readError? path with
  | some error => .error error
  | none =>
      match files.contents.lookup (files.place path) with
      | some text => .ok text
      | none => .error .notFound

/-- Set the contents of a place. -/
def set (place text : String) : List (String × String) → List (String × String)
  | [] => [(place, text)]
  | (other, former) :: contents =>
      if other = place then (place, text) :: contents
      else (other, former) :: set place text contents

/-- Write the file at a path.  A failed write changes nothing. -/
def write (files : FileSystem) (path text : String) : Except FileError FileSystem :=
  match files.writeError? path with
  | some error => .error error
  | none => .ok { files with contents := set (files.place path) text files.contents }

/-! ## Directories -/

/-- The directories and files that are there at the beginning, by the names
that lead to them. -/
structure Listing where
  directories : List (List String)
  files : List (List String)

namespace Listing

/-- Whether names lead to a directory; the empty list is the working
directory. -/
def hasDirectory (listing : Listing) (names : List String) : Bool :=
  names.isEmpty || listing.directories.contains names

/-- The longest name of a file in bytes. -/
def nameLimit : Nat := 255

/-- Follow the parts of a path from a directory.  Parts before the last must
lead to directories. -/
def follow (listing : Listing) (names : List String) : List String →
    Except FileError (List String)
  | [] => .ok names
  | part :: parts =>
      if FilePath.isTrivial part then listing.follow names parts
      else if part = ".." then
        if names.isEmpty then .error .notFound else listing.follow names.dropLast parts
      else if nameLimit < part.utf8ByteSize then .error .nameTooLong
      else
        let reached := names ++ [part]
        if parts.isEmpty || listing.hasDirectory reached then listing.follow reached parts
        else if listing.files.contains reached then .error .notDirectory
        else .error .notFound

/-- The place that a path reaches, relative to the working directory. -/
def reach (listing : Listing) (path : String) : Except FileError String :=
  if path.toList.contains (Char.ofNat 0) then .error .nulByte
  else if path = "" || path.toList.head? = some '/' then .error .notFound
  else
    match listing.follow [] (Text.split '/' path) with
    | .error error => .error error
    | .ok names =>
        if listing.hasDirectory names then .error .isDirectory
        else .ok (Text.joinWith "/" names)

/-- Why a path reaches no place. -/
def error? (listing : Listing) (path : String) : Option FileError :=
  match listing.reach path with
  | .error error => some error
  | .ok _ => none

end Listing

/-- The names that lead to a path of the working directory. -/
def namesOf (path : String) : List String :=
  (Text.split '/' path).filter fun part => !FilePath.isTrivial part

/-- All directories that lead to names, those of the names themselves
included. -/
def leadingDirectories : List String → List (List String)
  | [] => []
  | name :: names => [name] :: (leadingDirectories names).map (name :: ·)

/-- The directories that are there once some were made. -/
def madeDirectories (directories : List String) : List (List String) :=
  directories.flatMap fun path => leadingDirectories (namesOf path)

/-- Whether every file has its directory. -/
def haveDirectories (files : List (String × String)) (directories : List String) : Bool :=
  files.all fun (path, _) =>
    (namesOf path).dropLast.isEmpty ||
      (madeDirectories directories).contains (namesOf path).dropLast

/-- A file system with the given files and directories.  A file whose directory is not
there cannot be reached. -/
def ofListing (files : List (String × String)) (directories : List String) : FileSystem :=
  let listing : Listing :=
    { directories := madeDirectories directories
      files := files.map fun (path, _) => namesOf path }
  { place := fun path => (listing.reach path).toOption.getD path
    readError? := listing.error?
    writeError? := listing.error?
    contents := files.map fun (path, text) => (Text.joinWith "/" (namesOf path), text) }

end FileSystem
end GrammarCompiler
