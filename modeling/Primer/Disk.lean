/-
Primer/Disk.lean

The files that a program can use.  A path leads to a file, and two paths may
lead to the same one: a file is known by its identity.  There are finitely many
files, so a chain of files each of which uses the next without coming back is
finite too.

`Disk.ofFiles` is the disk below one folder.  A path is followed from that
folder, part by part; `.` and an empty part stay, `..` goes up, and no path
leads out of the folder.
-/

namespace Primer

/-- A readable file. -/
structure Document where
  identity : String
  text : String

structure Disk where
  documents : List Document
  /-- the identity of the file that a path leads to -/
  locate : String → Option String

namespace Disk

/-- No files at all. -/
def empty : Disk := ⟨[], fun _ => none⟩

/-- The file that a path leads to. -/
def open? (d : Disk) (path : String) : Option Document :=
  (d.locate path).bind fun id => d.documents.find? fun doc => doc.identity == id

/-! ### Folders -/

/-- The parts of a path. -/
def parts (path : String) : List String := path.splitOn "/"

/-- The parts of the name of a file or folder. -/
def nameParts (name : String) : List String := (parts name).filter fun p => p != "" && p != "."

/-- The folders on the way to a place, the place itself not included. -/
def foldersAbove (place : List String) : List (List String) :=
  (List.range place.length).map place.take

/-- Follow the parts of a path from the place `here`.  Only a folder can be
passed through. -/
def follow (folders : List (List String)) (here : List String) :
    List String → Option (List String)
  | [] => some here
  | part :: rest =>
      if !folders.contains here then none
      else if part = "" ∨ part = "." then follow folders here rest
      else if part = ".." then
        match here with
        | [] => none
        | _ :: _ => follow folders here.dropLast rest
      else follow folders (here ++ [part]) rest

/-- The identity of the file at a place. -/
def identity (place : List String) : String := "/".intercalate place

/-- The disk below a folder with the given files.  A name that ends in a slash is
that of an empty folder; a file that is not UTF-8 cannot be read. -/
def ofFiles (files : List (String × ByteArray)) : Disk :=
  let isFolder (name : String) : Bool := name.endsWith "/"
  let folders := [] :: files.flatMap fun (name, _) =>
    let place := nameParts name
    if isFolder name then foldersAbove place ++ [place] else foldersAbove place
  let documents := files.filterMap fun (name, bytes) =>
    if isFolder name then none
    else (String.fromUTF8? bytes).map fun text => ⟨identity (nameParts name), text⟩
  ⟨documents, fun path =>
    if path.isEmpty || path.startsWith "/" then none
    else (follow folders [] (parts path)).map identity⟩

end Disk

end Primer
