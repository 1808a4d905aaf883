import MssClock.ReadError

/-!
# A directory without subdirectories

The files of one directory, by name, in a file system of which nothing else is
known but that it has directories further up.  A path is followed one part at
a time: an empty part or a point stays where it is, two points lead out of the
directory, and below a file there is nothing.  Names and whole paths are
limited in octets.  A name that is too long is noticed only where it is looked
up, a path that is too long before anything is.
-/

namespace MssClock

structure Directory where
  files : List (String × ByteArray)

/-- Where a path has led so far. -/
inductive Place where
  | inside
  | outside
  | file (content : ByteArray)

namespace Directory

def longestName : Nat := 255

def longestPath : Nat := 4095

def file? (directory : Directory) (name : String) : Option ByteArray :=
  (directory.files.find? fun file => file.1 == name).map Prod.snd

def enter (directory : Directory) (place : Place) (part : String) :
    Except ReadError Place :=
  match place with
  | .file _ => .error .notDirectory
  | place =>
      if part = "" ∨ part = "." then .ok place
      else if part = ".." then .ok .outside
      else if longestName < part.utf8ByteSize then .error .nameTooLong
      else
        match place, directory.file? part with
        | .inside, some content => .ok (.file content)
        | _, _ => .error .notFound

def start (path : String) : Place :=
  if path.startsWith "/" then .outside else .inside

def follow (directory : Directory) (path : String) : Except ReadError Place :=
  if path.contains '\x00' then .error .nulInName
  else if path = "" then .error .notFound
  else if longestPath < path.utf8ByteSize then .error .nameTooLong
  else (path.splitOn "/").foldlM directory.enter (start path)

def read (directory : Directory) (path : String) : Except ReadError String := do
  match ← directory.follow path with
  | .inside | .outside => .error .isDirectory
  | .file content =>
      match String.fromUTF8? content with
      | some text => .ok text
      | none => .error .invalidText

end Directory

end MssClock
