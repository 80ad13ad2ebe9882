/-
The files of a test bench, where a configuration can be looked for.

A bench has the directories and some of the files that every system has, the
empty one among them, and no configuration. A path is followed from part to
part, and reading what it leads to fails with a cause of the system.
-/

namespace Servo.Bench

/-- Why a path gives no content. -/
inductive FileError
  | zeroByte
  | missing
  | nameTooLong
  | notDirectory
  | isDirectory
deriving DecidableEq, Repr

/-- The wording of the system. -/
def FileError.message : FileError → String
  | zeroByte => "file name contained an unexpected NUL byte"
  | missing => "No such file or directory (os error 2)"
  | nameTooLong => "File name too long (os error 36)"
  | notDirectory => "Not a directory (os error 20)"
  | isDirectory => "Is a directory (os error 21)"

namespace Files

/-- The directory that a path without a leading slash starts from. A directory
is known by the names on the way down to it. -/
def working : List String := ["srv", "bench"]

/-- The directories below the root, by the directory that they are in. -/
def tree : List (List String × List String) :=
  [([], ["bin", "boot", "dev", "etc", "home", "lib", "lib64", "media", "mnt", "opt", "proc",
    "root", "run", "sbin", "srv", "sys", "tmp", "usr", "var"]),
   (["dev"], ["fd", "mqueue", "pts", "shm"]),
   (["proc"], ["self", "sys"]),
   (["run"], ["lock"]),
   (["srv"], ["bench"]),
   (["sys"], ["block", "bus", "class", "dev", "devices", "firmware", "fs", "kernel", "module",
    "power"]),
   (["usr"], ["bin", "games", "include", "lib", "lib64", "libexec", "local", "sbin", "share",
    "src"]),
   (["usr", "local"], ["bin", "etc", "games", "include", "lib", "sbin", "share", "src"]),
   (["var"], ["backups", "cache", "lib", "local", "lock", "log", "mail", "opt", "run", "spool",
    "tmp"])]

/-- The head of a program, which is not text. -/
def program : ByteArray := ⟨#[0x7f, 0x45, 0x4c, 0x46, 0x02, 0x01, 0x01, 0x00, 0xff]⟩

/-- The files, by the names on the way down to them. -/
def files : List (List String × ByteArray) :=
  [(["dev", "null"], .empty),
   (["etc", "passwd"], "root:x:0:0:root:/root:/bin/sh\n".toUTF8),
   (["etc", "group"], "root:x:0:\n".toUTF8),
   (["etc", "hosts"], "127.0.0.1\tlocalhost\n".toUTF8),
   (["etc", "hostname"], "bench\n".toUTF8),
   (["bin", "sh"], program),
   (["usr", "bin", "env"], program)]

/-- The content of a file. -/
def content? (place : List String) : Option ByteArray := files.lookup place

/-- Whether a directory has an entry. -/
def has (place : List String) (part : String) : Bool :=
  (content? (place ++ [part])).isSome || tree.any fun (parent, names) =>
    parent = place && names.contains part

/-- The place after one part of a path. -/
def enter (place : List String) (part : String) : Except FileError (List String) :=
  if (content? place).isSome then .error .notDirectory
  else if part = "" ∨ part = "." then .ok place
  else if part = ".." then .ok place.dropLast
  else if 255 < part.utf8ByteSize then .error .nameTooLong
  else if has place part then .ok (place ++ [part])
  else .error .missing

/-- The content of the file that a path leads to. A path takes at most 4095
bytes. -/
def read (path : String) : Except FileError ByteArray := do
  if '\x00' ∈ path.toList then throw .zeroByte
  if path = "" then throw .missing
  if 4095 < path.utf8ByteSize then throw .nameTooLong
  let start := if path.toList.head? = some '/' then [] else working
  match content? (← (path.splitOn "/").foldlM enter start) with
  | some bytes => return bytes
  | none => throw .isDirectory

end Files

end Servo.Bench
