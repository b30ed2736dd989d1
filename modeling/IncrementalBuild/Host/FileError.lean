/-!
# Failures of the host

What a call to the host's files, programs and sockets can fail with, and how a message names it.
-/

namespace IncrementalBuild

/-- Why a call to the host failed. -/
inductive FileError
  | notFound
  | noSuchDevice
  | execFormat
  | permissionDenied
  | busy
  | alreadyExists
  | notADirectory
  | isADirectory
  | invalidArgument
  | nameTooLong
  | notEmpty
  | addressInUse
  | connectionRefused
  /-- A text file held bytes that are no text. -/
  | notText
  /-- An argument of a program contains a NUL character. -/
  | nulInArgument
  /-- A path contains a NUL character. -/
  | nulInPath
  /-- The path of a socket does not fit into a socket address. -/
  | socketPathTooLong
  /-- The name of a socket apart from all files does not fit into a socket address. -/
  | socketNameTooLong
  /-- The path of a socket contains a NUL character. -/
  | nulInSocketPath
  /-- A failure reported by someone else in their own words. -/
  | other (message : String)
  deriving DecidableEq, Repr

namespace FileError

/-- The number the operating system gives a failure, where it has one. -/
def code? : FileError → Option (Nat × String)
  | .notFound => some (2, "No such file or directory")
  | .noSuchDevice => some (6, "No such device or address")
  | .execFormat => some (8, "Exec format error")
  | .permissionDenied => some (13, "Permission denied")
  | .busy => some (16, "Device or resource busy")
  | .alreadyExists => some (17, "File exists")
  | .notADirectory => some (20, "Not a directory")
  | .isADirectory => some (21, "Is a directory")
  | .invalidArgument => some (22, "Invalid argument")
  | .nameTooLong => some (36, "File name too long")
  | .notEmpty => some (39, "Directory not empty")
  | .addressInUse => some (98, "Address already in use")
  | .connectionRefused => some (111, "Connection refused")
  | _ => none

/-- The text of a failure: its description and, in brackets, the system's number for it. -/
def message (e : FileError) : String :=
  match e.code? with
  | some (number, text) => s!"{text} (os error {number})"
  | none =>
    match e with
    | .notText => "stream did not contain valid UTF-8"
    | .nulInArgument => "nul byte found in provided data"
    | .nulInPath => "file name contained an unexpected NUL byte"
    | .socketPathTooLong => "path must be shorter than SUN_LEN"
    | .socketNameTooLong => "abstract socket name must be shorter than SUN_LEN"
    | .nulInSocketPath => "paths must not contain interior null bytes"
    | .other text => text
    | _ => ""

end FileError
end IncrementalBuild
