/-!
# `Disk/Fault` — why a disk refuses

A disk refuses for a handful of reasons, and each has the words and the number that a user of a Unix
system knows it by. Faults that come from elsewhere bring their own words.

Which of several faults is reported where more than one would fit is settled where paths are walked
(`Disk/Basic`), in the order in which a system looks at a path. No fault says which path it was
about: whoever has asked knows the path, and puts it in front of the words.
-/

set_option autoImplicit false

namespace AltRender.Disk

/-- Why something on a disk could not be done. -/
inductive Fault where
  /-- There is nothing at the path. -/
  | notFound
  /-- There is something at the path already. -/
  | alreadyExists
  /-- A file stands where the path needs a directory. -/
  | notADirectory
  /-- A directory stands where the path needs a file. -/
  | isADirectory
  /-- The path or one of its parts is too long. -/
  | nameTooLong
  /-- The path ends in a directory that is being used to get there. -/
  | busy
  /-- The path has a character that no path may have. -/
  | nulInName
  /-- A text was asked for, and the file holds none. -/
  | invalidText
  /-- Anything else, in its own words. -/
  | other (text : String)
  deriving DecidableEq, Repr

def Fault.message : Fault → String
  | .notFound => "No such file or directory (os error 2)"
  | .alreadyExists => "File exists (os error 17)"
  | .notADirectory => "Not a directory (os error 20)"
  | .isADirectory => "Is a directory (os error 21)"
  | .nameTooLong => "File name too long (os error 36)"
  | .busy => "Device or resource busy (os error 16)"
  | .nulInName => "file name contained an unexpected NUL byte"
  | .invalidText => "stream did not contain valid UTF-8"
  | .other text => text

end AltRender.Disk
