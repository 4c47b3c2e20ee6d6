/-!
# What can go wrong on a disk
-/

namespace Rulebook

set_option autoImplicit false

inductive DiskError where
  | missing
  | busy
  | taken
  | notDirectory
  | isDirectory
  | nameTooLong
  | containsNul
  | notText
  | noTree
deriving DecidableEq, Repr

def DiskError.message : DiskError → String
  | .missing => "No such file or directory (os error 2)"
  | .busy => "Device or resource busy (os error 16)"
  | .taken => "File exists (os error 17)"
  | .notDirectory => "Not a directory (os error 20)"
  | .isDirectory => "Is a directory (os error 21)"
  | .nameTooLong => "File name too long (os error 36)"
  | .containsNul => "file name contained an unexpected NUL byte"
  | .notText => "stream did not contain valid UTF-8"
  | .noTree => "failed to create whole tree"

end Rulebook
