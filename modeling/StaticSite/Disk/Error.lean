namespace StaticSite

inductive DiskError
  | notFound
  | occupied
  | notDirectory
  | isDirectory
  | invalid
  | nameTooLong
  | notEmpty
  | notText
  | emptyPath
  | nulInName
  deriving DecidableEq

namespace DiskError

def system (words : String) (number : Nat) : String :=
  words ++ " (os error " ++ Nat.repr number ++ ")"

def message : DiskError → String
  | notFound => system "No such file or directory" 2
  | occupied => system "File exists" 17
  | notDirectory => system "Not a directory" 20
  | isDirectory => system "Is a directory" 21
  | invalid => system "Invalid argument" 22
  | nameTooLong => system "File name too long" 36
  | notEmpty => system "Directory not empty" 39
  | notText => "stream did not contain valid UTF-8"
  | emptyPath => "cannot make an empty path absolute"
  | nulInName => "file name contained an unexpected NUL byte"

end DiskError

end StaticSite
