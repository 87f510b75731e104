/-!
# Faults of the file system

Why an operation on files or on a program fails, and the words of the system for it.
-/

namespace Ingot

/-- Why an operation of the system fails. -/
inductive IoFault where
  /-- There is nothing of that name. -/
  | notFound
  /-- The operation is not allowed. -/
  | notPermitted
  /-- There is something of that name already. -/
  | alreadyThere
  /-- A directory would have to be there. -/
  | notDirectory
  /-- A directory is there, where it cannot be. -/
  | isDirectory
  /-- A name or a path is too long. -/
  | nameTooLong
  /-- Too many links lead from one to the next. -/
  | tooManyLinks
  /-- A path has a character that no path may have. -/
  | badPath
  /-- A file holds bytes that are no text. -/
  | notText
  /-- A file cannot be run. -/
  | notProgram
  /-- What should be copied is no file. -/
  | notRegular
  /-- No directory could be made that all others are in. -/
  | noWholeTree
  /-- Something else, in words. -/
  | other (message : String)
  deriving DecidableEq, Repr

/-- A fault in the words of the system. -/
def IoFault.message : IoFault → String
  | notFound => "No such file or directory (os error 2)"
  | notPermitted => "Permission denied (os error 13)"
  | alreadyThere => "File exists (os error 17)"
  | notDirectory => "Not a directory (os error 20)"
  | isDirectory => "Is a directory (os error 21)"
  | nameTooLong => "File name too long (os error 36)"
  | tooManyLinks => "Too many levels of symbolic links (os error 40)"
  | badPath => "file name contained an unexpected NUL byte"
  | notText => "stream did not contain valid UTF-8"
  | notProgram => "Exec format error (os error 8)"
  | notRegular => "the source path is neither a regular file nor a symlink to a regular file"
  | noWholeTree => "failed to create whole tree"
  | other message => message

end Ingot
