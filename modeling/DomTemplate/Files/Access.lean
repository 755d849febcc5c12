import DomTemplate.Files.Path

/-!
# Access to files

The commands are written against this interface.  It is met by the real file system and by a model
of one, so that what a command does to files can be stated and tested without any.
-/

namespace DomTemplate

/-- Why a file operation failed. -/
inductive FileFault where
  | notFound
  | alreadyExists
  | notADirectory
  | isADirectory
  | notText
  | nullInName
  /-- a name or a whole path has too many bytes -/
  | nameTooLong
  | wholeTree
  /-- a fault that only the system can name -/
  | other (text : String)
deriving DecidableEq

def FileFault.message : FileFault → String
  | notFound => "No such file or directory (os error 2)"
  | alreadyExists => "File exists (os error 17)"
  | notADirectory => "Not a directory (os error 20)"
  | isADirectory => "Is a directory (os error 21)"
  | notText => "stream did not contain valid UTF-8"
  | nullInName => "file name contained an unexpected NUL byte"
  | nameTooLong => "File name too long (os error 36)"
  | wholeTree => "failed to create whole tree"
  | other text => text

/-- What the commands need of a file system. -/
class FileAccess (m : Type → Type) where
  /-- the text of a file -/
  readText : Path → m (Except FileFault String)
  /-- makes a file with the given text, in place of one that is there -/
  writeText : Path → String → m (Except FileFault Unit)
  /-- makes a directory and those above it that are missing -/
  createDirectories : Path → m (Except FileFault Unit)
  /-- whether there is a file or directory -/
  isPresent : Path → m Bool
  isDirectory : Path → m Bool
  /-- the absolute path of the working directory -/
  workingDirectory : m Path

end DomTemplate
