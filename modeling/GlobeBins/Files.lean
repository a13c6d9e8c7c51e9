import GlobeBins.Fault
import GlobeBins.Word

namespace GlobeBins

/-- Operations on files, wherever these are. A write that fails may have made the file and a part of
its content. -/
structure Files (m : Type → Type) where
  read : String → m (Except IoFailure Bytes)
  /-- Makes a file, or replaces the content of one. -/
  write : String → Bytes → m (Except IoFailure Unit)
  remove : String → m (Except IoFailure Unit)
  /-- Makes a directory and all directories above it, unless they are there. -/
  makeDirectories : String → m (Except IoFailure Unit)

namespace Files

/-- The same files for a program that keeps more state. -/
def lift {m n : Type → Type} [MonadLift m n] (files : Files m) : Files n :=
  ⟨fun p => monadLift (files.read p),fun p b => monadLift (files.write p b),
    fun p => monadLift (files.remove p),fun p => monadLift (files.makeDirectories p)⟩

/-- Path of a file in a directory. -/
def join (directory name : String) : String :=
  match directory.toList.getLast? with
  | none => name
  | some '/' => directory++name
  | some _ => directory++"/"++name

end Files

end GlobeBins
