import Scaffold.Content
import Scaffold.Path
import Scaffold.Storage.Fault

namespace Scaffold

structure Storage (m : Type → Type) where
  holds : String → m Bool
  isDir : String → m (Except Fault Bool)
  isFile : String → m (Except Fault Bool)
  /-- Makes a directory and those above it; one that is there is fine. -/
  mkdir : String → m (Except Fault Unit)
  /-- Writes a file, new or in the stead of the one that is there, and makes the directories above
  it. -/
  mkfile : String → Option Content → m (Except Fault Unit)
  read : String → m (Except Fault Content)

end Scaffold
