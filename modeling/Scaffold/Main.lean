import Scaffold.CommandLine
import Scaffold.Host

open Scaffold

def main (words : List String) : IO UInt32 := do
  match ← Host.request "" IO.currentDir with
  | .error error =>
    IO.eprint ("cannot read the current directory: " ++ error.message ++ "\n")
    return 1
  | .ok cwd =>
    let environment : Environment :=
      { storeHome := ← IO.getEnv "BATCH_KIT_HOME", home := ← IO.getEnv "HOME" }
    return (← CommandLine.run ⟨toString cwd, environment⟩ words).toUInt32
