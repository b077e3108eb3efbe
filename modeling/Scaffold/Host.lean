import Scaffold.World

/-!
The computer that the program runs on: its disk and its terminal, as the requests of `IO`.
-/
namespace Scaffold.Host

def codeOf : IO.Error → Option (Nat × String)
  | .otherError code text | .resourceBusy code text | .resourceVanished code text
  | .unsupportedOperation code text | .hardwareFault code text
  | .unsatisfiedConstraints code text | .illegalOperation code text | .protocolError code text
  | .timeExpired code text | .interrupted _ code text | .noFileOrDirectory _ code text
  | .alreadyExists _ code text | .invalidArgument _ code text | .permissionDenied _ code text
  | .resourceExhausted _ code text | .inappropriateType _ code text | .noSuchThing _ code text =>
    some (code.toNat, text)
  | .unexpectedEof | .userError _ => none

def refusal (error : IO.Error) : DiskError :=
  match codeOf error with
  | some (2, _) => .notFound
  | some (17, _) => .alreadyExists
  | some (20, _) => .notDirectory
  | some (21, _) => .isDirectory
  | some (36, _) => .nameTooLong
  | some (40, _) => .tooManyLinks
  | some (code, text) => .other (text ++ " (os error " ++ toString code ++ ")")
  | none => .other (toString error)

def request {α : Type} (path : String) (action : IO α) : IO (Except DiskError α) := do
  if path.toList.contains '\x00' then return .error .nulInPath
  match ← action.toBaseIO with
  | .ok value => return .ok value
  | .error error => return .error (refusal error)

def realPath? (path : String) : IO (Option String) :=
  return (← request path (toString <$> IO.FS.realPath path)).toOption

/-- The kind of what a path leads to. Only a directory holds itself under the name `.`, and opening
what is not there tells why it cannot be found. -/
def kindThrough (path : String) : IO (Except DiskError NodeKind) := do
  if (← realPath? path).isSome then
    if (← realPath? (path ++ "/.")).isSome then return .ok .directory else return .ok .file
  else
    return (← request path (IO.FS.Handle.mk path .read)).map fun _ => .file

/-- The kind of the node at a path. Renaming a node to its own name changes nothing and succeeds if
and only if the node is there; a node whose real path is not its own place is a link. -/
def kindAt (path : String) : IO (Except DiskError NodeKind) := do
  let steps := Path.parse path
  if Disk.endsInSlash path then kindThrough path
  else match steps.parent?, steps.name? with
  | some parent, some name =>
    match ← request path (IO.FS.rename path path) with
    | .error error => return .error error
    | .ok () =>
      let place ← realPath? (if parent.text = "" then "." else parent.text)
      if place.isSome && (← realPath? path) = place.map (Path.join · name) then kindThrough path
      else return .ok .link
  | _, _ => kindThrough path

instance : DiskAccess IO where
  kind followLinks path := if followLinks then kindThrough path else kindAt path
  readBytes path := request path (IO.FS.withFile path .read (·.readBinToEnd))
  writeFile path content := request path (IO.FS.writeBinFile path content)
  createDir path := request path (IO.FS.createDir path)
  removeFile path := request path (IO.FS.removeFile path)

instance : Terminal IO where
  -- Byte by byte, since a line read as text hides bytes that are not UTF-8.
  readLine := do
    let input ← IO.getStdin
    let mut line := ByteArray.empty
    repeat
      match ← (input.read 1).toBaseIO with
      | .error _ => return none
      | .ok next =>
        line := line ++ next
        if next.isEmpty || next.toList = [10] then break
    return if line.isEmpty then none else String.fromUTF8? line
  print text := IO.print text
  printError text := IO.eprint text

end Scaffold.Host
