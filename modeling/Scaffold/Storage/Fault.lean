import Scaffold.Disk.Error
import Scaffold.Text.Quoted

namespace Scaffold

inductive Fault
  | emptyPath
  | missing (path : String)
  | isDirectory (path : String)
  | rootIsDirectory
  | notDirectory (path : String)
  | linkOnPath (path : String)
  | isLink (path : String)
  | emptyRoot
  | relativeRoot
  | rootNotDirectory (root : String)
  | rootNotWritable (root : String)
  | disk (error : DiskError)
  deriving DecidableEq, Repr

def Fault.message : Fault → String
  | emptyPath => "invalid path: empty"
  | missing path => path ++ " does not exist"
  | isDirectory path => path ++ " is a directory"
  | rootIsDirectory => "invalid path: the root is a directory"
  | notDirectory path => "path '" ++ path ++ "' exists but is not a directory"
  | linkOnPath path => "path '" ++ path ++ "' is a symbolic link"
  | isLink path => path ++ " is a symbolic link"
  | emptyRoot => "invalid root path: empty"
  | relativeRoot => "the root path must be absolute"
  | rootNotDirectory root => Text.quoted root ++ " is not a directory"
  | rootNotWritable root => "Access denied: " ++ Text.quoted root
  | disk error => error.message

end Scaffold
