import Bracescript.Disk
import Bracescript.FileSet

/-!
# Source files on a disk
-/

namespace Bracescript

/-- The ending of the names of source files. -/
def sourceExtension : Bytes := ".uns"

namespace FileSet

/-- Reads a file from disk into the set. -/
def load (set : FileSet) (d : Disk) (path : Bytes) : Except DiskFault (UInt32 × FileSet) :=
  (d.read path).map fun raw => set.addRaw path raw

end FileSet

namespace Disk

def isHidden (path : Bytes) : Bool := (Path.base path).head? = some (Bytes.ascii '.')

/-- Every source file at or below a path in ascending order; hidden folders below it are passed over. -/
def sources (d : Disk) (dir : Bytes) : Except DiskFault (List Bytes) :=
  (d.tree (fun path => !isHidden path) dir).map fun found =>
    Bytes.sorted (found.filterMap fun (path, isFolder) =>
      if !isFolder && path.endsWith sourceExtension then some path else none)

end Disk

end Bracescript
