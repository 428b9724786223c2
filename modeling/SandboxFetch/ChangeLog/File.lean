/-
  SandboxFetch.ChangeLog.File — change logs on disk.
-/

import SandboxFetch.ChangeLog.Reading
import SandboxFetch.Disk.Basic

namespace SandboxFetch.ChangeLog

inductive FileError where
  | disk (fault : DiskFault)
  | content (error : Error)
  deriving DecidableEq, Repr

/-- Writes the document of a report, in a directory that is made when it is missing. -/
def save (r : ChangeReport) (p : Path) (d : Disk) : Except DiskFault Unit × Disk := d.writeInto p (text r)

def ofFile (p : Path) (d : Disk) : Except FileError ChangeReport :=
  match d.read p with
  | .error fault => .error (.disk fault)
  | .ok content => (ofText content).mapError .content

end SandboxFetch.ChangeLog
