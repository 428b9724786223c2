/-
  SandboxFetch.Fetch.Fault — why a fetch failed.

  Failures come in three families: what the configuration has to mend, what the build machine has to
  mend, and what the server refused.
-/

import SandboxFetch.Configuration.Fault
import SandboxFetch.Repository.Fault

namespace SandboxFetch

inductive EnvironmentError where
  /-- The destination is there and is no directory. -/
  | notDirectory (path : Path)
  | deleteFailed (path : Path) (fault : DiskFault)
  | createFailed (path : Path) (fault : DiskFault)
  | writeFailed (path : Path) (fault : DiskFault)
  deriving DecidableEq, Repr

namespace EnvironmentError

def summary : EnvironmentError → String
  | .notDirectory path => "fetch destination " ++ path.text ++ " exists and is not a directory"
  | .deleteFailed path _ => "failed to delete " ++ path.text
  | .createFailed path _ => "failed to create " ++ path.text
  | .writeFailed path _ => "failed to write " ++ path.text

def fault? : EnvironmentError → Option DiskFault
  | .notDirectory _ => none
  | .deleteFailed _ fault | .createFailed _ fault | .writeFailed _ fault => some fault

def message (e : EnvironmentError) : String :=
  match e.fault? with
  | none => e.summary
  | some fault => e.summary ++ ": " ++ fault.message

end EnvironmentError

inductive FetchError where
  | configuration (error : ConfigurationError)
  | environment (error : EnvironmentError)
  | repository (error : RepositoryError)
  deriving DecidableEq, Repr

namespace FetchError

def heading : FetchError → String
  | .configuration _ => "configuration error: "
  | .environment _ => "environment error: "
  | .repository _ => "repository error: "

def message (e : FetchError) : String :=
  e.heading ++ match e with
    | .configuration error => error.message
    | .environment error => error.message
    | .repository error => error.message

end FetchError

end SandboxFetch
