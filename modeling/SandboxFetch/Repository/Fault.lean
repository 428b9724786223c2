/-
  SandboxFetch.Repository.Fault — what a server answers instead of a result.
-/

import SandboxFetch.Disk.Basic
import SandboxFetch.Selection
import SandboxFetch.Version

namespace SandboxFetch

inductive Operation where
  | testConnection
  | resolveSource
  | listComponents
  | readFile
  | accept
  | load
  deriving DecidableEq, Repr

def Operation.key : Operation → String
  | .testConnection => "test_connection"
  | .resolveSource => "resolve_source"
  | .listComponents => "list_components"
  | .readFile => "read_file"
  | .accept => "accept"
  | .load => "load"

inductive OperationFault where
  /-- The server was told to fail. -/
  | injected
  | outsideDestination (target root : Path)
  deriving DecidableEq, Repr

def OperationFault.message : OperationFault → String
  | .injected => "injected failure"
  | .outsideDestination target root => "target " ++ target.text ++ " is outside destination " ++ root.text

inductive DataFault where
  | undecodable (fault : Json.Fault)
  | version (fault : VersionFault)
  | unknownComponent (component source : String)
  deriving DecidableEq, Repr

def DataFault.message : DataFault → String
  | .undecodable fault => fault.message
  | .version fault => fault.message
  | .unknownComponent component source =>
    "change set references unknown component '" ++ component ++ "' in '" ++ source ++ "'"

inductive RepositoryError where
  | sourceNotFound (kind : SourceKind) (name : String)
  | itemNotFound (component path : String)
  | operationFailed (operation : Operation) (fault : OperationFault)
  | invalidData (fault : DataFault)
  | disk (fault : DiskFault)
  deriving DecidableEq, Repr

def RepositoryError.message : RepositoryError → String
  | .sourceNotFound kind name => kind.label ++ " not found: " ++ name
  | .itemNotFound component path => "Item not found in component " ++ component ++ ": " ++ path
  | .operationFailed operation fault =>
    "Repository operation '" ++ operation.key ++ "' failed: " ++ fault.message
  | .invalidData fault => "Invalid repository data: " ++ fault.message
  | .disk fault => "IO error: " ++ fault.message

end SandboxFetch
