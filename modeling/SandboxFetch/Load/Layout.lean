/-
  SandboxFetch.Load.Layout — the plan for a component set.

  The destination of the configuration, without the white space at its edges, is used as it is when
  it is absolute. Otherwise its segments are put behind the working directory one at a time, except
  for empty ones and `.`, so that no separator in it can make the result absolute
  (`resolveDestination`). With component folders on, each component goes to a folder of its name,
  which is a single segment without reserved characters; with them off, all components share the
  destination.
-/

import SandboxFetch.Component.Set
import SandboxFetch.Host
import SandboxFetch.Load.Plan

namespace SandboxFetch

def resolveDestination (destination : String) (workingDir : Path) (host : Host) : Except ConfigurationError Path :=
  let chars := Text.stripEnds Text.isBlank destination.toList
  if chars.isEmpty then .error .emptyDestination
  else
    match host.firstReserved? chars with
    | some c => .error (.invalidDestination (String.ofList chars) c)
    | none =>
      if host.isAbsolute chars then .ok ⟨String.ofList chars⟩
      else
        let segments := (chars.splitOnP host.separates).filter fun s => !s.isEmpty && s != ['.']
        .ok (segments.foldl (fun dir s => dir.push ⟨String.ofList s⟩) workingDir)

def folderFault? (host : Host) (name : String) : Option Char :=
  host.firstReserved? name.toList <|> name.toList.find? fun c => c == '/' || c == '\\'

def componentFolder (host : Host) (componentFolders : Bool) (name : String) : Except ConfigurationError Path :=
  if componentFolders then
    match folderFault? host name with
    | some c => .error (.invalidFolder name c)
    | none => .ok ⟨name⟩
  else .ok ⟨""⟩

namespace LoadPlan

def entryFor (c : Configuration) (host : Host) (s : SelectedComponent) : Except ConfigurationError PlanEntry := do
  let folder ← componentFolder host c.componentFolders s.component.name
  return {
    component := s.component
    scope := match s.rule with
      | some rule => .paths rule.selections
      | none => .full
    folder }

def layOut (set : ComponentSet) (c : Configuration) (workingDir : Path) (host : Host) :
    Except ConfigurationError LoadPlan := do
  let root ← resolveDestination c.destination workingDir host
  let entries ← set.selections.mapM (entryFor c host)
  return { root, entries }

end LoadPlan

end SandboxFetch
