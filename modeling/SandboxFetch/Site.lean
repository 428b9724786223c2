/-
  SandboxFetch.Site — what a fetch acts on: a server, a disk and the build log.

  A computation on a site leaves behind what it did before it failed.
-/

import SandboxFetch.Fetch.Fault
import SandboxFetch.Repository.Basic

namespace SandboxFetch

structure Site where
  server : Repository
  disk : Disk := {}
  /-- The lines shown on the build log so far. -/
  progress : List String := []

abbrev SiteM (ε : Type) := ExceptT ε (StateM Site)

namespace Site

variable {ε α : Type}

def onServer (act : RepositoryM α) : SiteM RepositoryError α := fun site =>
  let (result, server) := act.run site.server
  (result, { site with server })

def onDisk (act : Disk → Except ε Unit × Disk) : SiteM ε Unit := fun site =>
  let (result, disk) := act site.disk
  (result, { site with disk })

def report (line : String) : SiteM ε Unit := modify fun site => { site with progress := site.progress ++ [line] }

/-- Loads what a request asks for. Nothing is written unless the whole request is valid. -/
def load (h : SourceHandle) (request : LoadRequest) : SiteM RepositoryError LoadOutcome := do
  let files ← onServer (Repository.filesFor h request)
  (onDisk (Disk.writeAll files)).adapt .disk
  return ⟨files.map (·.1)⟩

end Site

end SandboxFetch
