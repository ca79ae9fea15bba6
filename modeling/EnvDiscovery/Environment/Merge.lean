import EnvDiscovery.Environment.Record

/-!
**Merging two reports of one environment.**

Main definitions:
* `EnvRecord.merge` — the report of the more specific kind, completed from the other.
-/

namespace EnvDiscovery.EnvRecord

/-- Fills what `winner` leaves open from `other`, keeps the version of which more is known, and
unites the sources. -/
def fill (winner other : EnvRecord) : EnvRecord where
  name := if winner.name.isEmpty then other.name else winner.name
  location := winner.location <|> other.location
  kind := winner.kind
  executable :=
    { filename := winner.executable.filename
      sysPrefix := winner.executable.sysPrefix <|> other.executable.sysPrefix
      ctime := winner.executable.ctime <|> other.executable.ctime
      mtime := winner.executable.mtime <|> other.executable.mtime }
  version := winner.version.moreComplete other.version
  arch := if winner.arch = .unknown then other.arch else winner.arch
  distro :=
    { org := winner.distro.org <|> other.distro.org
      defaultDisplayName := winner.distro.defaultDisplayName <|> other.distro.defaultDisplayName }
  searchLocation := winner.searchLocation <|> other.searchLocation
  sources := winner.sources.union other.sources

/-- Combines two reports of one environment. The more specific kind wins, and the earlier report on
a tie. -/
def merge (earlier later : EnvRecord) : EnvRecord :=
  if earlier.kind.specificity < later.kind.specificity then fill later earlier
  else fill earlier later

/-- The merged records after each of the further reports. -/
def mergeSteps (acc : EnvRecord) : List EnvRecord → List EnvRecord
  | [] => []
  | e :: rest => merge acc e :: mergeSteps (merge acc e) rest

end EnvDiscovery.EnvRecord
