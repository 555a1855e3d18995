import ChunkPrune.Usage.Load

/-!
# Merged usage

An export of a library is needed as soon as one application uses it. Merging joins
the reports: it has the libraries and exports of all of them, and each export with
the disjunction of its flags.
-/

namespace ChunkPrune

/-- Libraries, their exports, and whether each export is needed. -/
abbrev ExportFlags := Table String (Table String Bool)

namespace ExportFlags

/-- The least flags above both. -/
def join (left right : ExportFlags) : ExportFlags :=
  Table.unionWith (Table.unionWith (· || ·)) left right

/-- The flags of one report. -/
def ofReport (report : UsageReport) : ExportFlags :=
  report.libraries.map fun _ usage => usage.exports

/-- The flags of several reports together. -/
def merge (reports : List UsageReport) : ExportFlags :=
  reports.foldl (fun flags report => join flags (ofReport report)) Table.empty

def toJson (flags : ExportFlags) : Json :=
  .object <| flags.entries.map fun (library, exports) =>
    (library, .object (exports.entries.map fun (name, used) => (name, .bool used)))

end ExportFlags

/-- Merged flags, with the time of the merge and the applications it is made of. -/
structure MergedUsage where
  flags : ExportFlags
  timestamp : String
  apps : List String

namespace MergedUsage

def ofReports (timestamp : String) (reports : List AppReport) : MergedUsage :=
  ⟨ExportFlags.merge (reports.map (·.report)), timestamp, reports.map (·.app)⟩

def libraries (merged : MergedUsage) : List String := merged.flags.keys

/-- The flags of one library, if a report mentions it. -/
def flagsOf? (merged : MergedUsage) (library : String) : Option (Table String Bool) :=
  merged.flags.get? library

/-- All flags of a library, also those that are false: without a flag of its own an
export is not removed. -/
def keepFlags (merged : MergedUsage) (library : String) : Table String Bool :=
  (merged.flagsOf? library).getD Table.empty

/-- The merged usage as it is printed: the flags, then where they come from. -/
def toJson (merged : MergedUsage) : Json :=
  .object
    [(librariesKey, merged.flags.toJson),
      ("metadata", .object
        [("timestamp", .string merged.timestamp),
          ("apps", .array (merged.apps.map .string)),
          ("modules", .array (merged.libraries.map .string))])]

end MergedUsage

end ChunkPrune
