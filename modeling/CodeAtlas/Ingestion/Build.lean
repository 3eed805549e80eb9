import CodeAtlas.Discovery.Pass
import CodeAtlas.Ingestion.Ingest
import CodeAtlas.Source.Analysis

/-! Building a graph: ingestion, then, unless it is not wanted, discovery. -/

namespace CodeAtlas

namespace Ingestion

/-- Ingests the analysis of one file; one that names no file is noted as failed. -/
def ingestAnalysis (now : String) (report : IngestionReport) (a : Analysis) :
    Change IngestionReport := do
  match ← Change.check (Record.read? a.toValue) with
  | none => return report.fail a.shown
  | some r => addRecord now report r

def ingestAnalyses (now : String) (analyses : List Analysis) : Change IngestionReport :=
  analyses.foldlM (ingestAnalysis now) {}

end Ingestion

/-- Ingests what there is to ingest and, if asked, discovers patterns in the result. -/
def Graph.build (now : String) (threshold : Value) (withPatterns : Bool)
    (ingestion : Change IngestionReport) : Change IngestionReport := do
  let report ← ingestion
  if withPatterns then
    let _ ← Discovery.discover now threshold
  return report

end CodeAtlas
