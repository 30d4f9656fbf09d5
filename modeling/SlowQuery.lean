import SlowQuery.Main
import SlowQuery.Proofs.Arrival
import SlowQuery.Proofs.Artifact
import SlowQuery.Proofs.CommandFilters
import SlowQuery.Proofs.Continuations
import SlowQuery.Proofs.IndexKeys
import SlowQuery.Proofs.Interrupted
import SlowQuery.Proofs.Layouts
import SlowQuery.Proofs.LineEnds
import SlowQuery.Proofs.LineGrammar
import SlowQuery.Proofs.Literals
import SlowQuery.Proofs.Pipelines
import SlowQuery.Proofs.Reports
import SlowQuery.Proofs.Restriction
import SlowQuery.Proofs.ShapeFields
import SlowQuery.Proofs.StartupOptions
import SlowQuery.Proofs.Suffixes
import SlowQuery.Proofs.UnitNumbers
