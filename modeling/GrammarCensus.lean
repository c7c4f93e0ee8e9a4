import GrammarCensus.Proofs.Printing
import GrammarCensus.Proofs.Tiling
import GrammarCensus.Proofs.WrittenCensus
import GrammarCensus.Session
import GrammarCensus.Main
import GrammarCensus.Proofs.LineEnds
import GrammarCensus.Proofs.Unfinished
import GrammarCensus.Proofs.SavedSettings
import GrammarCensus.Proofs.Positions
import GrammarCensus.Proofs.Trace
import GrammarCensus.Proofs.RenamedCensus
import GrammarCensus.Proofs.JoinedTexts
import GrammarCensus.Proofs.OneLine
import GrammarCensus.Proofs.Files.Changes
import GrammarCensus.Proofs.SettingsFile
import GrammarCensus.Proofs.SententialForms
import GrammarCensus.Proofs.Repairs
import GrammarCensus.Proofs.Reordering
import GrammarCensus.Proofs.ReadSoFar
import GrammarCensus.Proofs.Cursors
import GrammarCensus.Proofs.CensusBounds
import GrammarCensus.Proofs.FirstDefinitions
import GrammarCensus.Proofs.NamedDiagnostics
import GrammarCensus.Proofs.TokenReports
import GrammarCensus.Proofs.ForeignTables
import GrammarCensus.Proofs.Offsets
import GrammarCensus.Proofs.Advancing
