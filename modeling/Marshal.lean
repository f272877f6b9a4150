import Marshal.Main
import Marshal.Json.Writer
import Marshal.Schema.Sample
import Marshal.Proofs.Conversion.Agreement
import Marshal.Proofs.Conversion.Resolution
import Marshal.Proofs.Rendering
import Marshal.Proofs.Schema.Edits
import Marshal.Proofs.Conversion.Rearrangement
import Marshal.Proofs.Conversion.Mirror
import Marshal.Proofs.SharedSet.Effect
import Marshal.Proofs.Conversion.Marks
import Marshal.Proofs.SharedSet.Leftovers
import Marshal.Proofs.CommandLine.EntryPoints
import Marshal.Proofs.TypeExpr.Faults
import Marshal.Proofs.SharedSet.Collisions
import Marshal.Proofs.Conversion.Legality
import Marshal.Proofs.Conversion.Samples
import Marshal.Proofs.Conversion.Allocation
